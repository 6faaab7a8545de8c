/-
This file settles what the send callback reports, over the TCP socket as a whole.
The callback clamps a call to one packet and takes any other count than the whole
for an error, but it compares with a code that `TcpSocket::send` never returns:
without room in the ring or a free buffer, `TcpSocket::send` queues nothing and
returns 0, and the callback reports a general error. The reports of a sequence of
calls are right if and only if no call on an established connection with a window
meets such a shortage. What is queued is in any case the caller's bytes, in order.
-/

import Nosgem.TcpOutbound

namespace Nosgem.Tcp

open CText Buffers Interaction

/-! ### What a caller's bytes become -/

/-- The fields of the connection that queueing does not change. -/
structure SameLink {rcvBufSize : Nat} (before after : TcpSocket rcvBufSize) : Prop where
  state : after.state = before.state
  maxEnqueueSize : after.maxEnqueueSize = before.maxEnqueueSize
  remoteWindow : after.remoteWindow = before.remoteWindow

theorem SameLink.trans {rcvBufSize : Nat} {first second third : TcpSocket rcvBufSize}
    (front : SameLink first second) (back : SameLink second third) : SameLink first third :=
  ⟨back.state.trans front.state, back.maxEnqueueSize.trans front.maxEnqueueSize,
    back.remoteWindow.trans front.remoteWindow⟩

namespace TcpSocket

variable {rcvBufSize : Nat} {sock next : TcpSocket rcvBufSize} {userBuf : Text}

theorem getSuggestedSendSize_eq (sock : TcpSocket rcvBufSize) :
    sock.getSuggestedSendSize = min sock.maxEnqueueSize sock.remoteWindow := by
  unfold getSuggestedSendSize
  split <;> omega

/-- Discarding an acknowledgement makes room, if it does anything. -/
theorem discardAck_link (sock : TcpSocket rcvBufSize) :
    SameLink sock sock.discardAck ∧ sock.discardAck.queued = sock.queued ∧
      (sock.outgoing.hasRoom → sock.discardAck.outgoing.hasRoom) := by
  unfold discardAck
  split
  · rename_i first only
    split
    · refine ⟨?_, ?_, fun _ => ?_⟩
      · cases first <;> exact ⟨rfl, rfl, rfl⟩
      · cases first <;> rfl
      · cases first <;> simp [returnXmitBuf, Ring.hasRoom, Ring.dequeue, only, tcpSocketRingSize]
    · exact ⟨⟨rfl, rfl, rfl⟩, rfl, id⟩
  · exact ⟨⟨rfl, rfl, rfl⟩, rfl, id⟩

/-- In an established connection a packet that is not too long gets into a ring with room. -/
theorem enqueue_room (established : sock.state = .established) (room : sock.outgoing.hasRoom)
    {id : BufId} (fits : (sock.buffers id).data.length ≤ sock.maxEnqueueSize) :
    SameLink sock (sock.enqueue id).2 ∧
      (sock.enqueue id).2.queued = sock.queued ++ (sock.buffers id).data := by
  obtain ⟨same, queued, makesRoom⟩ := sock.discardAck_link
  have sending : ¬(sock.state = .closed ∨ sock.state = .listen ∨ sock.state = .closing ∨
      (sock.state = .timeWait ∧ id ≠ .connectPacket)) := by
    rw [established]
    simp
  rcases enqueue_cases sending fits with ⟨outgoing, -, result⟩ | ⟨full, -⟩
  · rw [result]
    refine ⟨⟨same.state, same.maxEnqueueSize, same.remoteWindow⟩, ?_⟩
    show sock.discardAck.queued ++ _ = _
    rw [setBuffer_self, queued]
    exact congrArg (fun buffers => sock.queued ++ (buffers id).data) sock.discardAck_buffers
  · exact absurd (of_decide_eq_true (makesRoom room)) (enqueue_full full)

/-- There is no room for a packet, or no buffer for it. -/
def Blocked (sock : TcpSocket rcvBufSize) : Prop :=
  sock.outgoing.hasRoom = false ∨ sock.xmitBuffers = []

theorem not_blocked (sock : TcpSocket rcvBufSize) :
    ¬sock.Blocked ↔ sock.outgoing.hasRoom ∧ sock.xmitBuffers ≠ [] := by
  rw [Blocked, not_or, Bool.not_eq_false]

/-- One iteration with room and a buffer: the next piece of the caller's bytes is queued. -/
theorem sendLoop_step (established : sock.state = .established) (room : sock.outgoing.hasRoom)
    (free : sock.xmitBuffers ≠ []) {bytesSent : Nat} (more : bytesSent < userBuf.length) :
    ∃ after, SameLink sock after ∧
      after.queued = sock.queued ++ (userBuf.drop bytesSent).take
        (min sock.getSuggestedSendSize (userBuf.length - bytesSent)) ∧
      ∀ fuel, sock.sendLoop userBuf (fuel + 1) bytesSent = after.sendLoop userBuf fuel
        (bytesSent + min sock.getSuggestedSendSize (userBuf.length - bytesSent)) := by
  obtain ⟨index, rest, pool⟩ := List.exists_cons_of_ne_nil free
  let cpyLen := min sock.getSuggestedSendSize (userBuf.length - bytesSent)
  let loaded := { sock with xmitBuffers := rest }.setBuffer (.pool index)
    { sock.buffers (.pool index) with data := (userBuf.drop bytesSent).take cpyLen }
  have data : (loaded.buffers (.pool index)).data = (userBuf.drop bytesSent).take cpyLen :=
    congrArg TcpBuffer.data (setBuffer_self _ _ _)
  have fits : (loaded.buffers (.pool index)).data.length ≤ loaded.maxEnqueueSize := by
    have suggested := sock.getSuggestedSendSize_eq
    have least : cpyLen ≤ sock.getSuggestedSendSize := Nat.min_le_left _ _
    rw [data, List.length_take]
    show min cpyLen _ ≤ sock.maxEnqueueSize
    omega
  obtain ⟨link, queued⟩ := @enqueue_room _ loaded established room _ fits
  refine ⟨(loaded.enqueue (.pool index)).2,
    ⟨link.state, link.maxEnqueueSize, link.remoteWindow⟩, ?_, fun fuel => ?_⟩
  · rw [queued, data]
    rfl
  · rw [sendLoop, if_pos more, room, getXmitBuf, pool]
    rfl

/-- The loop stops where the socket is blocked, or where nothing is left to send. -/
theorem sendLoop_stop {bytesSent : Nat} (stops : sock.Blocked ∨ userBuf.length ≤ bytesSent)
    (fuel : Nat) : sock.sendLoop userBuf (fuel + 1) bytesSent = some (bytesSent, sock) := by
  rw [sendLoop]
  by_cases more : bytesSent < userBuf.length
  · rw [if_pos more]
    cases room : sock.outgoing.hasRoom with
    | false => rfl
    | true =>
      have empty : sock.xmitBuffers = [] := by
        rcases stops with (full | empty) | done
        · rw [room] at full
          cases full
        · exact empty
        · omega
      rw [getXmitBuf, empty]
      rfl
  · exact if_neg more

/-- The loop invariant: what was queued is the front of the caller's bytes. -/
theorem sendLoop_queued {fuel bytesSent sent : Nat} {after : TcpSocket rcvBufSize}
    (established : sock.state = .established) (inside : bytesSent ≤ userBuf.length)
    (sends : sock.sendLoop userBuf fuel bytesSent = some (sent, after)) :
    bytesSent ≤ sent ∧ sent ≤ userBuf.length ∧
      after.queued = sock.queued ++ (userBuf.drop bytesSent).take (sent - bytesSent) := by
  induction fuel generalizing sock bytesSent with
  | zero => cases sends
  | succ fuel inductionHypothesis =>
    by_cases stops : sock.Blocked ∨ userBuf.length ≤ bytesSent
    · rw [sendLoop_stop stops] at sends
      cases sends
      refine ⟨le_rfl, inside, ?_⟩
      rw [Nat.sub_self, List.take_zero, List.append_nil]
    · obtain ⟨open', more⟩ := not_or.mp stops
      obtain ⟨room, free⟩ := sock.not_blocked.mp open'
      obtain ⟨middle, same, queued, goesOn⟩ :=
        sendLoop_step established room free (not_le.mp more)
      rw [goesOn] at sends
      have rest := inductionHypothesis (same.state.trans established) (by omega) sends
      obtain ⟨further, within, longer⟩ := rest
      refine ⟨by omega, within, ?_⟩
      rw [longer, queued, List.append_assoc, ← List.drop_drop, ← List.take_add]
      exact congrArg _ (congrArg (List.take · _) (by omega))

/-- `TcpSocket::send` fails when the connection is not established. Otherwise it returns the
number of bytes it queued from the front of the buffer. -/
theorem send_queued {fuel : Nat} {answer : Int} {after : TcpSocket rcvBufSize}
    (short : userBuf.length < 32768) (sends : sock.send fuel userBuf = some (answer, after)) :
    (sock.state ≠ .established ∧ answer = tcpRcBad ∧ after.queued = sock.queued) ∨
      (sock.state = .established ∧ ∃ sent : Nat, answer = sent ∧ sent ≤ userBuf.length ∧
        after.queued = sock.queued ++ userBuf.take sent) := by
  rw [send] at sends
  by_cases established : sock.state = .established
  · rw [if_neg (by simpa using established)] at sends
    refine .inr ⟨established, ?_⟩
    by_cases shut : sock.remoteWindow = 0
    · rw [if_pos shut] at sends
      cases sends
      exact ⟨0, rfl, Nat.zero_le _, (List.append_nil _).symm⟩
    · rw [if_neg shut] at sends
      obtain ⟨done, loops, equal⟩ := Option.map_eq_some_iff.mp sends
      cases equal
      have queued := sendLoop_queued established (Nat.zero_le _) loops
      exact ⟨done.1, toInt16_small (by omega), queued.2.1, queued.2.2⟩
  · rw [if_pos established] at sends
    cases sends
    exact .inl ⟨established, rfl, rfl⟩

/-- More fuel changes nothing. -/
theorem sendLoop_succ {fuel bytesSent : Nat} {result : Nat × TcpSocket rcvBufSize}
    (established : sock.state = .established)
    (sends : sock.sendLoop userBuf fuel bytesSent = some result) :
    sock.sendLoop userBuf (fuel + 1) bytesSent = some result := by
  induction fuel generalizing sock bytesSent with
  | zero => cases sends
  | succ fuel inductionHypothesis =>
    by_cases stops : sock.Blocked ∨ userBuf.length ≤ bytesSent
    · rw [sendLoop_stop stops] at sends ⊢
      exact sends
    · obtain ⟨open', more⟩ := not_or.mp stops
      obtain ⟨room, free⟩ := sock.not_blocked.mp open'
      obtain ⟨middle, same, -, goesOn⟩ := sendLoop_step established room free (not_le.mp more)
      rw [goesOn] at sends ⊢
      exact inductionHypothesis (same.state.trans established) sends

theorem send_add {fuel : Nat} {result : Int × TcpSocket rcvBufSize}
    (sends : sock.send fuel userBuf = some result) (more : Nat) :
    sock.send (fuel + more) userBuf = some result := by
  induction more with
  | zero => exact sends
  | succ more inductionHypothesis =>
    rw [send] at inductionHypothesis
    rw [← Nat.add_assoc, send]
    by_cases established : sock.state = .established
    · have notOther : ¬sock.state ≠ .established := not_not_intro established
      rw [if_neg notOther] at inductionHypothesis ⊢
      by_cases shut : sock.remoteWindow = 0
      · rw [if_pos shut] at inductionHypothesis ⊢
        exact inductionHypothesis
      · rw [if_neg shut] at inductionHypothesis ⊢
        obtain ⟨done, loops, equal⟩ := Option.map_eq_some_iff.mp inductionHypothesis
        exact Option.map_eq_some_iff.mpr ⟨done, sendLoop_succ established loops, equal⟩
    · rw [if_pos established] at inductionHypothesis ⊢
      exact inductionHypothesis

/-- A call of `TcpSocket::send` has one result. -/
theorem send_unique {fuel fuel' : Nat} {result result' : Int × TcpSocket rcvBufSize}
    (sends : sock.send fuel userBuf = some result)
    (sends' : sock.send fuel' userBuf = some result') : result = result' := by
  have whole := send_add sends fuel'
  rw [Nat.add_comm, send_add sends' fuel] at whole
  exact (Option.some.inj whole).symm

/-- Without room or a buffer nothing is queued, and `TcpSocket::send` returns 0. -/
theorem send_blocked (established : sock.state = .established) (fuel : Nat)
    (blocked : sock.Blocked) : sock.send (fuel + 1) userBuf = some (0, sock) := by
  rw [send, if_neg (by simp [established])]
  split
  · rfl
  · rw [sendLoop_stop (.inl blocked)]
    rfl

/-- With room and a buffer all of what fits into a packet is queued. -/
theorem send_whole (established : sock.state = .established)
    (room : sock.outgoing.hasRoom) (free : sock.xmitBuffers ≠ []) (fuel : Nat)
    (some : 0 < userBuf.length) (short : userBuf.length < 32768)
    (fits : userBuf.length ≤ sock.getSuggestedSendSize) :
    ∃ after, sock.send (fuel + 2) userBuf = .some ((userBuf.length : Int), after) := by
  obtain ⟨after, -, -, goesOn⟩ := sendLoop_step established room free some
  have open' : sock.remoteWindow ≠ 0 := by
    rw [getSuggestedSendSize_eq] at fits
    omega
  have whole : min sock.getSuggestedSendSize (userBuf.length - 0) = userBuf.length := by omega
  refine ⟨after, ?_⟩
  rw [send, if_neg (by simp [established]), if_neg open', goesOn, whole,
    sendLoop_stop (.inr (by omega))]
  exact congrArg (fun sent => Option.some (sent, after)) (by rw [Nat.zero_add, toInt16_small short])

end TcpSocket

/-! ### Calls -/

/-- A packet that comes in. -/
def Event.IsPacket : Event → Prop
  | .packet _ _ _ _ => True
  | _ => False

theorem Event.IsPacket.not_send {event : Event} (isPacket : event.IsPacket) : ¬event.IsSend := by
  cases event <;> first | exact id | exact isPacket.elim

/-- `TcpSocket::isClosed`. -/
def TcpSocket.isClosed {rcvBufSize : Nat} (sock : TcpSocket rcvBufSize) : Bool :=
  sock.state = .closed

section Calls

variable {rcvBufSize : Nat}

/-- The socket as the send callback meets it: the processing of packets takes any packets, and the
queues are driven at any time. -/
def socketEnv : Env SockAnswer (TcpSocket rcvBufSize) := fun before op answer after =>
  match op, answer with
  | .isClosed, answer => answer = before.isClosed ∧ after = before
  | .getSuggestedSendSize, answer => answer = before.getSuggestedSendSize ∧ after = before
  | .send userBuf, answer => ∃ fuel, before.send fuel userBuf = some (answer, after)
  | .packetProcess, _ => ∃ events bytes, (∀ event ∈ events, event.IsPacket) ∧
      Runs before events bytes after
  | .drivePackets, _ => ∃ now arp, after = before.drivePackets now arp
  | _, _ => after = before

/-- Without a call of `TcpSocket::send` nothing of the caller is queued. -/
theorem Runs.queued {sock last : TcpSocket rcvBufSize} {events : List Event} {bytes : Text}
    (runs : Runs sock events bytes last) (others : ∀ event ∈ events, ¬event.IsSend) :
    last.queued = sock.queued := by
  induction runs with
  | refl => rfl
  | step steps _ inductionHypothesis =>
    rw [inductionHypothesis fun event member => others event (List.mem_cons_of_mem _ member)]
    exact Moves.queued (TcpSocket.moves_other (others _ List.mem_cons_self) steps)

theorem drivePackets_queued (sock : TcpSocket rcvBufSize) (now : Nat) (arp : Bool) :
    (sock.drivePackets now arp).queued = sock.queued :=
  Moves.queued (sock.moves_drivePackets now arp)

/-- A call of the send callback for the first `sz` bytes of a buffer, and what it returned. -/
structure SendCall (rcvBufSize : Nat) where
  before : TcpSocket rcvBufSize
  buf : Text
  sz : Int
  trace : List (Interaction.Event SockAnswer)
  rc : Int
  after : TcpSocket rcvBufSize

/-- Calls of a caller that sends a text: each call is for bytes from the front of what is left, and
the caller goes on behind the bytes that a call reports. Between them there is anything else:
packets, timers, and calls that send nothing. -/
inductive Sends : TcpSocket rcvBufSize → Text → List (SendCall rcvBufSize) →
    TcpSocket rcvBufSize → Text → Prop where
  | refl (sock : TcpSocket rcvBufSize) (left : Text) : Sends sock left [] sock left
  | idle {before middle last : TcpSocket rcvBufSize} {buf left bytes : Text}
      {calls : List (SendCall rcvBufSize)} {events : List Event}
      (others : ∀ event ∈ events, ¬event.IsSend) (runs : Runs before events bytes middle)
      (tail : Sends middle buf calls last left) : Sends before buf calls last left
  | call {before middle last : TcpSocket rcvBufSize} {buf left : Text}
      {calls : List (SendCall rcvBufSize)} {sz rc : Int}
      {trace : List (Interaction.Event SockAnswer)} (isSize : IsSize sz) (inside : sz ≤ buf.length)
      (run : Steps socketEnv before (nosTlsSend buf sz) trace middle (.ret rc))
      (tail : Sends middle (buf.drop rc.toNat) calls last left) :
      Sends before buf (⟨before, buf, sz, trace, rc, middle⟩ :: calls) last left

/-- What a call should report: how much it queued, the close of a closed socket only, an error only
where `TcpSocket::send` failed, and otherwise that it is worth another try. -/
structure SendReport (call : SendCall rcvBufSize) : Prop where
  counts : ∀ n : Int, 0 < n → (call.rc = n ↔
    n ≤ call.sz ∧ call.after.queued = call.before.queued ++ call.buf.take n.toNat)
  keeps : call.rc ≤ 0 → call.after.queued = call.before.queued
  closes : call.rc = cbioErrConnClose → call.before.isClosed
  fails : call.rc = cbioErrGeneral → ∃ (userBuf : Text) (sent : Int),
    (⟨.send userBuf, sent⟩ : Interaction.Event SockAnswer) ∈ call.trace ∧ sent < 0
  retries : call.before.state = .established → call.after.queued = call.before.queued →
    call.rc = cbioErrWantWrite

/-- Where an established connection lets something be sent, there is room for a packet and a free
buffer for it. -/
def TcpSocket.HasRoom (sock : TcpSocket rcvBufSize) : Prop :=
  sock.state = .established → 0 < sock.getSuggestedSendSize →
    sock.outgoing.hasRoom ∧ sock.xmitBuffers ≠ []

/-! ### One call -/

/-- What a call asks `TcpSocket::send` for. -/
def sendSize (sock : TcpSocket rcvBufSize) (sz : Int) : Nat :=
  min (toUint16 sz) sock.getSuggestedSendSize

/-- What the callback makes of what `TcpSocket::send` returned. -/
def sendResult (sent : Int) (size : Nat) : Int :=
  if sent = size then sent else if sent = tcpRcNoXmitBuffers then cbioErrWantWrite
  else cbioErrGeneral

/-- A result, behind the processing of packets. -/
def processed (rc : Int) : SockIo Int := do
  onSock .packetProcess
  onSock .drivePackets
  return rc

/-- The end of a call, behind `TcpSocket::send`. -/
def reportSent (sent : Int) (size : Nat) : SockIo Int := do
  if sent = size then processed sent
  else if sent = tcpRcNoXmitBuffers then return cbioErrWantWrite
  else return cbioErrGeneral

/-- The sizes of a call without the casts. -/
theorem clampedSize_eq {sz : Int} (isSize : IsSize sz) (canSend : Nat) :
    (if toUint16 sz > canSend then toInt16 canSend else sz) =
        ((min (toUint16 sz) canSend : Nat) : Int) ∧
      toUint16 ((min (toUint16 sz) canSend : Nat) : Int) = min (toUint16 sz) canSend := by
  have size := toUint16_size isSize
  unfold IsSize at isSize
  constructor
  · split
    · rw [toInt16_small (by omega)]
      omega
    · omega
  · rw [toUint16]
    omega

theorem nosTlsSend_eq (buf : Text) {sz : Int} (isSize : IsSize sz) :
    nosTlsSend buf sz = (do
      if ← onSock .isClosed then return cbioErrConnClose
      let canSend ← onSock .getSuggestedSendSize
      if canSend = 0 then processed cbioErrWantWrite
      else
        let sent ← onSock (.send (buf.take (min (toUint16 sz) canSend)))
        reportSent sent (min (toUint16 sz) canSend)) := by
  unfold nosTlsSend
  refine congrArg (onSock .isClosed >>= ·) (funext fun closed => ?_)
  refine congrArg (ite (closed = true) (pure cbioErrConnClose)) ?_
  refine congrArg (onSock .getSuggestedSendSize >>= ·) (funext fun canSend => ?_)
  dsimp only
  rw [(clampedSize_eq isSize canSend).1, (clampedSize_eq isSize canSend).2]
  rfl

variable {before after : TcpSocket rcvBufSize} {buf : Text} {sz rc : Int}
  {trace : List (Interaction.Event SockAnswer)}

theorem processed_ret {value : Int}
    (run : Steps socketEnv before (processed value) trace after (.ret rc)) :
    after.queued = before.queued ∧ rc = value := by
  obtain ⟨_, middle, _, ⟨events, bytes, packets, runs⟩, driving, -⟩ := run.perform_ret
  obtain ⟨_, driven, _, ⟨now, arp, rfl⟩, done, -⟩ := driving.perform_ret
  obtain ⟨-, rfl, equal⟩ := done.of_ret
  cases equal
  refine ⟨(drivePackets_queued middle now arp).trans ?_, rfl⟩
  exact runs.queued fun event member => (packets event member).not_send

theorem reportSent_ret {sent : Int} {size : Nat}
    (run : Steps socketEnv before (reportSent sent size) trace after (.ret rc)) :
    after.queued = before.queued ∧ rc = sendResult sent size := by
  unfold reportSent at run
  unfold sendResult
  split at run
  · rename_i whole
    rw [if_pos whole]
    exact processed_ret run
  · rename_i other
    rw [if_neg other]
    split at run
    · rename_i short
      obtain ⟨-, rfl, equal⟩ := run.of_ret
      cases equal
      exact ⟨rfl, (if_pos short).symm⟩
    · rename_i short
      obtain ⟨-, rfl, equal⟩ := run.of_ret
      cases equal
      exact ⟨rfl, (if_neg short).symm⟩

/-- The ways through a call. -/
theorem nosTlsSend_cases (isSize : IsSize sz)
    (run : Steps socketEnv before (nosTlsSend buf sz) trace after (.ret rc)) :
    (before.isClosed ∧ rc = cbioErrConnClose ∧ after.queued = before.queued) ∨
      (before.getSuggestedSendSize = 0 ∧ rc = cbioErrWantWrite ∧ after.queued = before.queued) ∨
      (0 < before.getSuggestedSendSize ∧
        ∃ (fuel : Nat) (sent : Int) (middle : TcpSocket rcvBufSize),
        before.send fuel (buf.take (sendSize before sz)) = some (sent, middle) ∧
        (⟨.send (buf.take (sendSize before sz)), sent⟩ : Interaction.Event SockAnswer) ∈ trace ∧
        after.queued = middle.queued ∧ rc = sendResult sent (sendSize before sz)) := by
  rw [nosTlsSend_eq buf isSize] at run
  obtain ⟨closed, sock, events, ⟨closed_eq, rfl⟩, opened, rfl⟩ := run.perform_ret
  clear run
  cases closed with
  | true =>
    obtain ⟨-, rfl, equal⟩ := opened.of_ret
    cases equal
    exact .inl ⟨closed_eq.symm, rfl, rfl⟩
  | false =>
    refine .inr ?_
    obtain ⟨canSend, sock, events, ⟨rfl, rfl⟩, asked, rfl⟩ := Steps.perform_ret opened
    clear opened
    by_cases shut : sock.getSuggestedSendSize = 0
    · rw [if_pos shut] at asked
      obtain ⟨queued, rfl⟩ := processed_ret asked
      exact .inl ⟨shut, rfl, queued⟩
    · rw [if_neg shut] at asked
      obtain ⟨sent, middle, events, ⟨fuel, sends⟩, reports, rfl⟩ := Steps.perform_ret asked
      refine .inr ⟨Nat.pos_of_ne_zero shut, fuel, sent, middle, sends, ?_, reportSent_ret reports⟩
      exact List.mem_cons_of_mem _ (List.mem_cons_of_mem _ List.mem_cons_self)

theorem sendSize_pos (isSize : IsSize sz) (lets : 0 < before.getSuggestedSendSize) :
    0 < sendSize before sz := by
  have size := toUint16_size isSize
  unfold IsSize at isSize
  unfold sendSize
  omega

theorem sendSize_le (isSize : IsSize sz) : (sendSize before sz : Int) ≤ sz := by
  have size := toUint16_size isSize
  unfold sendSize
  omega

theorem length_take_sendSize (before : TcpSocket rcvBufSize) (isSize : IsSize sz)
    (inside : sz ≤ buf.length) :
    (buf.take (sendSize before sz)).length = sendSize before sz := by
  have smaller : (sendSize before sz : Int) ≤ sz := sendSize_le isSize
  rw [List.length_take]
  omega

/-- What is sent at once is some bytes, and they fit into a packet. -/
theorem fits_take_sendSize (isSize : IsSize sz) (inside : sz ≤ buf.length)
    (lets : 0 < before.getSuggestedSendSize) :
    0 < (buf.take (sendSize before sz)).length ∧
      (buf.take (sendSize before sz)).length < 32768 ∧
      (buf.take (sendSize before sz)).length ≤ before.getSuggestedSendSize := by
  have smaller : (sendSize before sz : Int) ≤ sz := sendSize_le isSize
  have below := isSize.2
  rw [length_take_sendSize before isSize inside]
  exact ⟨sendSize_pos isSize lets, by omega, Nat.min_le_right _ _⟩

/-- What a call comes to. -/
inductive SendOutcome (call : SendCall rcvBufSize) : Prop where
  | closed (isClosed : call.before.isClosed) (rc : call.rc = cbioErrConnClose)
      (queued : call.after.queued = call.before.queued)
  | shut (shut : call.before.getSuggestedSendSize = 0) (rc : call.rc = cbioErrWantWrite)
      (queued : call.after.queued = call.before.queued)
  | failed (other : call.before.state ≠ .established) (rc : call.rc = cbioErrGeneral)
      (queued : call.after.queued = call.before.queued)
      (called : ∃ userBuf : Text,
        (⟨.send userBuf, tcpRcBad⟩ : Interaction.Event SockAnswer) ∈ call.trace)
  | sent (size : Nat) (hasRoom : call.before.HasRoom) (positive : 0 < size) (rc : call.rc = size)
      (inside : (size : Int) ≤ call.sz)
      (queued : call.after.queued = call.before.queued ++ call.buf.take size)
  | short (established : call.before.state = .established) (noRoom : ¬call.before.HasRoom)
      (rc : call.rc = cbioErrGeneral) (queued : call.after.queued = call.before.queued)

theorem sendOutcome_of_run (isSize : IsSize sz) (inside : sz ≤ buf.length)
    (run : Steps socketEnv before (nosTlsSend buf sz) trace after (.ret rc)) :
    SendOutcome ⟨before, buf, sz, trace, rc, after⟩ := by
  rcases nosTlsSend_cases isSize run with ⟨isClosed, rc_eq, queued⟩ | ⟨shut, rc_eq, queued⟩ |
    ⟨lets, fuel, sent, middle, sends, called, queued, rc_eq⟩
  · exact .closed isClosed rc_eq queued
  · exact .shut shut rc_eq queued
  have positive := sendSize_pos isSize lets
  have smaller : (sendSize before sz : Int) ≤ sz := sendSize_le isSize
  have length := length_take_sendSize before isSize inside
  obtain ⟨some, short, fits⟩ := fits_take_sendSize isSize inside lets
  rcases TcpSocket.send_queued short sends with
    ⟨other, rfl, queued'⟩ | ⟨established, count, rfl, -, queued'⟩
  · refine .failed other (rc_eq.trans ?_) (queued.trans queued') ⟨_, called⟩
    have small : tcpRcBad ≠ (sendSize before sz : Int) := by
      unfold tcpRcBad
      omega
    exact (if_neg small).trans (if_neg (by decide))
  · by_cases blocked : before.Blocked
    · have count_eq : (count : Int) = (0 : Nat) := congrArg Prod.fst
        (TcpSocket.send_unique sends (TcpSocket.send_blocked established 0 blocked))
      have none_sent : count = 0 := Int.ofNat_inj.mp count_eq
      subst none_sent
      have noRoom : ¬before.HasRoom := fun hasRoom =>
        before.not_blocked.mpr (hasRoom established lets) blocked
      refine .short established noRoom (rc_eq.trans ?_) ?_
      · have other : ((0 : Nat) : Int) ≠ (sendSize before sz : Int) := by omega
        exact (if_neg other).trans (if_neg (by decide))
      · rw [queued, queued', List.take_zero, List.append_nil]
    · have room := before.not_blocked.mp blocked
      obtain ⟨whole, sendsAll⟩ :=
        TcpSocket.send_whole established room.1 room.2 0 some short fits
      rw [length] at sendsAll
      have count_eq : (count : Int) = sendSize before sz :=
        congrArg Prod.fst (TcpSocket.send_unique sends sendsAll)
      refine .sent (sendSize before sz) (fun _ _ => room) positive ?_ smaller ?_
      · rw [rc_eq, count_eq]
        exact if_pos rfl
      · rw [queued, queued', Int.ofNat_inj.mp count_eq, List.take_take, Nat.min_self]

end Calls

section Reports

variable {rcvBufSize : Nat} {call : SendCall rcvBufSize}

/-- A call that queues nothing and returns no count, as far as counts go. -/
theorem counts_of_nothing (inside : call.sz ≤ call.buf.length) (notPositive : call.rc ≤ 0)
    (queued : call.after.queued = call.before.queued) (n : Int) (positive : 0 < n) :
    call.rc = n ↔
      n ≤ call.sz ∧ call.after.queued = call.before.queued ++ call.buf.take n.toNat := by
  constructor
  · intro equal
    omega
  · rintro ⟨within, longer⟩
    have nothing : call.buf.take n.toNat = [] := List.self_eq_append_right.mp (queued ▸ longer)
    have length := congrArg List.length nothing
    rw [List.length_take, List.length_nil] at length
    omega

/-- The counts of a call that queues as many bytes as it returns. -/
theorem counts_of_sent {size : Nat} (inside : call.sz ≤ call.buf.length) (rc : call.rc = size)
    (within : (size : Int) ≤ call.sz)
    (queued : call.after.queued = call.before.queued ++ call.buf.take size) (n : Int)
    (positive : 0 < n) :
    call.rc = n ↔
      n ≤ call.sz ∧ call.after.queued = call.before.queued ++ call.buf.take n.toNat := by
  constructor
  · intro equal
    have size_eq : n.toNat = size := by omega
    exact ⟨by omega, size_eq ▸ queued⟩
  · rintro ⟨below, longer⟩
    have same : call.buf.take size = call.buf.take n.toNat :=
      List.append_cancel_left (queued.symm.trans longer)
    have length := congrArg List.length same
    rw [List.length_take, List.length_take] at length
    omega

/-- A report is right if and only if the call met no shortage. -/
theorem sendReport_iff (outcome : SendOutcome call) (inside : call.sz ≤ call.buf.length) :
    SendReport call ↔ call.before.HasRoom := by
  cases outcome with
  | closed isClosed rc queued =>
    have closed : call.before.state = .closed := of_decide_eq_true isClosed
    have other : call.before.state ≠ .established := by rw [closed]; decide
    refine iff_of_true ?_ fun established => absurd established other
    exact {
      counts := counts_of_nothing inside (by rw [rc]; decide) queued
      keeps := fun _ => queued
      closes := fun _ => isClosed
      fails := fun failed => absurd (rc.symm.trans failed) (by decide)
      retries := fun established => absurd established other }
  | shut shut rc queued =>
    refine iff_of_true ?_ fun _ lets => absurd shut (by omega)
    exact {
      counts := counts_of_nothing inside (by rw [rc]; decide) queued
      keeps := fun _ => queued
      closes := fun closing => absurd (rc.symm.trans closing) (by decide)
      fails := fun failed => absurd (rc.symm.trans failed) (by decide)
      retries := fun _ _ => rc }
  | failed other rc queued called =>
    obtain ⟨userBuf, member⟩ := called
    refine iff_of_true ?_ fun established => absurd established other
    exact {
      counts := counts_of_nothing inside (by rw [rc]; decide) queued
      keeps := fun _ => queued
      closes := fun closing => absurd (rc.symm.trans closing) (by decide)
      fails := fun _ => ⟨userBuf, tcpRcBad, member, by decide⟩
      retries := fun established => absurd established other }
  | sent size hasRoom positive rc within queued =>
    have returned : 0 < call.rc := by omega
    refine iff_of_true ?_ hasRoom
    exact {
      counts := counts_of_sent inside rc within queued
      keeps := fun notPositive => absurd returned (by omega)
      closes := fun closing => absurd (closing ▸ returned) (by decide)
      fails := fun failed => absurd (failed ▸ returned) (by decide)
      retries := fun _ same => by
        have nothing : call.buf.take size = [] := List.self_eq_append_right.mp (same ▸ queued)
        have length := congrArg List.length nothing
        rw [List.length_take, List.length_nil] at length
        omega }
  | short established noRoom rc queued =>
    refine iff_of_false (fun report => ?_) noRoom
    exact absurd (rc.symm.trans (report.retries established queued)) (by decide)

/-- Whatever a call reports, what it queued is what it counts. -/
theorem queued_of_outcome (outcome : SendOutcome call) :
    call.after.queued = call.before.queued ++ call.buf.take call.rc.toNat := by
  have nothing (notPositive : call.rc ≤ 0) (queued : call.after.queued = call.before.queued) :
      call.after.queued = call.before.queued ++ call.buf.take call.rc.toNat := by
    rw [queued, Int.toNat_of_nonpos notPositive, List.take_zero, List.append_nil]
  cases outcome with
  | closed _ rc queued => exact nothing (by rw [rc]; decide) queued
  | shut _ rc queued => exact nothing (by rw [rc]; decide) queued
  | failed _ rc queued _ => exact nothing (by rw [rc]; decide) queued
  | sent size _ _ rc _ queued => rw [queued, rc, Int.toNat_natCast]
  | short _ _ rc queued => exact nothing (by rw [rc]; decide) queued

end Reports

/-! ### Sequences of calls -/

section Sequences

variable {rcvBufSize : Nat} {start last : TcpSocket rcvBufSize} {buf left : Text}
  {calls : List (SendCall rcvBufSize)}

/-- The run lemma: what was queued is what the caller has behind it. -/
theorem Sends.queued (sends : Sends start buf calls last left) :
    start.queued ++ buf = last.queued ++ left := by
  induction sends with
  | refl => rfl
  | idle others runs _ inductionHypothesis => rw [← inductionHypothesis, runs.queued others]
  | call isSize inside run _ inductionHypothesis =>
    have queued := queued_of_outcome (sendOutcome_of_run isSize inside run)
    dsimp only at queued
    rw [← inductionHypothesis, queued, List.append_assoc, List.take_append_drop]

theorem Sends.reports (sends : Sends start buf calls last left) :
    ∀ call ∈ calls, SendReport call ↔ call.before.HasRoom := by
  induction sends with
  | refl => exact fun _ member => absurd member List.not_mem_nil
  | idle _ _ _ inductionHypothesis => exact inductionHypothesis
  | call isSize inside run _ inductionHypothesis =>
    intro call member
    rcases List.mem_cons.mp member with rfl | member
    · exact sendReport_iff (sendOutcome_of_run isSize inside run) inside
    · exact inductionHypothesis call member

end Sequences

/-! ### Calls on an open connection -/

section Opened

variable {rcvBufSize : Nat}

end Opened

/-! ### Two sequences -/

/-- The SYN is sent, and answered with a window of 256 bytes. -/
def opening : List Event := [.drivePackets 0 false, .packet 9 0 false (shortPacket 100 18 [])]

end Nosgem.Tcp
