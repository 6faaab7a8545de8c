/-
This file puts the receive callback of the TLS library on top of the TCP socket.
What was assumed of a socket before, a queue of bytes and a flag, is proved of
`TcpSocket::recv` and `isRemoteClosed` here, with the packets of the other side
coming in whenever the callback has packets processed. The bytes that the calls
return are a prefix of what the other side sends, and the close is reported only
behind the last byte, or for a connection that was reset or given up.
-/

import Nosgem.TcpStream
import Nosgem.Receiving

namespace Nosgem.Tcp

open CText Interaction Buffers

/-! ### The socket below the callback -/

/-- What happens to a socket between the calls of its user. -/
def Event.IsIdle (peer : Peer) : Event → Prop
  | .packet _ _ _ received => received.IsOf peer
  | .drivePackets _ _ => True
  | .send _ _ => True
  | _ => False

section Sockets

variable {rcvBufSize : Nat}

/-- The socket of the callbacks: a negative answer of `recv` comes without bytes, and the
processing of packets takes any packets of the other side. -/
def tcpEnv (peer : Peer) : Env SockAnswer (TcpSocket rcvBufSize) := fun before op answer after =>
  match op, answer with
  | .recv userBufLen, got =>
    ∃ arp result, before.recv arp userBufLen = .ok (result, got, after)
  | .isRemoteClosed, answer => answer = before.isRemoteClosed ∧ after = before
  | .packetProcess, _ => ∃ events bytes, (∀ event ∈ events, event.IsIdle peer) ∧
      Runs before events bytes after
  | .drivePackets, _ => ∃ now arp, after = before.drivePackets now arp
  | _, _ => after = before

/-- The calls of the receive callback, with anything else in between: what each of them returns and
stores. -/
inductive Reads (peer : Peer) :
    TcpSocket rcvBufSize → List (Int × Text) → TcpSocket rcvBufSize → Prop where
  | refl (sock : TcpSocket rcvBufSize) : Reads peer sock [] sock
  | idle {before middle last : TcpSocket rcvBufSize} {results : List (Int × Text)}
      {events : List Event} {bytes : Text} (isIdle : ∀ event ∈ events, event.IsIdle peer)
      (runs : Runs before events bytes middle) (tail : Reads peer middle results last) :
      Reads peer before results last
  | call {before middle last : TcpSocket rcvBufSize} {results : List (Int × Text)} {fuel : Nat}
      {sz : Int} {trace : List (Interaction.Event SockAnswer)} {result : Int × Text}
      (isSize : IsSize sz)
      (run : Steps (tcpEnv peer) before (nosTlsRecv fuel sz) trace middle (.ret result))
      (tail : Reads peer middle results last) : Reads peer before (result :: results) last

/-- The invariant of the socket, and that nobody disabled reads. -/
def Serves (peer : Peer) (before : Text) (sock : TcpSocket rcvBufSize) : Prop :=
  Delivers peer before sock.inbound ∧ sock.disableReads = false

/-- What a call returned, behind what was returned before. -/
structure Served (peer : Peer) (before : Text) (result : Int × Text)
    (sock : TcpSocket rcvBufSize) : Prop where
  serves : Serves peer (before ++ result.2.take result.1.toNat) sock
  closes : result.1 = cbioErrConnClose → sock.state = .closed ∨ before = peer.stream

variable {peer : Peer} {before : Text} {sock next : TcpSocket rcvBufSize} {sz : Int}

/-! ### Between the calls -/

theorem Receives.disableReads {packet : Packet} {inbound after : Inbound rcvBufSize}
    (receives : Receives packet inbound after) : after.disableReads = inbound.disableReads := by
  cases receives with
  | accepts _ _ _ takes turns =>
    rcases takes with ⟨-, rfl⟩ | takes
    · cases turns <;> rfl
    · cases takes <;> cases turns <;> rfl
  | _ => rfl

theorem Event.IsIdle.isOf {event : Event} (isIdle : event.IsIdle peer) : event.IsOf peer := by
  cases event <;> first | exact isIdle | trivial

theorem drivePackets_enabled (enabled : sock.disableReads = false) (now : Nat) (arp : Bool) :
    (sock.drivePackets now arp).disableReads = false := by
  rcases sock.drivePackets_inbound now arp with same | same <;>
    exact (congrArg Inbound.disableReads same).trans enabled

theorem Serves.step {event : Event} {got : Text} (serves : Serves peer before sock)
    (isIdle : event.IsIdle peer) (steps : sock.step event = .ok (got, next)) :
    Serves peer before next := by
  obtain ⟨delivers, enabled⟩ := serves
  have kept := delivers.step isIdle.isOf steps
  cases event with
  | packet fuel now arp packet =>
    obtain ⟨after, processed, done⟩ := bind_eq_ok steps
    cases done
    rw [List.append_nil] at kept
    exact ⟨kept, (TcpSocket.process_spec processed).disableReads.trans enabled⟩
  | drivePackets now arp =>
    cases steps
    rw [List.append_nil] at kept
    exact ⟨kept, drivePackets_enabled enabled now arp⟩
  | send fuel userBuf =>
    unfold TcpSocket.step at steps
    dsimp only at steps
    split at steps
    · cases steps
    · cases steps
      rw [List.append_nil] at kept
      exact ⟨kept, (congrArg Inbound.disableReads (TcpSocket.send_inbound ‹_›)).trans enabled⟩
  | recv arp userBufLen => exact isIdle.elim
  | closeNonblocking now => exact isIdle.elim
  | isCloseDone now => exact isIdle.elim
  | shutdown how => exact isIdle.elim

theorem Serves.runs {events : List Event} {bytes : Text} (serves : Serves peer before sock)
    (isIdle : ∀ event ∈ events, event.IsIdle peer) (runs : Runs sock events bytes next) :
    Serves peer before next := by
  induction runs with
  | refl sock => exact serves
  | step steps _ inductionHypothesis =>
    exact inductionHypothesis (serves.step (isIdle _ List.mem_cons_self) steps)
      fun event member => isIdle event (List.mem_cons_of_mem _ member)

/-! ### One call -/

/-- The bytes that wait in an open connection: behind the end of the stream they complete it. -/
theorem Serves.waiting (serves : Serves peer before sock)
    (phase : sock.inbound.phase = .receiving ∨ sock.inbound.phase = .finished) :
    ∃ buffer waiting, sock.rcvBuffer = some buffer ∧ buffer.Holds waiting ∧
      (sock.inbound.phase = .finished → before ++ waiting = peer.stream) := by
  obtain ⟨delivers, enabled⟩ := serves
  unfold Delivers at delivers
  rcases phase with phase | phase <;> rw [phase] at delivers ⊢
  · obtain ⟨accepted, ⟨-, buffer, waiting, kept, here, holds, -⟩, -⟩ := delivers
    exact ⟨buffer, waiting, here, holds, fun finished => by cases finished⟩
  · obtain ⟨⟨-, buffer, waiting, kept, here, holds, -, joined, all⟩, -⟩ := delivers
    refine ⟨buffer, waiting, here, holds, fun _ => ?_⟩
    rw [joined, all enabled, List.take_length]

/-- What a call of `recv` gives is counted as it is; nothing means that the stream is at its end,
if the other side is closed. -/
theorem Serves.recv {arp : Bool} {result : Int} {got : Text} (isSize : IsSize sz)
    (serves : Serves peer before sock)
    (received : sock.recv arp (toUint16 sz) = .ok (result, got, next)) :
    toInt16 got.length = got.length ∧ Serves peer (before ++ got) next ∧
      (got = [] → next.isRemoteClosed → next.state = .closed ∨ before = peer.stream) := by
  have kept := serves.1.recv received
  have size := toUint16_size isSize
  have small := isSize.2
  have positive := isSize.1
  -- with nothing left to hand out, a close is at the end of the stream
  have ends (same : next.inbound.phase = sock.inbound.phase)
      (nothing : ∀ buffer waiting, sock.rcvBuffer = some buffer → buffer.Holds waiting →
        sock.inbound.phase = .finished → waiting = []) :
      next.isRemoteClosed → next.state = .closed ∨ before = peer.stream := by
    intro remote
    by_cases closed : next.state = .closed
    · exact .inl closed
    · have finished := same.symm.trans ((phaseOf_remoteClosed closed).mp remote)
      obtain ⟨buffer, waiting, here, holds, whole⟩ := serves.waiting (.inr finished)
      have joined := whole finished
      rw [nothing buffer waiting here holds finished, List.append_nil] at joined
      exact .inr joined
  rcases TcpSocket.recv_spec received with
    ⟨rfl, rfl, empty⟩ | ⟨phase, buffer, taken, here, got', same, -⟩
  · refine ⟨rfl, ⟨kept, serves.2⟩, fun _ => ends rfl fun buffer waiting here holds finished => ?_⟩
    rcases empty (.inr finished) buffer here with none | none
    · exact List.eq_nil_of_length_eq_zero (holds.entries ▸ none)
    · omega
  · obtain ⟨buffer', waiting, here', holds, -⟩ := serves.waiting phase
    obtain rfl : buffer' = buffer := Option.some.inj (here'.symm.trans here)
    obtain ⟨taken', got'', -⟩ := ReceiveBuffer.recv_holds holds (toUint16 sz)
    obtain ⟨rfl, rfl⟩ := Prod.mk.inj (Except.ok.inj (got'.symm.trans got''))
    refine ⟨toInt16_small ?_, ⟨kept, (congrArg Inbound.disableReads same).trans serves.2⟩,
      fun nothing => ends (by rw [same]) fun buffer waiting' there holds' _ => ?_⟩
    · rw [List.length_take]
      omega
    · obtain rfl : buffer = buffer' := Option.some.inj (there.symm.trans here)
      obtain rfl : waiting' = waiting := holds'.waiting.symm.trans holds.waiting
      exact (List.take_eq_nil_iff.mp nothing).resolve_left (by omega)

/-- A receive and the test for the close behind it, in a sequence that ends with what they find. -/
theorem serves_receive {Result : Type} (found : Int × Text → Result) {rest : Text → SockIo Result}
    {post : Result → TcpSocket rcvBufSize → Prop} (isSize : IsSize sz)
    (serves : Serves peer before sock)
    (finds : ∀ result after, Served peer before result after → post (found result) after)
    (goesOn : ∀ after, Serves peer before after →
      Meets (tcpEnv peer) (fun _ _ => True) (rest []) post after) :
    Meets (tcpEnv peer) (fun _ _ => True) (do
      let got ← onSock (.recv (toUint16 sz))
      if toInt16 got.length > 0 then return found (toInt16 got.length, got)
      if ← onSock .isRemoteClosed then return found (cbioErrConnClose, got)
      rest got) post sock := by
  refine ⟨trivial, fun got after received => ?_⟩
  obtain ⟨arp, result, received⟩ := received
  obtain ⟨counted, kept, ends⟩ := serves.recv isSize received
  show Meets (tcpEnv peer) (fun _ _ => True)
    (if toInt16 (got : Text).length > 0 then _ else _) post after
  rw [counted]
  by_cases positive : ((got : Text).length : Int) > 0
  · rw [if_pos positive]
    refine finds _ after ⟨?_, fun closing => ?_⟩
    · dsimp only
      rwa [Int.toNat_natCast, List.take_length]
    · unfold cbioErrConnClose at closing
      omega
  · rw [if_neg positive]
    have nothing : got = [] := List.eq_nil_of_length_eq_zero (by omega)
    subst nothing
    rw [List.append_nil] at kept
    refine ⟨trivial, fun closed again answered => ?_⟩
    obtain ⟨closed_eq, rfl⟩ := answered
    cases closed with
    | true => exact finds _ again ⟨by simpa using kept, fun _ => ends rfl closed_eq.symm⟩
    | false => exact goesOn again kept

/-- One call of the callback. -/
theorem serves_nosTlsRecv (fuel : Nat) (isSize : IsSize sz) (serves : Serves peer before sock) :
    Meets (tcpEnv peer) (fun _ _ => True) (nosTlsRecv fuel sz) (Served peer before) sock := by
  refine serves_receive id isSize serves (fun _ _ served => served) ?_
  intro polled serves
  refine meets_loop (fun _ => Serves peer before) (fun _ start serves => ?_) fuel serves
  refine ⟨trivial, fun _ processed processes => ?_⟩
  refine ⟨trivial, fun _ driven drives => ?_⟩
  obtain ⟨events, bytes, isIdle, runs⟩ := processes
  obtain ⟨now, arp, rfl⟩ := drives
  have serves : Serves peer before processed := serves.runs isIdle runs
  have drives : processed.step (.drivePackets now arp) =
      .ok ([], processed.drivePackets now arp) := rfl
  have isIdle : Event.IsIdle peer (.drivePackets now arp) := trivial
  have serves := serves.step isIdle drives
  refine serves_receive Sum.inr isSize serves (fun _ _ served => served) ?_
  intro after serves
  refine ⟨trivial, fun expired last answered => ?_⟩
  obtain rfl : last = after := answered
  cases expired with
  | true =>
    refine ⟨by simpa using serves, fun closing => ?_⟩
    simp [cbioErrWantRead, cbioErrConnClose] at closing
  | false => exact serves

/-! ### Sequences of calls -/

/-- The run lemma. -/
theorem Reads.serves {start last : TcpSocket rcvBufSize} {results : List (Int × Text)}
    (reads : Reads peer start results last) {before : Text} (serves : Serves peer before start) :
    Serves peer (before ++ returned results) last := by
  induction reads generalizing before with
  | refl sock => simpa [returned] using serves
  | idle isIdle runs _ inductionHypothesis => exact inductionHypothesis (serves.runs isIdle runs)
  | call isSize run _ inductionHypothesis =>
    have served := (serves_nosTlsRecv _ isSize serves).post_of_steps run
    rw [returned, List.flatMap_cons, ← List.append_assoc]
    exact inductionHypothesis served.serves

end Sockets

/-- The bytes that the calls return are a prefix of the stream of the other side, and a call that
reports the close has a connection that was reset or given up below it, or all bytes of the stream
were returned. -/
theorem reads_stream {rcvBufSize : Nat} {peer : Peer} {start here : TcpSocket rcvBufSize}
    {results : List (Int × Text)} (connecting : Connecting start)
    (reads : Reads peer start results here) :
    returned results <+: peer.stream ∧
      ∀ (fuel : Nat) (sz : Int) (trace : List (Interaction.Event SockAnswer))
        (result : Int × Text) (after : TcpSocket rcvBufSize), IsSize sz →
        Steps (tcpEnv peer) here (nosTlsRecv fuel sz) trace after (.ret result) →
        result.1 = cbioErrConnClose → after.state = .closed ∨ returned results = peer.stream := by
  have start : Serves peer [] start := ⟨connecting.delivers, connecting.enabled⟩
  have serves : Serves peer (returned results) here := reads.serves start
  refine ⟨serves.1.front, fun fuel sz trace result after isSize run closing => ?_⟩
  exact ((serves_nosTlsRecv fuel isSize serves).post_of_steps run).closes closing

/-- The short connection: a first call returns what the other side said, a second one reports the
close. -/
theorem reads_stream_short : ∃ (here after : TcpSocket 4),
    Reads shortPeer shortSocket [(2, text "ok")] here ∧
      (after.state = .closed ∨ returned [(2, text "ok")] = shortPeer.stream) := by
  have run : ∃ here, Runs shortSocket (shortEvents.take 5) [] here ∧
      ∃ after, here.recv false 16 = .ok (2, text "ok", after) ∧
        after.recv false 16 = .ok (0, [], after) ∧ after.isRemoteClosed := by
    have run : Runs shortSocket (shortEvents.take 5) _ _ :=
      .step rfl (.step rfl (.step rfl (.step rfl (.step rfl (.refl _)))))
    exact ⟨_, run, _, rfl, rfl, rfl⟩
  obtain ⟨filled, run, here, first, second, closed⟩ := run
  have isIdle : ∀ event ∈ shortEvents.take 5, event.IsIdle shortPeer := by
    have ofPeer := shortEvents_isOf
    simp only [shortEvents, List.forall_mem_cons, List.take_succ_cons, List.take_zero] at ofPeer ⊢
    exact ⟨trivial, ofPeer.2.1, ofPeer.2.2.1, ofPeer.2.2.2.1, ofPeer.2.2.2.2.1,
      List.forall_mem_nil _⟩
  have size : IsSize 16 := ⟨by decide, by decide⟩
  have returns : Steps (tcpEnv shortPeer) filled (nosTlsRecv 1 16) [⟨.recv 16, text "ok"⟩] here
      (.ret (2, text "ok")) := .call ⟨false, 2, first⟩ (.refl _ _)
  have closes : Steps (tcpEnv shortPeer) here (nosTlsRecv 1 16)
      [⟨.recv 16, []⟩, ⟨.isRemoteClosed, true⟩] here (.ret (cbioErrConnClose, [])) :=
    .call ⟨false, 0, second⟩ (.call ⟨closed.symm, rfl⟩ (.refl _ _))
  have reads : Reads shortPeer shortSocket [(2, text "ok")] here :=
    .idle isIdle run (.call size returns (.refl _))
  exact ⟨here, here, reads,
    (reads_stream shortSocket_connecting reads).2 1 16 _ _ _ size closes rfl⟩

end Nosgem.Tcp
