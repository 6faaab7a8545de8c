/-
This file proves what a TCP socket hands to its user. The other side has a stream
of bytes, and each of its packets carries a piece of the stream at the number of
the piece; packets may be lost, repeated and reordered in any way, and what the
user and the timers do in between is arbitrary. Then the bytes that the user gets
are a prefix of the stream, the number that is expected next never acknowledges a
byte that the socket does not have, and once the other side is closed the bytes
handed out and those that wait are the whole stream.

The stream is shorter than the range of the numbers, and the other side answers
our SYN: where both sides open the connection, a socket that is about to reset
it takes packets one number too early.
-/

import Nosgem.TcpInbound
import Mathlib.Data.BitVec

namespace Nosgem.Tcp

open CText Buffers

/-! ### Runs of a socket -/

/-- What happens to a socket: packets and timers from outside, and the calls of the user. -/
inductive Event where
  | packet (fuel now : Nat) (arp : Bool) (packet : Packet)
  | drivePackets (now : Nat) (arp : Bool)
  | recv (arp : Bool) (userBufLen : Nat)
  | send (fuel : Nat) (userBuf : Text)
  | closeNonblocking (now : Nat)
  | isCloseDone (now : Nat)
  | shutdown (how : Nat)

/-- A call in which the user queues data. -/
def Event.IsSend : Event → Prop
  | .send _ _ => True
  | _ => False

section Runs

variable {rcvBufSize : Nat}

/-- What an event makes of a socket, with the bytes that it hands to the user. -/
def TcpSocket.step (sock : TcpSocket rcvBufSize) :
    Event → Except Stop (Text × TcpSocket rcvBufSize)
  | .packet fuel now arp packet => do
    let sock ← sock.process fuel now arp packet
    return ([], sock)
  | .drivePackets now arp => return ([], sock.drivePackets now arp)
  | .recv arp userBufLen => do
    let received ← sock.recv arp userBufLen
    return received.2
  | .send fuel userBuf =>
    match sock.send fuel userBuf with
    | none => .error .failed
    | some (_, sock) => return ([], sock)
  | .closeNonblocking now => return ([], sock.closeNonblocking now)
  | .isCloseDone now => return ([], (sock.isCloseDone now).2)
  | .shutdown how => return ([], sock.shutdown how)

/-- A run of events, with all bytes that were handed to the user. -/
inductive Runs : TcpSocket rcvBufSize → List Event → Text → TcpSocket rcvBufSize → Prop where
  | refl (sock : TcpSocket rcvBufSize) : Runs sock [] [] sock
  | step {sock next last : TcpSocket rcvBufSize} {event : Event} {events : List Event}
      {got bytes : Text} (steps : sock.step event = .ok (got, next))
      (tail : Runs next events bytes last) : Runs sock (event :: events) (got ++ bytes) last

variable {sock middle last : TcpSocket rcvBufSize} {events more : List Event} {bytes front : Text}

/-- A run that starts like another one goes on where that one ends. -/
theorem Runs.rest (whole : Runs sock (events ++ more) bytes last)
    (start : Runs sock events front middle) :
    ∃ back, Runs middle more back last ∧ bytes = front ++ back := by
  induction start generalizing bytes with
  | refl => exact ⟨bytes, whole, rfl⟩
  | @step sock next _ event events got _ steps _ inductionHypothesis =>
    generalize all : event :: events ++ more = list at whole
    cases whole with
    | refl => cases all
    | step steps' tail =>
      obtain ⟨rfl, rfl⟩ := List.cons.inj all
      obtain ⟨rfl, rfl⟩ := Prod.mk.inj (Except.ok.inj (steps.symm.trans steps'))
      obtain ⟨back, rest, rfl⟩ := inductionHypothesis tail
      exact ⟨back, rest, (List.append_assoc _ _ _).symm⟩

end Runs

/-- A socket that is about to connect, with an empty receive buffer. -/
structure Connecting {rcvBufSize : Nat} (sock : TcpSocket rcvBufSize) : Prop where
  opening : sock.state = .synSent
  enabled : sock.disableReads = false
  rcvBuffer : ∃ buffer, sock.rcvBuffer = some buffer ∧ buffer.Holds []

/-- `TcpSocketMgr::getSocket`, `setRecvBuffer` and `connect2` lead to such a socket. -/
theorem connecting_of_connect2 {rcvBufSize : Nat} (positive : 0 < rcvBufSize) (seqNum : SeqNum)
    (now mssToAdvertise : Nat) (buffers : BufId → TcpBuffer) (xmitBuffers : List Nat)
    (memory : Vector Byte (rcvBufSize + 1)) :
    Connecting (fresh seqNum now mssToAdvertise buffers xmitBuffers
      (some (ReceiveBuffer.set memory))).connect2.2 := by
  have same : (fresh seqNum now mssToAdvertise buffers xmitBuffers
      (some (ReceiveBuffer.set memory))).connect2.2.inbound =
        ⟨.opening, 0, some (ReceiveBuffer.set memory), false⟩ :=
    TcpSocket.enqueueConnectPacket_inbound _
  refine ⟨phaseOf_opening (congrArg Inbound.phase same), congrArg Inbound.disableReads same,
    _, congrArg Inbound.rcvBuffer same, ReceiveBuffer.holds_set positive memory⟩

/-! ### The other side -/

/-- The other side of a connection: its first number, and the bytes that it sends. -/
structure Peer where
  isn : SeqNum
  stream : Text
  short : stream.length + 2 < 4294967296

/-- The bytes that a packet carries. -/
def Packet.data (packet : Packet) : Text := packet.userData.take packet.incomingDataLen

/-- A packet of the other side: it answers the SYN, resets the connection, only acknowledges, or
carries a piece of the stream, to the end of the stream if it has the FIN bit. -/
structure Packet.IsOf (packet : Packet) (peer : Peer) : Prop where
  inside : packet.incomingDataLen ≤ packet.userData.length
  answers : packet.header.codeBits.syn →
    packet.header.codeBits.ack ∧ packet.header.seqnum = peer.isn
  carries : ¬packet.header.codeBits.syn → ¬packet.header.codeBits.rst →
    (packet.data = [] ∧ ¬packet.header.codeBits.fin) ∨
      ∃ offset ≤ peer.stream.length, packet.header.seqnum = peer.isn + 1 + BitVec.ofNat 32 offset ∧
        packet.data <+: peer.stream.drop offset ∧
        (packet.header.codeBits.fin → offset + packet.data.length = peer.stream.length)

/-- The packets of a run are those of the other side. -/
def Event.IsOf (peer : Peer) : Event → Prop
  | .packet _ _ _ received => received.IsOf peer
  | _ => True

/-! ### The invariant -/

section Streams

variable {rcvBufSize : Nat} {peer : Peer}

/-- What was delivered and what waits is the front of the stream. All that was accepted is kept
unless reads were disabled. -/
structure Follows (peer : Peer) (delivered : Text) (accepted : Nat)
    (inbound : Inbound rcvBufSize) : Prop where
  inside : accepted ≤ peer.stream.length
  stored : ∃ buffer waiting kept, inbound.rcvBuffer = some buffer ∧ buffer.Holds waiting ∧
    kept ≤ accepted ∧ delivered ++ waiting = peer.stream.take kept ∧
    (inbound.disableReads = false → kept = accepted)

/-- The invariant of the receiving side, by the phase of the connection. -/
def Delivers (peer : Peer) (delivered : Text) (inbound : Inbound rcvBufSize) : Prop :=
  match inbound.phase with
  | .closed => delivered <+: peer.stream
  | .opening => delivered = [] ∧ Follows peer [] 0 inbound
  | .crossed => False
  | .receiving => ∃ accepted, Follows peer delivered accepted inbound ∧
      inbound.ackNum = peer.isn + 1 + BitVec.ofNat 32 accepted
  | .finished => Follows peer delivered peer.stream.length inbound ∧
      inbound.ackNum = peer.isn + 1 + BitVec.ofNat 32 (peer.stream.length + 1)

theorem Follows.front {delivered : Text} {accepted : Nat} {inbound : Inbound rcvBufSize}
    (follows : Follows peer delivered accepted inbound) : delivered <+: peer.stream := by
  obtain ⟨buffer, waiting, kept, -, -, -, joined, -⟩ := follows.stored
  exact (List.prefix_append _ _).trans (joined ▸ List.take_prefix _ _)

theorem Delivers.front {delivered : Text} {inbound : Inbound rcvBufSize}
    (delivers : Delivers peer delivered inbound) : delivered <+: peer.stream := by
  unfold Delivers at delivers
  split at delivers
  · exact delivers
  · exact delivers.1 ▸ List.nil_prefix
  · exact delivers.elim
  · obtain ⟨accepted, follows, -⟩ := delivers
    exact follows.front
  · exact delivers.1.front

/-- Numbers of different offsets differ. -/
theorem seqNum_inj {isn : SeqNum} {offset offset' : Nat} (small : offset < 4294967296)
    (small' : offset' < 4294967296)
    (equal : isn + 1 + BitVec.ofNat 32 offset = isn + 1 + BitVec.ofNat 32 offset') :
    offset = offset' := by
  have same := congrArg BitVec.toNat (add_left_cancel equal)
  rw [BitVec.toNat_ofNat, BitVec.toNat_ofNat] at same
  omega

/-- The number of the SYN is not used again. -/
theorem seqNum_ne_isn {isn : SeqNum} {offset : Nat} (small : offset + 1 < 4294967296) :
    isn ≠ isn + 1 + BitVec.ofNat 32 offset := by
  intro equal
  have zero : isn + 0 = isn + (1 + BitVec.ofNat 32 offset) := by
    rw [add_zero, ← add_assoc]
    exact equal
  have same := congrArg BitVec.toNat (add_left_cancel zero)
  rw [BitVec.toNat_add, BitVec.toNat_ofNat] at same
  simp at same
  omega

/-! ### Packets -/

/-- A packet with the number that is expected next carries the bytes that are expected next, or
nothing. -/
theorem Packet.IsOf.carried {packet : Packet} (ofPeer : packet.IsOf peer)
    (data : packet.header.codeBits.rst = false) {next : Nat} (small : next ≤ peer.stream.length + 1)
    (proper : packet.header.seqnum = peer.isn + 1 + BitVec.ofNat 32 next) :
    (packet.data = [] ∧ packet.header.codeBits.fin = false) ∨
      (next ≤ peer.stream.length ∧ packet.data <+: peer.stream.drop next ∧
        (packet.header.codeBits.fin → next + packet.data.length = peer.stream.length)) := by
  have short := peer.short
  have noSyn : ¬packet.header.codeBits.syn := fun syn =>
    seqNum_ne_isn (by omega) ((ofPeer.answers syn).2.symm.trans proper)
  rcases ofPeer.carries noSyn (by simp [data]) with ⟨empty, noFin⟩ | carries
  · exact .inl ⟨empty, Bool.eq_false_iff.mpr noFin⟩
  · obtain ⟨offset, within, number, piece, ends⟩ := carries
    obtain rfl : offset = next := seqNum_inj (by omega) (by omega) (number.symm.trans proper)
    exact .inr ⟨within, piece, ends⟩

/-- Data that goes on where the accepted bytes end is taken behind them. -/
theorem Follows.takes {delivered : Text} {accepted : Nat} {packet : Packet}
    {before after : Inbound rcvBufSize} (follows : Follows peer delivered accepted before)
    (inside : packet.incomingDataLen ≤ packet.userData.length)
    (next : packet.data <+: peer.stream.drop accepted)
    (takes : (packet.incomingDataLen = 0 ∧ after = before) ∨ TakesData packet before after) :
    Follows peer delivered (accepted + packet.data.length) after ∧
      after.phase = before.phase ∧
      after.ackNum = before.ackNum + BitVec.ofNat 32 packet.data.length := by
  have length : packet.data.length = packet.incomingDataLen := by
    rw [Packet.data, List.length_take, Nat.min_eq_left inside]
  have within : accepted + packet.data.length ≤ peer.stream.length := by
    have shorter := next.length_le
    have := follows.inside
    rw [List.length_drop] at shorter
    omega
  obtain ⟨buffer, waiting, kept, here, holds, fewer, joined, all⟩ := follows.stored
  rcases takes with ⟨empty, rfl⟩ | takes
  · rw [length, empty]
    refine ⟨follows, rfl, ?_⟩
    simp
  · rw [length] at within ⊢
    cases takes with
    | tossed disabled =>
      refine ⟨⟨within, buffer, waiting, kept, here, holds, by omega, joined, fun enabled => ?_⟩,
        rfl, rfl⟩
      exact absurd (disabled.symm.trans enabled) (by decide)
    | queued none => exact absurd (none.symm.trans here) (by simp)
    | @stored buffer' longer enabled here' adds =>
      obtain rfl : buffer' = buffer := Option.some.inj (here'.symm.trans here)
      have room : waiting.length + packet.incomingDataLen ≤ rcvBufSize := by
        by_contra full
        rw [ReceiveBuffer.addToRcvBuf_full holds (by omega)] at adds
        cases adds
      obtain ⟨stored, adds', holds'⟩ := ReceiveBuffer.addToRcvBuf_room holds room inside
      obtain rfl : stored = longer := by
        rw [adds'] at adds
        exact Option.some.inj (Except.ok.inj adds)
      obtain rfl : kept = accepted := all enabled
      refine ⟨⟨within, stored, waiting ++ packet.data, kept + packet.incomingDataLen, rfl, holds',
        le_rfl, ?_, fun _ => rfl⟩, rfl, rfl⟩
      rw [← List.append_assoc, joined, List.take_add, ← length,
        ← List.prefix_iff_eq_take.mp next]

/-- The step lemma for packets: whatever a packet of the other side does, the invariant is kept. -/
theorem Delivers.receives {delivered : Text} {packet : Packet} {before after : Inbound rcvBufSize}
    (delivers : Delivers peer delivered before) (ofPeer : packet.IsOf peer)
    (receives : Receives packet before after) : Delivers peer delivered after := by
  cases receives with
  | keeps => exact delivers
  | resets => exact delivers.front
  | opens opening syn =>
    obtain ⟨ack, first⟩ := ofPeer.answers syn
    unfold Delivers at delivers
    rw [opening] at delivers
    obtain ⟨rfl, inside, stored⟩ := delivers
    rw [if_pos ack, first]
    exact ⟨0, ⟨inside, stored⟩, by simp⟩
  | @accepts middle _ data open' proper takes turns =>
    unfold Delivers at delivers
    split at delivers
    · exact absurd ‹_› open'.2
    · exact absurd ‹_› open'.1
    · exact delivers.elim
    · -- the other side is not closed yet
      rename_i receiving
      obtain ⟨accepted, follows, number⟩ := delivers
      have proper := (proper.resolve_left (by rw [receiving]; decide)).trans number
      have carried := ofPeer.carried data (by have := follows.inside; omega) proper
      have piece : packet.data <+: peer.stream.drop accepted := by
        rcases carried with ⟨empty, -⟩ | ⟨-, piece, -⟩
        · exact empty ▸ List.nil_prefix
        · exact piece
      obtain ⟨follows', phase, number'⟩ := follows.takes ofPeer.inside piece takes
      have number'' : middle.ackNum =
          peer.isn + 1 + BitVec.ofNat 32 (accepted + packet.data.length) := by
        rw [number', number, add_assoc, ← BitVec.ofNat_add]
      cases turns with
      | stays =>
        unfold Delivers
        rw [phase, receiving]
        exact ⟨_, follows', number''⟩
      | finishes fin receiving' =>
        rcases carried with ⟨-, noFin⟩ | ⟨-, -, ends⟩
        · exact absurd (fin.symm.trans noFin) (by decide)
        · rw [ends fin] at follows' number''
          refine ⟨⟨follows'.inside, follows'.stored⟩, ?_⟩
          show middle.ackNum + 1 = _
          rw [number'', BitVec.ofNat_add, ← add_assoc]
          rfl
      | opens crossed => exact absurd (crossed.symm.trans (phase.trans receiving)) (by decide)
      | closes finished => exact absurd (finished.symm.trans (phase.trans receiving)) (by decide)
    · -- behind the end of the stream there is nothing
      rename_i finished
      obtain ⟨follows, number⟩ := delivers
      have proper := (proper.resolve_left (by rw [finished]; decide)).trans number
      rcases ofPeer.carried data le_rfl proper with ⟨empty, noFin⟩ | ⟨beyond, -⟩
      · have piece : packet.data <+: peer.stream.drop peer.stream.length := by
          rw [empty]
          exact List.nil_prefix
        obtain ⟨follows', phase, number'⟩ := follows.takes ofPeer.inside piece takes
        rw [empty, List.length_nil] at follows' number'
        cases turns with
        | stays =>
          unfold Delivers
          rw [phase, finished]
          exact ⟨follows', by rw [number', number]; simp⟩
        | finishes fin _ => exact absurd (fin.symm.trans noFin) (by decide)
        | opens crossed => exact absurd (crossed.symm.trans (phase.trans finished)) (by decide)
        | closes _ => exact follows'.front
      · omega

/-! ### The calls of the user -/

/-- A call of `TcpSocket::recv` hands out the front of the bytes that wait. -/
theorem Follows.hands {delivered bytes : Text} {accepted : Nat} {before after : Inbound rcvBufSize}
    (follows : Follows peer delivered accepted before)
    (hands : ∀ buffer waiting, before.rcvBuffer = some buffer → buffer.Holds waiting →
      ∃ taken, after.rcvBuffer = some taken ∧ ∃ rest, taken.Holds rest ∧ waiting = bytes ++ rest)
    (same : after.disableReads = before.disableReads) :
    Follows peer (delivered ++ bytes) accepted after := by
  obtain ⟨inside, buffer, waiting, kept, here, holds, fewer, joined, all⟩ := follows
  obtain ⟨taken, here', rest, holds', split⟩ := hands buffer waiting here holds
  refine ⟨inside, taken, rest, kept, here', holds', fewer, ?_, fun enabled => ?_⟩
  · rw [List.append_assoc, ← split, joined]
  · exact all (same.symm.trans enabled)

/-- What `TcpSocket::recv` does to the receiving side: nothing, unless bytes wait and are asked
for. -/
theorem TcpSocket.recv_spec {sock after : TcpSocket rcvBufSize} {arp : Bool} {userBufLen : Nat}
    {answer : Int} {bytes : Text}
    (receives : sock.recv arp userBufLen = .ok (answer, bytes, after)) :
    (bytes = [] ∧ after = sock ∧
      ((sock.inbound.phase = .receiving ∨ sock.inbound.phase = .finished) →
        ∀ buffer, sock.rcvBuffer = some buffer → buffer.rcvBufEntries = 0 ∨ userBufLen = 0)) ∨
      (sock.inbound.phase = .receiving ∨ sock.inbound.phase = .finished) ∧
        ∃ buffer taken, sock.rcvBuffer = some buffer ∧ buffer.recv userBufLen = .ok (bytes, taken) ∧
          after.inbound = { sock.inbound with rcvBuffer := some taken } ∧
          answer = bytes.length := by
  unfold recv at receives
  split at receives
  · rename_i early
    cases receives
    refine .inl ⟨rfl, rfl, fun phase => absurd phase ?_⟩
    show ¬(phaseOf sock.state = _ ∨ phaseOf sock.state = _)
    rcases early with state | state | state | state <;> rw [state] <;> decide
  · rename_i early
    have phase : sock.inbound.phase = .receiving ∨ sock.inbound.phase = .finished := by
      show phaseOf sock.state = _ ∨ phaseOf sock.state = _
      cases state : sock.state <;> simp_all [phaseOf]
    split at receives
    · rename_i none
      cases receives
      exact .inl ⟨rfl, rfl, fun _ buffer here => by rw [none] at here; cases here⟩
    · rename_i buffer here
      split at receives
      · rename_i nothing
        cases receives
        refine .inl ⟨rfl, rfl, fun _ buffer' here' => ?_⟩
        obtain rfl : buffer' = buffer := Option.some.inj (here'.symm.trans here)
        exact nothing
      · obtain ⟨⟨userBuf, taken⟩, got, done⟩ := bind_eq_ok receives
        cases done
        refine .inr ⟨phase, buffer, taken, here, got, ?_, rfl⟩
        dsimp only
        split
        · exact sendPureAck_inbound _ _ _
        · rfl

/-- What a call of `TcpSocket::recv` hands out, as a step of the invariant. -/
theorem Delivers.recv {delivered bytes : Text} {sock after : TcpSocket rcvBufSize} {arp : Bool}
    {userBufLen : Nat} {answer : Int} (delivers : Delivers peer delivered sock.inbound)
    (receives : sock.recv arp userBufLen = .ok (answer, bytes, after)) :
    Delivers peer (delivered ++ bytes) after.inbound := by
  rcases TcpSocket.recv_spec receives with
    ⟨rfl, rfl, -⟩ | ⟨phase, buffer, taken, here, got, same, -⟩
  · rwa [List.append_nil]
  · have hands : ∀ buffer' waiting, sock.inbound.rcvBuffer = some buffer' →
        buffer'.Holds waiting → ∃ taken', after.inbound.rcvBuffer = some taken' ∧
          ∃ rest, taken'.Holds rest ∧ waiting = bytes ++ rest := by
      intro buffer' waiting here' holds
      obtain rfl : buffer' = buffer := Option.some.inj (here'.symm.trans here)
      obtain ⟨taken', got', holds'⟩ := ReceiveBuffer.recv_holds holds userBufLen
      obtain ⟨rfl, rfl⟩ := Prod.mk.inj (Except.ok.inj (got.symm.trans got'))
      exact ⟨taken, by rw [same], _, holds', (List.take_append_drop _ _).symm⟩
    have disabled : after.inbound.disableReads = sock.inbound.disableReads := by rw [same]
    have phase' : after.inbound.phase = sock.inbound.phase := by rw [same]
    have number : after.inbound.ackNum = sock.inbound.ackNum := by rw [same]
    unfold Delivers at delivers ⊢
    rw [phase']
    rcases phase with phase | phase <;> rw [phase] at delivers ⊢
    · obtain ⟨accepted, follows, counted⟩ := delivers
      exact ⟨accepted, follows.hands hands disabled, number.trans counted⟩
    · exact ⟨delivers.1.hands hands disabled, number.trans delivers.2⟩

/-- Reads that are disabled stay so; the invariant asks for less then. -/
theorem Delivers.disable {delivered : Text} {inbound : Inbound rcvBufSize}
    (delivers : Delivers peer delivered inbound) :
    Delivers peer delivered { inbound with disableReads := true } := by
  have weaken {delivered : Text} {accepted : Nat}
      (follows : Follows peer delivered accepted inbound) :
      Follows peer delivered accepted { inbound with disableReads := true } := by
    obtain ⟨inside, buffer, waiting, kept, here, holds, fewer, joined, -⟩ := follows
    exact ⟨inside, buffer, waiting, kept, here, holds, fewer, joined,
      fun enabled => by cases enabled⟩
  unfold Delivers at delivers ⊢
  dsimp only
  split <;> rename_i phase <;> rw [phase] at delivers
  · exact delivers
  · exact ⟨delivers.1, weaken delivers.2⟩
  · exact delivers
  · obtain ⟨accepted, follows, number⟩ := delivers
    exact ⟨accepted, weaken follows, number⟩
  · exact ⟨weaken delivers.1, delivers.2⟩

theorem Delivers.not_crossed {delivered : Text} {inbound : Inbound rcvBufSize}
    (delivers : Delivers peer delivered inbound) : inbound.phase ≠ .crossed := by
  intro crossed
  unfold Delivers at delivers
  rw [crossed] at delivers
  exact delivers

/-- Closing our own side keeps the invariant. -/
theorem Delivers.closes {delivered : Text} {sock : TcpSocket rcvBufSize}
    (delivers : Delivers peer delivered sock.inbound) :
    Delivers peer delivered sock.closeLocal.inbound := by
  obtain ⟨phase, same, rfl | rfl | crossed⟩ := sock.closeLocal_inbound
  · rw [same]
    exact delivers
  · rw [same]
    exact delivers.front
  · exact absurd crossed delivers.not_crossed

/-- The step lemma: every event keeps the invariant. -/
theorem Delivers.step {delivered got : Text} {sock next : TcpSocket rcvBufSize} {event : Event}
    (delivers : Delivers peer delivered sock.inbound) (ofPeer : event.IsOf peer)
    (steps : sock.step event = .ok (got, next)) :
    Delivers peer (delivered ++ got) next.inbound := by
  cases event with
  | packet fuel now arp packet =>
    obtain ⟨after, processed, done⟩ := bind_eq_ok steps
    cases done
    rw [List.append_nil]
    exact delivers.receives ofPeer (TcpSocket.process_spec processed)
  | drivePackets now arp =>
    cases steps
    rw [List.append_nil]
    rcases sock.drivePackets_inbound now arp with same | same <;> rw [same]
    · exact delivers
    · exact delivers.front
  | recv arp userBufLen =>
    obtain ⟨⟨answer, bytes, after⟩, received, done⟩ := bind_eq_ok steps
    cases done
    exact delivers.recv received
  | send fuel userBuf =>
    unfold TcpSocket.step at steps
    dsimp only at steps
    split at steps
    · cases steps
    · cases steps
      rw [List.append_nil, TcpSocket.send_inbound ‹_›]
      exact delivers
  | closeNonblocking now =>
    cases steps
    rw [List.append_nil]
    have started : Delivers peer delivered { sock with
        closeStarted := if sock.closeStarted = 0 then now else sock.closeStarted }.inbound :=
      delivers
    exact started.closes
  | isCloseDone now =>
    cases steps
    rw [List.append_nil]
    unfold TcpSocket.isCloseDone
    have front : Delivers peer delivered sock.destroy.inbound := by
      rw [TcpSocket.destroy_inbound]
      exact delivers.front
    split
    · exact front
    · split
      · exact delivers
      · exact front
  | shutdown how =>
    cases steps
    rw [List.append_nil]
    unfold TcpSocket.shutdown
    split
    · exact delivers.disable
    · exact delivers.closes
    · have disabled : Delivers peer delivered { sock with disableReads := true }.inbound :=
        delivers.disable
      exact disabled.closes
    · exact delivers

/-- The run lemma. -/
theorem Runs.delivers {sock last : TcpSocket rcvBufSize} {events : List Event} {bytes : Text}
    (runs : Runs sock events bytes last) (ofPeer : ∀ event ∈ events, event.IsOf peer)
    {delivered : Text} (delivers : Delivers peer delivered sock.inbound) :
    Delivers peer (delivered ++ bytes) last.inbound := by
  induction runs generalizing delivered with
  | refl sock => rwa [List.append_nil]
  | step steps _ inductionHypothesis =>
    rw [← List.append_assoc]
    exact inductionHypothesis (fun event member => ofPeer event (List.mem_cons_of_mem _ member))
      (delivers.step (ofPeer _ List.mem_cons_self) steps)

theorem Connecting.delivers {sock : TcpSocket rcvBufSize} (connecting : Connecting sock) :
    Delivers peer [] sock.inbound := by
  obtain ⟨opening, enabled, buffer, here, holds⟩ := connecting
  have phase : sock.inbound.phase = .opening := congrArg phaseOf opening
  unfold Delivers
  rw [phase]
  exact ⟨rfl, Nat.zero_le _, buffer, [], 0, here, holds, le_rfl, rfl, fun _ => rfl⟩

end Streams

theorem phaseOf_remoteClosed {rcvBufSize : Nat} {sock : TcpSocket rcvBufSize}
    (open' : sock.state ≠ .closed) : sock.isRemoteClosed ↔ sock.inbound.phase = .finished := by
  show sock.isRemoteClosed ↔ phaseOf sock.state = .finished
  unfold TcpSocket.isRemoteClosed
  cases state : sock.state <;> simp_all [phaseOf]

/-! ### What the user gets -/

section Results

variable {rcvBufSize : Nat} {peer : Peer} {sock last : TcpSocket rcvBufSize} {events : List Event}
  {bytes : Text}

/-- Whatever is lost, repeated or reordered: the bytes handed to the user are a prefix of the
stream, and in an open connection what is acknowledged is what was handed out and what waits. -/
theorem runs_stream (connecting : Connecting sock) (runs : Runs sock events bytes last)
    (ofPeer : ∀ event ∈ events, event.IsOf peer) :
    bytes <+: peer.stream ∧
      (last.state ≠ .closed → last.state ≠ .synSent → last.disableReads = false →
        ∃ buffer waiting, last.rcvBuffer = some buffer ∧ buffer.Holds waiting ∧
          bytes ++ waiting <+: peer.stream ∧
          last.ackNum = peer.isn + 1 + BitVec.ofNat 32
            ((bytes ++ waiting).length + if last.isRemoteClosed then 1 else 0)) := by
  have delivers := runs.delivers ofPeer connecting.delivers
  rw [List.nil_append] at delivers
  refine ⟨delivers.front, fun open' answered enabled => ?_⟩
  have follows : ∃ accepted, Follows peer bytes accepted last.inbound ∧
      last.ackNum = peer.isn + 1 +
        BitVec.ofNat 32 (accepted + if last.isRemoteClosed then 1 else 0) := by
    have remote := phaseOf_remoteClosed open'
    unfold Delivers at delivers
    split at delivers <;> rename_i phase <;> rw [phase] at remote
    · exact absurd (phaseOf_closed phase) open'
    · exact absurd (phaseOf_opening phase) answered
    · exact delivers.elim
    · obtain ⟨accepted, follows, number⟩ := delivers
      refine ⟨accepted, follows, ?_⟩
      rw [if_neg (by simp [remote])]
      exact number
    · refine ⟨_, delivers.1, ?_⟩
      rw [if_pos (remote.mpr rfl)]
      exact delivers.2
  obtain ⟨accepted, ⟨inside, buffer, waiting, kept, here, holds, -, joined, all⟩, number⟩ := follows
  obtain rfl : kept = accepted := all enabled
  refine ⟨buffer, waiting, here, holds, joined ▸ List.take_prefix _ _, ?_⟩
  rw [joined, List.length_take, Nat.min_eq_left inside]
  exact number

/-- Once the other side is closed, the bytes handed out and those that wait are the whole
stream. -/
theorem runs_closed (connecting : Connecting sock) (runs : Runs sock events bytes last)
    (ofPeer : ∀ event ∈ events, event.IsOf peer) (enabled : last.disableReads = false)
    (closed : last.isRemoteClosed) (open' : last.state ≠ .closed) :
    ∃ buffer waiting, last.rcvBuffer = some buffer ∧ buffer.Holds waiting ∧
      bytes ++ waiting = peer.stream := by
  have delivers := runs.delivers ofPeer connecting.delivers
  rw [List.nil_append] at delivers
  unfold Delivers at delivers
  rw [(phaseOf_remoteClosed open').mp closed] at delivers
  obtain ⟨⟨-, buffer, waiting, kept, here, holds, -, joined, all⟩, -⟩ := delivers
  refine ⟨buffer, waiting, here, holds, ?_⟩
  rw [joined, all enabled, List.take_length]

end Results

/-! ### A short connection -/

/-- A packet with one-byte numbers; 18 is SYN and ACK, 16 is ACK, 17 is ACK and FIN. -/
def shortPacket (number bits : Byte) (data : Text) : Packet :=
  ⟨[0, 0, 0, 0, 0, 0, 0, number, 0, 0, 0, 1, 80, bits, 1, 0, 0, 0, 0, 0] ++ data,
    20 + data.length⟩

/-- A socket with a receive buffer of four bytes that is about to connect. -/
def shortSocket : TcpSocket 4 :=
  (fresh 0 0 1460 (fun _ => {}) [0] (some (ReceiveBuffer.set (.replicate 5 0)))).connect2.2

/-- The other side says `ok`. -/
def shortPeer : Peer := ⟨100, text "ok", by decide⟩

/-- The second piece, with the FIN bit, comes first, and again behind the first piece. -/
def shortEvents : List Event :=
  [.drivePackets 0 false, .packet 9 0 false (shortPacket 100 18 []),
    .packet 9 0 false (shortPacket 102 17 (text "k")),
    .packet 9 0 false (shortPacket 101 16 (text "o")),
    .packet 9 0 false (shortPacket 102 17 (text "k")), .recv false 4]

theorem shortEvents_isOf : ∀ event ∈ shortEvents, event.IsOf shortPeer := by
  have answer : (shortPacket 100 18 []).IsOf shortPeer :=
    ⟨by decide, by decide, by decide⟩
  have front : (shortPacket 101 16 (text "o")).IsOf shortPeer :=
    ⟨by decide, by decide, fun _ _ => .inr ⟨0, by decide, by decide, by decide, by decide⟩⟩
  have back : (shortPacket 102 17 (text "k")).IsOf shortPeer :=
    ⟨by decide, by decide, fun _ _ => .inr ⟨1, by decide, by decide, by decide, by decide⟩⟩
  simp only [shortEvents, List.forall_mem_cons]
  exact ⟨trivial, answer, back, front, back, trivial, List.forall_mem_nil _⟩

theorem shortSocket_connecting : Connecting shortSocket :=
  connecting_of_connect2 (by decide) _ _ _ _ _ _

theorem shortEvents_run : ∃ last, Runs shortSocket shortEvents (text "ok") last ∧
    last.state = .closeWait ∧ last.disableReads = false := by
  have run : Runs shortSocket shortEvents _ _ :=
    .step rfl (.step rfl (.step rfl (.step rfl (.step rfl (.step rfl (.refl _))))))
  exact ⟨_, run, rfl, rfl⟩

theorem runs_stream_short : text "ok" <+: shortPeer.stream := by
  obtain ⟨last, runs, -⟩ := shortEvents_run
  exact (runs_stream shortSocket_connecting runs shortEvents_isOf).1

theorem runs_closed_short : ∃ waiting, text "ok" ++ waiting = shortPeer.stream := by
  obtain ⟨last, runs, state, enabled⟩ := shortEvents_run
  obtain ⟨-, waiting, -, -, whole⟩ := runs_closed shortSocket_connecting runs shortEvents_isOf
    enabled (by simp [TcpSocket.isRemoteClosed, state]) (by simp [state])
  exact ⟨waiting, whole⟩

end Nosgem.Tcp
