/-
This file shows what of a socket the receiving side depends on, and that sending
leaves it alone: the number expected next, the receive buffer, whether reads are
disabled, and the phase of the connection, which forgets how far our own side is
closed. Queueing, sending, driving and acknowledging keep all of it, but for a
packet that was sent too often, which destroys the socket.
-/

import Nosgem.Tcp

namespace Nosgem.Tcp

open CText Buffers

/-! ### The receiving side -/

/-- How far the other side of a connection is. -/
inductive Phase where
  | closed
  | opening
  /-- both sides opened the connection, or ours listens -/
  | crossed
  | receiving
  /-- the other side is closed -/
  | finished
  deriving DecidableEq, Repr

/-- The phase of a state. -/
def phaseOf : TcpState → Phase
  | .closed => .closed
  | .synSent => .opening
  | .listen | .synRecved => .crossed
  | .established | .sendFin1 | .sendFin3 | .finWait1 | .finWait2 => .receiving
  | .closeWait | .lastAck | .sendFin2 | .closing | .timeWait => .finished

theorem phaseOf_opening {state : TcpState} (opening : phaseOf state = .opening) :
    state = .synSent := by
  cases state <;> first | rfl | cases opening

theorem phaseOf_closed {state : TcpState} (closed : phaseOf state = .closed) :
    state = .closed := by
  cases state <;> first | rfl | cases closed

/-- What the receiving side depends on. -/
@[ext] structure Inbound (rcvBufSize : Nat) where
  phase : Phase
  ackNum : SeqNum
  rcvBuffer : Option (ReceiveBuffer rcvBufSize)
  disableReads : Bool

/-- The connection is over. -/
def Inbound.closed {rcvBufSize : Nat} (inbound : Inbound rcvBufSize) : Inbound rcvBufSize :=
  { inbound with phase := .closed }

/-- The connection is over, and the receive buffer is freed. -/
def Inbound.destroyed {rcvBufSize : Nat} (inbound : Inbound rcvBufSize) : Inbound rcvBufSize :=
  { inbound with phase := .closed, rcvBuffer := none }

namespace TcpSocket

variable {rcvBufSize : Nat}

/-- The receiving side of a socket. -/
def inbound (sock : TcpSocket rcvBufSize) : Inbound rcvBufSize :=
  ⟨phaseOf sock.state, sock.ackNum, sock.rcvBuffer, sock.disableReads⟩

/-! ### Queueing -/

theorem returnXmitBuf_inbound (sock : TcpSocket rcvBufSize) (id : BufId) :
    (sock.returnXmitBuf id).inbound = sock.inbound := by
  cases id <;> rfl

theorem foldl_returnXmitBuf_inbound (sock : TcpSocket rcvBufSize) (ids : List BufId) :
    (ids.foldl returnXmitBuf sock).inbound = sock.inbound := by
  induction ids generalizing sock with
  | nil => rfl
  | cons id ids inductionHypothesis =>
    rw [List.foldl_cons, inductionHypothesis, returnXmitBuf_inbound]

theorem clearQueues_inbound (sock : TcpSocket rcvBufSize) :
    sock.clearQueues.inbound = sock.inbound :=
  foldl_returnXmitBuf_inbound sock _

theorem destroy_inbound (sock : TcpSocket rcvBufSize) :
    sock.destroy.inbound = sock.inbound.destroyed := by
  rw [← clearQueues_inbound sock]
  rfl

theorem discardAck_inbound (sock : TcpSocket rcvBufSize) :
    sock.discardAck.inbound = sock.inbound := by
  unfold discardAck
  split
  · split
    · exact returnXmitBuf_inbound _ _
    · rfl
  · rfl

theorem enqueue_inbound (sock : TcpSocket rcvBufSize) (id : BufId) :
    (sock.enqueue id).2.inbound = sock.inbound := by
  unfold enqueue
  split
  · rfl
  · split
    · rfl
    · dsimp only
      split <;> exact discardAck_inbound sock

theorem enqueueConnectPacket_inbound (sock : TcpSocket rcvBufSize) :
    sock.enqueueConnectPacket.inbound = sock.inbound :=
  enqueue_inbound _ _

/-! ### Sending -/

theorem addCodeBits_phase (sock : TcpSocket rcvBufSize) (buf : TcpBuffer) :
    phaseOf (sock.addCodeBits buf).2.2 = phaseOf sock.state := by
  unfold addCodeBits
  cases state : sock.state <;> dsimp only
  all_goals
    split
    · simp [phaseOf]
    · rfl

theorem sendPacket_inbound (sock : TcpSocket rcvBufSize) (arp : Bool) (buf : TcpBuffer) :
    (sock.sendPacket arp buf).1.inbound = sock.inbound := by
  have filled : (sock.fillPacket buf).1.inbound = sock.inbound :=
    Inbound.ext (sock.addCodeBits_phase buf) rfl rfl rfl
  unfold sendPacket
  split
  · split <;> rfl
  · dsimp only
    split <;> exact filled

theorem sendPureAck_inbound (sock : TcpSocket rcvBufSize) (arp forceProbe : Bool) :
    (sock.sendPureAck arp forceProbe).inbound = sock.inbound := by
  unfold sendPureAck
  split
  · rfl
  · exact sendPacket_inbound _ _ _

theorem sendResetPacket_inbound (sock : TcpSocket rcvBufSize) (arp : Bool) (packet : Packet) :
    (sock.sendResetPacket arp packet).inbound = sock.inbound := by
  unfold sendResetPacket
  split <;> rfl

theorem driveOutgoing_inbound (sock : TcpSocket rcvBufSize) (now : Nat) (arp : Bool)
    (entries : Nat) : (sock.driveOutgoing now arp entries).inbound = sock.inbound := by
  induction entries generalizing sock with
  | zero => rfl
  | succ entries inductionHypothesis =>
    unfold driveOutgoing
    split
    · rfl
    · rename_i id rest items
      split
      · rfl
      · split
        · split
          · exact sendPureAck_inbound _ _ _
          · rfl
        · have sent := sock.sendPacket_inbound arp (sock.buffers id)
          dsimp only
          split
          · exact sent
          · split
            · rw [inductionHypothesis, returnXmitBuf_inbound]
              exact sent
            · split
              · rw [inductionHypothesis]
                exact sent
              · exact sent

/-- Driving the packets keeps the receiving side, or destroys the socket. -/
theorem drivePackets_inbound (sock : TcpSocket rcvBufSize) (now : Nat) (arp : Bool) :
    (sock.drivePackets now arp).inbound = sock.inbound ∨
      (sock.drivePackets now arp).inbound = sock.inbound.destroyed := by
  unfold drivePackets
  split
  · unfold drivePackets2
    split
    · exact .inl rfl
    · split
      · exact .inl (driveOutgoing_inbound _ _ _ _)
      · split
        · split
          · exact .inr (destroy_inbound sock)
          · exact .inl rfl
        · exact .inl (driveOutgoing_inbound _ _ _ _)
  · exact .inl rfl

/-! ### Acknowledgements -/

theorem removeFirst_inbound (sock : TcpSocket rcvBufSize) (now : Nat) (id : BufId) :
    (sock.removeFirst now id).inbound = sock.inbound := by
  unfold removeFirst
  rw [returnXmitBuf_inbound]
  split <;> rfl

theorem removeSentLoop_inbound (sock : TcpSocket rcvBufSize) (now : Nat) (target : SeqNum)
    (ids : List BufId) : (sock.removeSentLoop now target ids).inbound = sock.inbound := by
  induction ids generalizing sock with
  | nil => rfl
  | cons id ids inductionHypothesis =>
    unfold removeSentLoop
    split
    · rw [inductionHypothesis, removeFirst_inbound]
    · rfl

theorem removeSentPackets_inbound (sock : TcpSocket rcvBufSize) (now : Nat) (target : SeqNum) :
    (sock.removeSentPackets now target).inbound = sock.inbound :=
  removeSentLoop_inbound _ _ _ _

theorem updateWindow_inbound (sock : TcpSocket rcvBufSize) (packet : Packet) :
    (sock.updateWindow packet).inbound = sock.inbound := by
  unfold updateWindow
  split <;> rfl

theorem processAck_inbound (sock : TcpSocket rcvBufSize) (now : Nat) (packet : Packet) :
    (sock.processAck now packet).inbound = sock.inbound := by
  have counted : (sock.countGoodPacket now).inbound = sock.inbound := rfl
  unfold processAck
  dsimp only
  split
  · rw [updateWindow_inbound, removeSentPackets_inbound, counted]
  · rw [updateWindow_inbound, counted]

/-! ### The calls of the user -/

theorem sendLoop_inbound {fuel bytesSent sent : Nat} {userBuf : Text}
    {sock after : TcpSocket rcvBufSize}
    (sends : sock.sendLoop userBuf fuel bytesSent = some (sent, after)) :
    after.inbound = sock.inbound := by
  induction fuel generalizing sock bytesSent with
  | zero => cases sends
  | succ fuel inductionHypothesis =>
    unfold sendLoop at sends
    split at sends
    · split at sends
      · cases sends
        rfl
      · split at sends
        · cases sends
          rfl
        · rename_i tmp taken takes
          have same : taken.inbound = sock.inbound := by
            unfold getXmitBuf at takes
            split at takes <;> cases takes
            rfl
          rw [inductionHypothesis sends, enqueue_inbound]
          exact same
    · cases sends
      rfl

theorem send_inbound {fuel : Nat} {userBuf : Text} {answer : Int}
    {sock after : TcpSocket rcvBufSize} (sends : sock.send fuel userBuf = some (answer, after)) :
    after.inbound = sock.inbound := by
  unfold send at sends
  split at sends
  · cases sends
    rfl
  · split at sends
    · cases sends
      rfl
    · obtain ⟨done, loops, equal⟩ := Option.map_eq_some_iff.mp sends
      cases equal
      exact sendLoop_inbound loops

/-- Closing our own side only changes the phase: to the end of the connection, or where both sides
opened it. -/
theorem closeLocal_inbound (sock : TcpSocket rcvBufSize) :
    ∃ phase, sock.closeLocal.inbound = { sock.inbound with phase } ∧
      (phase = sock.inbound.phase ∨ phase = .closed ∨ sock.inbound.phase = .crossed) := by
  have sendFin (state : TcpState) :
      (if sock.outgoing.items.length = 0 then { sock with state }.enqueueConnectPacket
        else { sock with state }).inbound = { sock.inbound with phase := phaseOf state } := by
    split
    · exact enqueueConnectPacket_inbound _
    · rfl
  refine ⟨sock.closeLocal.inbound.phase, ?_, ?_⟩ <;> unfold closeLocal
  · cases state : sock.state <;> dsimp only
    case established => rw [sendFin]
    case closeWait => rw [sendFin]
    case synRecved => rw [sendFin]
    all_goals rfl
  · cases state : sock.state <;> dsimp only
    case established => exact .inl (by rw [sendFin, inbound, state]; rfl)
    case closeWait => exact .inl (by rw [sendFin, inbound, state]; rfl)
    case synRecved => exact .inr (.inr (congrArg phaseOf state))
    case closed => exact .inr (.inl rfl)
    case synSent => exact .inr (.inl rfl)
    case listen => exact .inr (.inl rfl)
    case timeWait => exact .inr (.inl rfl)
    all_goals exact .inl (by rw [inbound, state])

end TcpSocket

/-! ### Packets -/

section Packets

variable {rcvBufSize : Nat}

/-- The data of a packet is acknowledged: it is tossed, handed on with its packet, or stored. -/
inductive TakesData (packet : Packet) (before : Inbound rcvBufSize) :
    Inbound rcvBufSize → Prop where
  | tossed (disabled : before.disableReads = true) : TakesData packet before
      { before with ackNum := before.ackNum + BitVec.ofNat 32 packet.incomingDataLen }
  | queued (none : before.rcvBuffer = none) : TakesData packet before
      { before with ackNum := before.ackNum + BitVec.ofNat 32 packet.incomingDataLen }
  | stored {buffer longer : ReceiveBuffer rcvBufSize} (enabled : before.disableReads = false)
      (here : before.rcvBuffer = some buffer)
      (adds : buffer.addToRcvBuf packet.userData packet.incomingDataLen = .ok (some longer)) :
      TakesData packet before { before with
        ackNum := before.ackNum + BitVec.ofNat 32 packet.incomingDataLen,
        rcvBuffer := some longer }

/-- What the code bits of an acceptable packet change. -/
inductive TurnsState (packet : Packet) (before : Inbound rcvBufSize) :
    Inbound rcvBufSize → Prop where
  | stays : TurnsState packet before before
  | finishes (fin : packet.header.codeBits.fin = true) (receiving : before.phase = .receiving) :
      TurnsState packet before { before with phase := .finished, ackNum := before.ackNum + 1 }
  | opens (crossed : before.phase = .crossed) :
      TurnsState packet before { before with phase := .receiving }
  | closes (finished : before.phase = .finished) :
      TurnsState packet before before.closed

/-- Everything that a packet can do to the receiving side. -/
inductive Receives (packet : Packet) (before : Inbound rcvBufSize) : Inbound rcvBufSize → Prop where
  | keeps : Receives packet before before
  | resets : Receives packet before before.destroyed
  | opens (opening : before.phase = .opening) (syn : packet.header.codeBits.syn = true) :
      Receives packet before { before with
        phase := if packet.header.codeBits.ack then .receiving else .crossed,
        ackNum := packet.header.seqnum + 1 }
  | accepts {middle after : Inbound rcvBufSize} (data : packet.header.codeBits.rst = false)
      (open' : before.phase ≠ .opening ∧ before.phase ≠ .closed)
      (proper : before.phase = .crossed ∨ packet.header.seqnum = before.ackNum)
      (takes : (packet.incomingDataLen = 0 ∧ middle = before) ∨ TakesData packet before middle)
      (turns : TurnsState packet middle after) : Receives packet before after

namespace TcpSocket

/-- What is behind the data of a packet: the data is taken, or the code plays dead. -/
theorem processPacketData_spec {sock after : TcpSocket rcvBufSize} {packet : Packet}
    {playDead : Bool} (processes : sock.processPacketData packet = .ok (playDead, after)) :
    (playDead = true ∧ after = sock) ∨
      (playDead = false ∧ TakesData packet sock.inbound after.inbound) := by
  unfold processPacketData at processes
  dsimp only at processes
  split at processes
  · rename_i disabled
    cases processes
    exact .inr ⟨rfl, .tossed disabled⟩
  · rename_i enabled
    split at processes
    · rename_i none
      split at processes
      · cases processes
        exact .inr ⟨rfl, .queued none⟩
      · cases processes
        exact .inl ⟨rfl, rfl⟩
    · rename_i buffer here
      obtain ⟨longer, adds, goesOn⟩ := bind_eq_ok processes
      cases longer with
      | none =>
        cases goesOn
        exact .inl ⟨rfl, rfl⟩
      | some longer =>
        cases goesOn
        exact .inr ⟨rfl, .stored (Bool.eq_false_iff.mpr enabled) here adds⟩

/-- A packet whose FIN bit is looked at. -/
theorem turns_fin {sock : TcpSocket rcvBufSize} {packet : Packet} {state : TcpState}
    (receiving : phaseOf sock.state = .receiving) (finished : phaseOf state = .finished)
    (fin : packet.header.codeBits.fin = true) :
    TurnsState packet sock.inbound { sock with state, ackNum := sock.ackNum + 1 }.inbound := by
  have turned : { sock with state, ackNum := sock.ackNum + 1 }.inbound =
      { sock.inbound with phase := .finished, ackNum := sock.inbound.ackNum + 1 } :=
    Inbound.ext finished rfl rfl rfl
  rw [turned]
  exact .finishes fin receiving

/-- A change of the state within a phase. -/
theorem turns_within {sock : TcpSocket rcvBufSize} {packet : Packet} {state : TcpState}
    (same : phaseOf state = phaseOf sock.state) :
    TurnsState packet sock.inbound { sock with state }.inbound := by
  have turned : { sock with state }.inbound = sock.inbound := Inbound.ext same rfl rfl rfl
  rw [turned]
  exact .stays

theorem changeState_spec (sock : TcpSocket rcvBufSize) (arp : Bool) (packet : Packet) :
    TurnsState packet sock.inbound (sock.changeState arp packet).2.inbound := by
  unfold changeState
  cases state : sock.state <;> dsimp only
  case established =>
    split
    · exact turns_fin (by rw [state]; rfl) rfl ‹_›
    · exact .stays
  case sendFin1 =>
    split
    · exact turns_fin (by rw [state]; rfl) rfl ‹_›
    · exact .stays
  case synRecved =>
    have crossed : sock.inbound.phase = .crossed := congrArg phaseOf state
    split
    · exact .opens crossed
    · dsimp only
      rw [sendResetPacket_inbound, clearQueues_inbound]
      exact .stays
  case lastAck => exact .closes (congrArg phaseOf state)
  case finWait1 =>
    split
    · exact turns_fin (by rw [state]; rfl) (by split <;> rfl) ‹_›
    · dsimp only
      split
      · exact turns_within (by rw [state]; rfl)
      · exact .stays
  case finWait2 =>
    split
    · exact turns_fin (by rw [state]; rfl) rfl ‹_›
    · exact .stays
  case closing =>
    split
    · exact turns_within (by rw [state]; rfl)
    · exact .stays
  all_goals exact .stays

theorem processAcceptable_spec {sock after : TcpSocket rcvBufSize} {now : Nat} {arp : Bool}
    {packet : Packet} {generatePkt : Bool} (data : packet.header.codeBits.rst = false)
    (open' : sock.inbound.phase ≠ .opening ∧ sock.inbound.phase ≠ .closed)
    (proper : sock.inbound.phase = .crossed ∨ packet.header.seqnum = sock.inbound.ackNum)
    (processes : sock.processAcceptable now arp packet = .ok (generatePkt, after)) :
    Receives packet sock.inbound after.inbound := by
  unfold processAcceptable at processes
  dsimp only at processes
  have acked := sock.processAck_inbound now packet
  split at processes
  · obtain ⟨⟨playDead, middle⟩, handled, goesOn⟩ := bind_eq_ok processes
    rcases processPacketData_spec handled with ⟨rfl, rfl⟩ | ⟨rfl, takes⟩
    · cases goesOn
      rw [acked]
      exact .keeps
    · cases goesOn
      rw [acked] at takes
      exact .accepts data open' proper (.inr takes) (changeState_spec _ _ _)
  · rename_i empty
    have turns := (sock.processAck now packet).changeState_spec arp packet
    rw [Except.ok.inj processes, acked] at turns
    exact .accepts data open' proper (.inl ⟨not_not.mp empty, rfl⟩) turns

theorem setMaxEnqueueSize_spec {sock after : TcpSocket rcvBufSize} {fuel : Nat} {packet : Packet}
    (sets : sock.setMaxEnqueueSize fuel packet = .ok after) : after.inbound = sock.inbound := by
  obtain ⟨remoteMSS, -, done⟩ := bind_eq_ok sets
  cases done
  rfl

theorem processSynSent_spec {sock after : TcpSocket rcvBufSize} {fuel now : Nat} {arp : Bool}
    {packet : Packet} {generatePkt : Bool} (opening : sock.state = .synSent)
    (processes : sock.processSynSent fuel now arp packet = .ok (generatePkt, after)) :
    Receives packet sock.inbound after.inbound := by
  have phase : sock.inbound.phase = .opening := congrArg phaseOf opening
  unfold processSynSent at processes
  dsimp only at processes
  split at processes
  · split at processes
    · cases processes
      exact destroy_inbound sock ▸ .resets
    · cases processes
      exact .keeps
  · split at processes
    · rename_i syn
      split at processes
      · rename_i ack
        split at processes
        · obtain ⟨next, sets, done⟩ := bind_eq_ok processes
          cases done
          have opened := setMaxEnqueueSize_spec sets
          have removed := sock.removeSentPackets_inbound now packet.header.acknum
          have shape : ({ next with remoteWindow := packet.header.window } :
              TcpSocket rcvBufSize).inbound = { sock.inbound with
                phase := if packet.header.codeBits.ack then .receiving else .crossed,
                ackNum := packet.header.seqnum + 1 } := by
            rw [if_pos ack, ← removed]
            exact opened
          rw [shape]
          exact .opens phase syn
        · cases processes
          rw [sendResetPacket_inbound]
          exact .keeps
      · rename_i ack
        obtain ⟨next, sets, done⟩ := bind_eq_ok processes
        cases done
        have opened := setMaxEnqueueSize_spec sets
        have shape : next.inbound = { sock.inbound with
            phase := if packet.header.codeBits.ack then .receiving else .crossed,
            ackNum := packet.header.seqnum + 1 } := by
          rw [if_neg ack]
          exact opened
        rw [enqueueConnectPacket_inbound, clearQueues_inbound]
        exact shape ▸ .opens phase syn
    · cases processes
      rw [sendResetPacket_inbound]
      exact .keeps

theorem processBranches_spec {sock after : TcpSocket rcvBufSize} {fuel now : Nat} {arp : Bool}
    {packet : Packet} {generatePkt : Bool} (open' : sock.state ≠ .closed)
    (processes : sock.processBranches fuel now arp packet = .ok (generatePkt, after)) :
    Receives packet sock.inbound after.inbound := by
  unfold processBranches at processes
  split at processes
  · exact processSynSent_spec ‹_› processes
  · rename_i notOpening
    split at processes
    · split at processes
      · cases processes
        exact destroy_inbound sock ▸ .resets
      · cases processes
        exact .keeps
    · rename_i data
      split at processes
      · rename_i acceptable
        simp only [Bool.and_eq_true, isIncomingSeqProper, Bool.or_eq_true, decide_eq_true_eq]
          at acceptable
        refine processAcceptable_spec (Bool.eq_false_iff.mpr data)
          ⟨fun opening => notOpening (phaseOf_opening opening),
            fun closed => open' (phaseOf_closed closed)⟩ ?_ processes
        rcases acceptable.2 with next | ⟨crossed, -⟩
        · exact .inr next
        · exact .inl (show phaseOf sock.state = .crossed by rw [crossed]; rfl)
      · cases processes
        have same : (sock.sendPureAck arp false).countSeqError.inbound = sock.inbound :=
          sendPureAck_inbound sock arp false
        rw [same]
        exact .keeps

/-- The spec lemma of `Tcp::process`. -/
theorem process_spec {sock after : TcpSocket rcvBufSize} {fuel now : Nat} {arp : Bool}
    {packet : Packet} (processes : sock.process fuel now arp packet = .ok after) :
    Receives packet sock.inbound after.inbound := by
  unfold process at processes
  split at processes
  · cases processes
    rw [sendResetPacket_inbound]
    exact .keeps
  · rename_i live
    simp only [Bool.or_eq_true, decide_eq_true_eq, not_or] at live
    obtain ⟨⟨generatePkt, middle⟩, processed, done⟩ := bind_eq_ok processes
    have same : after.inbound = middle.inbound := by
      rw [← Except.ok.inj done]
      split
      · exact enqueueConnectPacket_inbound middle
      · rfl
    rw [same]
    exact processBranches_spec live.1.2 processed

end TcpSocket

end Packets

end Nosgem.Tcp
