/-
This file shows that every function of a socket makes some moves, one after the
other, so that what the moves keep is kept by every run: the buffers of the pool,
and the diagram of the states.

The one place where the order of things matters is `TcpSocket::send`, which fills
a buffer before it looks at the packet it may discard; a free buffer is not in the
queues, so the two do not meet.
-/

import Nosgem.TcpMoves
import Nosgem.TcpStream

namespace Nosgem.Tcp

open CText Buffers Relation

namespace TcpSocket

variable {rcvBufSize : Nat} {user : Prop}

/-! ### Queueing -/

@[simp] theorem setBuffer_self (sock : TcpSocket rcvBufSize) (id : BufId) (buf : TcpBuffer) :
    (sock.setBuffer id buf).buffers id = buf := Function.update_self _ _ _

theorem returnXmitBuf_outbound (sock : TcpSocket rcvBufSize) (id : BufId) :
    (sock.returnXmitBuf id).outbound =
      { sock.outbound with free := giveBack sock.outbound.free id } := by
  cases id <;> rfl

theorem foldl_returnXmitBuf_outbound (sock : TcpSocket rcvBufSize) (ids : List BufId) :
    (ids.foldl returnXmitBuf sock).outbound =
      { sock.outbound with free := ids.foldl giveBack sock.xmitBuffers } := by
  induction ids generalizing sock with
  | nil => rfl
  | cons id ids inductionHypothesis =>
    rw [List.foldl_cons, inductionHypothesis, List.foldl_cons, returnXmitBuf_outbound]
    cases id <;> rfl

theorem clearQueues_outbound (sock : TcpSocket rcvBufSize) :
    sock.clearQueues.outbound = { sock.outbound with
      outgoing := [], sent := [],
      free := (sock.outbound.outgoing ++ sock.outbound.sent).foldl giveBack
        sock.outbound.free } := by
  have freed := sock.foldl_returnXmitBuf_outbound (sock.outgoing.items ++ sock.sent.items)
  have cleared : sock.clearQueues.outbound = { ((sock.outgoing.items ++ sock.sent.items).foldl
      returnXmitBuf sock).outbound with outgoing := [], sent := [] } := rfl
  rw [cleared, freed]
  rfl

theorem moves_clearQueues {sock : TcpSocket rcvBufSize} (crossed : sock.state = .synRecved) :
    Moves user sock.outbound sock.clearQueues.outbound := by
  rw [clearQueues_outbound]
  exact .single (.clears crossed)

theorem moves_destroy (sock : TcpSocket rcvBufSize) :
    Moves user sock.outbound sock.destroy.outbound := by
  have destroyed : sock.destroy.outbound =
      { sock.clearQueues.outbound with state := .closed } := rfl
  rw [destroyed, clearQueues_outbound]
  exact .single .destroys

/-- A packet is discarded or not; nothing but the queue and the pool changes. -/
theorem discardAck_cases (sock : TcpSocket rcvBufSize) :
    sock.discardAck = sock ∨ ∃ first, sock.state = .established ∧ sock.outgoing.items = [first] ∧
      (sock.buffers first).data = [] ∧ sock.discardAck.outbound =
        { sock.outbound with outgoing := [], free := giveBack sock.outbound.free first } := by
  unfold discardAck
  split
  · rename_i first only
    split
    · rename_i alone
      have emptied : sock.outgoing.dequeue.items = [] := congrArg List.tail only
      refine .inr ⟨first, alone.1, only, List.eq_nil_of_length_eq_zero alone.2, ?_⟩
      rw [returnXmitBuf_outbound]
      simp [outbound, emptied]
    · exact .inl rfl
  · exact .inl rfl

theorem moves_discardAck (sock : TcpSocket rcvBufSize) :
    Moves user sock.outbound sock.discardAck.outbound := by
  rcases sock.discardAck_cases with same | ⟨first, established, only, empty, discarded⟩
  · rw [same]
  · rw [discarded]
    exact .single (.discards established only empty)

theorem discardAck_buffers (sock : TcpSocket rcvBufSize) :
    sock.discardAck.buffers = sock.buffers := by
  rcases sock.discardAck_cases with same | ⟨first, -, -, -, discarded⟩
  · rw [same]
  · exact congrArg Outbound.buffers discarded

theorem enqueue_items {Item : Type} {ring longer : Ring Item} {data : Item}
    (enqueues : ring.enqueue data = some longer) : longer.items = ring.items ++ [data] := by
  unfold Ring.enqueue at enqueues
  split at enqueues
  · cases enqueues
    rfl
  · cases enqueues

theorem enqueue_full {Item : Type} {ring : Ring Item} {data : Item}
    (full : ring.enqueue data = none) : ¬ring.items.length < tcpSocketRingSize := by
  unfold Ring.enqueue at full
  split at full
  · cases full
  · assumption

/-- What the queues look like when a buffer was queued. -/
theorem queued_outbound (sock : TcpSocket rcvBufSize) {outgoing : Ring BufId} {id : BufId}
    (enqueues : sock.outgoing.enqueue id = some outgoing) (queued : Text) :
    ({ sock with
      outgoing, pendingOutgoing := sock.pendingOutgoing + 1, queued } :
        TcpSocket rcvBufSize).outbound =
      { sock.outbound with outgoing := sock.outbound.outgoing ++ [id], queued } := by
  unfold outbound
  rw [enqueue_items enqueues]

/-- A buffer that waits for its first sending. -/
def unsent (buf : TcpBuffer) : TcpBuffer :=
  { buf with
    timeSent := 0, attempts := 0, pendingArp := false, wasAckOnly := false,
    forceAckOnly := false, forceProbe := false }

/-- In a state that sends, a buffer that is not too long is queued behind what `discardAck` keeps;
without room there its bookkeeping alone changes. -/
theorem enqueue_cases {sock : TcpSocket rcvBufSize} {id : BufId}
    (sending : ¬(sock.state = .closed ∨ sock.state = .listen ∨ sock.state = .closing ∨
      (sock.state = .timeWait ∧ id ≠ .connectPacket)))
    (fits : (sock.buffers id).data.length ≤ sock.maxEnqueueSize) :
    let ready := sock.discardAck.setBuffer id (unsent (sock.discardAck.buffers id))
    (∃ outgoing, ready.outgoing.enqueue id = some outgoing ∧ (sock.enqueue id).2 =
      { ready with
        outgoing, pendingOutgoing := ready.pendingOutgoing + 1,
        queued := ready.queued ++ (ready.buffers id).data }) ∨
      (ready.outgoing.enqueue id = none ∧ (sock.enqueue id).2 = ready) := by
  intro ready
  unfold enqueue
  rw [if_neg sending, if_neg (not_lt.mpr fits)]
  dsimp only
  split
  · exact .inl ⟨_, ‹_›, rfl⟩
  · exact .inr ⟨‹_›, rfl⟩

theorem moves_enqueueConnectPacket (sock : TcpSocket rcvBufSize) :
    Moves user sock.outbound sock.enqueueConnectPacket.outbound := by
  let emptied := sock.setBuffer .connectPacket { sock.buffers .connectPacket with data := [] }
  have prepared : Moves user sock.outbound emptied.outbound :=
    .single (.prepares rfl rfl rfl id id)
  refine prepared.trans ?_
  show Moves user emptied.outbound (emptied.enqueue .connectPacket).2.outbound
  by_cases sending : emptied.state = .closed ∨ emptied.state = .listen ∨
    emptied.state = .closing ∨ (emptied.state = .timeWait ∧ BufId.connectPacket ≠ .connectPacket)
  · rw [show emptied.enqueue .connectPacket = (tcpRcBad, emptied) from if_pos sending]
  · have discarded : Moves user emptied.outbound _ := emptied.moves_discardAck
    have noData : (emptied.buffers .connectPacket).data = [] := by
      rw [setBuffer_self]
    have cases := enqueue_cases sending (noData ▸ Nat.zero_le _)
    rw [← emptied.discardAck_buffers] at noData
    generalize emptied.discardAck = kept at discarded noData cases
    let ready := kept.setBuffer .connectPacket (unsent (kept.buffers .connectPacket))
    have reset : Moves user kept.outbound ready.outbound :=
      .single (.prepares noData rfl rfl (fun pending => by cases pending)
        (fun probe => by cases probe))
    have buffer := kept.setBuffer_self .connectPacket (unsent (kept.buffers .connectPacket))
    rcases cases with ⟨outgoing, enqueues, result⟩ | ⟨-, result⟩
    · have empty : (ready.buffers .connectPacket).data = [] :=
        (congrArg TcpBuffer.data buffer).trans noData
      refine (discarded.trans reset).tail ?_
      rw [result, queued_outbound _ enqueues, empty, List.append_nil]
      exact .queuesConnect ⟨congrArg TcpBuffer.pendingArp buffer,
        congrArg TcpBuffer.forceProbe buffer⟩
    · rw [result]
      exact discarded.trans reset

/-! ### Sending -/

/-- The state, the number and the header that the first packet of the queue is given. -/
theorem numbers_fillPacket (sock : TcpSocket rcvBufSize) {id : BufId} {rest : List BufId}
    (head : sock.outgoing.items = id :: rest) :
    Numbers sock.outbound id (sock.fillPacket (sock.buffers id)).2.headers
      (sock.fillPacket (sock.buffers id)).1.state (sock.fillPacket (sock.buffers id)).1.seqNum := by
  have only : sock.outgoing.items.length = 1 → sock.outbound.outgoing = [id] := by
    intro one
    rw [head, List.length_cons] at one
    show sock.outgoing.items = [id]
    rw [head, List.eq_nil_of_length_eq_zero (Nat.succ.inj one)]
  have plain {header : TcpHeader} {state : TcpState} {seqNum : SeqNum} (same : sock.state = state)
      (open' : state ≠ .synSent ∧ state ≠ .synRecved)
      (numbers : sock.state ≠ .synSent ∧ sock.state ≠ .synRecved →
        Numbers sock.outbound id header sock.state seqNum) :
      Numbers sock.outbound id header state seqNum := by
    subst same
    exact numbers open'
  unfold fillPacket addCodeBits
  cases state : sock.state <;> dsimp only
  case synSent => exact state ▸ .syn (.inl state) rfl
  case synRecved => exact state ▸ .syn (.inr state) rfl
  case sendFin1 | sendFin2 | sendFin3 =>
    by_cases last : (sock.buffers id).forceAckOnly = false ∧ sock.outgoing.items.length = 1
    · rw [if_pos last]
      exact .fin (congrArg finState state) (only last.2) ⟨rfl, rfl⟩
    · rw [if_neg last]
      exact plain state (by decide) fun open' => .data open' ⟨rfl, rfl⟩ rfl
  all_goals exact plain state (by decide) fun open' => .data open' ⟨rfl, rfl⟩ rfl

/-- An open connection numbers a packet without data with a number that stays unused. -/
theorem fillPacket_pureAck {sock : TcpSocket rcvBufSize} (established : sock.state = .established)
    {buf : TcpBuffer} (empty : buf.data = []) :
    (sock.fillPacket buf).1.outbound = sock.outbound ∧ (sock.fillPacket buf).2.packet.Blank := by
  unfold fillPacket addCodeBits outbound
  rw [established]
  simp [empty, TcpBuffer.packet, Sent.Blank]

theorem moves_sendPureAck (sock : TcpSocket rcvBufSize) (arp forceProbe : Bool) :
    Moves user sock.outbound (sock.sendPureAck arp forceProbe).outbound := by
  unfold sendPureAck
  split
  · exact .refl
  · rename_i established
    obtain ⟨same, blank⟩ := fillPacket_pureAck (not_not.mp established)
      (show ({ forceAckOnly := true, forceProbe } : TcpBuffer).data = [] from rfl)
    unfold sendPacket
    rw [if_neg (show ¬false = true by decide)]
    dsimp only
    split
    · rw [same]
    · rw [← same]
      exact .single (.notes blank)

theorem moves_sendResetPacket (sock : TcpSocket rcvBufSize) (arp : Bool) (packet : Packet) :
    Moves user sock.outbound (sock.sendResetPacket arp packet).outbound := by
  unfold sendResetPacket
  split
  · exact .refl
  · exact .single (.notes ⟨rfl, rfl⟩)

/-- Filling in a packet is the move that numbers it. -/
theorem moves_fillPacket (sock : TcpSocket rcvBufSize) {id : BufId} {rest : List BufId}
    (head : sock.outgoing.items = id :: rest) (unnumbered : (sock.buffers id).pendingArp = false) :
    Move user sock.outbound { (sock.fillPacket (sock.buffers id)).1.outbound with
      buffers := Function.update sock.buffers id
        { (sock.fillPacket (sock.buffers id)).2 with pendingArp := true } } := by
  have numbers := sock.numbers_fillPacket head
  refine .numbers head unnumbered rfl rfl rfl (fun noProbe => ?_) (fun ackOnly => ?_) numbers
  · exact if_neg (Bool.eq_false_iff.mp noProbe)
  · have flag : ((sock.buffers id).wasAckOnly ||
        ((sock.buffers id).data.length = 0 && _)) = true := ackOnly
    rcases (Bool.or_eq_true _ _).mp flag with old | pure
    · exact .inl old
    · have empty := of_decide_eq_true ((Bool.and_eq_true _ _).mp pure).1
      exact .inr (List.eq_nil_of_length_eq_zero empty)

/-- The first packet of the queue has its number when it is sent or waits for an address. -/
theorem sendPacket_spec (sock : TcpSocket rcvBufSize) (arp : Bool) {id : BufId}
    {rest : List BufId} (head : sock.outgoing.items = id :: rest) :
    ∃ numbered : Outbound, Moves user sock.outbound numbered ∧ numbered.outgoing = id :: rest ∧
      numbered.sent = sock.sent.items ∧
      numbered.buffers = Function.update sock.buffers id
        { (sock.sendPacket arp (sock.buffers id)).2 with pendingArp := true } ∧
      (sock.sendPacket arp (sock.buffers id)).1.outbound = { numbered with
        buffers := sock.buffers
        wire := if (sock.sendPacket arp (sock.buffers id)).2.pendingArp then numbered.wire
          else numbered.wire ++ [(sock.sendPacket arp (sock.buffers id)).2.packet] } := by
  unfold sendPacket
  split
  · rename_i pending
    have same : Function.update sock.buffers id { sock.buffers id with pendingArp := true } =
        sock.buffers := by
      rw [← pending]
      exact Function.update_eq_self id sock.buffers
    refine ⟨sock.outbound, .refl, head, rfl, ?_, ?_⟩
    · split <;> exact same.symm
    · split
      · rfl
      · rfl
  · rename_i unnumbered
    refine ⟨_, .single (sock.moves_fillPacket head (Bool.eq_false_iff.mpr unnumbered)), head,
      rfl, ?_, ?_⟩
    · dsimp only
      split <;> rfl
    · dsimp only
      split
      · rfl
      · have noArp : (sock.fillPacket (sock.buffers id)).2.pendingArp = false :=
          Bool.eq_false_iff.mpr unnumbered
        simp only [noArp]
        rfl

/-- The packet that is on its way was handed to the packet driver, and leaves the queue. -/
theorem moves_driveOutgoing (sock : TcpSocket rcvBufSize) (now : Nat) (arp : Bool)
    (entries : Nat) : Moves user sock.outbound (sock.driveOutgoing now arp entries).outbound := by
  induction entries generalizing sock with
  | zero => exact .refl
  | succ entries inductionHypothesis =>
    unfold driveOutgoing
    split
    · exact .refl
    · rename_i id rest head
      split
      · exact .refl
      · rename_i hasRoom
        split
        · split
          · exact moves_sendPureAck { sock with lastAckRcvd := now } arp true
          · exact .refl
        · obtain ⟨numbered, moves, first, others, buffers, done⟩ := sock.sendPacket_spec arp head
          generalize sock.sendPacket arp (sock.buffers id) = result at buffers done ⊢
          obtain ⟨after, buf⟩ := result
          dsimp only at buffers done ⊢
          obtain ⟨state, seqNum, outgoing, sentItems, kept, free, wire, queued⟩ :=
            Outbound.mk.inj done
          have updated (buf' : TcpBuffer) : Function.update after.buffers id buf' =
              Function.update numbered.buffers id buf' := by
            rw [kept, buffers, Function.update_idem]
          have waits : numbered.buffers id = { buf with pendingArp := true } := by
            rw [buffers, Function.update_self]
          have pending : (numbered.buffers id).pendingArp = true :=
            congrArg TcpBuffer.pendingArp waits
          have packet : (numbered.buffers id).packet = buf.packet := by rw [waits]; rfl
          have tail : after.outgoing.items.tail = rest := by
            rw [outgoing, first]
            rfl
          split
          · rename_i waiting
            rw [if_pos waiting] at wire
            have same : buf = numbered.buffers id := by
              rw [waits, ← waiting]
            show Moves user sock.outbound ⟨after.state, after.seqNum, after.outgoing.items,
              after.sent.items, Function.update after.buffers id buf, after.xmitBuffers,
              after.wire, after.queued⟩
            rw [state, seqNum, outgoing, sentItems, updated, free, wire, queued, same,
              Function.update_eq_self]
            exact moves
          · rename_i sent
            rw [if_neg sent, ← packet] at wire
            have unsent := Bool.eq_false_iff.mpr sent
            split
            · rename_i ackOnly
              refine .trans ?_ (inductionHypothesis _)
              rw [returnXmitBuf_outbound]
              show Moves user sock.outbound ⟨after.state, after.seqNum, after.outgoing.items.tail,
                after.sent.items, Function.update after.buffers id _,
                giveBack after.xmitBuffers id, after.wire, after.queued⟩
              rw [state, seqNum, tail, sentItems, updated, free, wire, queued]
              exact moves.tail (.sendsAck first pending packet.symm (by rw [waits]; exact ackOnly)
                unsent (by rw [waits]))
            · split
              · rename_i longer enqueues
                refine .trans ?_ (inductionHypothesis _)
                show Moves user sock.outbound ⟨after.state, after.seqNum, after.outgoing.items.tail,
                  longer.items, Function.update after.buffers id _, after.xmitBuffers, after.wire,
                  after.queued⟩
                rw [enqueue_items enqueues, state, seqNum, tail, updated, free, wire, queued]
                show Moves user sock.outbound ⟨numbered.state, numbered.seqNum, rest,
                  after.sent.items ++ [id], _, _, _, _⟩
                rw [sentItems]
                exact moves.tail (.sends first pending packet.symm unsent (by rw [waits]))
              · rename_i full
                have room : after.sent.items.length < tcpSocketRingSize := by
                  rw [sentItems, others]
                  simpa [Ring.hasRoom] using hasRoom
                exact absurd room (enqueue_full full)

theorem moves_drivePackets (sock : TcpSocket rcvBufSize) (now : Nat) (arp : Bool) :
    Moves user sock.outbound (sock.drivePackets now arp).outbound := by
  unfold drivePackets
  split
  · unfold drivePackets2
    split
    · exact .refl
    · split
      · exact moves_driveOutgoing _ _ _ _
      · rename_i oldest rest head
        split
        · split
          · exact moves_destroy sock
          · exact .single (.resends head rfl rfl rfl)
        · exact moves_driveOutgoing _ _ _ _
  · exact .refl

/-! ### Acknowledgements -/

theorem removeFirst_outbound (sock : TcpSocket rcvBufSize) (now : Nat) {id : BufId}
    {rest : List BufId} (head : sock.sent.items = id :: rest) :
    (sock.removeFirst now id).outbound =
      { sock.outbound with sent := rest, free := giveBack sock.outbound.free id } := by
  have dequeued {rtt : TcpSocket rcvBufSize} (same : rtt.outbound = sock.outbound) :
      ({ rtt with
        sent := rtt.sent.dequeue, pendingSent := rtt.pendingSent - 1 }.returnXmitBuf id).outbound =
      { sock.outbound with sent := rest, free := giveBack sock.outbound.free id } := by
    have taken : ({ rtt with sent := rtt.sent.dequeue, pendingSent := rtt.pendingSent - 1 } :
        TcpSocket rcvBufSize).outbound =
        { rtt.outbound with sent := rtt.outbound.sent.tail } := rfl
    rw [returnXmitBuf_outbound, taken, same]
    exact congrArg (fun sent : List BufId => { sock.outbound with
      sent := sent.tail, free := giveBack sock.outbound.free id }) head
  unfold removeFirst
  dsimp only
  split
  · exact dequeued rfl
  · exact dequeued rfl

theorem moves_removeSentLoop {ids : List BufId} (sock : TcpSocket rcvBufSize) (now : Nat)
    (target : SeqNum) (head : sock.sent.items = ids) :
    Moves user sock.outbound (sock.removeSentLoop now target ids).outbound ∧
      (sock.removeSentLoop now target ids).state = sock.state := by
  induction ids generalizing sock with
  | nil => exact ⟨.refl, rfl⟩
  | cons id rest inductionHypothesis =>
    unfold removeSentLoop
    split
    · have removed := sock.removeFirst_outbound now head
      obtain ⟨moves, state⟩ := inductionHypothesis _ (congrArg Outbound.sent removed)
      rw [removed] at moves
      exact ⟨moves.head (.retires head), state.trans (congrArg Outbound.state removed)⟩
    · exact ⟨.refl, rfl⟩

theorem moves_processAck (sock : TcpSocket rcvBufSize) (now : Nat) (packet : Packet) :
    Moves user sock.outbound (sock.processAck now packet).outbound := by
  have window (sock : TcpSocket rcvBufSize) :
      (sock.updateWindow packet).outbound = sock.outbound := by
    unfold updateWindow
    split <;> rfl
  unfold processAck
  dsimp only
  split
  · rw [window]
    exact (moves_removeSentLoop (sock.countGoodPacket now) now _ rfl).1
  · rw [window]
    exact .refl

/-! ### Packets -/

/-- A change of the state along the diagram. -/
theorem moves_turn {sock : TcpSocket rcvBufSize} {here : TcpState} (state : TcpState)
    (same : sock.state = here) (next : state ∈ nextStates here) :
    Moves user sock.outbound { sock.outbound with state } := by
  subst same
  exact .single (.turns next)

theorem moves_changeState (sock : TcpSocket rcvBufSize) (arp : Bool) (packet : Packet) :
    Moves user sock.outbound (sock.changeState arp packet).2.outbound := by
  unfold changeState
  cases state : sock.state <;> dsimp only
  case established =>
    split
    · exact moves_turn .closeWait state (by decide)
    · exact .refl
  case sendFin1 =>
    split
    · exact moves_turn .sendFin2 state (by decide)
    · exact .refl
  case synRecved =>
    split
    · exact moves_turn .established state (by decide)
    · exact (moves_clearQueues state).trans (moves_sendResetPacket _ arp packet)
  case lastAck => exact moves_turn .closed state (by decide)
  case finWait1 =>
    split
    · refine moves_turn _ state ?_
      dsimp only
      split <;> decide
    · dsimp only
      split
      · exact moves_turn .finWait2 state (by decide)
      · exact .refl
  case finWait2 =>
    split
    · exact moves_turn .timeWait state (by decide)
    · exact .refl
  case closing =>
    split
    · exact moves_turn .timeWait state (by decide)
    · exact .refl
  all_goals exact .refl

theorem processPacketData_outbound {sock after : TcpSocket rcvBufSize} {packet : Packet}
    {playDead : Bool} (processes : sock.processPacketData packet = .ok (playDead, after)) :
    after.outbound = sock.outbound := by
  unfold processPacketData at processes
  dsimp only at processes
  split at processes
  · cases processes
    rfl
  · split at processes
    · split at processes <;> cases processes <;> rfl
    · obtain ⟨longer, -, goesOn⟩ := bind_eq_ok processes
      cases longer <;> cases goesOn <;> rfl

theorem moves_processAcceptable {sock after : TcpSocket rcvBufSize} {now : Nat} {arp : Bool}
    {packet : Packet} {generatePkt : Bool}
    (processes : sock.processAcceptable now arp packet = .ok (generatePkt, after)) :
    Moves user sock.outbound after.outbound := by
  unfold processAcceptable at processes
  dsimp only at processes
  have acked : Moves user sock.outbound _ := sock.moves_processAck now packet
  split at processes
  · obtain ⟨⟨playDead, middle⟩, handled, goesOn⟩ := bind_eq_ok processes
    have same := processPacketData_outbound handled
    split at goesOn
    · cases goesOn
      rw [same]
      exact acked
    · cases goesOn
      rw [← same] at acked
      exact acked.trans (moves_changeState middle arp packet)
  · have changed : Moves user _ _ := (sock.processAck now packet).moves_changeState arp packet
    rw [Except.ok.inj processes] at changed
    exact acked.trans changed

theorem setMaxEnqueueSize_outbound {sock after : TcpSocket rcvBufSize} {fuel : Nat}
    {packet : Packet} (sets : sock.setMaxEnqueueSize fuel packet = .ok after) :
    after.outbound = sock.outbound := by
  obtain ⟨remoteMSS, -, done⟩ := bind_eq_ok sets
  cases done
  rfl

theorem moves_processSynSent {sock after : TcpSocket rcvBufSize} {fuel now : Nat} {arp : Bool}
    {packet : Packet} {generatePkt : Bool} (opening : sock.state = .synSent)
    (processes : sock.processSynSent fuel now arp packet = .ok (generatePkt, after)) :
    Moves user sock.outbound after.outbound := by
  unfold processSynSent at processes
  dsimp only at processes
  split at processes
  · split at processes
    · cases processes
      exact moves_destroy sock
    · cases processes
      exact .refl
  · split at processes
    · split at processes
      · split at processes
        · obtain ⟨next, sets, done⟩ := bind_eq_ok processes
          cases done
          obtain ⟨removed, state⟩ := moves_removeSentLoop sock now packet.header.acknum rfl
          have same := setMaxEnqueueSize_outbound sets
          refine removed.trans ?_
          show Moves user _ next.outbound
          rw [same]
          exact moves_turn .established (state.trans opening) (by decide)
        · cases processes
          exact moves_sendResetPacket sock arp packet
      · obtain ⟨next, sets, done⟩ := bind_eq_ok processes
        cases done
        have same := setMaxEnqueueSize_outbound sets
        have crossed : Moves user sock.outbound
            { next with seqNum := next.seqNum - 1 }.outbound := by
          have shape : { next with seqNum := next.seqNum - 1 }.outbound =
              { next.outbound with seqNum := next.outbound.seqNum - 1 } := rfl
          rw [shape, same]
          exact .single (.crosses opening)
        have state : next.state = .synRecved := congrArg Outbound.state same
        exact (crossed.trans (moves_clearQueues state)).trans (moves_enqueueConnectPacket _)
    · cases processes
      exact moves_sendResetPacket sock arp packet

theorem moves_process {sock after : TcpSocket rcvBufSize} {fuel now : Nat} {arp : Bool}
    {packet : Packet} (processes : sock.process fuel now arp packet = .ok after) :
    Moves user sock.outbound after.outbound := by
  unfold process at processes
  split at processes
  · cases processes
    exact moves_sendResetPacket sock arp packet
  · obtain ⟨⟨generatePkt, middle⟩, processed, done⟩ := bind_eq_ok processes
    have branches : Moves user sock.outbound middle.outbound := by
      unfold processBranches at processed
      split at processed
      · exact moves_processSynSent ‹_› processed
      · split at processed
        · split at processed <;> cases processed
          · exact moves_destroy sock
          · exact .refl
        · split at processed
          · exact moves_processAcceptable processed
          · cases processed
            exact moves_sendPureAck sock arp false
    rw [← Except.ok.inj done]
    split
    · exact branches.trans (moves_enqueueConnectPacket middle)
    · exact branches

/-! ### The calls of the user -/

theorem moves_closeLocal (sock : TcpSocket rcvBufSize) :
    Moves user sock.outbound sock.closeLocal.outbound := by
  have sendFin (here state : TcpState) (same : sock.state = here) (next : state ∈ nextStates here) :
      Moves user sock.outbound (if sock.outgoing.items.length = 0
        then { sock with state }.enqueueConnectPacket else { sock with state }).outbound := by
    have turned : Moves user sock.outbound { sock with state }.outbound :=
      moves_turn state same next
    split
    · exact turned.trans (moves_enqueueConnectPacket _)
    · exact turned
  unfold closeLocal
  cases state : sock.state <;> dsimp only
  case established => exact sendFin _ .sendFin1 state (by decide)
  case closeWait => exact sendFin _ .sendFin2 state (by decide)
  case synRecved => exact sendFin _ .sendFin3 state (by decide)
  case closed => rw [← state]
  case synSent => exact moves_turn .closed state (by decide)
  case listen => exact moves_turn .closed state (by decide)
  case timeWait => exact moves_turn .closed state (by decide)
  all_goals exact .refl

theorem moves_recv {sock after : TcpSocket rcvBufSize} {arp : Bool} {userBufLen : Nat}
    {answer : Int} {bytes : Text}
    (receives : sock.recv arp userBufLen = .ok (answer, bytes, after)) :
    Moves user sock.outbound after.outbound := by
  unfold recv at receives
  split at receives
  · cases receives
    exact .refl
  · split at receives
    · cases receives
      exact .refl
    · split at receives
      · cases receives
        exact .refl
      · obtain ⟨⟨userBuf, taken⟩, -, done⟩ := bind_eq_ok receives
        cases done
        split
        · exact moves_sendPureAck { sock with rcvBuffer := some taken } arp false
        · exact .refl

/-- A free buffer is not in the queues. -/
theorem not_queued_of_free {sock : TcpSocket rcvBufSize} (owned : sock.outbound.pool.Nodup)
    {index : Nat} (free : index ∈ sock.xmitBuffers) : .pool index ∉ sock.outgoing.items := by
  intro queued
  have disjoint := (List.nodup_append.mp owned).2.2
  refine disjoint index ?_ index free rfl
  exact List.mem_filterMap.mpr ⟨.pool index, List.mem_append_left _ queued, rfl⟩

/-- A piece of the user's data is queued in a free buffer. -/
theorem moves_enqueuePiece {sock : TcpSocket rcvBufSize} (established : sock.state = .established)
    (owned : sock.outbound.pool.Nodup) {index : Nat} {rest : List Nat}
    (free : sock.xmitBuffers = index :: rest) (hasRoom : sock.outgoing.hasRoom) {piece : Text}
    (fits : piece.length ≤ sock.maxEnqueueSize) :
    let loaded := { sock with xmitBuffers := rest }.setBuffer (.pool index)
      { sock.buffers (.pool index) with data := piece }
    Moves True sock.outbound (loaded.enqueue (.pool index)).2.outbound ∧
      (loaded.enqueue (.pool index)).2.state = .established := by
  intro loaded
  have piece' : loaded.buffers (.pool index) = { sock.buffers (.pool index) with data := piece } :=
    setBuffer_self _ _ _
  have room : sock.outgoing.items.length < tcpSocketRingSize := by
    simpa [Ring.hasRoom] using hasRoom
  -- the buffer is queued behind what is kept of the queue
  have queue (kept : TcpSocket rcvBufSize) (front : List Nat)
      (buffers : kept.buffers = loaded.buffers) (state : kept.state = .established)
      (freed : kept.xmitBuffers = front ++ rest)
      (before : Moves True sock.outbound
        { kept.outbound with buffers := sock.buffers, free := front ++ index :: rest })
      {outgoing : Ring BufId}
      (enqueues : (kept.setBuffer (.pool index)
        (unsent (kept.buffers (.pool index)))).outgoing.enqueue (.pool index) = some outgoing) :
      let ready := kept.setBuffer (.pool index) (unsent (kept.buffers (.pool index)))
      Moves True sock.outbound ({ ready with
        outgoing, pendingOutgoing := ready.pendingOutgoing + 1,
        queued := ready.queued ++ (ready.buffers (.pool index)).data } :
          TcpSocket rcvBufSize).outbound := by
    intro ready
    rw [queued_outbound _ enqueues]
    have updated : ready.buffers = Function.update sock.buffers (.pool index)
        (ready.buffers (.pool index)) := by
      rw [setBuffer_self]
      show Function.update kept.buffers _ _ = _
      rw [buffers]
      exact Function.update_idem _ _ _
    show Moves True sock.outbound ⟨kept.state, kept.seqNum, kept.outgoing.items ++ [.pool index],
      kept.sent.items, ready.buffers, kept.xmitBuffers, kept.wire,
      kept.queued ++ (ready.buffers (.pool index)).data⟩
    rw [updated, freed, Function.update_self]
    exact before.tail (.queues trivial state rfl (by rw [setBuffer_self]; exact ⟨rfl, rfl, rfl⟩))
  have sending : ¬(loaded.state = .closed ∨ loaded.state = .listen ∨ loaded.state = .closing ∨
      (loaded.state = .timeWait ∧ BufId.pool index ≠ .connectPacket)) := by
    rw [show loaded.state = .established from established]
    simp
  have fits' : (loaded.buffers (.pool index)).data.length ≤ loaded.maxEnqueueSize := by
    rw [piece']
    exact fits
  have cases := enqueue_cases sending fits'
  rcases loaded.discardAck_cases with same | ⟨first, -, only, empty, discarded⟩
  · rw [same] at cases
    rcases cases with ⟨outgoing, enqueues, result⟩ | ⟨full, -⟩
    · rw [result]
      refine ⟨queue loaded [] rfl established rfl ?_ enqueues, established⟩
      rw [List.nil_append, ← free]
      exact .refl
    · exact absurd room (enqueue_full full)
  · have other : first ≠ .pool index := by
      rintro rfl
      refine not_queued_of_free owned (free ▸ List.mem_cons_self) ?_
      rw [show sock.outgoing.items = [.pool index] from only]
      exact List.mem_singleton.mpr rfl
    have noData : (sock.buffers first).data = [] := by
      rw [← empty]
      exact congrArg TcpBuffer.data (Function.update_of_ne other _ sock.buffers).symm
    obtain ⟨state, seqNum, emptied, sentItems, buffers, freed, wire, queued⟩ :=
      Outbound.mk.inj discarded
    rcases cases with ⟨outgoing, enqueues, result⟩ | ⟨full, -⟩
    · rw [result]
      refine ⟨queue loaded.discardAck (giveBack [] first) buffers (state.trans established) ?_ ?_
        enqueues, state.trans established⟩
      · rw [freed]
        cases first <;> rfl
      · show Moves True sock.outbound ⟨loaded.discardAck.state, loaded.discardAck.seqNum,
          loaded.discardAck.outgoing.items, loaded.discardAck.sent.items, sock.buffers,
          giveBack [] first ++ index :: rest, loaded.discardAck.wire, loaded.discardAck.queued⟩
        rw [state, seqNum, emptied, sentItems, wire, queued,
          show giveBack [] first ++ index :: rest = giveBack sock.xmitBuffers first by
            rw [free]; cases first <;> rfl]
        exact .single (.discards established only noData)
    · refine absurd ?_ (enqueue_full full)
      rw [show (loaded.discardAck.setBuffer _ _).outgoing.items = [] from emptied]
      decide

/-- The loop of `TcpSocket::send` takes a free buffer for every piece. -/
theorem moves_sendLoop {fuel bytesSent sent : Nat} {userBuf : Text}
    {sock after : TcpSocket rcvBufSize} (established : sock.state = .established)
    (owned : sock.outbound.pool.Nodup)
    (sends : sock.sendLoop userBuf fuel bytesSent = some (sent, after)) :
    Moves True sock.outbound after.outbound := by
  induction fuel generalizing sock bytesSent with
  | zero => cases sends
  | succ fuel inductionHypothesis =>
    unfold sendLoop at sends
    split at sends
    · split at sends
      · cases sends
        exact .refl
      · rename_i hasRoom
        split at sends
        · cases sends
          exact .refl
        · rename_i tmp taken takes
          obtain ⟨index, rest, free, rfl, rfl⟩ : ∃ index rest, sock.xmitBuffers = index :: rest ∧
              tmp = .pool index ∧ taken = { sock with xmitBuffers := rest } := by
            unfold getXmitBuf at takes
            split at takes
            · cases takes
            · rename_i index rest free
              cases takes
              exact ⟨index, rest, free, rfl, rfl⟩
          have fits : ((userBuf.drop bytesSent).take (min sock.getSuggestedSendSize
              (userBuf.length - bytesSent))).length ≤ sock.maxEnqueueSize := by
            have suggested : sock.getSuggestedSendSize ≤ sock.maxEnqueueSize := by
              unfold getSuggestedSendSize
              split <;> omega
            rw [List.length_take]
            omega
          obtain ⟨moves, state⟩ := moves_enqueuePiece established owned free
            (by simpa using hasRoom) fits
          exact moves.trans (inductionHypothesis state (moves.pool.nodup_iff.mpr owned) sends)
    · cases sends
      exact .refl

/-! ### Every step -/

/-- The step lemma for packets, timers and the calls of the user that send nothing. -/
theorem moves_other {sock next : TcpSocket rcvBufSize} {event : Event} {got : Text}
    (other : ¬event.IsSend) (steps : sock.step event = .ok (got, next)) :
    Moves user sock.outbound next.outbound := by
  cases event with
  | packet fuel now arp packet =>
    obtain ⟨after, processed, done⟩ := bind_eq_ok steps
    cases done
    exact moves_process processed
  | drivePackets now arp =>
    cases steps
    exact moves_drivePackets sock now arp
  | recv arp userBufLen =>
    obtain ⟨⟨answer, bytes, after⟩, received, done⟩ := bind_eq_ok steps
    cases done
    exact moves_recv received
  | send fuel userBuf => exact absurd trivial other
  | closeNonblocking now =>
    cases steps
    exact moves_closeLocal { sock with
      closeStarted := if sock.closeStarted = 0 then now else sock.closeStarted }
  | isCloseDone now =>
    cases steps
    unfold isCloseDone
    split
    · exact moves_destroy sock
    · split
      · exact .refl
      · exact moves_destroy sock
  | shutdown how =>
    cases steps
    unfold shutdown
    split
    · exact .refl
    · exact moves_closeLocal sock
    · exact moves_closeLocal { sock with disableReads := true }
    · exact .refl

/-- The step lemma: every event makes some moves. -/
theorem moves_step {sock next : TcpSocket rcvBufSize} {event : Event} {got : Text}
    (owned : sock.outbound.pool.Nodup) (steps : sock.step event = .ok (got, next)) :
    Moves True sock.outbound next.outbound := by
  cases event with
  | send fuel userBuf =>
    unfold step at steps
    dsimp only at steps
    split at steps
    · cases steps
    · rename_i answer after sends
      cases steps
      unfold send at sends
      split at sends
      · cases sends
        exact .refl
      · rename_i established
        split at sends
        · cases sends
          exact .refl
        · obtain ⟨done, loops, equal⟩ := Option.map_eq_some_iff.mp sends
          cases equal
          exact moves_sendLoop (not_not.mp established) owned loops
  | _ => exact moves_other id steps

end TcpSocket

/-- The run lemma. -/
theorem Runs.moves {rcvBufSize : Nat} {sock last : TcpSocket rcvBufSize} {events : List Event}
    {bytes : Text} (runs : Runs sock events bytes last) (owned : sock.outbound.pool.Nodup) :
    Moves True sock.outbound last.outbound := by
  induction runs with
  | refl sock => exact .refl
  | step steps _ inductionHypothesis =>
    have moves := TcpSocket.moves_step owned steps
    exact moves.trans (inductionHypothesis (moves.pool.nodup_iff.mpr owned))

/-! ### What every run keeps -/

section Results

variable {rcvBufSize : Nat} {sock last : TcpSocket rcvBufSize} {events : List Event} {bytes : Text}

/-- Whatever comes in and whatever the user does: every transmit buffer is free or in one place of
one queue, none is lost, and none is given back twice. -/
theorem runs_buffers (runs : Runs sock events bytes last) (owned : sock.outbound.pool.Nodup) :
    last.outbound.pool.Nodup ∧ last.outbound.pool.Perm sock.outbound.pool := by
  have same := (runs.moves owned).pool
  exact ⟨same.nodup_iff.mpr owned, same⟩

theorem runs_buffers_short : ∃ last, Runs shortSocket shortEvents (text "ok") last ∧
    last.outbound.pool.Perm [0] := by
  obtain ⟨last, runs, -⟩ := shortEvents_run
  exact ⟨last, runs, (runs_buffers runs (by decide)).2⟩

/-- The diagram of the states. -/
inductive Edge : TcpState → TcpState → Prop where
  | next {here state : TcpState} (next : state ∈ nextStates here) : Edge here state
  | crosses : Edge .synSent .synRecved
  | fin {here state : TcpState} (sent : finState here = some state) : Edge here state
  | destroyed {here : TcpState} : Edge here .closed

theorem Move.edge {user : Prop} {o o' : Outbound} (move : Move user o o') :
    o'.state = o.state ∨ Edge o.state o'.state := by
  cases move with
  | turns next => exact .inr (.next next)
  | crosses opening => exact .inr (opening ▸ .crosses)
  | destroys => exact .inr .destroyed
  | numbers _ _ _ _ _ _ _ numbers =>
    cases numbers with
    | syn => exact .inl rfl
    | fin closing => exact .inr (.fin closing)
    | data => exact .inl rfl
  | _ => exact .inl rfl

theorem Moves.diagram {user : Prop} {o o' : Outbound} (moves : Moves user o o') :
    ReflTransGen Edge o.state o'.state :=
  moves.keep (fun last => ReflTransGen Edge o.state last.state)
    (fun path move => by
      rcases move.edge with same | edge
      · rwa [same]
      · exact path.tail edge) .refl

/-- The states in which the other side is closed. -/
def IsGone (state : TcpState) : Prop := phaseOf state = .finished ∨ phaseOf state = .closed

/-- The states from which the user may still queue data. -/
def MayQueue (state : TcpState) : Prop :=
  state = .synSent ∨ state = .synRecved ∨ state = .established

instance : DecidablePred IsGone := fun _ => inferInstanceAs (Decidable (_ ∨ _))

instance : DecidablePred MayQueue := fun _ => inferInstanceAs (Decidable (_ ∨ _ ∨ _))

theorem isRemoteClosed_iff (sock : TcpSocket rcvBufSize) :
    sock.isRemoteClosed ↔ IsGone sock.state := by
  unfold TcpSocket.isRemoteClosed IsGone
  cases sock.state <;> simp [phaseOf]

/-- Along the diagram a side that is closed stays closed. -/
theorem Edge.closed {here state : TcpState} (edge : Edge here state) :
    (IsGone here → IsGone state) ∧ (¬MayQueue here → ¬MayQueue state) := by
  cases edge with
  | next next =>
    have all : ∀ state ∈ nextStates here,
        (IsGone here → IsGone state) ∧ (¬MayQueue here → ¬MayQueue state) := by
      cases here <;> decide
    exact all state next
  | crosses => decide
  | fin sent =>
    have all : ∀ state ∈ finState here,
        (IsGone here → IsGone state) ∧ (¬MayQueue here → ¬MayQueue state) := by
      cases here <;> decide
    exact all state sent
  | destroyed => exact ⟨fun _ => by decide, fun _ => by decide⟩

theorem Move.queued {user : Prop} {o o' : Outbound} (move : Move user o o')
    (closing : ¬MayQueue o.state) : o'.queued = o.queued := by
  cases move with
  | queues _ established => exact absurd (.inr (.inr established)) closing
  | _ => rfl

/-- In every run the state follows the diagram. A side that is closed stays closed: the other one
for the user that polls it, and ours for the data that the user may still queue. -/
theorem runs_diagram (runs : Runs sock events bytes last) (owned : sock.outbound.pool.Nodup) :
    ReflTransGen Edge sock.state last.state ∧
      (sock.isRemoteClosed → last.isRemoteClosed) ∧
      (¬MayQueue sock.state → last.queued = sock.queued) := by
  have moves := runs.moves owned
  refine ⟨moves.diagram, fun gone => ?_, fun closing => ?_⟩
  · rw [isRemoteClosed_iff] at gone ⊢
    refine moves.keep (fun last => IsGone last.state) (fun gone move => ?_) gone
    rcases move.edge with same | edge
    · rwa [same]
    · exact edge.closed.1 gone
  · refine (moves.keep (fun last => ¬MayQueue last.state ∧ last.queued = sock.queued)
      (fun kept move => ?_) ⟨closing, rfl⟩).2
    refine ⟨?_, (move.queued kept.1).trans kept.2⟩
    rcases move.edge with same | edge
    · rw [same]
      exact kept.1
    · exact edge.closed.2 kept.1

/-- The user says `hi`, and then the other side closes. -/
def goneEvents : List Event :=
  [.drivePackets 0 false, .packet 9 0 false (shortPacket 100 18 []), .send 9 (text "hi"),
    .packet 9 0 false (shortPacket 101 17 [])]

/-- The user tries to say more, and closes. -/
def closingEvents : List Event := [.send 9 (text "x"), .closeNonblocking 1, .drivePackets 1 false]

/-- The other side has closed: it stays closed, nothing more is queued, and our side goes the rest
of the way. -/
theorem runs_diagram_closing : ∃ middle last, Runs shortSocket goneEvents [] middle ∧
    Runs middle closingEvents [] last ∧ last.state = .lastAck ∧
    ReflTransGen Edge .closeWait last.state ∧ last.isRemoteClosed ∧ last.queued = text "hi" := by
  have start : Runs shortSocket goneEvents _ _ :=
    .step rfl (.step rfl (.step rfl (.step rfl (.refl _))))
  have whole : Runs shortSocket (goneEvents ++ closingEvents) _ _ :=
    .step rfl (.step rfl (.step rfl (.step rfl (.step rfl (.step rfl (.step rfl (.refl _)))))))
  obtain ⟨back, closing, none⟩ := whole.rest start
  obtain rfl : [] = back := none
  obtain ⟨path, gone, still⟩ := runs_diagram closing (by decide)
  exact ⟨_, _, start, closing, rfl, path, gone rfl, still (by decide)⟩

end Results

end Nosgem.Tcp
