/-
This file proves what a TCP socket puts on the wire. Whatever packets come in,
in whatever order, and whatever the user and the timers do: every packet that is
handed to the packet driver, for the first time or again, carries nothing, or it
carries bytes that the user queued, at the number of these bytes, and a FIN stands
only behind the last of them. No queued byte is skipped: those that do not wait in
the queue have been sent.

The invariant has three sides. Before the connection is open nothing is queued and
the numbers do not matter; where both sides open it, the number of the SYN even
moves. While it is open the next number is the number of the first byte that
waits. Behind the FIN nothing waits any more.
-/

import Nosgem.TcpOutbound

namespace Nosgem.Tcp

open CText Buffers Relation

/-! ### Packets and their numbers -/

/-- A packet that carries nothing, or a piece of a stream at its number, to the end of the stream
if it has the FIN bit. -/
def Sent.IsPiece (base : SeqNum) (stream : Text) (packet : Sent) : Prop :=
  packet.Blank ∨
    (packet.header.codeBits.syn = false ∧ packet.header.codeBits.rst = false) ∧
      ∃ offset ≤ stream.length, packet.header.seqnum = base + BitVec.ofNat 32 offset ∧
        packet.data <+: stream.drop offset ∧
        (packet.header.codeBits.fin → offset + packet.data.length = stream.length)

/-- A packet carries the byte at an offset. -/
def Sent.Covers (base : SeqNum) (offset : Nat) (packet : Sent) : Prop :=
  ∃ first ≤ offset, packet.header.seqnum = base + BitVec.ofNat 32 first ∧
    offset < first + packet.data.length

theorem Sent.not_covers {base : SeqNum} {offset : Nat} {packet : Sent} (empty : packet.data = []) :
    ¬packet.Covers base offset := by
  rintro ⟨first, above, -, below⟩
  rw [empty, List.length_nil] at below
  omega

/-- Pieces stay pieces of a longer stream. -/
theorem Sent.IsPiece.grow {base : SeqNum} {stream : Text} {packet : Sent}
    (piece : packet.IsPiece base stream) (noFin : packet.header.codeBits.fin = false)
    (more : Text) : packet.IsPiece base (stream ++ more) := by
  refine piece.imp_right ?_
  rintro ⟨plain, offset, inside, number, front, -⟩
  refine ⟨plain, offset, by rw [List.length_append]; omega, number, ?_, fun fin => ?_⟩
  · rw [List.drop_append_of_le_length inside]
    exact front.trans (List.prefix_append _ _)
  · rw [noFin] at fin
    cases fin

/-- The pieces of an empty stream carry nothing. -/
theorem Sent.IsPiece.blank {base : SeqNum} {packet : Sent} (piece : packet.IsPiece base [])
    (noFin : packet.header.codeBits.fin = false) : packet.Blank := by
  rcases piece with blank | ⟨-, offset, -, -, front, -⟩
  · exact blank
  · rw [List.drop_nil] at front
    exact ⟨List.prefix_nil.mp front, noFin⟩

/-! ### What the queues hold -/

/-- The bytes of a buffer that have no number yet. -/
def TcpBuffer.unnumbered (buf : TcpBuffer) : Text := if buf.pendingArp then [] else buf.data

/-- The bytes that wait for their numbers. -/
def Outbound.waiting (o : Outbound) : Text := o.outgoing.flatMap fun id => (o.buffers id).unnumbered

/-- The packets that have their numbers: on the wire, waiting for an acknowledgement, or waiting for
an address. -/
inductive Outbound.Tracks (o : Outbound) : Sent → Prop where
  | wire {packet : Sent} (sent : packet ∈ o.wire) : Tracks o packet
  | sent {id : BufId} (waits : id ∈ o.sent) : Tracks o (o.buffers id).packet
  | pending {id : BufId} (queued : id ∈ o.outgoing) (waits : (o.buffers id).pendingArp = true) :
      Tracks o (o.buffers id).packet

/-- With shorter queues nothing else is tracked. -/
theorem Outbound.Tracks.mono {o o' : Outbound} {packet : Sent} (tracked : o'.Tracks packet)
    (wire : o'.wire = o.wire) (buffers : o'.buffers = o.buffers) (sent : o'.sent ⊆ o.sent)
    (outgoing : o'.outgoing ⊆ o.outgoing) : o.Tracks packet := by
  cases tracked with
  | wire member => exact .wire (wire ▸ member)
  | sent member => exact buffers ▸ .sent (sent member)
  | pending member waits => exact buffers ▸ .pending (outgoing member) (buffers ▸ waits)

/-- The byte at an offset is on the wire, or its packet waits for an address. -/
def Outbound.Covered (o : Outbound) (base : SeqNum) (offset : Nat) : Prop :=
  (∃ packet ∈ o.wire, packet.Covers base offset) ∨
    ∃ id ∈ o.outgoing, (o.buffers id).pendingArp = true ∧ (o.buffers id).packet.Covers base offset

/-- How far our own side of a connection is. -/
inductive Side where
  | opening
  | live
  /-- the FIN is sent, or the connection is over -/
  | ended
  deriving DecidableEq, Repr

/-- The side of a state. -/
def sideOf : TcpState → Side
  | .synSent | .synRecved => .opening
  | .established | .closeWait | .sendFin1 | .sendFin2 | .sendFin3 => .live
  | _ => .ended

/-- The numbers that a side goes by. -/
def Outbound.Numbered (o : Outbound) (base : SeqNum) : Side → Prop
  | .opening => o.queued = [] ∧ o.waiting = []
  | .live => ∃ front, o.queued = front ++ o.waiting ∧ o.seqNum = base + BitVec.ofNat 32 front.length
  | .ended => o.waiting = []

/-- The invariant of the sending side. -/
structure Outbound.Streams (o : Outbound) (base : SeqNum) : Prop where
  connect : (o.buffers .connectPacket).data = []
  noProbe : ∀ id ∈ o.outgoing, (o.buffers id).forceProbe = false
  pieces : ∀ packet, o.Tracks packet → packet.IsPiece base o.queued
  noFin : sideOf o.state ≠ .ended → ∀ packet, o.Tracks packet → packet.header.codeBits.fin = false
  numbered : o.Numbered base (sideOf o.state)
  covered : o.state ≠ .closed → ∀ offset, offset + o.waiting.length < o.queued.length →
    o.Covered base offset

/-! ### Buffers -/

section Buffers

variable {o o' : Outbound} {base : SeqNum}

theorem unnumbered_of_empty {buf : TcpBuffer} (empty : buf.data = []) : buf.unnumbered = [] := by
  unfold TcpBuffer.unnumbered
  split
  · rfl
  · exact empty

/-- Replacing a buffer by one with the same packet changes no packet. -/
theorem packet_update {buffers : BufId → TcpBuffer} {id : BufId} {buf : TcpBuffer}
    (same : buf.packet = (buffers id).packet) (other : BufId) :
    (Function.update buffers id buf other).packet = (buffers other).packet := by
  by_cases here : other = id
  · subst here
    rw [Function.update_self, same]
  · rw [Function.update_of_ne here]

/-- A buffer of the pool is queued once. -/
theorem not_mem_rest (owned : o.pool.Nodup) {index : Nat} {rest : List BufId}
    (head : o.outgoing = .pool index :: rest) : .pool index ∉ rest := by
  intro again
  have front := (List.nodup_append.mp owned).1
  rw [head, List.cons_append, List.filterMap_cons_some (show poolIndex _ = some index from rfl),
    List.nodup_cons] at front
  exact front.1 (List.mem_filterMap.mpr ⟨.pool index, List.mem_append_left _ again, rfl⟩)

/-- Behind the first packet the same bytes wait, whatever becomes of its buffer. -/
theorem unnumbered_rest (streams : o.Streams base) (owned : o.pool.Nodup) {id : BufId}
    {rest : List BufId} (head : o.outgoing = id :: rest) {buf : TcpBuffer}
    (data : buf.data = (o.buffers id).data) :
    (rest.flatMap fun other => (Function.update o.buffers id buf other).unnumbered) =
      rest.flatMap fun other => (o.buffers other).unnumbered := by
  refine List.flatMap_congr fun other member => ?_
  by_cases here : other = id
  · subst here
    cases other with
    | connectPacket =>
      rw [Function.update_self, unnumbered_of_empty streams.connect,
        unnumbered_of_empty (data.trans streams.connect)]
    | pool index => exact absurd member (not_mem_rest owned head)
  · rw [Function.update_of_ne here]

theorem noProbe_update (streams : o.Streams base) {id : BufId} {buf : TcpBuffer}
    (probe : buf.forceProbe → (o.buffers id).forceProbe) {other : BufId}
    (member : other ∈ o.outgoing) :
    (Function.update o.buffers id buf other).forceProbe = false := by
  by_cases here : other = id
  · subst here
    rw [Function.update_self]
    exact Bool.eq_false_iff.mpr fun probes =>
      Bool.eq_false_iff.mp (streams.noProbe other member) (probe probes)
  · rw [Function.update_of_ne here]
    exact streams.noProbe other member

theorem connect_update (streams : o.Streams base) {id : BufId} {buf : TcpBuffer}
    (data : buf.data = (o.buffers id).data) :
    (Function.update o.buffers id buf .connectPacket).data = [] := by
  by_cases here : BufId.connectPacket = id
  · subst here
    rw [Function.update_self, data]
    exact streams.connect
  · rw [Function.update_of_ne here]
    exact streams.connect

/-- A move that tracks no new packet but empty ones, and after which the same bytes wait. -/
theorem Outbound.Streams.quiet (streams : o.Streams base) (state : o'.state = o.state)
    (seqNum : o'.seqNum = o.seqNum) (queued : o'.queued = o.queued)
    (waiting : o'.waiting = o.waiting) (connect : (o'.buffers .connectPacket).data = [])
    (noProbe : ∀ id ∈ o'.outgoing, (o'.buffers id).forceProbe = false)
    (tracks : ∀ packet, o'.Tracks packet → o.Tracks packet ∨ packet.Blank)
    (covered : ∀ offset, o.Covered base offset → o'.Covered base offset) : o'.Streams base where
  connect := connect
  noProbe := noProbe
  pieces packet tracked := by
    rw [queued]
    exact (tracks packet tracked).elim (streams.pieces packet) .inl
  noFin notEnded packet tracked := by
    rw [state] at notEnded
    exact (tracks packet tracked).elim (streams.noFin notEnded packet) (·.2)
  numbered := by
    have numbered := streams.numbered
    rw [state]
    unfold Outbound.Numbered at numbered ⊢
    rw [queued, waiting, seqNum]
    exact numbered
  covered open' offset inside := by
    rw [state] at open'
    rw [queued, waiting] at inside
    exact covered offset (streams.covered open' offset inside)

end Buffers

/-! ### Moves -/

section Moving

variable {o o' : Outbound} {base : SeqNum}

/-- Data that the user queues waits behind what waited. -/
theorem Outbound.Streams.queues (streams : o.Streams base) (owned : o.pool.Nodup)
    {front back : List Nat} {index : Nat} {buf : TcpBuffer} (established : o.state = .established)
    (free : o.free = front ++ index :: back)
    (reset : buf.pendingArp = false ∧ buf.forceProbe = false)
    (buffers : o'.buffers = Function.update o.buffers (.pool index) buf)
    (outgoing : o'.outgoing = o.outgoing ++ [.pool index]) (sent : o'.sent = o.sent)
    (queued : o'.queued = o.queued ++ buf.data) (wire : o'.wire = o.wire)
    (state : o'.state = o.state) (seqNum : o'.seqNum = o.seqNum) : o'.Streams base := by
  have kept (id : BufId) (member : id ∈ o.outgoing ++ o.sent) : o'.buffers id = o.buffers id := by
    rw [buffers]
    refine Function.update_of_ne ?_ _ _
    rintro rfl
    have disjoint := (List.nodup_append.mp owned).2.2
    exact disjoint index (List.mem_filterMap.mpr ⟨.pool index, member, rfl⟩) index
      (by rw [free]; simp) rfl
  have last : o'.buffers (.pool index) = buf := by rw [buffers, Function.update_self]
  have tracks : ∀ packet, o'.Tracks packet → o.Tracks packet := by
    intro packet tracked
    cases tracked with
    | wire member => exact .wire (wire ▸ member)
    | @sent id member =>
      rw [sent] at member
      rw [kept id (List.mem_append_right _ member)]
      exact .sent member
    | @pending id member waits =>
      rw [outgoing] at member
      rcases List.mem_append.mp member with before | new
      · rw [kept id (List.mem_append_left _ before)] at waits ⊢
        exact .pending before waits
      · rw [List.mem_singleton.mp new, last, reset.1] at waits
        cases waits
  have waiting : o'.waiting = o.waiting ++ buf.data := by
    unfold Outbound.waiting
    rw [outgoing, List.flatMap_append, List.flatMap_singleton, last]
    congr 1
    · exact List.flatMap_congr fun id member => by rw [kept id (List.mem_append_left _ member)]
    · exact if_neg (by rw [reset.1]; decide)
  have live : sideOf o.state = .live := by rw [established]; rfl
  have noFin := streams.noFin (by rw [live]; decide)
  refine ⟨?_, fun id member => ?_, fun packet tracked => ?_, fun _ packet tracked => ?_, ?_, ?_⟩
  · rw [buffers, Function.update_of_ne (by simp)]
    exact streams.connect
  · rw [outgoing] at member
    rcases List.mem_append.mp member with before | new
    · rw [kept id (List.mem_append_left _ before)]
      exact streams.noProbe id before
    · rw [List.mem_singleton.mp new, last]
      exact reset.2
  · rw [queued]
    have old := tracks packet tracked
    exact (streams.pieces packet old).grow (noFin packet old) _
  · exact noFin packet (tracks packet tracked)
  · have numbered := streams.numbered
    rw [live] at numbered
    rw [state, live]
    obtain ⟨front, split, number⟩ := numbered
    exact ⟨front, by rw [queued, waiting, split, List.append_assoc], seqNum.trans number⟩
  · intro _ offset inside
    rw [waiting, queued, List.length_append, List.length_append] at inside
    have covered := streams.covered (by rw [established]; decide) offset (by omega)
    refine covered.imp (fun sent => ?_) fun pending => ?_
    · rwa [wire]
    · obtain ⟨id, member, waits, covers⟩ := pending
      refine ⟨id, outgoing ▸ List.mem_append_left _ member, ?_⟩
      rw [kept id (List.mem_append_left _ member)]
      exact ⟨waits, covers⟩

/-- The first packet of the queue gets its number, and nothing else changes but the state and the
next number. -/
structure Outbound.GivesNumber (o o' : Outbound) (id : BufId) (rest : List BufId)
    (buf : TcpBuffer) : Prop where
  head : o.outgoing = id :: rest
  unnumbered : (o.buffers id).pendingArp = false
  data : buf.data = (o.buffers id).data
  pending : buf.pendingArp = true
  probe : buf.forceProbe = (o.buffers id).forceProbe
  number : (o.buffers id).forceProbe = false → buf.headers.seqnum = o.seqNum
  buffers : o'.buffers = Function.update o.buffers id buf
  outgoing : o'.outgoing = o.outgoing
  sent : o'.sent = o.sent
  wire : o'.wire = o.wire
  queued : o'.queued = o.queued

section Numbering

variable {id : BufId} {rest : List BufId} {buf : TcpBuffer}

theorem Outbound.GivesNumber.first (gives : o.GivesNumber o' id rest buf)
    (streams : o.Streams base) : buf.headers.seqnum = o.seqNum :=
  gives.number (streams.noProbe id (gives.head ▸ List.mem_cons_self))

theorem Outbound.GivesNumber.numbered (gives : o.GivesNumber o' id rest buf) :
    o'.buffers id = buf := by
  rw [gives.buffers, Function.update_self]

theorem Outbound.GivesNumber.kept (gives : o.GivesNumber o' id rest buf) {other : BufId}
    (different : other ≠ id) : o'.buffers other = o.buffers other := by
  rw [gives.buffers, Function.update_of_ne different]

/-- Before, the bytes of the packet waited in front of the others. -/
theorem Outbound.GivesNumber.before (gives : o.GivesNumber o' id rest buf) :
    o.waiting = buf.data ++ rest.flatMap fun other => (o.buffers other).unnumbered := by
  unfold Outbound.waiting
  rw [gives.head, List.flatMap_cons, TcpBuffer.unnumbered,
    if_neg (by rw [gives.unnumbered]; decide), gives.data]

/-- Then, only the others wait. -/
theorem Outbound.GivesNumber.waiting (gives : o.GivesNumber o' id rest buf)
    (streams : o.Streams base) (owned : o.pool.Nodup) :
    o'.waiting = rest.flatMap fun other => (o.buffers other).unnumbered := by
  have nothing : buf.unnumbered = [] := if_pos gives.pending
  unfold Outbound.waiting
  rw [gives.outgoing, gives.head, List.flatMap_cons, gives.numbered, nothing, List.nil_append,
    gives.buffers, unnumbered_rest streams owned gives.head gives.data]

theorem Outbound.GivesNumber.tracks (gives : o.GivesNumber o' id rest buf) {packet : Sent}
    (tracked : o'.Tracks packet) : o.Tracks packet ∨ packet = buf.packet := by
  cases tracked with
  | wire member => exact .inl (.wire (gives.wire ▸ member))
  | @sent other member =>
    by_cases here : other = id
    · rw [here, gives.numbered]
      exact .inr rfl
    · rw [gives.kept here]
      exact .inl (.sent (gives.sent ▸ member))
  | @pending other member waits =>
    by_cases here : other = id
    · rw [here, gives.numbered]
      exact .inr rfl
    · rw [gives.kept here] at waits ⊢
      exact .inl (.pending (gives.outgoing ▸ member) waits)

/-- What had a number before is still covered. -/
theorem Outbound.GivesNumber.older (gives : o.GivesNumber o' id rest buf) {offset : Nat}
    (covered : o.Covered base offset) : o'.Covered base offset := by
  rcases covered with sent | ⟨other, member, waits, covers⟩
  · exact .inl (gives.wire ▸ sent)
  · have different : other ≠ id := by
      rintro rfl
      rw [gives.unnumbered] at waits
      cases waits
    refine .inr ⟨other, gives.outgoing ▸ member, ?_⟩
    rw [gives.kept different]
    exact ⟨waits, covers⟩

/-- The packet covers its own bytes. -/
theorem Outbound.GivesNumber.newer (gives : o.GivesNumber o' id rest buf)
    (streams : o.Streams base) {front : Text}
    (place : o.seqNum = base + BitVec.ofNat 32 front.length) {offset : Nat}
    (above : front.length ≤ offset) (below : offset < front.length + buf.data.length) :
    o'.Covered base offset := by
  refine .inr ⟨id, gives.outgoing ▸ gives.head ▸ List.mem_cons_self, ?_⟩
  rw [gives.numbered]
  exact ⟨gives.pending, front.length, above, (gives.first streams).trans place, below⟩

/-- What is left to show of a packet that gets its number. -/
theorem Outbound.GivesNumber.assemble (gives : o.GivesNumber o' id rest buf)
    (streams : o.Streams base) (piece : buf.packet.IsPiece base o.queued)
    (noFin : sideOf o'.state ≠ .ended → sideOf o.state ≠ .ended ∧ buf.headers.codeBits.fin = false)
    (sides : o'.Numbered base (sideOf o'.state))
    (covered : o'.state ≠ .closed → ∀ offset, offset + o'.waiting.length < o.queued.length →
      o'.Covered base offset) : o'.Streams base := by
  refine ⟨gives.buffers ▸ connect_update streams gives.data, fun other member => ?_,
    fun packet tracked => ?_, fun notEnded packet tracked => ?_, sides, ?_⟩
  · rw [gives.buffers]
    exact noProbe_update streams (fun probes => gives.probe ▸ probes) (gives.outgoing ▸ member)
  · rw [gives.queued]
    rcases gives.tracks tracked with old | rfl
    · exact streams.pieces packet old
    · exact piece
  · rcases gives.tracks tracked with old | rfl
    · exact streams.noFin (noFin notEnded).1 packet old
    · exact (noFin notEnded).2
  · rw [gives.queued]
    exact covered

/-- A SYN carries nothing. -/
theorem Outbound.Streams.numbersSyn (streams : o.Streams base) (owned : o.pool.Nodup)
    (gives : o.GivesNumber o' id rest buf) (opening : o.state = .synSent ∨ o.state = .synRecved)
    (noFin : buf.headers.codeBits.fin = false) (state : o'.state = o.state) : o'.Streams base := by
  have side : sideOf o.state = .opening := by
    rcases opening with state | state <;> rw [state] <;> rfl
  have sides := streams.numbered
  rw [side] at sides
  obtain ⟨none, empty⟩ := sides
  rw [gives.before, List.append_eq_nil_iff] at empty
  refine gives.assemble streams (.inl ⟨empty.1, noFin⟩) (fun _ => ⟨?_, noFin⟩) ?_
    fun _ offset inside => ?_
  · rw [side]
    decide
  · rw [state, side]
    exact ⟨gives.queued.trans none, (gives.waiting streams owned).trans empty.2⟩
  · rw [none, List.length_nil] at inside
    omega

/-- A FIN goes behind the last byte. -/
theorem Outbound.Streams.numbersFin (streams : o.Streams base) (owned : o.pool.Nodup)
    (gives : o.GivesNumber o' id rest buf) (closing : finState o.state = some o'.state)
    (last : o.outgoing = [id])
    (plain : buf.headers.codeBits.syn = false ∧ buf.headers.codeBits.rst = false) :
    o'.Streams base := by
  obtain ⟨side, after⟩ : sideOf o.state = .live ∧ sideOf o'.state = .ended := by
    cases from' : o.state <;> rw [from'] at closing <;> cases to' : o'.state <;>
      rw [to'] at closing <;> cases closing <;> exact ⟨rfl, rfl⟩
  have sides := streams.numbered
  rw [side] at sides
  obtain ⟨front, split, place⟩ := sides
  have before := gives.before
  have waiting := gives.waiting streams owned
  have alone : rest = [] := (List.cons.inj (gives.head.symm.trans last)).2
  rw [alone, List.flatMap_nil] at before waiting
  rw [before, List.append_nil] at split
  have length : o.queued.length = front.length + buf.data.length := by
    rw [split, List.length_append]
  refine gives.assemble streams (.inr ⟨plain, front.length, by omega,
    (gives.first streams).trans place, ?_, fun _ => length.symm⟩)
    (fun notEnded => absurd after notEnded) (by rw [after]; exact waiting)
    fun _ offset inside => ?_
  · rw [split, List.drop_left]
    exact List.prefix_rfl
  · by_cases old : offset < front.length
    · refine gives.older (streams.covered ?_ offset ?_)
      · intro closed
        rw [closed] at side
        cases side
      · rw [before, List.append_nil]
        omega
    · rw [waiting, List.length_nil] at inside
      exact gives.newer streams place (by omega) (by omega)

/-- Data goes behind the bytes that have their numbers; on a side that is over none is left. -/
theorem Outbound.Streams.numbersData (streams : o.Streams base) (owned : o.pool.Nodup)
    (gives : o.GivesNumber o' id rest buf)
    (open' : o.state ≠ .synSent ∧ o.state ≠ .synRecved)
    (plain : buf.headers.codeBits.syn = false ∧ buf.headers.codeBits.rst = false)
    (noFin : buf.headers.codeBits.fin = false) (state : o'.state = o.state)
    (next : o'.seqNum = o.seqNum + BitVec.ofNat 32 (o.buffers id).data.length) :
    o'.Streams base := by
  have before := gives.before
  have waiting := gives.waiting streams owned
  generalize (rest.flatMap fun other => (o.buffers other).unnumbered) = waits at before waiting
  have sides := streams.numbered
  cases side : sideOf o.state with
  | opening => cases from' : o.state <;> simp_all [sideOf]
  | ended =>
    rw [side] at sides
    have empty : buf.data = [] ∧ waits = [] := List.append_eq_nil_iff.mp (before.symm.trans sides)
    refine gives.assemble streams (.inl ⟨empty.1, noFin⟩)
      (fun notEnded => absurd (state ▸ side) notEnded) ?_ fun open' offset inside => ?_
    · rw [state, side]
      exact waiting.trans empty.2
    · rw [state] at open'
      refine gives.older (streams.covered open' offset ?_)
      rw [before, empty.1, List.nil_append, ← waiting]
      exact inside
  | live =>
    rw [side] at sides
    obtain ⟨front, split, place⟩ := sides
    rw [before] at split
    have length : o.queued.length = front.length + (buf.data.length + waits.length) := by
      rw [split, List.length_append, List.length_append]
    refine gives.assemble streams (.inr ⟨plain, front.length, by omega,
      (gives.first streams).trans place, ?_, fun fin => ?_⟩) (fun _ => ⟨?_, noFin⟩) ?_
      fun open' offset inside => ?_
    · rw [split, List.drop_left]
      exact List.prefix_append _ _
    · have none : buf.headers.codeBits.fin = true := fin
      rw [noFin] at none
      cases none
    · rw [side]
      decide
    · rw [state, side]
      refine ⟨front ++ buf.data, ?_, ?_⟩
      · rw [gives.queued, waiting, split, List.append_assoc]
      · rw [next, place, List.length_append, BitVec.ofNat_add, add_assoc, gives.data]
    · rw [waiting] at inside
      by_cases old : offset < front.length
      · rw [state] at open'
        refine gives.older (streams.covered open' offset ?_)
        rw [before, List.length_append]
        omega
      · exact gives.newer streams place (by omega) (by omega)

/-- A packet that is numbered gets the numbers behind those that were given out. -/
theorem Outbound.Streams.numbers (streams : o.Streams base) (owned : o.pool.Nodup)
    (gives : o.GivesNumber o' id rest buf)
    (numbers : Numbers o id buf.headers o'.state o'.seqNum) : o'.Streams base := by
  obtain ⟨state, here⟩ : ∃ state, o'.state = state := ⟨_, rfl⟩
  obtain ⟨seqNum, next⟩ : ∃ seqNum, o'.seqNum = seqNum := ⟨_, rfl⟩
  rw [here, next] at numbers
  cases numbers with
  | syn opening noFin => exact streams.numbersSyn owned gives opening noFin here
  | fin closing last plain => exact streams.numbersFin owned gives (here ▸ closing) last plain
  | data open' plain noFin => exact streams.numbersData owned gives open' plain noFin here next

end Numbering

/-- A packet that has its number is handed to the packet driver, and leaves the queue. -/
theorem Outbound.Streams.sends (streams : o.Streams base) (owned : o.pool.Nodup) {id : BufId}
    {rest : List BufId} {buf : TcpBuffer} (head : o.outgoing = id :: rest)
    (pending : (o.buffers id).pendingArp = true) (same : buf.packet = (o.buffers id).packet)
    (done : buf.pendingArp = false) (probe : buf.forceProbe = (o.buffers id).forceProbe)
    (buffers : o'.buffers = Function.update o.buffers id buf) (outgoing : o'.outgoing = rest)
    (sent : ∀ other ∈ o'.sent, other ∈ o.sent ∨ other = id)
    (wire : o'.wire = o.wire ++ [(o.buffers id).packet]) (queued : o'.queued = o.queued)
    (state : o'.state = o.state) (seqNum : o'.seqNum = o.seqNum) : o'.Streams base := by
  have data : buf.data = (o.buffers id).data := congrArg Sent.data same
  have tracked : o.Tracks (o.buffers id).packet := .pending (head ▸ List.mem_cons_self) pending
  have packets (other : BufId) : (o'.buffers other).packet = (o.buffers other).packet := by
    rw [buffers, packet_update same]
  have flags {other : BufId} (waits : (o'.buffers other).pendingArp = true) :
      other ≠ id ∧ (o.buffers other).pendingArp = true := by
    rw [buffers] at waits
    by_cases here : other = id
    · rw [here, Function.update_self, done] at waits
      cases waits
    · rw [Function.update_of_ne here] at waits
      exact ⟨here, waits⟩
  refine streams.quiet state seqNum queued ?_ (buffers ▸ connect_update streams data) ?_ ?_ ?_
  · unfold Outbound.waiting
    have nothing : (o.buffers id).unnumbered = [] := if_pos pending
    rw [outgoing, buffers, unnumbered_rest streams owned head data, head, List.flatMap_cons,
      nothing, List.nil_append]
  · intro other member
    rw [outgoing] at member
    rw [buffers]
    exact noProbe_update streams (fun probes => probe ▸ probes)
      (head ▸ List.mem_cons_of_mem _ member)
  · intro packet tracks
    refine .inl ?_
    cases tracks with
    | wire member =>
      rw [wire] at member
      rcases List.mem_append.mp member with old | new
      · exact .wire old
      · rw [List.mem_singleton.mp new]
        exact tracked
    | @sent other member =>
      rw [packets]
      rcases sent other member with old | rfl
      · exact .sent old
      · exact tracked
    | @pending other member waits =>
      rw [outgoing] at member
      rw [packets]
      exact .pending (head ▸ List.mem_cons_of_mem _ member) (flags waits).2
  · rintro offset (⟨packet, member, covers⟩ | ⟨other, member, waits, covers⟩)
    · exact .inl ⟨packet, wire ▸ List.mem_append_left _ member, covers⟩
    · by_cases here : other = id
      · subst here
        exact .inl ⟨_, wire ▸ List.mem_append_right _ (List.mem_singleton.mpr rfl), covers⟩
      · refine .inr ⟨other, ?_, ?_, packets other ▸ covers⟩
        · rw [head, List.mem_cons] at member
          rw [outgoing]
          exact member.resolve_left here
        · rw [buffers, Function.update_of_ne here]
          exact waits

/-- The side behind a change of the state. -/
theorem sideOf_next {here state : TcpState} (next : state ∈ nextStates here) :
    here ≠ .closed ∧ (sideOf state = sideOf here ∨
      sideOf here = .opening ∧ (sideOf state = .live ∨ state = .closed)) := by
  have all : ∀ state ∈ nextStates here, here ≠ .closed ∧ (sideOf state = sideOf here ∨
      sideOf here = .opening ∧ (sideOf state = .live ∨ state = .closed)) := by
    cases here <;> decide
  exact all state next

/-- Where a connection opens, the numbers start with the next one. -/
theorem Outbound.Streams.turns (streams : o.Streams base) {state : TcpState}
    (next : state ∈ nextStates o.state) : ∃ base, Outbound.Streams { o with state } base := by
  obtain ⟨open', side⟩ := sideOf_next next
  have tracks (packet : Sent) (tracked : Outbound.Tracks { o with state } packet) :
      o.Tracks packet := tracked.mono rfl rfl (List.Subset.refl _) (List.Subset.refl _)
  rcases side with same | ⟨opening, turned⟩
  · refine ⟨base, streams.connect, streams.noProbe,
      fun packet tracked => streams.pieces packet (tracks packet tracked),
      fun notEnded packet tracked => ?_, ?_, fun _ => streams.covered open'⟩
    · exact streams.noFin (fun ended => notEnded (same.trans ended)) packet (tracks packet tracked)
    · rw [show sideOf ({ o with state } : Outbound).state = sideOf o.state from same]
      exact streams.numbered
  · have numbered := streams.numbered
    rw [opening] at numbered
    obtain ⟨none, empty⟩ := numbered
    have noFin := streams.noFin (by rw [opening]; decide)
    refine ⟨o.seqNum, streams.connect, streams.noProbe, fun packet tracked => .inl ?_,
      fun _ packet tracked => noFin packet (tracks packet tracked), ?_, fun _ offset inside => ?_⟩
    · have piece := streams.pieces packet (tracks packet tracked)
      rw [none] at piece
      exact piece.blank (noFin packet (tracks packet tracked))
    · show Outbound.Numbered { o with state } o.seqNum (sideOf state)
      rcases turned with live | rfl
      · rw [live]
        exact ⟨[], none.trans (by rw [show Outbound.waiting { o with state } = [] from empty]; rfl),
          by simp⟩
      · exact empty
    · rw [show ({ o with state } : Outbound).queued = [] from none, List.length_nil] at inside
      omega

/-- Both sides open the connection: the numbers are given out again. -/
theorem Outbound.Streams.crosses (streams : o.Streams base) (opening : o.state = .synSent) :
    Outbound.Streams { o with state := .synRecved, seqNum := o.seqNum - 1 } base := by
  have side : sideOf o.state = .opening := by rw [opening]; rfl
  have numbered := streams.numbered
  rw [side] at numbered
  have tracks (packet : Sent) (tracked : Outbound.Tracks { o with
      state := .synRecved, seqNum := o.seqNum - 1 } packet) : o.Tracks packet :=
    tracked.mono rfl rfl (List.Subset.refl _) (List.Subset.refl _)
  exact ⟨streams.connect, streams.noProbe,
    fun packet tracked => streams.pieces packet (tracks packet tracked),
    fun _ packet tracked => streams.noFin (by rw [side]; decide) packet (tracks packet tracked),
    numbered, fun _ => streams.covered (by rw [opening]; decide)⟩

/-- A packet outside of the queues carries nothing. -/
theorem Outbound.Streams.notes (streams : o.Streams base) {packet : Sent} (blank : packet.Blank) :
    Outbound.Streams { o with wire := o.wire ++ [packet] } base := by
  refine streams.quiet rfl rfl rfl rfl streams.connect streams.noProbe ?_ ?_
  · intro packet tracked
    cases tracked with
    | wire member =>
      rcases List.mem_append.mp member with old | new
      · exact .inl (.wire old)
      · exact .inr (List.mem_singleton.mp new ▸ blank)
    | sent member => exact .inl (.sent member)
    | pending member waits => exact .inl (.pending member waits)
  · rintro offset (⟨packet, member, covers⟩ | waits)
    · exact .inl ⟨packet, List.mem_append_left _ member, covers⟩
    · exact .inr waits

/-- While the connection opens the queues hold no data. -/
theorem Outbound.Streams.clears (streams : o.Streams base) (crossed : o.state = .synRecved) :
    Outbound.Streams { o with
      outgoing := [], sent := [], free := (o.outgoing ++ o.sent).foldl giveBack o.free } base := by
  have side : sideOf o.state = .opening := by rw [crossed]; rfl
  have numbered := streams.numbered
  rw [side] at numbered
  have tracks (packet : Sent) (tracked : Outbound.Tracks { o with
      outgoing := [], sent := [],
      free := (o.outgoing ++ o.sent).foldl giveBack o.free } packet) : o.Tracks packet :=
    tracked.mono rfl rfl (List.nil_subset _) (List.nil_subset _)
  refine ⟨streams.connect, List.forall_mem_nil _,
    fun packet tracked => streams.pieces packet (tracks packet tracked),
    fun _ packet tracked => streams.noFin (by rw [side]; decide) packet (tracks packet tracked),
    ?_, fun _ offset inside => ?_⟩
  · rw [side]
    exact ⟨numbered.1, rfl⟩
  · rw [show o.queued = [] from numbered.1, List.length_nil] at inside
    omega

/-- What waits in a connection that is over is dropped. -/
theorem Outbound.Streams.destroys (streams : o.Streams base) :
    Outbound.Streams { o with
      state := .closed, outgoing := [], sent := [],
      free := (o.outgoing ++ o.sent).foldl giveBack o.free } base := by
  have tracks (packet : Sent) (tracked : Outbound.Tracks { o with
      state := .closed, outgoing := [], sent := [],
      free := (o.outgoing ++ o.sent).foldl giveBack o.free } packet) : o.Tracks packet :=
    tracked.mono rfl rfl (List.nil_subset _) (List.nil_subset _)
  exact ⟨streams.connect, List.forall_mem_nil _,
    fun packet tracked => streams.pieces packet (tracks packet tracked),
    fun notEnded => absurd rfl notEnded, rfl, fun open' => absurd rfl open'⟩

/-- The packet of the connection stays empty. -/
theorem Outbound.Streams.prepares (streams : o.Streams base) {buf : TcpBuffer}
    (empty : buf.data = []) (header : buf.headers = (o.buffers .connectPacket).headers)
    (options : buf.options = (o.buffers .connectPacket).options)
    (pending : buf.pendingArp → (o.buffers .connectPacket).pendingArp)
    (probe : buf.forceProbe → (o.buffers .connectPacket).forceProbe) :
    Outbound.Streams { o with buffers := Function.update o.buffers .connectPacket buf } base := by
  have data : buf.data = (o.buffers .connectPacket).data := empty.trans streams.connect.symm
  have same : buf.packet = (o.buffers .connectPacket).packet := by
    rw [TcpBuffer.packet, TcpBuffer.packet, header, options, data]
  have flag {other : BufId} (waits : (Function.update o.buffers .connectPacket buf
      other).pendingArp = true) : (o.buffers other).pendingArp = true := by
    by_cases here : other = .connectPacket
    · rw [here, Function.update_self] at waits
      exact here ▸ pending waits
    · rwa [Function.update_of_ne here] at waits
  refine streams.quiet rfl rfl rfl ?_ (connect_update streams data)
    (fun other member => noProbe_update streams probe member) ?_ ?_
  · refine List.flatMap_congr fun other _ => ?_
    dsimp only
    by_cases here : other = .connectPacket
    · rw [here, Function.update_self, unnumbered_of_empty empty,
        unnumbered_of_empty streams.connect]
    · rw [Function.update_of_ne here]
  · intro packet tracked
    refine .inl ?_
    cases tracked with
    | wire member => exact .wire member
    | sent member =>
      rw [packet_update same]
      exact .sent member
    | pending member waits =>
      rw [packet_update same]
      exact .pending member (flag waits)
  · rintro offset (sent | ⟨other, member, waits, covers⟩)
    · exact .inl sent
    · have different : other ≠ .connectPacket := by
        rintro rfl
        exact Sent.not_covers streams.connect covers
      refine .inr ⟨other, member, ?_⟩
      dsimp only
      rw [Function.update_of_ne different]
      exact ⟨waits, covers⟩

/-- The packet of the connection waits without data. -/
theorem Outbound.Streams.queuesConnect (streams : o.Streams base)
    (prepared : (o.buffers .connectPacket).pendingArp = false ∧
      (o.buffers .connectPacket).forceProbe = false) :
    Outbound.Streams { o with outgoing := o.outgoing ++ [.connectPacket] } base := by
  refine streams.quiet rfl rfl rfl ?_ streams.connect ?_ ?_ ?_
  · show (o.outgoing ++ [BufId.connectPacket]).flatMap _ = _
    rw [List.flatMap_append, List.flatMap_singleton, unnumbered_of_empty streams.connect,
      List.append_nil]
    rfl
  · intro other member
    rcases List.mem_append.mp member with old | new
    · exact streams.noProbe other old
    · rw [List.mem_singleton.mp new]
      exact prepared.2
  · intro packet tracked
    refine .inl ?_
    cases tracked with
    | wire member => exact .wire member
    | sent member => exact .sent member
    | pending member waits =>
      rcases List.mem_append.mp member with old | new
      · exact .pending old waits
      · rw [List.mem_singleton.mp new] at waits
        exact absurd (prepared.1.symm.trans waits) (by decide)
  · rintro offset (sent | ⟨other, member, covers⟩)
    · exact .inl sent
    · exact .inr ⟨other, List.mem_append_left _ member, covers⟩

/-- A packet that only acknowledges leaves without a byte. -/
theorem Outbound.Streams.discards (streams : o.Streams base) {first : BufId}
    (only : o.outgoing = [first]) (empty : (o.buffers first).data = []) :
    Outbound.Streams { o with outgoing := [], free := giveBack o.free first } base := by
  refine streams.quiet rfl rfl rfl ?_ streams.connect (List.forall_mem_nil _)
    (fun packet tracked => .inl (tracked.mono rfl rfl (List.Subset.refl _) (List.nil_subset _)))
    ?_
  · unfold Outbound.waiting
    rw [only, List.flatMap_singleton, unnumbered_of_empty empty]
    rfl
  · rintro offset (sent | ⟨other, member, -, covers⟩)
    · exact .inl sent
    · rw [only, List.mem_singleton] at member
      exact absurd covers (Sent.not_covers (member ▸ empty))

/-- A packet is sent again as it was. -/
theorem Outbound.Streams.resends (streams : o.Streams base) {id : BufId} {rest : List BufId}
    {buf : TcpBuffer} (head : o.sent = id :: rest) (same : buf.packet = (o.buffers id).packet)
    (pending : buf.pendingArp = (o.buffers id).pendingArp)
    (probe : buf.forceProbe = (o.buffers id).forceProbe) :
    Outbound.Streams { o with
      wire := o.wire ++ [(o.buffers id).packet],
      buffers := Function.update o.buffers id buf } base := by
  have data : buf.data = (o.buffers id).data := congrArg Sent.data same
  have flag (other : BufId) : (Function.update o.buffers id buf other).pendingArp =
      (o.buffers other).pendingArp := by
    by_cases here : other = id
    · rw [here, Function.update_self, pending]
    · rw [Function.update_of_ne here]
  have packets := packet_update same
  refine streams.quiet rfl rfl rfl ?_ (connect_update streams data)
    (fun other member => noProbe_update streams (fun probes => probe ▸ probes) member) ?_ ?_
  · refine List.flatMap_congr fun other _ => ?_
    have same := congrArg Sent.data (packets other)
    unfold TcpBuffer.unnumbered
    dsimp only
    rw [flag, show (Function.update o.buffers id buf other).data =
      (o.buffers other).data from same]
  · intro packet tracked
    refine .inl ?_
    cases tracked with
    | wire member =>
      rcases List.mem_append.mp member with old | new
      · exact .wire old
      · rw [List.mem_singleton.mp new]
        exact .sent (head ▸ List.mem_cons_self)
    | sent member =>
      rw [packets]
      exact .sent member
    | pending member waits =>
      rw [packets]
      exact .pending member (flag _ ▸ waits)
  · rintro offset (⟨packet, member, covers⟩ | ⟨other, member, waits, covers⟩)
    · exact .inl ⟨packet, List.mem_append_left _ member, covers⟩
    · exact .inr ⟨other, member, (flag other).trans waits, packets other ▸ covers⟩

/-- A packet that is acknowledged is not sent again. -/
theorem Outbound.Streams.retires (streams : o.Streams base) {id : BufId} {rest : List BufId}
    (head : o.sent = id :: rest) :
    Outbound.Streams { o with sent := rest, free := giveBack o.free id } base :=
  streams.quiet rfl rfl rfl rfl streams.connect streams.noProbe
    (fun _ tracked => .inl (tracked.mono rfl rfl (head ▸ List.subset_cons_self _ _)
      (List.Subset.refl _))) fun _ covered => covered

/-- The step lemma of the moves: every move keeps the invariant, with other numbers at most where
the connection opens. -/
theorem Outbound.Streams.move {user : Prop} (streams : o.Streams base) (owned : o.pool.Nodup)
    (move : Move user o o') : ∃ base, o'.Streams base := by
  cases move with
  | turns next => exact streams.turns next
  | crosses opening => exact ⟨base, streams.crosses opening⟩
  | notes blank => exact ⟨base, streams.notes blank⟩
  | clears crossed => exact ⟨base, streams.clears crossed⟩
  | destroys => exact ⟨base, streams.destroys⟩
  | prepares empty header options pending probe =>
    exact ⟨base, streams.prepares empty header options pending probe⟩
  | queuesConnect prepared => exact ⟨base, streams.queuesConnect prepared⟩
  | discards _ only empty => exact ⟨base, streams.discards only empty⟩
  | queues _ established free reset =>
    exact ⟨base, streams.queues owned established free ⟨reset.1, reset.2.1⟩ rfl rfl rfl rfl rfl rfl
      rfl⟩
  | numbers head unnumbered data pending probe number _ numbers =>
    exact ⟨base, streams.numbers owned
      ⟨head, unnumbered, data, pending, probe, number, rfl, rfl, rfl, rfl, rfl⟩ numbers⟩
  | sends head pending same sent probe =>
    refine ⟨base, streams.sends owned head pending same sent probe rfl rfl (fun other member => ?_)
      rfl rfl rfl rfl⟩
    exact (List.mem_append.mp member).imp id List.mem_singleton.mp
  | sendsAck head pending same _ sent probe =>
    exact ⟨base, streams.sends owned head pending same sent probe rfl rfl (fun _ => .inl) rfl rfl
      rfl rfl⟩
  | resends head same pending probe => exact ⟨base, streams.resends head same pending probe⟩
  | retires head => exact ⟨base, streams.retires head⟩

theorem Outbound.Streams.moves {user : Prop} (streams : o.Streams base) (owned : o.pool.Nodup)
    (moves : Moves user o o') : ∃ base, o'.Streams base := by
  refine (moves.keep (fun last => last.pool.Nodup ∧ ∃ base, last.Streams base)
    (fun kept move => ?_) ⟨owned, base, streams⟩).2
  obtain ⟨owned, base, streams⟩ := kept
  exact ⟨move.pool.nodup_iff.mpr owned, streams.move owned move⟩

end Moving

/-! ### What is on the wire -/

section Results

variable {rcvBufSize : Nat} {seqNum : SeqNum} {now mssToAdvertise : Nat}
  {buffers : BufId → TcpBuffer} {xmitBuffers : List Nat}
  {rcvBuffer : Option (ReceiveBuffer rcvBufSize)}

/-- A socket that is about to connect has queued its SYN. -/
theorem streams_connect2 : (fresh seqNum now mssToAdvertise buffers xmitBuffers
    rcvBuffer).connect2.2.outbound.Streams seqNum := by
  let first : TcpBuffer := { buffers .connectPacket with
    data := [], timeSent := 0, attempts := 0, pendingArp := false, wasAckOnly := false,
    forceAckOnly := false, forceProbe := false }
  have prepared : (fresh seqNum now mssToAdvertise buffers xmitBuffers
      rcvBuffer).connect2.2.buffers .connectPacket = first := rfl
  have untracked (packet : Sent) : ¬(fresh seqNum now mssToAdvertise buffers xmitBuffers
      rcvBuffer).connect2.2.outbound.Tracks packet := by
    rintro (member | member | ⟨member, waits⟩)
    · cases member
    · cases member
    · rw [List.mem_singleton.mp member] at waits
      cases waits
  refine ⟨rfl, fun id member => ?_, fun packet tracked => absurd tracked (untracked packet),
    fun _ packet tracked => absurd tracked (untracked packet), ⟨rfl, rfl⟩,
    fun _ offset inside => ?_⟩
  · rw [List.mem_singleton.mp member]
    rfl
  · cases inside

/-- Whatever packets come in, and whatever the user and the timers do: every packet on the wire
carries nothing, or bytes that the user queued, at their number, with a FIN only behind the last of
them. As long as the connection is not over, every byte that was queued and does not wait is on the
wire or in the packet that waits for an address. -/
theorem runs_sends (distinct : xmitBuffers.Nodup) {last : TcpSocket rcvBufSize}
    {events : List Event} {bytes : Text}
    (runs : Runs (fresh seqNum now mssToAdvertise buffers xmitBuffers rcvBuffer).connect2.2
      events bytes last) :
    ∃ base, (∀ packet ∈ last.wire, packet.IsPiece base last.queued) ∧
      last.outbound.Numbered base (sideOf last.state) ∧
      (last.state ≠ .closed → ∀ offset,
        offset + last.outbound.waiting.length < last.queued.length →
          last.outbound.Covered base offset) := by
  have owned : (fresh seqNum now mssToAdvertise buffers xmitBuffers
      rcvBuffer).connect2.2.outbound.pool.Nodup := distinct
  obtain ⟨base, streams⟩ := streams_connect2.moves owned (runs.moves owned)
  exact ⟨base, fun packet sent => streams.pieces packet (.wire sent), streams.numbered,
    streams.covered⟩

/-- The connection is opened, `hi` is sent, and our side is closed. -/
def hiEvents : List Event :=
  [.drivePackets 0 false, .packet 9 0 false (shortPacket 100 18 []), .send 9 (text "hi"),
    .closeNonblocking 1, .drivePackets 1 false]

theorem runs_sends_hi : ∃ last base, Runs shortSocket hiEvents [] last ∧
    last.queued = text "hi" ∧ last.state = .finWait1 ∧
    ∀ packet ∈ last.wire, packet.IsPiece base (text "hi") := by
  have run : Runs shortSocket hiEvents _ _ :=
    .step rfl (.step rfl (.step rfl (.step rfl (.step rfl (.refl _)))))
  obtain ⟨base, pieces, -⟩ := runs_sends (by decide) run
  exact ⟨_, base, run, rfl, rfl, pieces⟩

end Results

end Nosgem.Tcp
