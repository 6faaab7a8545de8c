/-
This file shows what of a socket the sending side depends on, and everything that
can happen to it: the moves. A buffer is taken from the pool, numbered, handed to
the packet driver, kept until it is acknowledged and given back; the packet of the
connection itself is prepared and queued any number of times.

A packet that is numbered is always one that waits for an address first: where the
address is known, the wait is over at once.
-/

import Nosgem.Tcp
import Mathlib.Logic.Relation

namespace Nosgem.Tcp

open CText Relation

/-! ### The sending side -/

/-- What the sending side depends on. -/
structure Outbound where
  state : TcpState
  seqNum : SeqNum
  outgoing : List BufId
  sent : List BufId
  buffers : BufId → TcpBuffer
  free : List Nat
  wire : List Sent
  queued : Text

/-- The sending side of a socket. -/
def TcpSocket.outbound {rcvBufSize : Nat} (sock : TcpSocket rcvBufSize) : Outbound :=
  ⟨sock.state, sock.seqNum, sock.outgoing.items, sock.sent.items, sock.buffers, sock.xmitBuffers,
    sock.wire, sock.queued⟩

/-- What the packet driver gets of a buffer. -/
def TcpBuffer.packet (buf : TcpBuffer) : Sent := ⟨buf.headers, buf.options, buf.data⟩

/-- A buffer goes back to the pool, if it is one of the pool. -/
def giveBack (free : List Nat) : BufId → List Nat
  | .connectPacket => free
  | .pool index => index :: free

/-- A packet that carries nothing. -/
def Sent.Blank (packet : Sent) : Prop := packet.data = [] ∧ packet.header.codeBits.fin = false

/-- The next states by packets and by calls of the user; a FIN that is sent is not counted in. -/
def nextStates : TcpState → List TcpState
  | .synSent => [.established, .closed]
  | .synRecved => [.established, .sendFin3]
  | .established => [.closeWait, .sendFin1]
  | .closeWait => [.sendFin2]
  | .sendFin1 => [.sendFin2]
  | .finWait1 => [.finWait2, .closing, .timeWait]
  | .finWait2 | .closing => [.timeWait]
  | .lastAck | .timeWait | .listen => [.closed]
  | .closed | .sendFin2 | .sendFin3 => []

/-- The state behind a FIN that is sent. -/
def finState : TcpState → Option TcpState
  | .sendFin1 | .sendFin3 => some .finWait1
  | .sendFin2 => some .lastAck
  | _ => none

/-! ### Moves -/

/-- The header of a packet that is numbered, the next state and the next number. -/
inductive Numbers (o : Outbound) (id : BufId) (header : TcpHeader) : TcpState → SeqNum → Prop where
  | syn (opening : o.state = .synSent ∨ o.state = .synRecved)
      (noFin : header.codeBits.fin = false) :
      Numbers o id header o.state (o.seqNum + BitVec.ofNat 32 (o.buffers id).data.length + 1)
  | fin {state : TcpState} (closing : finState o.state = some state) (last : o.outgoing = [id])
      (plain : header.codeBits.syn = false ∧ header.codeBits.rst = false) :
      Numbers o id header state (o.seqNum + BitVec.ofNat 32 (o.buffers id).data.length + 1)
  | data (open' : o.state ≠ .synSent ∧ o.state ≠ .synRecved)
      (plain : header.codeBits.syn = false ∧ header.codeBits.rst = false)
      (noFin : header.codeBits.fin = false) :
      Numbers o id header o.state (o.seqNum + BitVec.ofNat 32 (o.buffers id).data.length)

/-- Everything that can happen to the sending side. Only where `user` holds may the user queue
data. -/
inductive Move (user : Prop) (o : Outbound) : Outbound → Prop where
  | turns {state : TcpState} (next : state ∈ nextStates o.state) : Move user o { o with state }
  /-- both sides open the connection -/
  | crosses (opening : o.state = .synSent) :
      Move user o { o with state := .synRecved, seqNum := o.seqNum - 1 }
  /-- an acknowledgement, a probe or a reset outside of the queues -/
  | notes {packet : Sent} (blank : packet.Blank) : Move user o { o with wire := o.wire ++ [packet] }
  /-- the queues are cleared while the connection opens -/
  | clears (crossed : o.state = .synRecved) : Move user o { o with
      outgoing := [], sent := [], free := (o.outgoing ++ o.sent).foldl giveBack o.free }
  /-- the connection is over, its queues are cleared -/
  | destroys : Move user o { o with
      state := .closed,
      outgoing := [], sent := [], free := (o.outgoing ++ o.sent).foldl giveBack o.free }
  /-- the packet of the connection is prepared -/
  | prepares {buf : TcpBuffer} (empty : buf.data = [])
      (header : buf.headers = (o.buffers .connectPacket).headers)
      (options : buf.options = (o.buffers .connectPacket).options)
      (pending : buf.pendingArp → (o.buffers .connectPacket).pendingArp)
      (probe : buf.forceProbe → (o.buffers .connectPacket).forceProbe) :
      Move user o { o with buffers := Function.update o.buffers .connectPacket buf }
  /-- the packet of the connection is queued -/
  | queuesConnect (prepared : (o.buffers .connectPacket).pendingArp = false ∧
      (o.buffers .connectPacket).forceProbe = false) :
      Move user o { o with outgoing := o.outgoing ++ [.connectPacket] }
  /-- a packet that only acknowledges is replaced -/
  | discards {first : BufId} (established : o.state = .established) (only : o.outgoing = [first])
      (empty : (o.buffers first).data = []) :
      Move user o { o with outgoing := [], free := giveBack o.free first }
  /-- the user queues data in a buffer of the pool -/
  | queues {front back : List Nat} {index : Nat} {buf : TcpBuffer} (asked : user)
      (established : o.state = .established) (free : o.free = front ++ index :: back)
      (reset : buf.pendingArp = false ∧ buf.forceProbe = false ∧ buf.wasAckOnly = false) :
      Move user o { o with
        free := front ++ back, buffers := Function.update o.buffers (.pool index) buf,
        outgoing := o.outgoing ++ [.pool index], queued := o.queued ++ buf.data }
  /-- the first packet gets its number; it waits for an address from then on -/
  | numbers {id : BufId} {rest : List BufId} {buf : TcpBuffer} {state : TcpState}
      {seqNum : SeqNum} (head : o.outgoing = id :: rest)
      (unnumbered : (o.buffers id).pendingArp = false)
      (data : buf.data = (o.buffers id).data) (pending : buf.pendingArp = true)
      (probe : buf.forceProbe = (o.buffers id).forceProbe)
      (number : (o.buffers id).forceProbe = false → buf.headers.seqnum = o.seqNum)
      (ackOnly : buf.wasAckOnly → (o.buffers id).wasAckOnly ∨ buf.data = [])
      (numbers : Numbers o id buf.headers state seqNum) :
      Move user o { o with state, seqNum, buffers := Function.update o.buffers id buf }
  /-- the first packet is sent and waits for its acknowledgement -/
  | sends {id : BufId} {rest : List BufId} {buf : TcpBuffer} (head : o.outgoing = id :: rest)
      (pending : (o.buffers id).pendingArp = true) (same : buf.packet = (o.buffers id).packet)
      (sent : buf.pendingArp = false) (probe : buf.forceProbe = (o.buffers id).forceProbe) :
      Move user o { o with
        outgoing := rest, sent := o.sent ++ [id], wire := o.wire ++ [(o.buffers id).packet],
        buffers := Function.update o.buffers id buf }
  /-- the first packet is sent and, since it only acknowledges, not kept -/
  | sendsAck {id : BufId} {rest : List BufId} {buf : TcpBuffer} (head : o.outgoing = id :: rest)
      (pending : (o.buffers id).pendingArp = true) (same : buf.packet = (o.buffers id).packet)
      (ackOnly : (o.buffers id).wasAckOnly = true) (sent : buf.pendingArp = false)
      (probe : buf.forceProbe = (o.buffers id).forceProbe) :
      Move user o { o with
        outgoing := rest, free := giveBack o.free id, wire := o.wire ++ [(o.buffers id).packet],
        buffers := Function.update o.buffers id buf }
  /-- the oldest packet is sent again -/
  | resends {id : BufId} {rest : List BufId} {buf : TcpBuffer} (head : o.sent = id :: rest)
      (same : buf.packet = (o.buffers id).packet)
      (pending : buf.pendingArp = (o.buffers id).pendingArp)
      (probe : buf.forceProbe = (o.buffers id).forceProbe) :
      Move user o { o with
        wire := o.wire ++ [(o.buffers id).packet],
        buffers := Function.update o.buffers id buf }
  /-- the oldest packet is acknowledged -/
  | retires {id : BufId} {rest : List BufId} (head : o.sent = id :: rest) :
      Move user o { o with sent := rest, free := giveBack o.free id }

/-- Some moves, one after the other. -/
abbrev Moves (user : Prop) : Outbound → Outbound → Prop := ReflTransGen (Move user)

section Moves

variable {user : Prop} {o o' : Outbound}

/-- What every move keeps, some moves keep. -/
theorem Moves.keep (moves : Moves user o o') (holds : Outbound → Prop)
    (kept : ∀ {o o' : Outbound}, holds o → Move user o o' → holds o') (initially : holds o) :
    holds o' := by
  induction moves with
  | refl => exact initially
  | tail _ move inductionHypothesis => exact kept inductionHypothesis move

/-- Where the user is not asked, no data is queued. -/
theorem Moves.queued (moves : Moves False o o') : o'.queued = o.queued :=
  moves.keep (fun last => last.queued = o.queued) (fun kept move => by
    cases move with
    | queues asked => exact asked.elim
    | _ => exact kept) rfl

end Moves

/-! ### The pool -/

/-- The place of a buffer in the pool. -/
def poolIndex : BufId → Option Nat
  | .connectPacket => none
  | .pool index => some index

/-- The buffers of the pool: those in the queues, and those that are free. -/
def Outbound.pool (o : Outbound) : List Nat :=
  (o.outgoing ++ o.sent).filterMap poolIndex ++ o.free

theorem count_giveBack (index : Nat) (free : List Nat) (id : BufId) :
    (giveBack free id).count index = ([id].filterMap poolIndex).count index + free.count index := by
  cases id <;> simp [giveBack, poolIndex, List.filterMap_cons, List.count_cons, Nat.add_comm]

theorem count_foldl_giveBack (index : Nat) (free : List Nat) (ids : List BufId) :
    (ids.foldl giveBack free).count index =
      (ids.filterMap poolIndex).count index + free.count index := by
  induction ids generalizing free with
  | nil => simp
  | cons id ids inductionHypothesis =>
    have split : id :: ids = [id] ++ ids := rfl
    rw [List.foldl_cons, inductionHypothesis, count_giveBack, split, List.filterMap_append,
      List.count_append]
    omega

/-- No move loses a buffer of the pool, and none gives one back twice. -/
theorem Move.pool {user : Prop} {o o' : Outbound} (move : Move user o o') :
    o'.pool.Perm o.pool := by
  refine List.perm_iff_count.mpr fun index => ?_
  have headed {id : BufId} {ids rest : List BufId} (head : ids = id :: rest) :
      (ids.filterMap poolIndex).count index =
        ([id].filterMap poolIndex).count index + (rest.filterMap poolIndex).count index := by
    rw [head, ← List.count_append, ← List.filterMap_append]
    rfl
  cases move with
  | clears | destroys =>
    simp only [Outbound.pool, List.count_append, count_foldl_giveBack]
    simp
  | queuesConnect => simp [Outbound.pool, poolIndex, List.filterMap_cons]
  | discards _ only _ =>
    have first := headed only
    simp only [Outbound.pool, List.filterMap_append, List.count_append, count_giveBack, first]
    simp
    omega
  | @queues front back index' _ _ _ free _ =>
    simp only [Outbound.pool, List.filterMap_append, List.count_append, free]
    simp [poolIndex, List.count_cons]
    omega
  | sends head _ _ _ _ =>
    have first := headed head
    simp only [Outbound.pool, List.filterMap_append, List.count_append, first]
    omega
  | sendsAck head _ _ _ _ _ =>
    have first := headed head
    simp only [Outbound.pool, List.filterMap_append, List.count_append, count_giveBack, first]
    omega
  | retires head =>
    have first := headed head
    simp only [Outbound.pool, List.filterMap_append, List.count_append, count_giveBack, first]
    omega
  | turns | crosses | notes | prepares | numbers | resends => rfl

theorem Moves.pool {user : Prop} {o o' : Outbound} (moves : Moves user o o') :
    o'.pool.Perm o.pool :=
  moves.keep (fun last => last.pool.Perm o.pool) (fun same move => move.pool.trans same) (.refl _)

end Nosgem.Tcp
