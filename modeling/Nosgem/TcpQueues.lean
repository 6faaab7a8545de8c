/-
This file models the two queues of a TCP socket of mTCP: the ring buffer of
packets (`RingBuffer` of RINGBUF.H) and the receive buffer that
`TcpSocket::addToRcvBuf` fills and `TcpSocket::recv` empties. Both are used in a
circle, the second with copies of many bytes that are cut in two at its end.

The results are refinements. Whatever the sequence of calls, the ring answers as
a list of at most four packets would, and the receive buffer as a list of bytes
that takes a piece when there is room for all of it; no access is outside of the
memory, in the receive buffer for every length a caller may ask for.
-/

import Nosgem.Circular
import Nosgem.Simulation
import Nosgem.TlsCallbacks

namespace Nosgem.Tcp

open CText Buffers Circular Simulation

/-! ### The ring of packets -/

/-- `TCP_SOCKET_RING_SIZE`. -/
def tcpSocketRingSize : Nat := 4

/-- `RingBuffer` of RINGBUF.H. -/
structure RingBuffer (Item : Type) where
  first : Nat
  next : Nat
  entries : Nat
  ring : Vector Item tcpSocketRingSize

section Rings

variable {Item : Type}

/-- `RingBuffer::init`. -/
def RingBuffer.init (memory : Vector Item tcpSocketRingSize) : RingBuffer Item :=
  ⟨0, 0, 0, memory⟩

/-- `RingBuffer::enqueue`, true when it returns 0. -/
def RingBuffer.enqueue (queue : RingBuffer Item) (data : Item) :
    Except Stop (Bool × RingBuffer Item) :=
  if queue.entries = tcpSocketRingSize then return (false, queue)
  else do
    let ring ← put queue.ring queue.next data
    return (true, { queue with
      ring, next := (queue.next + 1) &&& (tcpSocketRingSize - 1), entries := queue.entries + 1 })

/-- `RingBuffer::dequeue`. -/
def RingBuffer.dequeue (queue : RingBuffer Item) : Except Stop (Option Item × RingBuffer Item) :=
  if queue.entries = 0 then return (none, queue)
  else do
    let data ← fetch queue.ring queue.first
    return (some data, { queue with
      first := (queue.first + 1) &&& (tcpSocketRingSize - 1), entries := queue.entries - 1 })

/-- `RingBuffer::peek`. -/
def RingBuffer.peek (queue : RingBuffer Item) : Except Stop (Option Item) :=
  if queue.entries = 0 then return none
  else do
    let data ← fetch queue.ring queue.first
    return some data

/-- A call of a ring. -/
inductive RingCall (Item : Type) where
  | enqueue (data : Item)
  | dequeue
  | peek

/-- What a ring answers to a call, and what it is then. -/
def RingBuffer.call (queue : RingBuffer Item) :
    RingCall Item → Except Stop ((Bool × Option Item) × RingBuffer Item)
  | .enqueue data => do
    let (taken, queue) ← queue.enqueue data
    return ((taken, none), queue)
  | .dequeue => do
    let (data, queue) ← queue.dequeue
    return ((true, data), queue)
  | .peek => do
    let data ← queue.peek
    return ((true, data), queue)

/-- What a list of packets answers to a call: it takes a packet while there is room. -/
def answerOf (items : List Item) : RingCall Item → (Bool × Option Item) × List Item
  | .enqueue data =>
    if items.length < tcpSocketRingSize then ((true, none), items ++ [data])
    else ((false, none), items)
  | .dequeue => ((true, items.head?), items.tail)
  | .peek => ((true, items.head?), items)

/-- A ring whose entries are the given packets, in this order. -/
structure RingBuffer.Holds (queue : RingBuffer Item) (items : List Item) : Prop where
  first : queue.first < tcpSocketRingSize
  next : queue.next = (queue.first + queue.entries) % tcpSocketRingSize
  entries : queue.entries = items.length
  fits : items.length ≤ tcpSocketRingSize
  items : window queue.ring.toList queue.first queue.entries = items

theorem mask_eq (index : Nat) : index &&& (tcpSocketRingSize - 1) = index % tcpSocketRingSize :=
  Nat.and_two_pow_sub_one_eq_mod index 2

theorem RingBuffer.holds_init (memory : Vector Item tcpSocketRingSize) :
    (RingBuffer.init memory).Holds [] :=
  ⟨show 0 < tcpSocketRingSize by decide, rfl, rfl, Nat.zero_le _, rfl⟩

variable {queue : RingBuffer Item} {items : List Item}

theorem RingBuffer.enqueue_holds (holds : queue.Holds items) (data : Item) :
    ∃ after, queue.enqueue data = .ok ((answerOf items (.enqueue data)).1.1, after) ∧
      after.Holds (answerOf items (.enqueue data)).2 := by
  obtain ⟨first, next, entries, fits, contents⟩ := holds
  rw [enqueue, answerOf]
  by_cases full : items.length = tcpSocketRingSize
  · rw [if_pos (by omega), if_neg (by omega)]
    exact ⟨queue, rfl, first, next, entries, fits, contents⟩
  · have room : items.length < tcpSocketRingSize := by omega
    obtain ⟨ring, stores, appended⟩ := put_window queue.ring (entries ▸ room) next data
    rw [if_neg (by omega), if_pos room, stores]
    refine ⟨_, rfl, first, ?_, ?_, ?_, ?_⟩
    · show (queue.next + 1) &&& (tcpSocketRingSize - 1) =
        (queue.first + (queue.entries + 1)) % tcpSocketRingSize
      rw [mask_eq, next, Nat.mod_add_mod, Nat.add_assoc]
    · rw [List.length_append, List.length_singleton, entries]
    · rw [List.length_append, List.length_singleton]
      exact room
    · rw [contents] at appended
      exact appended

theorem RingBuffer.fetch_first (holds : queue.Holds items) (some : queue.entries ≠ 0) :
    ∃ data rest, items = data :: rest ∧ fetch queue.ring queue.first = .ok data := by
  obtain ⟨first, -, entries, fits, contents⟩ := holds
  cases items with
  | nil => exact absurd entries some
  | cons data rest =>
    rw [entries, List.length_cons] at contents
    exact ⟨data, rest, rfl, fetch_window queue.ring first contents⟩

theorem RingBuffer.dequeue_holds (holds : queue.Holds items) :
    ∃ after, queue.dequeue = .ok (items.head?, after) ∧ after.Holds items.tail := by
  by_cases none : queue.entries = 0
  · have empty : items = [] := List.eq_nil_of_length_eq_zero (holds.entries ▸ none)
    subst empty
    exact ⟨queue, if_pos none, holds⟩
  · obtain ⟨data, rest, rfl, fetched⟩ := fetch_first holds none
    obtain ⟨first, next, entries, fits, contents⟩ := holds
    rw [List.length_cons] at entries fits
    refine ⟨_, by rw [dequeue, if_neg none, fetched]; rfl, ?_, ?_, ?_, by simpa using by omega, ?_⟩
    · show (queue.first + 1) &&& (tcpSocketRingSize - 1) < tcpSocketRingSize
      rw [mask_eq]
      exact Nat.mod_lt _ (by decide)
    · show queue.next =
        (((queue.first + 1) &&& (tcpSocketRingSize - 1)) + (queue.entries - 1)) % tcpSocketRingSize
      rw [mask_eq, Nat.mod_add_mod, next]
      congr 1
      omega
    · show queue.entries - 1 = rest.length
      omega
    · show window queue.ring.toList ((queue.first + 1) &&& (tcpSocketRingSize - 1))
        (queue.entries - 1) = rest
      rw [entries] at contents ⊢
      rw [mask_eq, Nat.add_sub_cancel, tail_window queue.ring fits, contents]
      rfl

theorem RingBuffer.peek_holds (holds : queue.Holds items) :
    queue.peek = .ok items.head? := by
  rw [peek]
  by_cases none : queue.entries = 0
  · have empty : items = [] := List.eq_nil_of_length_eq_zero (holds.entries ▸ none)
    subst empty
    exact if_pos none
  · obtain ⟨data, rest, rfl, fetched⟩ := fetch_first holds none
    rw [if_neg none, fetched]
    rfl

end Rings

theorem RingBuffer.simulates {Item : Type} :
    Simulates (RingBuffer.call : RingBuffer Item → _) answerOf RingBuffer.Holds fun _ => True := by
  intro queue items call holds _
  cases call with
  | enqueue data =>
    obtain ⟨after, enqueues, holds⟩ := enqueue_holds holds data
    refine ⟨after, ?_, holds⟩
    rw [RingBuffer.call, enqueues, answerOf]
    split <;> rfl
  | dequeue =>
    obtain ⟨after, dequeues, holds⟩ := dequeue_holds holds
    exact ⟨after, by rw [RingBuffer.call, dequeues]; rfl, holds⟩
  | peek => exact ⟨queue, by rw [RingBuffer.call, peek_holds holds]; rfl, holds⟩

/-- Whatever the memory held before, and whatever is called in which order: a ring answers as a
list of at most four packets. -/
theorem ringBuffer_fifo {Item : Type} (memory : Vector Item tcpSocketRingSize)
    (calls : List (RingCall Item)) :
    ∃ last, answers RingBuffer.call (RingBuffer.init memory) calls =
      .ok ((answersOf answerOf [] calls).1, last) := by
  obtain ⟨last, answered, -⟩ := RingBuffer.simulates.answers (RingBuffer.holds_init memory)
    fun call (_ : call ∈ calls) => trivial
  exact ⟨last, answered⟩

/-! ### The receive buffer -/

/-- What `TcpSocket` knows of its receive buffer. One byte more is allocated than is used. -/
structure ReceiveBuffer (rcvBufSize : Nat) where
  rcvBuffer : Vector Byte (rcvBufSize + 1)
  rcvBufFirst : Nat
  rcvBufLast : Nat
  rcvBufEntries : Nat

section Buffers

variable {rcvBufSize : Nat}

/-- `TcpSocket::setRecvBuffer`, with what the allocated memory held before. -/
def ReceiveBuffer.set (memory : Vector Byte (rcvBufSize + 1)) : ReceiveBuffer rcvBufSize :=
  ⟨memory, 0, 0, 0⟩

/-- `TcpSocket::addToRcvBuf`: the buffer without room is `none`, and `data` is the memory from the
pointer on. -/
def ReceiveBuffer.addToRcvBuf (buffer : ReceiveBuffer rcvBufSize) (data : Text) (dataLen : Nat) :
    Except Stop (Option (ReceiveBuffer rcvBufSize)) :=
  if dataLen > rcvBufSize - buffer.rcvBufEntries then return none
  else if dataLen + buffer.rcvBufLast < rcvBufSize then do
    let rcvBuffer ← copy buffer.rcvBuffer buffer.rcvBufLast (← load data 0 dataLen)
    return some { buffer with
      rcvBuffer, rcvBufLast := buffer.rcvBufLast + dataLen,
      rcvBufEntries := buffer.rcvBufEntries + dataLen }
  else do
    let firstCpyLen := rcvBufSize - buffer.rcvBufLast
    let rcvBuffer ← copy buffer.rcvBuffer buffer.rcvBufLast (← load data 0 firstCpyLen)
    let secondCpyLen := dataLen - firstCpyLen
    let rcvBuffer ← copy rcvBuffer 0 (← load data firstCpyLen secondCpyLen)
    return some { buffer with
      rcvBuffer, rcvBufLast := secondCpyLen,
      rcvBufEntries := buffer.rcvBufEntries + dataLen }

/-- What `TcpSocket::recv` does to the receive buffer: the bytes for the caller, and the buffer. -/
def ReceiveBuffer.recv (buffer : ReceiveBuffer rcvBufSize) (userBufLen : Nat) :
    Except Stop (Text × ReceiveBuffer rcvBufSize) :=
  if buffer.rcvBufEntries = 0 ∨ userBufLen = 0 then return ([], buffer)
  else
    let cpyLen := if buffer.rcvBufEntries < userBufLen then buffer.rcvBufEntries else userBufLen
    if cpyLen + buffer.rcvBufFirst < rcvBufSize then do
      let userBuf ← load buffer.rcvBuffer.toList buffer.rcvBufFirst cpyLen
      return (userBuf, { buffer with
        rcvBufFirst := buffer.rcvBufFirst + cpyLen,
        rcvBufEntries := buffer.rcvBufEntries - cpyLen })
    else do
      let firstCpyLen := rcvBufSize - buffer.rcvBufFirst
      let front ← load buffer.rcvBuffer.toList buffer.rcvBufFirst firstCpyLen
      let secondCpyLen := cpyLen - firstCpyLen
      let back ← load buffer.rcvBuffer.toList 0 secondCpyLen
      return (front ++ back, { buffer with
        rcvBufFirst := secondCpyLen, rcvBufEntries := buffer.rcvBufEntries - cpyLen })

/-- A receive buffer in which the given bytes wait, in this order. -/
structure ReceiveBuffer.Holds (buffer : ReceiveBuffer rcvBufSize) (waiting : Text) : Prop where
  first : buffer.rcvBufFirst < rcvBufSize
  last : buffer.rcvBufLast = (buffer.rcvBufFirst + buffer.rcvBufEntries) % rcvBufSize
  entries : buffer.rcvBufEntries = waiting.length
  fits : waiting.length ≤ rcvBufSize
  waiting : window (ring rcvBufSize buffer.rcvBuffer) buffer.rcvBufFirst buffer.rcvBufEntries =
    waiting

theorem ReceiveBuffer.holds_set (positive : 0 < rcvBufSize)
    (memory : Vector Byte (rcvBufSize + 1)) : (ReceiveBuffer.set memory).Holds [] :=
  ⟨positive, (Nat.mod_eq_of_lt positive).symm, rfl, Nat.zero_le _, rfl⟩

variable {buffer : ReceiveBuffer rcvBufSize} {waiting data : Text} {dataLen userBufLen : Nat}

/-- What does not fit whole is refused. -/
theorem ReceiveBuffer.addToRcvBuf_full (holds : buffer.Holds waiting)
    (full : rcvBufSize < waiting.length + dataLen) (data : Text) :
    buffer.addToRcvBuf data dataLen = .ok none := by
  have entries := holds.entries
  have fits := holds.fits
  rw [addToRcvBuf, if_pos (by omega)]
  rfl

/-- What fits is appended to the bytes that wait. -/
theorem ReceiveBuffer.addToRcvBuf_room (holds : buffer.Holds waiting)
    (room : waiting.length + dataLen ≤ rcvBufSize) (inside : dataLen ≤ data.length) :
    ∃ after, buffer.addToRcvBuf data dataLen = .ok (some after) ∧
      after.Holds (waiting ++ data.take dataLen) := by
  obtain ⟨first, last, entries, fits, contents⟩ := holds
  have lastInside : buffer.rcvBufLast < rcvBufSize := by
    rw [last]
    exact Nat.mod_lt _ (by omega)
  have longer : (waiting ++ data.take dataLen).length = waiting.length + dataLen := by
    rw [List.length_append, List.length_take, Nat.min_eq_left inside]
  have values : (data.take dataLen).length = dataLen := by
    rw [List.length_take, Nat.min_eq_left inside]
  rw [addToRcvBuf, if_neg (by omega)]
  by_cases whole : dataLen + buffer.rcvBufLast < rcvBufSize
  · obtain ⟨next, copied, window⟩ := copy_window buffer.rcvBuffer (Nat.le_succ rcvBufSize)
      buffer.rcvBufFirst buffer.rcvBufEntries (data.take dataLen) (by omega) (fun _ => last)
      (by omega)
    rw [if_pos whole, load_eq (by omega), List.drop_zero, ok_bind, copied]
    refine ⟨_, rfl, first, ?_, by dsimp only; omega, by omega, ?_⟩
    · dsimp only
      rw [← Nat.add_assoc, mod_along last (by omega)]
    · rw [values, contents] at window
      exact window
  · obtain ⟨middle, next, copied, copied', window⟩ := copy_around buffer.rcvBuffer
      (Nat.le_succ rcvBufSize) buffer.rcvBufFirst buffer.rcvBufEntries (data.take dataLen)
      (by omega) last lastInside (by omega)
    rw [List.take_take, Nat.min_eq_left (by omega)] at copied
    rw [List.drop_take] at copied'
    rw [if_neg whole]
    dsimp only
    rw [load_eq (by omega), List.drop_zero, ok_bind, copied, ok_bind, load_eq (by omega), ok_bind,
      copied']
    refine ⟨_, rfl, first, ?_, by dsimp only; omega, by omega, ?_⟩
    · dsimp only
      rw [← Nat.add_assoc, mod_around last (by omega) (by omega)]
      omega
    · rw [values, contents] at window
      exact window

/-- The front of the bytes that wait is handed out, as much of it as the caller asks for. -/
theorem ReceiveBuffer.recv_holds (holds : buffer.Holds waiting) (userBufLen : Nat) :
    ∃ after, buffer.recv userBufLen = .ok (waiting.take userBufLen, after) ∧
      after.Holds (waiting.drop userBufLen) := by
  obtain ⟨first, last, entries, fits, contents⟩ := holds
  rw [recv]
  by_cases nothing : buffer.rcvBufEntries = 0 ∨ userBufLen = 0
  · rw [if_pos nothing]
    rcases nothing with none | none
    · have empty : waiting = [] := List.eq_nil_of_length_eq_zero (entries ▸ none)
      subst empty
      rw [List.take_nil, List.drop_nil]
      exact ⟨buffer, rfl, first, last, entries, fits, contents⟩
    · subst none
      exact ⟨buffer, rfl, first, last, entries, fits, contents⟩
  · obtain ⟨cpyLen, counted⟩ : ∃ count,
      (if buffer.rcvBufEntries < userBufLen then buffer.rcvBufEntries else userBufLen) = count :=
        ⟨_, rfl⟩
    have least : cpyLen = min userBufLen waiting.length := by
      rw [← counted]
      split <;> omega
    have front : waiting.take userBufLen = waiting.take cpyLen := by
      rw [least, ← List.take_take, List.take_length]
    have back : waiting.drop userBufLen = waiting.drop cpyLen := by
      rw [least]
      rcases Nat.le_total userBufLen waiting.length with fewer | more
      · rw [Nat.min_eq_left fewer]
      · rw [Nat.min_eq_right more, List.drop_length, List.drop_of_length_le more]
    have rest : (waiting.drop cpyLen).length = waiting.length - cpyLen := List.length_drop
    have length := length_ring buffer.rcvBuffer (Nat.le_succ rcvBufSize)
    have moved := window_drop (ring rcvBufSize buffer.rcvBuffer) buffer.rcvBufFirst
      (show buffer.rcvBufEntries ≤ (ring rcvBufSize buffer.rcvBuffer).length by omega)
      (show cpyLen ≤ buffer.rcvBufEntries by omega)
    have here : buffer.rcvBufFirst = buffer.rcvBufFirst % rcvBufSize :=
      (Nat.mod_eq_of_lt first).symm
    rw [contents] at moved
    rw [if_neg nothing, counted, front, back]
    dsimp only
    by_cases whole : cpyLen + buffer.rcvBufFirst < rcvBufSize
    · rw [if_pos whole, load_window buffer.rcvBuffer (Nat.le_succ rcvBufSize) buffer.rcvBufFirst
        buffer.rcvBufEntries (by omega) (by omega), contents]
      refine ⟨_, rfl, by dsimp only; omega, ?_, by dsimp only; omega, by omega, moved⟩
      dsimp only
      rw [last]
      congr 1
      omega
    · obtain ⟨front, back, loaded, loaded', joined⟩ := load_around buffer.rcvBuffer
        (Nat.le_succ rcvBufSize) buffer.rcvBufFirst first
        (show buffer.rcvBufEntries ≤ rcvBufSize by omega)
        (show rcvBufSize ≤ buffer.rcvBufFirst + cpyLen by omega) (by omega)
      rw [if_neg whole, loaded, ok_bind, loaded', ok_bind, joined, contents]
      have turned := window_mod (ring rcvBufSize buffer.rcvBuffer) (buffer.rcvBufFirst + cpyLen)
        (buffer.rcvBufEntries - cpyLen)
      rw [length, mod_around here (by omega) (by omega)] at turned
      refine ⟨_, rfl, by dsimp only; omega, ?_, by dsimp only; omega, by omega, ?_⟩
      · dsimp only
        rw [last, show buffer.rcvBufFirst + buffer.rcvBufEntries =
          cpyLen - (rcvBufSize - buffer.rcvBufFirst) + (buffer.rcvBufEntries - cpyLen) + rcvBufSize
          by omega, Nat.add_mod_right]
      · dsimp only
        rw [← moved, ← turned]
        congr 1
        omega

end Buffers

/-- A call that fills the receive buffer or empties it. -/
inductive BufferCall where
  | addToRcvBuf (data : Text) (dataLen : Nat)
  | recv (userBufLen : Nat)

section Calls

variable {rcvBufSize : Nat}

/-- What a receive buffer answers to a call: whether it takes the data, or bytes. -/
def ReceiveBuffer.call (buffer : ReceiveBuffer rcvBufSize) :
    BufferCall → Except Stop ((Bool × Text) × ReceiveBuffer rcvBufSize)
  | .addToRcvBuf data dataLen => do
    match ← buffer.addToRcvBuf data dataLen with
    | none => return ((false, []), buffer)
    | some buffer => return ((true, []), buffer)
  | .recv userBufLen => do
    let (userBuf, buffer) ← buffer.recv userBufLen
    return ((true, userBuf), buffer)

/-- What a list of bytes answers that takes a piece when there is room for all of it. -/
def bytesOf (rcvBufSize : Nat) (waiting : Text) : BufferCall → (Bool × Text) × Text
  | .addToRcvBuf data dataLen =>
    if waiting.length + dataLen ≤ rcvBufSize then ((true, []), waiting ++ data.take dataLen)
    else ((false, []), waiting)
  | .recv userBufLen => ((true, waiting.take userBufLen), waiting.drop userBufLen)

/-- A piece lies in its memory, or is longer than any receive buffer. -/
def BufferCall.Allowed (rcvBufSize : Nat) : BufferCall → Prop
  | .addToRcvBuf data dataLen => dataLen ≤ data.length ∨ rcvBufSize < dataLen
  | .recv _ => True

theorem ReceiveBuffer.simulates :
    Simulates (ReceiveBuffer.call : ReceiveBuffer rcvBufSize → _) (bytesOf rcvBufSize)
      ReceiveBuffer.Holds (BufferCall.Allowed rcvBufSize) := by
  intro buffer waiting call holds allowed
  cases call with
  | addToRcvBuf data dataLen =>
    rw [ReceiveBuffer.call, bytesOf]
    by_cases room : waiting.length + dataLen ≤ rcvBufSize
    · obtain ⟨after, added, holds⟩ :=
        addToRcvBuf_room holds room (allowed.resolve_right (by omega))
      rw [if_pos room, added]
      exact ⟨after, rfl, holds⟩
    · rw [if_neg room, addToRcvBuf_full holds (by omega)]
      exact ⟨buffer, rfl, holds⟩
  | recv userBufLen =>
    obtain ⟨after, received, holds⟩ := recv_holds holds userBufLen
    exact ⟨after, by rw [ReceiveBuffer.call, received]; rfl, holds⟩

/-- Whatever the memory held before, and whatever arrives and is asked for in which order: a
receive buffer answers as a list of bytes. -/
theorem receiveBuffer_fifo (positive : 0 < rcvBufSize) (memory : Vector Byte (rcvBufSize + 1))
    (calls : List BufferCall) (allowed : ∀ call ∈ calls, call.Allowed rcvBufSize) :
    ∃ last, answers ReceiveBuffer.call (ReceiveBuffer.set memory) calls =
      .ok ((answersOf (bytesOf rcvBufSize) [] calls).1, last) := by
  obtain ⟨last, answered, -⟩ :=
    ReceiveBuffer.simulates.answers (ReceiveBuffer.holds_set positive memory) allowed
  exact ⟨last, answered⟩

end Calls

/-- Three bytes, two of them taken, and three more around the end of a buffer of four; a piece of
two bytes is refused then. -/
theorem receiveBuffer_fifo_around : ∃ last,
    answers ReceiveBuffer.call (ReceiveBuffer.set (Vector.replicate 5 (0 : Byte)))
      [.addToRcvBuf (text "abc") 3, .recv 2, .addToRcvBuf (text "def") 3,
        .addToRcvBuf (text "gh") 2, .recv 9] =
      .ok ([(true, []), (true, text "ab"), (true, []), (false, []), (true, text "cdef")],
        last) := by
  refine receiveBuffer_fifo (by decide) (Vector.replicate 5 (0 : Byte)) _ ?_
  simp only [List.forall_mem_cons]
  exact ⟨.inl (by decide), trivial, .inl (by decide), .inl (by decide), trivial,
    List.forall_mem_nil _⟩

end Nosgem.Tcp
