/-
This file models the receive buffers of PACKET.CPP, which the packet driver
fills from an interrupt while the program works: a stack of free buffers, the
ring of packets that have arrived, and the one buffer that is being copied into.
The driver asks for a buffer and reports the copy in two calls of `receiver`;
the program tests the ring, takes a packet from it, and frees it when it is done
with it.

The interrupt may come between any two steps of the program, so the results are
about every interleaving of the calls of the driver with the steps of the
program. The critical sections of the source, in which interrupts are disabled,
are the steps. What is relied on is the protocol of the driver: it reports a
copy only for a buffer that it was given, it copies as many bytes as it asked
room for, and it asks for no second buffer before that.
-/

import Nosgem.Circular

namespace Nosgem.Packets

open CText Buffers Circular

/-! ### The source -/

/-- `PACKET_BUFFERS` of nosgem.cfg. -/
def packetBuffers : Nat := 10

/-- `PACKET_RB_SIZE`. -/
def packetRbSize : Nat := packetBuffers + 1

/-- `PACKET_BUFFER_LEN` of nosgem.cfg. -/
def packetBufferLen : Nat := 1514

/-- The address of a receive buffer. -/
abbrev BufferId : Type := Fin packetBuffers

/-- The variables of PACKET.CPP, and what the buffers hold. -/
structure Pool where
  /-- `Buffer` -/
  ring : Vector BufferId packetRbSize
  /-- `Buffer_len` -/
  len : Vector Nat packetRbSize
  /-- `Buffer_first` -/
  first : Nat
  /-- `Buffer_next` -/
  next : Nat
  /-- `Buffer_fs` -/
  fs : Vector BufferId packetBuffers
  /-- `Buffer_fs_index` -/
  fsIndex : Nat
  /-- `Buffer_packetBeingCopied` -/
  packetBeingCopied : BufferId
  memory : BufferId → Vector Byte packetBufferLen

namespace Pool

/-- `Buffer_init`, whatever the memory held. -/
def init (ring : Vector BufferId packetRbSize) (len : Vector Nat packetRbSize)
    (packetBeingCopied : BufferId) (memory : BufferId → Vector Byte packetBufferLen) : Pool :=
  ⟨ring, len, 0, 0, .ofFn id, 0, packetBeingCopied, memory⟩

/-- `Buffer_startReceiving`. -/
def startReceiving (pool : Pool) : Pool := { pool with fsIndex := packetBuffers }

/-- `Buffer_stopReceiving`. -/
def stopReceiving (pool : Pool) : Pool := { pool with fsIndex := 0 }

/-- `Buffer_free`. -/
def free (pool : Pool) (buffer : BufferId) : Except Stop Pool := do
  let fs ← put pool.fs pool.fsIndex buffer
  return { pool with fs, fsIndex := pool.fsIndex + 1 }

/-- An index of the ring behind the one given. -/
def wrap (index : Nat) : Nat := if index + 1 = packetRbSize then 0 else index + 1

/-- `receiver` with AX = 0: the driver asks for a buffer for a packet of `len` bytes. -/
def request (pool : Pool) (len : Nat) : Except Stop (Option BufferId × Pool) :=
  if len > packetBufferLen ∨ pool.fsIndex = 0 then return (none, pool)
  else do
    let buffer ← fetch pool.fs (pool.fsIndex - 1)
    return (some buffer,
      { pool with fsIndex := pool.fsIndex - 1, packetBeingCopied := buffer })

/-- `receiver` with AX = 1: the driver has copied `len` bytes. -/
def copied (pool : Pool) (len : Nat) : Except Stop Pool := do
  let ring ← put pool.ring pool.next pool.packetBeingCopied
  let lens ← put pool.len pool.next len
  return { pool with ring, len := lens, next := wrap pool.next }

/-- The part of `Packet_process_internal` that takes a packet off the ring. -/
def process (pool : Pool) : Except Stop ((BufferId × Nat) × Pool) := do
  let packet ← fetch pool.ring pool.first
  let packetLen ← fetch pool.len pool.first
  return ((packet, packetLen), { pool with first := wrap pool.first })

end Pool

/-! ### The driver and the program -/

/-- The buffers between the driver and the program. The driver was given a buffer to copy a packet
of some length into; the program has tested the ring, and it holds packets that it has taken with
what they said then. The packets that were reported and those that were taken are kept. -/
structure Station where
  pool : Pool
  started : Bool
  copying : Option (BufferId × Nat)
  ready : Bool
  held : List (BufferId × Text)
  delivered : List Text
  taken : List Text

/-- The calls of the driver and the steps of the program. -/
inductive Event where
  | start
  | stop
  | request (len : Nat)
  | copied (frame : Text)
  | test
  | take
  | free (packet : BufferId)

namespace Station

/-- What the protocol of the driver and the order of the program's steps allow. -/
def Allows (station : Station) : Event → Prop
  | .start => station.started = false
  | .stop => True
  | .request _ => station.copying = none
  | .copied frame => ∃ buffer, station.copying = some (buffer, frame.length)
  | .test => station.ready = false
  | .take => station.ready = true
  | .free packet => packet ∈ station.held.map Prod.fst

/-- An event. The driver copies into the buffer it was given before it reports the copy. -/
def step (station : Station) : Event → Except Stop Station
  | .start => return { station with pool := station.pool.startReceiving, started := true }
  | .stop => return { station with pool := station.pool.stopReceiving }
  | .request len => do
    let (buffer, pool) ← station.pool.request len
    return { station with pool, copying := buffer.map (·, len) }
  | .copied frame =>
    match station.copying with
    | none => return station
    | some (buffer, _) => do
      let bytes ← copy (station.pool.memory buffer) 0 frame
      let pool := { station.pool with memory := Function.update station.pool.memory buffer bytes }
      let pool ← pool.copied frame.length
      return { station with pool, copying := none, delivered := station.delivered ++ [frame] }
  | .test => return { station with ready := station.pool.first ≠ station.pool.next }
  | .take => do
    let ((packet, packetLen), pool) ← station.pool.process
    let frame := filled (pool.memory packet) packetLen
    return { station with
      pool, ready := false, held := (packet, frame) :: station.held
      taken := station.taken ++ [frame] }
  | .free packet => do
    let pool ← station.pool.free packet
    return { station with
      pool, held := station.held.eraseP fun held => held.1 = packet }

/-- The station after `Buffer_init`. -/
def init (pool : Pool) : Station := ⟨pool, false, none, false, [], [], []⟩

end Station

/-- The runs of a station over any events in any order that the protocols allow. -/
inductive Runs : Station → List Event → Station → Prop where
  | refl (station : Station) : Runs station [] station
  | step {station middle final : Station} {event : Event} {events : List Event}
      (allowed : station.Allows event) (steps : station.step event = .ok middle)
      (tail : Runs middle events final) : Runs station (event :: events) final

/-! ### The invariant -/

/-- The buffers that are free. -/
def Pool.freeBuffers (pool : Pool) : List BufferId := filled pool.fs pool.fsIndex

/-- The buffer the driver copies into. -/
def Station.copyingBuffer (station : Station) : List BufferId :=
  (station.copying.map Prod.fst).toList

/-- A station whose ring holds the given packets: each with its bytes in its buffer, and every
buffer in one place, with those set aside while reception is stopped or has not started. -/
structure Station.Sound (station : Station) (queue : List (BufferId × Text))
    (aside : List BufferId) : Prop where
  first : station.pool.first < packetRbSize
  next : station.pool.next = (station.pool.first + queue.length) % packetRbSize
  ring : window station.pool.ring.toList station.pool.first queue.length = queue.map Prod.fst
  len : window station.pool.len.toList station.pool.first queue.length =
    queue.map fun packet => packet.2.length
  all : (station.pool.freeBuffers ++ (station.copyingBuffer ++ (queue.map Prod.fst ++
    (station.held.map Prod.fst ++ aside)))).Perm (List.finRange packetBuffers)
  index : station.pool.fsIndex ≤ packetBuffers
  waiting : station.started = false → station.pool.fs.toList = List.finRange packetBuffers ∧
    station.pool.fsIndex = 0 ∧ station.copying = none ∧ queue = [] ∧ station.held = []
  contents : ∀ packet ∈ queue ++ station.held,
    filled (station.pool.memory packet.1) packet.2.length = packet.2
  copying : ∀ buffer len, station.copying = some (buffer, len) →
    station.pool.packetBeingCopied = buffer ∧ len ≤ packetBufferLen
  ready : station.ready = true → queue ≠ []
  history : station.taken ++ queue.map Prod.snd = station.delivered

section Steps

variable {station : Station} {queue : List (BufferId × Text)} {aside : List BufferId}

/-- Every buffer is in one place only. -/
theorem Station.Sound.nodup (sound : station.Sound queue aside) :
    (station.pool.freeBuffers ++ (station.copyingBuffer ++ (queue.map Prod.fst ++
      (station.held.map Prod.fst ++ aside)))).Nodup :=
  sound.all.nodup_iff.mpr (List.nodup_finRange _)

/-- The places together have as many buffers as there are. -/
theorem Station.Sound.lengths (sound : station.Sound queue aside) :
    station.pool.fsIndex + (station.copyingBuffer.length + (queue.length +
      (station.held.length + aside.length))) = packetBuffers := by
  have length := sound.all.length_eq
  rwa [List.length_append, List.length_append, List.length_append, List.length_append,
    List.length_map, List.length_map, List.length_finRange, Pool.freeBuffers,
    length_filled _ sound.index] at length

theorem wrap_eq {first count : Nat} : Pool.wrap ((first + count) % packetRbSize) =
    (first + (count + 1)) % packetRbSize := by
  have inside : (first + count) % packetRbSize < packetRbSize := Nat.mod_lt _ (by decide)
  have step : (first + (count + 1)) % packetRbSize =
      ((first + count) % packetRbSize + 1) % packetRbSize := by
    rw [Nat.mod_add_mod, Nat.add_assoc]
  rw [step]
  generalize (first + count) % packetRbSize = index at inside
  by_cases last : index + 1 = packetRbSize
  · rw [Pool.wrap, if_pos last, last, Nat.mod_self]
  · rw [Pool.wrap, if_neg last, Nat.mod_eq_of_lt (by omega)]

/-- The ring is empty exactly where the program's test says so. -/
theorem Station.Sound.empty_iff (sound : station.Sound queue aside) :
    station.pool.first = station.pool.next ↔ queue = [] := by
  have lengths := sound.lengths
  have first := sound.first
  unfold packetRbSize at first
  unfold packetBuffers at lengths first
  rw [sound.next, ← List.length_eq_zero_iff]
  constructor
  · intro same
    by_contra some
    by_cases around : station.pool.first + queue.length < 11
    · rw [Nat.mod_eq_of_lt (show _ < packetRbSize from around)] at same
      omega
    · rw [Nat.mod_eq_sub_mod (show packetRbSize ≤ _ from not_lt.mp around),
        Nat.mod_eq_of_lt (show _ < packetRbSize by unfold packetRbSize packetBuffers; omega)]
        at same
      unfold packetRbSize packetBuffers at same
      omega
  · intro none
    rw [none, Nat.add_zero, Nat.mod_eq_of_lt sound.first]

theorem Station.Sound.start (sound : station.Sound queue aside) (notYet : station.started = false) :
    ∃ next, station.step .start = .ok next ∧ next.Sound queue [] := by
  obtain ⟨stack, -, idle, rfl, empty⟩ := sound.waiting notYet
  refine ⟨{ station with pool := station.pool.startReceiving, started := true }, rfl, sound.first,
    sound.next, sound.ring, sound.len, ?_, le_rfl,
    fun still => absurd still Bool.true_eq_false.mp, sound.contents, sound.copying, sound.ready,
    sound.history⟩
  have all : filled station.pool.fs packetBuffers = List.finRange packetBuffers := by
    rw [filled, List.take_of_length_le (by rw [Vector.length_toList]), stack]
  show (filled station.pool.fs packetBuffers ++ _).Perm _
  rw [all]
  simp [Station.copyingBuffer, idle, empty]

/-- What is free when reception is stopped is set aside. -/
theorem Station.Sound.stop (sound : station.Sound queue aside) :
    ∃ next, station.step .stop = .ok next ∧
      next.Sound queue (station.pool.freeBuffers ++ aside) := by
  refine ⟨{ station with pool := station.pool.stopReceiving }, rfl, sound.first, sound.next,
    sound.ring, sound.len, ?_, Nat.zero_le _, fun notYet => ?_, sound.contents, sound.copying,
    sound.ready, sound.history⟩
  · refine List.Perm.trans (List.perm_iff_count.mpr fun buffer => ?_) sound.all
    show List.count buffer (filled station.pool.fs 0 ++ (station.copyingBuffer ++ _)) = _
    simp only [filled, List.take_zero, List.nil_append, List.count_append]
    omega
  · obtain ⟨stack, -, idle⟩ := sound.waiting notYet
    exact ⟨stack, rfl, idle⟩

/-- The driver is given a free buffer, or nothing. -/
theorem Station.Sound.request (sound : station.Sound queue aside) (idle : station.copying = none)
    (len : Nat) :
    ∃ next, station.step (.request len) = .ok next ∧ next.Sound queue aside ∧
      next.started = station.started := by
  by_cases refused : len > packetBufferLen ∨ station.pool.fsIndex = 0
  · refine ⟨{ station with copying := none }, ?_, ?_, rfl⟩
    · rw [step, Pool.request, if_pos refused]
      rfl
    · rw [← idle]
      exact sound
  obtain ⟨fits, some⟩ := not_or.mp refused
  obtain ⟨index, succ⟩ : ∃ index, station.pool.fsIndex = index + 1 := ⟨_, (Nat.succ_pred some).symm⟩
  have bound : index < packetBuffers := by
    have index := sound.index
    omega
  have stack : station.pool.freeBuffers =
      filled station.pool.fs index ++ [station.pool.fs[index]] := by
    rw [Pool.freeBuffers, succ, filled_succ _ bound]
  let given := { station.pool with
    fsIndex := index, packetBeingCopied := station.pool.fs[index] }
  have gives : station.pool.request len = .ok (.some station.pool.fs[index], given) := by
    rw [Pool.request, if_neg refused, succ, Nat.add_sub_cancel,
      show fetch station.pool.fs index = .ok station.pool.fs[index] from dif_pos bound]
    rfl
  refine ⟨{ station with pool := given, copying := .some (station.pool.fs[index], len) },
    by rw [step, gives]; rfl, ⟨sound.first, sound.next, sound.ring, sound.len, ?_,
      Nat.le_of_lt bound, fun notYet => ?_, sound.contents, ?_, sound.ready, sound.history⟩, rfl⟩
  · have all := sound.all
    rw [stack, copyingBuffer, idle, List.append_assoc] at all
    exact all
  · have empty := (sound.waiting notYet).2.1
    omega
  · rintro buffer length equal
    cases equal
    exact ⟨rfl, not_lt.mp fits⟩

/-- A packet that was copied into its buffer is appended to the ring. -/
theorem Station.Sound.copied (sound : station.Sound queue aside) {frame : Text} {buffer : BufferId}
    (copying : station.copying = some (buffer, frame.length)) :
    ∃ next, station.step (.copied frame) = .ok next ∧
      next.Sound (queue ++ [(buffer, frame)]) aside ∧ next.started = station.started := by
  obtain ⟨same, fits⟩ := sound.copying _ _ copying
  have copyingBuffer : station.copyingBuffer = [buffer] := by
    rw [Station.copyingBuffer, copying]
    rfl
  have lengths := sound.lengths
  rw [copyingBuffer, List.length_singleton] at lengths
  have nodup := sound.nodup
  rw [copyingBuffer] at nodup
  have room : queue.length < packetRbSize := by
    unfold packetRbSize
    omega
  obtain ⟨bytes, copies, content⟩ := copy_filled (station.pool.memory buffer)
    (show 0 + frame.length ≤ packetBufferLen by omega)
  rw [Nat.zero_add, show filled (station.pool.memory buffer) 0 = [] from List.take_zero,
    List.nil_append] at content
  obtain ⟨ring, stores, ringWindow⟩ :=
    put_window station.pool.ring room sound.next station.pool.packetBeingCopied
  obtain ⟨len, storesLen, lenWindow⟩ := put_window station.pool.len room sound.next frame.length
  rw [sound.ring, same] at ringWindow
  rw [sound.len] at lenWindow
  let memory := Function.update station.pool.memory buffer bytes
  let pool := { station.pool with memory, ring, len, next := Pool.wrap station.pool.next }
  have others (packet : BufferId × Text) (member : packet ∈ queue ++ station.held) :
      memory packet.1 = station.pool.memory packet.1 := by
    refine Function.update_of_ne (fun equal => ?_) _ _
    have placed : packet.1 ∈ queue.map Prod.fst ++ (station.held.map Prod.fst ++ aside) := by
      rw [← List.append_assoc, ← List.map_append]
      exact List.mem_append_left _ (List.mem_map_of_mem member)
    have alone := (List.nodup_cons.mp (List.nodup_append.mp nodup).2.1).1
    exact alone (equal ▸ placed)
  refine ⟨{ station with pool, copying := none, delivered := station.delivered ++ [frame] }, ?_,
    ⟨sound.first, ?_, ?_, ?_, ?_, sound.index, fun notYet => ?_, ?_, fun _ _ none => ?_,
      fun _ => ?_, ?_⟩, rfl⟩
  · rw [step, copying]
    dsimp only
    rw [copies, ok_bind, Pool.copied]
    dsimp only
    rw [stores, ok_bind, storesLen, ok_bind]
    rfl
  · rw [List.length_append, List.length_singleton, ← wrap_eq, ← sound.next]
  · rw [List.length_append, List.length_singleton, List.map_append]
    exact ringWindow
  · rw [List.length_append, List.length_singleton, List.map_append]
    exact lenWindow
  · refine List.Perm.trans (List.perm_iff_count.mpr fun other => ?_) sound.all
    rw [copyingBuffer]
    show List.count other (station.pool.freeBuffers ++ ([] ++ _)) = _
    simp only [List.map_append, List.map_cons, List.map_nil, List.nil_append, List.count_append]
    omega
  · have idle := (sound.waiting notYet).2.2.1
    rw [copying] at idle
    cases idle
  · intro packet member
    show filled (memory packet.1) _ = _
    by_cases new : packet = (buffer, frame)
    · rw [new]
      show filled (Function.update station.pool.memory buffer bytes buffer) _ = frame
      rwa [Function.update_self]
    · have old : packet ∈ queue ++ station.held := by
        rw [List.append_assoc] at member
        rcases List.mem_append.mp member with waiting | rest
        · exact List.mem_append_left _ waiting
        · exact List.mem_append_right _ ((List.mem_cons.mp rest).resolve_left new)
      rw [others packet old]
      exact sound.contents packet old
  · cases none
  · exact List.append_ne_nil_of_right_ne_nil _ (List.cons_ne_nil _ _)
  · rw [List.map_append, ← List.append_assoc, sound.history]
    rfl

/-- The test of the ring is right until the program takes a packet. -/
theorem Station.Sound.test (sound : station.Sound queue aside) :
    ∃ next, station.step .test = .ok next ∧ next.Sound queue aside ∧
      next.started = station.started := by
  refine ⟨{ station with ready := station.pool.first ≠ station.pool.next }, rfl, ⟨sound.first,
    sound.next, sound.ring, sound.len, sound.all, sound.index, sound.waiting, sound.contents,
    sound.copying, fun ready => ?_, sound.history⟩, rfl⟩
  exact fun none => of_decide_eq_true ready (sound.empty_iff.mpr none)

/-- The packet that is taken is the oldest one, with its bytes. -/
theorem Station.Sound.take (sound : station.Sound queue aside) (ready : station.ready = true) :
    ∃ next rest, station.step .take = .ok next ∧ next.Sound rest aside ∧
      next.started = station.started := by
  obtain ⟨⟨packet, frame⟩, rest, rfl⟩ := List.exists_cons_of_ne_nil (sound.ready ready)
  have lengths := sound.lengths
  rw [List.length_cons] at lengths
  have room : rest.length + 1 ≤ packetRbSize := by
    unfold packetRbSize
    omega
  have ringWindow := sound.ring
  have lenWindow := sound.len
  have next := sound.next
  rw [List.length_cons, List.map_cons] at ringWindow lenWindow
  have fetched : fetch station.pool.ring station.pool.first = .ok packet := by
    have front : window station.pool.ring.toList station.pool.first
        ((rest.map Prod.fst).length + 1) = packet :: rest.map Prod.fst := by
      rw [List.length_map]
      exact ringWindow
    exact fetch_window _ sound.first front
  have fetchedLen : fetch station.pool.len station.pool.first = .ok frame.length := by
    have front : window station.pool.len.toList station.pool.first
        ((rest.map fun packet => packet.2.length).length + 1) =
          frame.length :: rest.map fun packet => packet.2.length := by
      rw [List.length_map]
      exact lenWindow
    exact fetch_window _ sound.first front
  have first : Pool.wrap station.pool.first = (station.pool.first + 1) % packetRbSize := by
    rw [← wrap_eq, Nat.add_zero, Nat.mod_eq_of_lt sound.first]
  have content := sound.contents (packet, frame) List.mem_cons_self
  let pool := { station.pool with first := Pool.wrap station.pool.first }
  refine ⟨{ station with
      pool, ready := false, held := (packet, frame) :: station.held
      taken := station.taken ++ [frame] }, rest, ?_, ⟨?_, ?_, ?_, ?_, ?_, sound.index,
    fun notYet => ?_, ?_, sound.copying, fun again => ?_, ?_⟩, rfl⟩
  · rw [step, Pool.process, fetched, ok_bind, fetchedLen, ok_bind]
    show Except.ok _ = _
    rw [show filled (station.pool.memory packet) frame.length = frame from content]
  · show Pool.wrap station.pool.first < packetRbSize
    rw [first]
    exact Nat.mod_lt _ (by decide)
  · show station.pool.next = (Pool.wrap station.pool.first + rest.length) % packetRbSize
    rw [first, Nat.mod_add_mod, next, List.length_cons, Nat.add_assoc, Nat.add_comm 1]
  · show window _ (Pool.wrap station.pool.first) _ = _
    rw [first, tail_window _ room, ringWindow]
    rfl
  · show window _ (Pool.wrap station.pool.first) _ = _
    rw [first, tail_window _ room, lenWindow]
    rfl
  · refine List.Perm.trans (List.perm_iff_count.mpr fun other => ?_) sound.all
    show List.count other (station.pool.freeBuffers ++ (station.copyingBuffer ++ _)) = _
    simp only [List.map_cons, List.count_append, List.count_cons]
    omega
  · cases (sound.waiting notYet).2.2.2.1
  · intro other member
    refine sound.contents other ?_
    simp only [List.mem_append, List.mem_cons] at member ⊢
    tauto
  · cases again
  · rw [List.append_assoc]
    exact sound.history

/-- A packet that is given back is free again. -/
theorem Station.Sound.free (sound : station.Sound queue aside) {packet : BufferId}
    (held : packet ∈ station.held.map Prod.fst) :
    ∃ next, station.step (.free packet) = .ok next ∧ next.Sound queue aside ∧
      next.started = station.started := by
  obtain ⟨frame, member, isPacket⟩ := List.mem_map.mp held
  obtain ⟨given, before, behind, -, same, parts, erased⟩ :=
    @List.exists_of_eraseP _ (fun held : BufferId × Text => decide (held.1 = packet)) _ frame member
      (decide_eq_true isPacket)
  have lengths := sound.lengths
  rw [parts, List.length_append, List.length_cons] at lengths
  obtain ⟨fs, stores, pushed⟩ := put_filled station.pool.fs
    (show station.pool.fsIndex < packetBuffers by omega) packet
  refine ⟨{ station with
      pool := { station.pool with fs, fsIndex := station.pool.fsIndex + 1 }
      held := station.held.eraseP fun held => held.1 = packet }, ?_, ⟨sound.first, sound.next,
    sound.ring, sound.len, ?_, ?_, fun notYet => ?_, ?_, sound.copying, sound.ready,
    sound.history⟩, rfl⟩
  · rw [step, Pool.free, stores]
    rfl
  · refine List.Perm.trans (List.perm_iff_count.mpr fun other => ?_) sound.all
    show List.count other (filled fs (station.pool.fsIndex + 1) ++ (station.copyingBuffer ++
      (_ ++ (List.map Prod.fst (station.held.eraseP _) ++ _)))) = _
    have isGiven : given.1 = packet := of_decide_eq_true same
    rw [pushed, erased, parts, ← isGiven, Pool.freeBuffers]
    simp only [List.map_append, List.map_cons, List.count_append, List.count_cons, List.count_nil]
    omega
  · show station.pool.fsIndex + 1 ≤ packetBuffers
    omega
  · have none := (sound.waiting notYet).2.2.2.2
    rw [none] at member
    cases member
  · intro other within
    refine sound.contents other ?_
    rcases List.mem_append.mp within with waiting | kept
    · exact List.mem_append_left _ waiting
    · exact List.mem_append_right _ (List.mem_of_mem_eraseP kept)

/-- The step lemma: whatever happens next, nothing goes wrong, and the station stays sound. Buffers
are set aside when reception is stopped, and none when it is started. -/
theorem Station.Sound.step (sound : station.Sound queue aside) {event : Event}
    (allowed : station.Allows event) :
    ∃ next queue' aside', station.step event = .ok next ∧ next.Sound queue' aside' ∧
      (aside' = [] ∨ event = .stop ∨ (aside' = aside ∧ next.started = station.started)) := by
  cases event with
  | start =>
    obtain ⟨next, steps, sound⟩ := sound.start allowed
    exact ⟨next, queue, [], steps, sound, .inl rfl⟩
  | stop =>
    obtain ⟨next, steps, sound⟩ := sound.stop
    exact ⟨next, queue, _, steps, sound, .inr (.inl rfl)⟩
  | request len =>
    obtain ⟨next, steps, sound, started⟩ := sound.request allowed len
    exact ⟨next, queue, aside, steps, sound, .inr (.inr ⟨rfl, started⟩)⟩
  | copied frame =>
    obtain ⟨buffer, copying⟩ := allowed
    obtain ⟨next, steps, sound, started⟩ := sound.copied copying
    exact ⟨next, _, aside, steps, sound, .inr (.inr ⟨rfl, started⟩)⟩
  | test =>
    obtain ⟨next, steps, sound, started⟩ := sound.test
    exact ⟨next, queue, aside, steps, sound, .inr (.inr ⟨rfl, started⟩)⟩
  | take =>
    obtain ⟨next, rest, steps, sound, started⟩ := sound.take allowed
    exact ⟨next, rest, aside, steps, sound, .inr (.inr ⟨rfl, started⟩)⟩
  | free packet =>
    obtain ⟨next, steps, sound, started⟩ := sound.free allowed
    exact ⟨next, queue, aside, steps, sound, .inr (.inr ⟨rfl, started⟩)⟩

/-- The run lemma. While reception was started and not stopped, no buffer is set aside. -/
theorem Runs.sound {final : Station} {events : List Event} (run : Runs station events final)
    (sound : station.Sound queue aside) (unstopped : Prop)
    (none : unstopped → station.started = true → aside = []) :
    ∃ queue aside, final.Sound queue aside ∧
      (unstopped → .stop ∉ events → final.started = true → aside = []) := by
  induction run generalizing queue aside unstopped with
  | refl => exact ⟨queue, aside, sound, fun before _ => none before⟩
  | @step _ middle _ event events allowed steps tail inductionHypothesis =>
    obtain ⟨next, queue', aside', stepped, sound', sets⟩ := sound.step allowed
    obtain rfl : next = middle := by
      rw [stepped] at steps
      exact Except.ok.inj steps
    obtain ⟨queue'', aside'', sound'', empty⟩ := inductionHypothesis sound'
      (unstopped ∧ event ≠ .stop) fun before started => by
        rcases sets with set | stopped | ⟨set, same⟩
        · exact set
        · exact absurd stopped before.2
        · exact set.trans (none before.1 (same ▸ started))
    refine ⟨queue'', aside'', sound'', fun before noStop => empty ⟨before, ?_⟩ ?_⟩
    · rintro rfl
      exact noStop List.mem_cons_self
    · exact fun later => noStop (List.mem_cons_of_mem _ later)

theorem Station.sound_init (ring : Vector BufferId packetRbSize) (len : Vector Nat packetRbSize)
    (packetBeingCopied : BufferId) (memory : BufferId → Vector Byte packetBufferLen) :
    (Station.init (.init ring len packetBeingCopied memory)).Sound []
      (List.finRange packetBuffers) := by
  have stack : (Vector.ofFn id : Vector BufferId packetBuffers).toList =
      List.finRange packetBuffers := by decide
  refine ⟨show 0 < packetRbSize by decide, rfl, rfl, rfl, ?_, Nat.zero_le _,
    fun _ => ⟨stack, rfl, rfl, rfl, rfl⟩, List.forall_mem_nil _, ?_, ?_, rfl⟩
  · exact List.Perm.refl _
  · rintro buffer length none
    cases none
  · intro ready
    cases ready

end Steps

/-- Over every interleaving of the driver's interrupts with the program, whatever the memory held
before `Buffer_init`: no access is outside of the ring, the stack or a buffer; the packets that the
program takes are those the driver reported, none lost, repeated or out of order, and the rest waits
in the ring; a packet that is held keeps its bytes until it is freed; and while reception is on,
every buffer is in exactly one place: free, with the driver, in the ring or held by the program. -/
theorem runs_packets {ring : Vector BufferId packetRbSize} {len : Vector Nat packetRbSize}
    {packetBeingCopied : BufferId} {memory : BufferId → Vector Byte packetBufferLen}
    {events : List Event} {station : Station}
    (run : Runs (.init (.init ring len packetBeingCopied memory)) events station) :
    (∀ event, station.Allows event → ∃ next, station.step event = .ok next) ∧
      (∀ packet frame, (packet, frame) ∈ station.held →
        filled (station.pool.memory packet) frame.length = frame) ∧
      ∃ queue : List (BufferId × Text),
        station.taken ++ queue.map Prod.snd = station.delivered ∧
        (station.pool.first = station.pool.next ↔ queue = []) ∧
        (station.started = true → .stop ∉ events →
          (station.pool.freeBuffers ++ (station.copyingBuffer ++ (queue.map Prod.fst ++
            station.held.map Prod.fst))).Perm (List.finRange packetBuffers)) := by
  obtain ⟨queue, aside, sound, empty⟩ := run.sound (Station.sound_init _ _ _ _) True
    fun _ started => by cases started
  refine ⟨fun event allowed => ?_, fun packet frame member => ?_, queue, sound.history,
    sound.empty_iff, fun started noStop => ?_⟩
  · obtain ⟨next, _, _, steps, _⟩ := sound.step allowed
    exact ⟨next, steps⟩
  · exact sound.contents _ (List.mem_append_right _ member)
  · have all := sound.all
    rwa [empty trivial noStop started, List.append_nil] at all

/-- The pool over memory that was cleared. -/
def clearedPool : Pool :=
  .init (.replicate _ ⟨0, by decide⟩) (.replicate _ 0) ⟨0, by decide⟩ fun _ => .replicate _ 0

/-- The first packet of the driver reaches the program. -/
theorem runs_arrival (frame : Text) (fits : frame.length ≤ packetBufferLen) :
    ∃ station, Runs (.init clearedPool)
        [.start, .request frame.length, .copied frame, .test, .take] station ∧
      station.taken = [frame] := by
  have given : clearedPool.startReceiving.request frame.length =
      .ok (some ⟨9, by decide⟩,
        { clearedPool with fsIndex := 9, packetBeingCopied := ⟨9, by decide⟩ }) := by
    rw [Pool.request, if_neg]
    · rfl
    · rintro (long | none)
      · omega
      · cases none
  obtain ⟨bytes, copies, content⟩ :=
    copy_filled (.replicate packetBufferLen 0) (show 0 + frame.length ≤ packetBufferLen by omega)
  rw [Nat.zero_add] at content
  let started := { Station.init clearedPool with
    pool := clearedPool.startReceiving, started := true }
  let asked := { started with
    pool := { clearedPool with fsIndex := 9, packetBeingCopied := ⟨9, by decide⟩ }
    copying := some (⟨9, by decide⟩, frame.length) }
  let stored := { asked with
    pool := { asked.pool with
      memory := Function.update asked.pool.memory ⟨9, by decide⟩ bytes
      ring := asked.pool.ring.set 0 ⟨9, by decide⟩ (by decide)
      len := asked.pool.len.set 0 frame.length (by decide)
      next := 1 }
    copying := none, delivered := [frame] }
  let tested := { stored with ready := true }
  let bytesTaken := filled (Function.update clearedPool.memory ⟨9, by decide⟩ bytes
    ⟨9, by decide⟩) frame.length
  have same : bytesTaken = frame := by
    dsimp only [bytesTaken]
    rw [Function.update_self]
    exact content
  let final := { tested with
    pool := { stored.pool with first := 1 }
    ready := false, held := [(⟨9, by decide⟩, bytesTaken)], taken := [bytesTaken] }
  have receives : asked.step (.copied frame) = .ok stored := by
    rw [Station.step]
    dsimp only [asked]
    rw [show copy (clearedPool.memory ⟨9, by decide⟩) 0 frame = .ok bytes from copies]
    rfl
  have takes : tested.step .take = .ok final := rfl
  have asks : started.step (.request frame.length) = .ok asked := by
    rw [Station.step, show started.pool.request frame.length = _ from given]
    rfl
  have tests : stored.step .test = .ok tested := rfl
  exact ⟨final, .step rfl rfl (.step rfl asks (.step ⟨_, rfl⟩ receives (.step rfl tests
    (.step rfl takes (.refl final))))), congrArg (fun bytes => [bytes]) same⟩

theorem runs_packets_arrival :
    ∃ station, Runs (.init clearedPool)
        [.start, .request 2, .copied [104, 105], .test, .take] station ∧
      station.taken = [[104, 105]] ∧ ∃ queue : List (BufferId × Text),
        station.taken ++ queue.map Prod.snd = station.delivered ∧
        (station.pool.first = station.pool.next ↔ queue = []) := by
  obtain ⟨station, run, taken⟩ := runs_arrival [104, 105] (by decide)
  obtain ⟨-, -, queue, delivered, empty, -⟩ := runs_packets run
  exact ⟨station, run, taken, queue, delivered, empty⟩

end Nosgem.Packets
