/-
This file is about buffers that are used in a circle: the values in use start at
some cell and go on at the first cell behind the last one. What such a buffer
holds is a list, the cells turned until the first value in use is in front; a
copy that stops at the last cell, followed by a copy to the first one, appends
to that list, and taking from its front only moves the start.
-/

import Nosgem.Buffers
import Mathlib.Data.List.Rotate
import Mathlib.Data.Nat.ModEq

namespace Circular

open Buffers

/-! ### Cells -/

/-- An index that does not come to the end of the circle is moved as it is. -/
theorem mod_along {capacity start index count : Nat} (here : start = index % capacity)
    (inside : start + count < capacity) : (index + count) % capacity = start + count := by
  rw [← Nat.mod_add_mod, ← here, Nat.mod_eq_of_lt inside]

/-- An index that comes to the end of the circle goes on at its first cell. -/
theorem mod_around {capacity start index count : Nat} (here : start = index % capacity)
    (beyond : capacity ≤ start + count) (once : start + count < capacity + capacity) :
    (index + count) % capacity = start + count - capacity := by
  rw [← Nat.mod_add_mod, ← here, Nat.mod_eq_sub_mod beyond, Nat.mod_eq_of_lt (by omega)]

/-! ### What is in use -/

/-- The values of a circle of cells from `first` on, `used` of them. -/
def window {Value : Type} (ring : List Value) (first used : Nat) : List Value :=
  (ring.rotate first).take used

section Windows

variable {Value : Type} (ring : List Value) (first : Nat) {used : Nat}

theorem window_mod (used : Nat) :
    window ring (first % ring.length) used = window ring first used := by
  rw [window, List.rotate_mod, window]

/-- A value that is stored behind those in use is appended to them. -/
theorem window_set (free : used < ring.length) (value : Value) :
    window (ring.set ((first + used) % ring.length) value) first (used + 1) =
      window ring first used ++ [value] := by
  have turned : (ring.set ((first + used) % ring.length) value).rotate first =
      (ring.rotate first).set used value := by
    refine List.ext_getElem (by simp) fun index bound bound' => ?_
    rw [List.getElem_rotate, List.getElem_set, List.getElem_set, List.getElem_rotate]
    rw [List.length_rotate, List.length_set] at bound
    have same : (first + used) % ring.length = (index + first) % ring.length ↔ used = index := by
      rw [Nat.add_comm index first]
      constructor
      · intro equal
        exact (Nat.ModEq.add_left_cancel' first equal).eq_of_lt_of_lt free bound
      · rintro rfl
        rfl
    simp only [List.length_set, same]
  have inside : used < ((ring.rotate first).set used value).length := by simpa using free
  rw [window, turned, List.take_succ_eq_append_getElem inside, List.getElem_set_self,
    List.take_set_of_le le_rfl, window]

/-- What is behind the front of the values in use is in use from a later cell on. -/
theorem window_drop {count : Nat} (inUse : used ≤ ring.length) (taken : count ≤ used) :
    window ring (first + count) (used - count) = (window ring first used).drop count := by
  rw [window, ← List.rotate_rotate, window, List.drop_take]
  generalize turned : ring.rotate first = cells
  have length : cells.length = ring.length := by rw [← turned, List.length_rotate]
  rw [List.rotate_eq_drop_append_take (by omega),
    List.take_append_of_le_length (by rw [List.length_drop]; omega)]

/-- The front of the values in use stands in cells next to each other, up to the last cell. -/
theorem window_take {count : Nat} (inside : first + count ≤ ring.length) (taken : count ≤ used) :
    (ring.drop first).take count = (window ring first used).take count := by
  rw [window, List.take_take, Nat.min_eq_left taken,
    List.rotate_eq_drop_append_take (by omega),
    List.take_append_of_le_length (by rw [List.length_drop]; omega)]

end Windows

/-! ### One value at a time -/

section Entries

variable {Value : Type} {size : Nat} (ring : Vector Value size) {first used : Nat}

/-- An assignment to the cell behind those in use appends its value to them. -/
theorem put_window (free : used < size) {start : Nat} (isNext : start = (first + used) % size)
    (value : Value) :
    ∃ next, put ring start value = .ok next ∧
      window next.toList first (used + 1) = window ring.toList first used ++ [value] := by
  have inside : start < size := by
    rw [isNext]
    exact Nat.mod_lt _ (Nat.zero_lt_of_lt free)
  refine ⟨ring.set start value, dif_pos inside, ?_⟩
  have appended := window_set ring.toList first
    (show used < ring.toList.length by rwa [Vector.length_toList]) value
  rw [Vector.length_toList, ← isNext] at appended
  rw [Vector.toList_set]
  exact appended

/-- The first cell in use holds the front of the values in use. -/
theorem fetch_window (inside : first < size) {value : Value} {rest : List Value}
    (front : window ring.toList first (rest.length + 1) = value :: rest) :
    fetch ring first = .ok value := by
  have cell := window_take ring.toList first (by rw [Vector.length_toList]; exact inside)
    (show 1 ≤ rest.length + 1 by omega)
  rw [front, List.drop_eq_getElem_cons (by rw [Vector.length_toList]; exact inside)] at cell
  have same : ring[first] = value := by simpa using cell
  rw [fetch, dif_pos inside, same]

/-- What is behind the first cell in use starts at the next one. -/
theorem tail_window (fits : used + 1 ≤ size) :
    window ring.toList ((first + 1) % size) used = (window ring.toList first (used + 1)).tail := by
  have turned := window_mod ring.toList (first + 1) used
  have moved := window_drop ring.toList first
    (show used + 1 ≤ ring.toList.length by rwa [Vector.length_toList])
    (show 1 ≤ used + 1 by omega)
  rw [Vector.length_toList] at turned
  rw [turned, show used = used + 1 - 1 from rfl, moved, List.drop_one]
  rfl

end Entries

/-! ### Copies -/

/-- `memcpy` from the memory behind a pointer. -/
def load {Value : Type} (memory : List Value) (start count : Nat) : Except Stop (List Value) :=
  if start + count ≤ memory.length then .ok ((memory.drop start).take count) else .error .outside

theorem load_eq {Value : Type} {memory : List Value} {start count : Nat}
    (inside : start + count ≤ memory.length) :
    load memory start count = .ok ((memory.drop start).take count) := if_pos inside

section Copies

variable {Value : Type} {size capacity : Nat}

/-- The cells of a buffer that make up the circle. -/
def ring (capacity : Nat) (buffer : Vector Value size) : List Value :=
  buffer.toList.take capacity

theorem length_ring (buffer : Vector Value size) (fits : capacity ≤ size) :
    (ring capacity buffer).length = capacity := by
  rw [ring, List.length_take, Vector.length_toList, Nat.min_eq_left fits]

/-- A copy that ends at the last cell of the circle or before it appends to the values in use. -/
theorem copy_window (buffer : Vector Value size) (fits : capacity ≤ size) (first used : Nat)
    (values : List Value) (room : used + values.length ≤ capacity) {start : Nat}
    (isNext : values ≠ [] → start = (first + used) % capacity)
    (inside : start + values.length ≤ capacity) :
    ∃ next, copy buffer start values = .ok next ∧
      window (ring capacity next) first (used + values.length) =
        window (ring capacity buffer) first used ++ values := by
  induction values generalizing buffer used start with
  | nil => exact ⟨buffer, rfl, (List.append_nil _).symm⟩
  | cons value values inductionHypothesis =>
    rw [List.length_cons] at room inside
    have here := isNext (List.cons_ne_nil _ _)
    have stores : put buffer start value = .ok (buffer.set start value) :=
      dif_pos (show start < size by omega)
    have appended : window (ring capacity (buffer.set start value)) first (used + 1) =
        window (ring capacity buffer) first used ++ [value] := by
      have length := length_ring buffer fits
      have set : ring capacity (buffer.set start value) =
          (ring capacity buffer).set ((first + used) % (ring capacity buffer).length) value := by
        rw [length, ← here, ring, Vector.toList_set, List.take_set, ring]
      rw [set]
      exact window_set _ first (by omega) value
    obtain ⟨next, copied, rest⟩ := inductionHypothesis (buffer.set start value) (used + 1)
      (show used + 1 + values.length ≤ capacity by omega)
      (show values ≠ [] → start + 1 = (first + (used + 1)) % capacity from fun more => by
        have := List.length_pos_iff.mpr more
        exact (mod_along here (by omega)).symm)
      (by omega)
    refine ⟨next, ?_, ?_⟩
    · rw [copy, stores]
      exact copied
    · rw [List.length_cons, Nat.add_comm values.length, ← Nat.add_assoc, rest, appended,
        List.append_assoc, List.singleton_append]

/-- A copy that comes to the end of the circle and goes on at its first cell appends to the values
in use. -/
theorem copy_around (buffer : Vector Value size) (fits : capacity ≤ size) (first used : Nat)
    (values : List Value) (room : used + values.length ≤ capacity) {start : Nat}
    (isNext : start = (first + used) % capacity) (inside : start < capacity)
    (beyond : capacity ≤ start + values.length) :
    ∃ middle next, copy buffer start (values.take (capacity - start)) = .ok middle ∧
      copy middle 0 (values.drop (capacity - start)) = .ok next ∧
      window (ring capacity next) first (used + values.length) =
        window (ring capacity buffer) first used ++ values := by
  have length : (values.take (capacity - start)).length = capacity - start := by
    rw [List.length_take, Nat.min_eq_left (by omega)]
  have length' := List.length_drop (i := capacity - start) (l := values)
  obtain ⟨middle, copied, window⟩ := copy_window buffer fits first used
    (values.take (capacity - start)) (by omega) (fun _ => isNext) (by omega)
  have closed : (first + (used + (capacity - start))) % capacity = 0 := by
    rw [← Nat.add_assoc, mod_around isNext (by omega) (by omega)]
    omega
  obtain ⟨next, copied', window'⟩ := copy_window middle fits first (used + (capacity - start))
    (values.drop (capacity - start)) (by omega) (fun _ => closed.symm) (by omega)
  refine ⟨middle, next, copied, copied', ?_⟩
  rw [length] at window
  have all : used + (capacity - start) + (values.length - (capacity - start)) =
      used + values.length := by omega
  rw [window, List.append_assoc, List.take_append_drop, length', all] at window'
  exact window'

/-- The cells of the circle next to each other from a start on are read as the front of the values
in use from there on. -/
theorem load_window (buffer : Vector Value size) (fits : capacity ≤ size) (first used : Nat)
    {count : Nat} (inside : first + count ≤ capacity) (taken : count ≤ used) :
    load buffer.toList first count =
      .ok ((window (ring capacity buffer) first used).take count) := by
  have length := length_ring buffer fits
  rw [load_eq (by rw [Vector.length_toList]; omega),
    ← window_take _ first (by omega) taken, ring, List.drop_take, List.take_take,
    Nat.min_eq_left (by omega)]

/-- The cells up to the end of the circle and the first ones are read as the front of the values in
use. -/
theorem load_around (buffer : Vector Value size) (fits : capacity ≤ size) (first : Nat)
    {used count : Nat} (inside : first < capacity) (inUse : used ≤ capacity)
    (beyond : capacity ≤ first + count) (taken : count ≤ used) :
    ∃ front back, load buffer.toList first (capacity - first) = .ok front ∧
      load buffer.toList 0 (count - (capacity - first)) = .ok back ∧
      front ++ back = (window (ring capacity buffer) first used).take count := by
  have length := length_ring buffer fits
  have moved := window_drop (ring capacity buffer) first
    (show used ≤ (ring capacity buffer).length by omega)
    (show capacity - first ≤ used by omega)
  have turned := window_mod (ring capacity buffer) (first + (capacity - first))
    (used - (capacity - first))
  rw [length, show first + (capacity - first) = capacity by omega, Nat.mod_self] at turned
  rw [show first + (capacity - first) = capacity by omega, ← turned] at moved
  refine ⟨_, _, load_window buffer fits first used (by omega) (by omega),
    load_window buffer fits 0 (used - (capacity - first)) (by omega) (by omega), ?_⟩
  rw [moved, ← List.take_add]
  congr 1
  omega

end Copies

end Circular
