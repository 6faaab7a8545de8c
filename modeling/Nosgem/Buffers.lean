/-
This file is about programs that work in buffers of a fixed size: a buffer is a
vector of cells of which the first ones are in use, every access is checked, and
a run stops at an access outside of a buffer or when the program gives up.

The main lemmas say what is in use after a write: a byte, or a whole text, that
is put behind the cells in use is appended to them, whatever the cells behind
held before.
-/

import Nosgem.CText

namespace Buffers

open CText

/-- How a run stops before its end. -/
inductive Stop
  | failed
  | outside
  deriving DecidableEq, Repr

theorem ok_bind {Value Next : Type} (value : Value) (rest : Value → Except Stop Next) :
    (Except.ok value >>= rest) = rest value := rfl

/-- A sequence that comes to its end has come through its first part. -/
theorem bind_eq_ok {Value Next : Type} {first : Except Stop Value} {rest : Value → Except Stop Next}
    {result : Next} (run : (first >>= rest) = .ok result) :
    ∃ value, first = .ok value ∧ rest value = .ok result := by
  cases first with
  | error stop => cases run
  | ok value => exact ⟨value, rfl, run⟩

section Cells

variable {Value : Type} {size : Nat}

/-- The content of a cell. -/
def fetch (buffer : Vector Value size) (index : Nat) : Except Stop Value :=
  if bound : index < size then .ok buffer[index] else .error .outside

/-- An assignment to a cell. -/
def put (buffer : Vector Value size) (index : Nat) (value : Value) :
    Except Stop (Vector Value size) :=
  if bound : index < size then .ok (buffer.set index value) else .error .outside

/-- `memcpy` to the cells from `start` on. -/
def copy (buffer : Vector Value size) (start : Nat) :
    List Value → Except Stop (Vector Value size)
  | [] => .ok buffer
  | value :: values => do
    let buffer ← put buffer start value
    copy buffer (start + 1) values

/-- The first cells of a buffer. -/
def filled (buffer : Vector Value size) (used : Nat) : List Value := buffer.toList.take used

theorem take_filled (buffer : Vector Value size) {used more : Nat} (fewer : used ≤ more) :
    (filled buffer more).take used = filled buffer used := by
  rw [filled, filled, List.take_take, Nat.min_eq_left fewer]

/-- One cell more is in use. -/
theorem filled_succ (buffer : Vector Value size) {used : Nat} (bound : used < size) :
    filled buffer (used + 1) = filled buffer used ++ [buffer[used]] := by
  have inside : used < buffer.toList.length := by rwa [Vector.length_toList]
  rw [filled, filled, List.take_succ_eq_append_getElem inside, Vector.getElem_toList]

theorem length_filled (buffer : Vector Value size) {used : Nat} (fits : used ≤ size) :
    (filled buffer used).length = used := by
  rw [filled, List.length_take, Vector.length_toList, Nat.min_eq_left fits]

theorem filled_size (buffer : Vector Value size) : filled buffer size = buffer.toList :=
  List.take_of_length_le (by rw [Vector.length_toList])

/-- A cell in use is read from its place. -/
theorem fetch_eq (buffer : Vector Value size) {used index : Nat} {value : Value}
    (found : (filled buffer used)[index]? = some value) : fetch buffer index = .ok value := by
  obtain ⟨bound, equal⟩ := List.getElem?_eq_some_iff.mp found
  have inside : index < size := by
    have shorter := List.length_take_le' used buffer.toList
    rw [Vector.length_toList] at shorter
    exact Nat.lt_of_lt_of_le bound shorter
  rw [fetch, dif_pos inside, ← equal]
  simp only [filled, List.getElem_take, Vector.getElem_toList]

/-- A value that is put behind the cells in use is appended to them. -/
theorem put_filled (buffer : Vector Value size) {used : Nat} (bound : used < size)
    (value : Value) :
    ∃ next, put buffer used value = .ok next ∧
      filled next (used + 1) = filled buffer used ++ [value] := by
  refine ⟨buffer.set used value, by rw [put, dif_pos bound], ?_⟩
  have inside : used < buffer.toList.length := by rwa [Vector.length_toList]
  rw [filled, filled, Vector.toList_set, List.take_set, List.take_succ_eq_append_getElem inside,
    List.set_append_right _ _ (by rw [List.length_take]; omega), List.length_take,
    Nat.min_eq_left (by omega), Nat.sub_self, List.set_cons_zero]

/-- A value that is put over one in use takes its place. -/
theorem put_within (buffer : Vector Value size) {used index : Nat} (fits : used ≤ size)
    {old : Value} (place : (filled buffer used)[index]? = some old) (value : Value) :
    ∃ next before after, put buffer index value = .ok next ∧
      filled buffer used = before ++ old :: after ∧
      filled next used = before ++ value :: after := by
  obtain ⟨within, isOld⟩ := List.getElem?_eq_some_iff.mp place
  obtain ⟨before, after, parts, -, written⟩ := @List.exists_of_set _ index value _ within
  rw [length_filled buffer fits] at within
  have inside : index < size := Nat.lt_of_lt_of_le within fits
  refine ⟨buffer.set index value, before, after, by rw [put, dif_pos inside], ?_, ?_⟩
  · rw [← isOld]
    exact parts
  · rw [← written, filled, Vector.toList_set, List.take_set]
    rfl

/-- A text that is copied behind the cells in use is appended to them. -/
theorem copy_filled (buffer : Vector Value size) {used : Nat} {values : List Value}
    (bound : used + values.length ≤ size) :
    ∃ next, copy buffer used values = .ok next ∧
      filled next (used + values.length) = filled buffer used ++ values := by
  induction values generalizing buffer used with
  | nil => exact ⟨buffer, rfl, (List.append_nil _).symm⟩
  | cons value values inductionHypothesis =>
    rw [List.length_cons] at bound
    obtain ⟨buffer', stored, first⟩ := put_filled buffer (show used < size by omega) value
    obtain ⟨next, copied, rest⟩ :=
      inductionHypothesis buffer' (show used + 1 + values.length ≤ size by omega)
    refine ⟨next, ?_, ?_⟩
    · rw [copy, stored]
      exact copied
    · rw [List.length_cons, Nat.add_comm values.length, ← Nat.add_assoc, rest, first,
        List.append_assoc, List.singleton_append]

/-- A text that goes beyond the end of the buffer is written outside of it. -/
theorem copy_outside (buffer : Vector Value size) {start : Nat} {values : List Value}
    (inside : start ≤ size) (beyond : size < start + values.length) :
    copy buffer start values = .error .outside := by
  induction values generalizing buffer start with
  | nil =>
    rw [List.length_nil] at beyond
    omega
  | cons value values inductionHypothesis =>
    rw [List.length_cons] at beyond
    rw [copy, put]
    split
    · rw [ok_bind]
      exact inductionHypothesis _ (by omega) (by omega)
    · rfl

end Cells

/-- `strcpy` out of a buffer to `room` bytes: the string has to end in the buffer and to fit. -/
def copyOut {size : Nat} (buffer : Vector Byte size) (room : Nat) : Except Stop Text :=
  let s := cString buffer.toList
  if s.length < size ∧ s.length < room then .ok s else .error .outside

/-- The text in use is copied out when a NUL stands behind it. -/
theorem copyOut_filled {size room : Nat} {buffer : Vector Byte size} {s : Text}
    (ended : filled buffer (s.length + 1) = s ++ [0]) (nulFree : 0 ∉ s) (fits : s.length < room) :
    copyOut buffer room = .ok s := by
  have inside : s.length + 1 ≤ size := by
    have length := congrArg List.length ended
    rw [filled, List.length_take, Vector.length_toList, List.length_append,
      List.length_singleton] at length
    omega
  have string : cString buffer.toList = s := by
    rw [← List.take_append_drop (s.length + 1) buffer.toList,
      show buffer.toList.take (s.length + 1) = s ++ [0] from ended, List.append_assoc,
      cString, List.takeWhile_append_of_pos fun c member => by
        simpa using fun equal : c = 0 => nulFree (equal ▸ member)]
    simp
  rw [copyOut, string]
  exact if_pos ⟨inside, fits⟩

end Buffers
