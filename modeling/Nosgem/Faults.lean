/-
This file gives an environment in which every call on a file may fail. A failing
call has no effect, except that a failing write keeps only a start of its
output, and a failing `fclose` keeps only a start of what was written since the
file was opened, because the last bytes are still in the buffer. The state
counts the bytes that got lost, so that a statement can say which runs are the
ones without such a loss.
-/

import Nosgem.Files

namespace Nosgem

open CText Interaction

/-- The disk, the number of bytes written since the open file was opened, and the number of bytes
lost so far. -/
structure Faulty where
  disk : Disk
  unsaved : Nat
  lost : Nat

/-- The text of a file, empty when it is missing. -/
def Faulty.content (state : Faulty) (path : Path) : Text := (state.disk path).getD []

/-- The state after a file has been given a text, or removed. -/
def Faulty.put (state : Faulty) (path : Path) (file : Option Text) : Faulty :=
  { state with disk := Function.update state.disk path file }

@[simp] theorem Faulty.disk_put_self (state : Faulty) (path : Path) (file : Option Text) :
    (state.put path file).disk path = file := Function.update_self ..

@[simp] theorem Faulty.disk_put_of_ne (state : Faulty) {path other : Path}
    (different : other ≠ path) (file : Option Text) :
    (state.put path file).disk other = state.disk other := Function.update_of_ne different ..

@[simp] theorem Faulty.content_put_self (state : Faulty) (path : Path) (content : Text) :
    (state.put path (some content)).content path = content := by
  rw [Faulty.content, Faulty.disk_put_self, Option.getD_some]

/-- A file that has been opened. -/
def Faulty.opened (state : Faulty) (path : Path) : WriteMode → Faulty
  | .write => { state.put path (some []) with unsaved := 0 }
  | .append => { state.put path (some (state.content path)) with unsaved := 0 }

theorem Faulty.disk_opened_of_ne (state : Faulty) {path other : Path} (different : other ≠ path)
    (mode : WriteMode) : (state.opened path mode).disk other = state.disk other := by
  cases mode <;> exact state.disk_put_of_ne different _

/-- The state after a write of which `kept` has reached the file. -/
def Faulty.write (state : Faulty) (path : Path) (output kept : Text) : Faulty where
  disk := Function.update state.disk path (some (state.content path ++ kept))
  unsaved := state.unsaved + kept.length
  lost := state.lost + (output.length - kept.length)

/-- The state after a file has been closed and has only `kept` of its text. -/
def Faulty.close (state : Faulty) (path : Path) (kept : Text) : Faulty where
  disk := Function.update state.disk path (some kept)
  unsaved := 0
  lost := state.lost + ((state.content path).length - kept.length)

@[simp] theorem Faulty.content_write (state : Faulty) (path : Path) (output kept : Text) :
    (state.write path output kept).content path = state.content path ++ kept := by
  simp [Faulty.content, Faulty.write]

@[simp] theorem Faulty.content_close (state : Faulty) (path : Path) (kept : Text) :
    (state.close path kept).content path = kept := by
  simp [Faulty.content, Faulty.close]

@[simp] theorem Faulty.disk_close (state : Faulty) (path : Path) (kept : Text) :
    (state.close path kept).disk path = some kept := Function.update_self ..

@[simp] theorem Faulty.content_append (state : Faulty) (path : Path) :
    (state.opened path .append).content path = state.content path := by
  simp [Faulty.content, Faulty.opened, Faulty.put]

theorem Faulty.lost_write (state : Faulty) (path : Path) (output kept : Text) :
    (state.write path output kept).lost = state.lost + (output.length - kept.length) := rfl

theorem Faulty.lost_close (state : Faulty) (path : Path) (kept : Text) :
    (state.close path kept).lost =
      state.lost + ((state.content path).length - kept.length) := rfl

/-- The environment in which the calls on files may fail. A file that is missing does not open for
reading and cannot be removed, and `rename` does not replace a file. -/
def faultEnv : Env Answer Faulty := fun state op answer after =>
  match op, answer with
  | .fopenRead path, stream => (stream = none ∨ stream = state.disk path) ∧ after = state
  | .fopenWrite path mode, opened => after = if opened then state.opened path mode else state
  | .fputs path output, written =>
    ∃ kept, kept <+: output ∧ (written = true → kept = output) ∧
      after = state.write path output kept
  | .fclose path, closed =>
    ∃ kept, kept <+: state.content path ∧
      (state.content path).length ≤ kept.length + state.unsaved ∧
      (closed = true → kept = state.content path) ∧ after = state.close path kept
  | .remove path, removed =>
    (removed = true → (state.disk path).isSome) ∧
      after = if removed then state.put path none else state
  | .rename source target, renamed =>
    (renamed = true → (state.disk source).isSome ∧ state.disk target = none) ∧
      after = if renamed then (state.put target (state.disk source)).put source none else state
  | _, _ => after = state

/-- A write without a failure. -/
theorem faultEnv_fputs (state : Faulty) (path : Path) (output : Text) :
    faultEnv state (.fputs path output) true (state.write path output output) :=
  ⟨output, List.prefix_rfl, fun _ => rfl, rfl⟩

/-- A close without a failure. -/
theorem faultEnv_fclose (state : Faulty) (path : Path) :
    faultEnv state (.fclose path) true (state.close path (state.content path)) :=
  ⟨_, List.prefix_rfl, Nat.le_add_right _ _, fun _ => rfl, rfl⟩

/-! ### The bytes of an output -/

/-- From one state to a later one an output has been written to a file: no other file has changed,
and a byte of the output is in the file or counted as lost. -/
structure Wrote (path : Path) (output : Text) (start after : Faulty) : Prop where
  frame : ∀ other, other ≠ path → after.disk other = start.disk other
  ledger : start.lost ≤ after.lost
  size : (after.content path).length + after.lost =
    (start.content path).length + output.length + start.lost
  whole : after.lost = start.lost → after.content path = start.content path ++ output

theorem Wrote.refl (path : Path) (state : Faulty) : Wrote path [] state state :=
  ⟨fun _ _ => rfl, Nat.le_refl _, rfl, fun _ => (List.append_nil _).symm⟩

theorem Wrote.trans {path : Path} {front back : Text} {start middle after : Faulty}
    (first : Wrote path front start middle) (second : Wrote path back middle after) :
    Wrote path (front ++ back) start after := by
  have between := first.ledger
  have later := second.ledger
  have firstSize := first.size
  have secondSize := second.size
  refine ⟨fun other different => (second.frame other different).trans (first.frame other different),
    by omega, by rw [List.length_append]; omega, fun same => ?_⟩
  rw [second.whole (by omega), first.whole (by omega), List.append_assoc]

theorem wrote_fputs {path : Path} {output : Text} {written : Bool} {state after : Faulty}
    (answered : faultEnv state (.fputs path output) written after) :
    Wrote path output state after := by
  obtain ⟨kept, leads, -, rfl⟩ := answered
  have short := leads.length_le
  have lost := state.lost_write path output kept
  refine ⟨fun other different => Function.update_of_ne different .., Nat.le_add_right _ _, ?_,
    fun same => ?_⟩
  · rw [Faulty.content_write, List.length_append, lost]
    omega
  · rw [Faulty.content_write, leads.eq_of_length (by omega)]

theorem wrote_fclose {path : Path} {closed : Bool} {state after : Faulty}
    (answered : faultEnv state (.fclose path) closed after) : Wrote path [] state after := by
  obtain ⟨kept, leads, -, -, rfl⟩ := answered
  have short := leads.length_le
  have lost := state.lost_close path kept
  refine ⟨fun other different => Function.update_of_ne different .., Nat.le_add_right _ _, ?_,
    fun same => ?_⟩
  · rw [Faulty.content_close, List.length_nil, lost]
    omega
  · rw [Faulty.content_close, leads.eq_of_length (by omega), List.append_nil]

/-- What an output that is appended to a file and closed leaves of itself: a start, behind the old
text, and the rest is counted as lost. -/
theorem appended {path : Path} {output : Text} {put closed : Bool} {state written after : Faulty}
    (writing : faultEnv (state.opened path .append) (.fputs path output) put written)
    (closing : faultEnv written (.fclose path) closed after) :
    ∃ kept, kept <+: output ∧ after.disk path = some (state.content path ++ kept) ∧
      after.lost + kept.length = state.lost + output.length := by
  obtain ⟨part, partLeads, -, rfl⟩ := writing
  obtain ⟨content, leads, behind, -, rfl⟩ := closing
  have unsaved : ((state.opened path .append).write path output part).unsaved = 0 + part.length :=
    rfl
  have before : (state.opened path .append).lost = state.lost := rfl
  have lost := (state.opened path .append).lost_write path output part
  have later := ((state.opened path .append).write path output part).lost_close path content
  rw [Faulty.content_write, Faulty.content_append] at leads behind later
  rw [List.length_append] at behind later
  -- the bytes of the old text are not in the buffer
  obtain ⟨kept, rfl⟩ := List.prefix_of_prefix_length_le (List.prefix_append _ _) leads (by omega)
  have inside := (List.prefix_append_right_inj _).mp leads
  have partSize := partLeads.length_le
  have keptSize := inside.length_le
  refine ⟨kept, inside.trans partLeads, Faulty.disk_close .., ?_⟩
  rw [List.length_append] at later
  omega

end Nosgem
