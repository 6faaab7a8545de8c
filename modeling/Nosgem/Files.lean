/-
This file gives two environments for the functions that work on files. In the
first one the disk may do anything when it is written to and a file may refuse
to open; it is meant for statements that hold whatever the disk does. In the
second one no call of the standard library fails: a file is the text written to
it, and the environment keeps what was read from the keyboard.
-/

import Nosgem.Platform
import Mathlib.Logic.Function.Basic

namespace Nosgem

open CText Interaction

/-- The files on the disk. -/
abbrev Disk := Path → Option Text

/-- A read delivers what the disk holds, if it delivers anything; the browser's own file operations
may do anything to the disk, and nothing else changes it. All other answers are arbitrary. -/
def diskEnv : Env Answer Disk := fun disk op answer after =>
  match op, answer with
  | .fopenRead path, stream =>
    (∀ content, stream = some content → disk path = some content) ∧ after = disk
  | .fopenWrite _ _, _ | .fputs _ _, _ | .fclose _, _ | .remove _, _ | .rename _ _, _ => True
  | _, _ => after = disk

/-- The disk, and the answers `fgets` gave on the keyboard so far. -/
structure Desk where
  disk : Disk
  asked : List (Option Text)

/-- The text of a file, empty when it is missing. -/
def Desk.content (desk : Desk) (path : Path) : Text := (desk.disk path).getD []

/-- The desk after a file has been given a text, or removed. -/
def Desk.put (desk : Desk) (path : Path) (file : Option Text) : Desk :=
  { desk with disk := Function.update desk.disk path file }

/-- The desk after an answer on the keyboard. -/
def Desk.ask (desk : Desk) (answer : Option Text) : Desk :=
  { desk with asked := desk.asked ++ [answer] }

@[simp] theorem Desk.disk_put_self (desk : Desk) (path : Path) (file : Option Text) :
    (desk.put path file).disk path = file := Function.update_self ..

@[simp] theorem Desk.disk_put_of_ne (desk : Desk) {path other : Path} (different : other ≠ path)
    (file : Option Text) : (desk.put path file).disk other = desk.disk other :=
  Function.update_of_ne different ..

@[simp] theorem Desk.asked_put (desk : Desk) (path : Path) (file : Option Text) :
    (desk.put path file).asked = desk.asked := rfl

@[simp] theorem Desk.disk_ask (desk : Desk) (answer : Option Text) :
    (desk.ask answer).disk = desk.disk := rfl

/-- The environment in which no call of the standard library fails. A file that is missing does not
open for reading, and `rename` does not replace a file. A file gives back the bytes that were
written to it: the translation of text streams, which drops CR and ends a file at Ctrl-Z, is left
out. -/
def fileEnv : Env Answer Desk := fun desk op answer after =>
  match op, answer with
  | .fopenRead path, stream => stream = desk.disk path ∧ after = desk
  | .fopenWrite path .write, opened => opened = true ∧ after = desk.put path (some [])
  | .fopenWrite path .append, opened =>
    opened = true ∧ after = desk.put path (some (desk.content path))
  | .fputs path output, written =>
    written = true ∧ after = desk.put path (some (desk.content path ++ output))
  | .fclose _, closed => closed = true ∧ after = desk
  | .remove path, removed => removed = (desk.disk path).isSome ∧ after = desk.put path none
  | .rename source target, renamed =>
    renamed = ((desk.disk source).isSome && (desk.disk target).isNone) ∧
      after = if renamed then (desk.put target (desk.disk source)).put source none else desk
  | .fgetsStdin _, line => after = desk.ask (line.map (·.bytes))
  | _, _ => after = desk

/-- Every call has an answer. -/
theorem fileEnv_answers (desk : Desk) (op : Op) : ∃ answer after, fileEnv desk op answer after := by
  cases op with
  | fopenRead path => exact ⟨_, _, rfl, rfl⟩
  | fopenWrite path mode => cases mode <;> exact ⟨_, _, rfl, rfl⟩
  | fputs path output => exact ⟨_, _, rfl, rfl⟩
  | fclose path => exact ⟨_, _, rfl, rfl⟩
  | remove path => exact ⟨_, _, rfl, rfl⟩
  | rename source target => exact ⟨_, _, rfl, rfl⟩
  | fgetsStdin size => exact ⟨none, _, rfl⟩
  | sslRead conn size => exact ⟨.failed .closeNotify, desk, rfl⟩
  | _ => exact ⟨default, desk, rfl⟩

end Nosgem
