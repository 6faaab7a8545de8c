/-
This file is about stores that are filled by assignments. A store has a value for
every key, and the keys may have values of different types. Assignments are worked
through in order, and each one sets its key; what a store holds at the end is the
last value that a key was given, or the value it had before.
-/

import Mathlib.Data.List.Basic
import Mathlib.Logic.Nontrivial.Basic

namespace Assignments

/-! ### The last value of a reading -/

section Readings

variable {Item Held : Type} {reading : Item → Option Held} {items : List Item}

/-- The last value that a reading gives to one of the items. -/
def lastGiven (reading : Item → Option Held) (items : List Item) : Option Held :=
  (items.filterMap reading).getLast?

theorem lastGiven_append (reading : Item → Option Held) (front back : List Item) :
    lastGiven reading (front ++ back) =
      (lastGiven reading back).or (lastGiven reading front) := by
  rw [lastGiven, List.filterMap_append, List.getLast?_append]
  rfl

theorem lastGiven_singleton (reading : Item → Option Held) (item : Item) :
    lastGiven reading [item] = reading item := by
  cases given : reading item <;> simp [lastGiven, given]

theorem lastGiven_cons (reading : Item → Option Held) (item : Item) (items : List Item) :
    lastGiven reading (item :: items) = (lastGiven reading items).or (reading item) := by
  rw [← List.singleton_append, lastGiven_append, lastGiven_singleton]

theorem lastGiven_eq_none_iff :
    lastGiven reading items = none ↔ ∀ item ∈ items, reading item = none := by
  rw [lastGiven, List.getLast?_eq_none_iff, List.filterMap_eq_nil_iff]

/-- Optional values that agree with every default are the same. -/
theorem eq_of_getD [Nontrivial Held] {left right : Option Held}
    (same : ∀ held, left.getD held = right.getD held) : left = right := by
  cases left with
  | none =>
    cases right with
    | none => rfl
    | some held =>
      obtain ⟨other, different⟩ := exists_ne held
      exact absurd (same other) different
  | some held =>
    cases right with
    | none =>
      obtain ⟨other, different⟩ := exists_ne held
      exact absurd (same other).symm different
    | some other => exact congrArg some (same held)

end Readings

/-! ### Stores -/

section Stores

variable {Key : Type} {Value : Key → Type}

/-- A key and the value that it is given. -/
structure Assignment (Value : Key → Type) where
  key : Key
  value : Value key

variable [DecidableEq Key] {store : (key : Key) → Value key}

/-- The value that an assignment gives to a key. -/
def Assignment.valueFor (assignment : Assignment Value) (key : Key) : Option (Value key) :=
  if same : assignment.key = key then some (same ▸ assignment.value) else none

/-- The last value that assignments give to a key. -/
def lastFor (key : Key) (assignments : List (Assignment Value)) : Option (Value key) :=
  lastGiven (fun assignment => assignment.valueFor key) assignments

/-- The last value for a key among the assignments that items make. -/
theorem lastFor_filterMap {Item : Type} (key : Key) (made : Item → Option (Assignment Value))
    (items : List Item) :
    lastFor key (items.filterMap made) =
      lastGiven (fun item => (made item).bind fun assignment => assignment.valueFor key) items := by
  rw [lastFor, lastGiven, lastGiven, List.filterMap_filterMap]

/-- One assignment sets its key and nothing else. -/
def assign (store : (key : Key) → Value key) (assignment : Assignment Value) :
    (key : Key) → Value key := Function.update store assignment.key assignment.value

theorem assign_apply (store : (key : Key) → Value key) (assignment : Assignment Value)
    (key : Key) : assign store assignment key = (assignment.valueFor key).getD (store key) := by
  unfold assign Assignment.valueFor
  by_cases same : assignment.key = key
  · subst same
    rw [Function.update_self, dif_pos rfl, Option.getD_some]
  · rw [Function.update_of_ne (Ne.symm same), dif_neg same, Option.getD_none]

/-- What a store holds after assignments: the last value given to a key, or the value before. -/
theorem foldl_assign_apply (store : (key : Key) → Value key)
    (assignments : List (Assignment Value)) (key : Key) :
    assignments.foldl assign store key = (lastFor key assignments).getD (store key) := by
  induction assignments generalizing store with
  | nil => rfl
  | cons first assignments inductionHypothesis =>
    rw [List.foldl_cons, inductionHypothesis, assign_apply, lastFor, lastFor, lastGiven_cons]
    cases lastGiven (fun assignment => assignment.valueFor key) assignments <;> simp

/-- Two lists of assignments have the same effect on every store exactly when they give every key
the same last value. -/
theorem foldl_assign_eq_iff [∀ key, Nontrivial (Value key)]
    {assignments others : List (Assignment Value)} :
    (∀ store, assignments.foldl assign store = others.foldl assign store) ↔
      ∀ key, lastFor key assignments = lastFor key others := by
  constructor
  · intro same key
    refine eq_of_getD fun held => ?_
    have start : (key : Key) → Value key := fun other => (exists_pair_ne (Value other)).choose
    have at_key := congrFun (same (Function.update start key held)) key
    rwa [foldl_assign_apply, foldl_assign_apply, Function.update_self] at at_key
  · intro same store
    funext key
    rw [foldl_assign_apply, foldl_assign_apply, same]

end Stores

end Assignments
