/-
This file is about caches kept in a table of a fixed size: the slots in use are
the first ones of the table, a key is searched for from the first slot on, and a
new key is put behind the slots in use or, when there are none left, over the
slot that was updated the longest ago. Keys that have the same canonical form
are the same key.

What a cache knows is a partial assignment of values to canonical keys. An
update of the cache assigns the new value and forgets at most one other key, and
that only when the table is full and the key is new.
-/

import Nosgem.Buffers
import Mathlib.Data.List.Nodup
import Mathlib.Logic.Function.Basic

namespace CacheTable

open Buffers

/-! ### The table -/

structure Slot (Key Value : Type) where
  key : Key
  value : Value
  updated : Nat

structure Table (Key Value : Type) (size : Nat) where
  slots : Vector (Slot Key Value) size
  entries : Nat

section Operations

variable {Key Value Canon : Type} [DecidableEq Canon] {size : Nat} (canon : Key → Canon)

/-- The search, with the number of slots that are left. -/
def findFrom (table : Table Key Value size) (key : Key) : Nat → Nat → Except Stop (Option Nat)
  | 0, _ => return none
  | remaining + 1, index => do
    let slot ← fetch table.slots index
    if canon slot.key = canon key then return some index
    else findFrom table key remaining (index + 1)

def find (table : Table Key Value size) (key : Key) : Except Stop (Option Nat) :=
  findFrom canon table key table.entries 0

/-- The search for the slot that was updated first, with the best one so far. -/
def oldestFrom (table : Table Key Value size) : Nat → Nat → Nat → Except Stop Nat
  | 0, _, lowest => return lowest
  | remaining + 1, index, lowest => do
    let slot ← fetch table.slots index
    let best ← fetch table.slots lowest
    oldestFrom table remaining (index + 1) (if slot.updated < best.updated then index else lowest)

def oldest (table : Table Key Value size) : Except Stop Nat :=
  oldestFrom table (table.entries - 1) 1 0

/-- A new value in a slot. -/
def updateEntry (table : Table Key Value size) (index : Nat) (value : Value) (now : Nat) :
    Except Stop (Table Key Value size) := do
  let slot ← fetch table.slots index
  let slots ← put table.slots index { slot with value, updated := now }
  return { table with slots }

/-- A new key, in a free slot or over the oldest one. -/
def add (table : Table Key Value size) (key : Key) (value : Value) (now : Nat) :
    Except Stop (Table Key Value size) :=
  if table.entries < size then do
    let slots ← put table.slots table.entries ⟨key, value, now⟩
    return ⟨slots, table.entries + 1⟩
  else do
    let target ← oldest table
    let slots ← put table.slots target ⟨key, value, now⟩
    return { table with slots }

def updateOrAdd (table : Table Key Value size) (key : Key) (value : Value) (now : Nat) :
    Except Stop (Table Key Value size) := do
  match ← find canon table key with
  | some index => updateEntry table index value now
  | none => add table key value now

end Operations

/-! ### What a cache knows -/

section Knowledge

variable {Key Value Canon : Type} [DecidableEq Canon] (canon : Key → Canon)

/-- The value of the first slot with a key. -/
def known (slots : List (Slot Key Value)) (key : Canon) : Option Value :=
  (slots.find? fun slot => canon slot.key = key).map Slot.value

/-- The canonical keys of some slots. -/
def keys (slots : List (Slot Key Value)) : List Canon := slots.map fun slot => canon slot.key

/-- The assignment without a key. -/
def forget (victim : Option Canon) (assigned : Canon → Option Value) : Canon → Option Value :=
  fun key => if victim = some key then none else assigned key

variable {canon} {slots : List (Slot Key Value)} {slot : Slot Key Value}

theorem known_cons (key : Canon) : known canon (slot :: slots) key =
    if canon slot.key = key then some slot.value else known canon slots key := by
  by_cases same : canon slot.key = key
  · simp only [known, List.find?_cons, same, decide_true, if_true, Option.map_some]
  · simp only [known, List.find?_cons, same, decide_false, if_false]

theorem known_append (slots more : List (Slot Key Value)) (key : Canon) :
    known canon (slots ++ more) key = (known canon slots key).or (known canon more key) := by
  rw [known, List.find?_append, Option.map_or]
  rfl

theorem known_eq_none_iff {key : Canon} :
    known canon slots key = none ↔ key ∉ keys canon slots := by
  rw [known, Option.map_eq_none_iff, List.find?_eq_none, keys, List.mem_map]
  constructor
  · rintro absent ⟨slot, member, same⟩
    exact absent slot member (decide_eq_true same)
  · intro absent slot member same
    exact absent ⟨slot, member, of_decide_eq_true same⟩

/-- A new key behind the others. -/
theorem known_concat (fresh : canon slot.key ∉ keys canon slots) :
    known canon (slots ++ [slot]) =
      Function.update (known canon slots) (canon slot.key) (some slot.value) := by
  funext key
  rw [known_append, known_cons]
  by_cases same : canon slot.key = key
  · subst same
    rw [known_eq_none_iff.mpr fresh, Option.none_or, if_pos rfl, Function.update_self]
  · rw [if_neg same, Function.update_of_ne (Ne.symm same)]
    exact Option.or_none

theorem update_forget (assigned : Canon → Option Value) (key : Canon) (value : Option Value) :
    Function.update (forget (some key) assigned) key value =
      Function.update assigned key value := by
  funext other
  by_cases same : other = key
  · rw [same, Function.update_self, Function.update_self]
  · rw [Function.update_of_ne same, Function.update_of_ne same, forget,
      if_neg fun equal => same (Option.some.inj equal).symm]

/-- A slot that is written over another one. -/
theorem known_replace (slot : Slot Key Value) {before after : List (Slot Key Value)}
    {old : Slot Key Value}
    (distinct : (keys canon (before ++ old :: after)).Nodup)
    (place : canon slot.key = canon old.key ∨
      canon slot.key ∉ keys canon (before ++ old :: after)) :
    known canon (before ++ slot :: after) =
      Function.update (forget (some (canon old.key)) (known canon (before ++ old :: after)))
        (canon slot.key) (some slot.value) := by
  rw [keys, List.map_append, List.map_cons] at distinct place
  have absent : canon old.key ∉ keys canon before ∧ canon old.key ∉ keys canon after := by
    obtain ⟨-, behind, apart⟩ := List.nodup_append.mp distinct
    exact ⟨fun member => apart _ member _ List.mem_cons_self rfl, (List.nodup_cons.mp behind).1⟩
  have fresh : canon slot.key ∉ keys canon before := by
    rcases place with same | new
    · exact same ▸ absent.1
    · exact fun member => new (List.mem_append_left _ member)
  funext key
  rw [known_append, known_cons]
  by_cases same : canon slot.key = key
  · subst same
    rw [known_eq_none_iff.mpr fresh, Option.none_or, if_pos rfl, Function.update_self]
  · rw [if_neg same, Function.update_of_ne (Ne.symm same), forget, known_append, known_cons]
    by_cases lost : canon old.key = key
    · subst lost
      rw [if_pos rfl, known_eq_none_iff.mpr absent.1, known_eq_none_iff.mpr absent.2]
      rfl
    · rw [if_neg (fun equal => lost (Option.some.inj equal)), if_neg lost]

end Knowledge

/-! ### The operations -/

section Specifications

variable {Key Value Canon : Type} [DecidableEq Canon] {size : Nat} (canon : Key → Canon)

/-- The slots in use. -/
def Table.contents (table : Table Key Value size) : List (Slot Key Value) :=
  filled table.slots table.entries

/-- What a table knows. -/
def Table.lookup (table : Table Key Value size) : Canon → Option Value :=
  known canon table.contents

/-- A table that uses no more slots than it has and holds no key twice. -/
structure Sound (table : Table Key Value size) : Prop where
  fits : table.entries ≤ size
  distinct : (keys canon table.contents).Nodup

/-- A key that is thrown out: the table is full, the key it makes room for is new, and no slot is
older. -/
structure Evicts (table : Table Key Value size) (key : Key) (victim : Canon) : Prop where
  full : table.entries = size
  new : table.lookup canon (canon key) = none
  oldest : ∃ slot ∈ table.contents, canon slot.key = victim ∧
    ∀ other ∈ table.contents, slot.updated ≤ other.updated

variable {canon} {table : Table Key Value size}

theorem length_contents (fits : table.entries ≤ size) : table.contents.length = table.entries :=
  length_filled _ fits

theorem findFrom_eq (fits : table.entries ≤ size) (key : Key) {remaining index : Nat}
    (along : index + remaining = table.entries) :
    findFrom canon table key remaining index =
      .ok (((table.contents.drop index).findIdx? fun slot => canon slot.key = canon key).map
        (· + index)) := by
  induction remaining generalizing index with
  | zero =>
    rw [List.drop_of_length_le (by rw [length_contents fits]; omega)]
    rfl
  | succ remaining inductionHypothesis =>
    have within : index < table.contents.length := by
      rw [length_contents fits]
      omega
    rw [findFrom, fetch_eq table.slots (List.getElem?_eq_getElem within), ok_bind,
      List.drop_eq_getElem_cons within, List.findIdx?_cons]
    by_cases same : canon table.contents[index].key = canon key
    · rw [if_pos same, if_pos (decide_eq_true same), Option.map_some, Nat.zero_add]
      rfl
    · rw [if_neg same, if_neg (by rwa [decide_eq_true_eq]), inductionHypothesis (by omega),
        Option.map_map]
      exact congrArg (fun add => Except.ok (Option.map add _)) (funext fun offset => by
        rw [Function.comp_apply, Nat.add_assoc, Nat.add_comm 1])

/-- The search finds the first slot with the key. -/
theorem find_eq (fits : table.entries ≤ size) (key : Key) : find canon table key =
    .ok (table.contents.findIdx? fun slot => canon slot.key = canon key) := by
  rw [find, findFrom_eq fits key (Nat.zero_add _), List.drop_zero]
  exact congrArg Except.ok Option.map_id'

/-- A key that is not found is not known, and one that is found is known with the value of its
slot. -/
theorem find_cases (sound : Sound canon table) (key : Key) :
    find canon table key = .ok none ∧ table.lookup canon (canon key) = none ∨
      ∃ index slot, find canon table key = .ok (some index) ∧
        table.contents[index]? = some slot ∧ canon slot.key = canon key ∧
        table.lookup canon (canon key) = some slot.value := by
  rw [find_eq sound.fits]
  cases search : table.contents.findIdx? fun slot => canon slot.key = canon key with
  | none =>
    refine .inl ⟨rfl, known_eq_none_iff.mpr fun member => ?_⟩
    obtain ⟨slot, inUse, same⟩ := List.mem_map.mp member
    have other := List.findIdx?_eq_none_iff.mp search slot inUse
    rw [decide_eq_false_iff_not] at other
    exact other same
  | some index =>
    obtain ⟨within, same, first⟩ := List.findIdx?_eq_some_iff_getElem.mp search
    refine .inr ⟨index, _, rfl, List.getElem?_eq_getElem within, of_decide_eq_true same, ?_⟩
    refine Option.map_eq_some_iff.mpr ⟨_, List.find?_eq_some_iff_getElem.mpr
      ⟨same, index, within, rfl, fun earlier before => ?_⟩, rfl⟩
    rw [Bool.not_eq_true', ← Bool.not_eq_true]
    exact first earlier before

theorem oldestFrom_spec (fits : table.entries ≤ size) {remaining index lowest : Nat}
    {slot : Slot Key Value} (along : index + remaining = table.entries)
    (best : table.contents[lowest]? = some slot)
    (least : ∀ other ∈ table.contents.take index, slot.updated ≤ other.updated) :
    ∃ target slot, oldestFrom table remaining index lowest = .ok target ∧
      table.contents[target]? = some slot ∧
      ∀ other ∈ table.contents, slot.updated ≤ other.updated := by
  induction remaining generalizing index lowest slot with
  | zero =>
    rw [List.take_of_length_le (by rw [length_contents fits]; omega)] at least
    exact ⟨lowest, slot, rfl, best, least⟩
  | succ remaining inductionHypothesis =>
    have within : index < table.contents.length := by
      rw [length_contents fits]
      omega
    have here := List.getElem?_eq_getElem within
    rw [oldestFrom, fetch_eq table.slots here, ok_bind, fetch_eq table.slots best, ok_bind]
    by_cases older : table.contents[index].updated < slot.updated
    · rw [if_pos older]
      refine inductionHypothesis (by omega) here fun other member => ?_
      rw [List.take_succ_eq_append_getElem within] at member
      rcases List.mem_append.mp member with before | last
      · exact (Nat.le_of_lt older).trans (least other before)
      · rw [List.mem_singleton.mp last]
    · rw [if_neg older]
      refine inductionHypothesis (by omega) best fun other member => ?_
      rw [List.take_succ_eq_append_getElem within] at member
      rcases List.mem_append.mp member with before | last
      · exact least other before
      · rw [List.mem_singleton.mp last]
        exact not_lt.mp older

/-- The oldest slot of a table that is in use. -/
theorem oldest_spec (fits : table.entries ≤ size) (some : 0 < table.entries) :
    ∃ target slot, oldest table = .ok target ∧ table.contents[target]? = .some slot ∧
      ∀ other ∈ table.contents, slot.updated ≤ other.updated := by
  have within : 0 < table.contents.length := by rwa [length_contents fits]
  refine oldestFrom_spec fits (by omega) (List.getElem?_eq_getElem within) fun other member => ?_
  rw [List.take_one, List.head?_eq_getElem?, List.getElem?_eq_getElem within] at member
  rw [List.mem_singleton.mp member]

theorem updateEntry_spec (sound : Sound canon table) {key : Key} {index : Nat}
    {old : Slot Key Value} (place : table.contents[index]? = .some old)
    (isKey : canon old.key = canon key) (value : Value) (now : Nat) :
    ∃ next, updateEntry table index value now = .ok next ∧ Sound canon next ∧
      next.lookup canon =
        Function.update (table.lookup canon) (canon key) (.some value) := by
  obtain ⟨slots, before, after, written, parts, parts'⟩ :=
    put_within table.slots sound.fits place ⟨old.key, value, now⟩
  replace parts : table.contents = before ++ old :: after := parts
  have distinct := sound.distinct
  rw [parts] at distinct
  refine ⟨{ table with slots }, ?_, ⟨sound.fits, ?_⟩, ?_⟩
  · rw [updateEntry, fetch_eq table.slots place, ok_bind, written]
    rfl
  · show (keys canon (filled slots table.entries)).Nodup
    rw [parts']
    rw [keys, List.map_append, List.map_cons] at distinct ⊢
    exact distinct
  · show known canon (filled slots table.entries) = _
    rw [parts', known_replace ⟨old.key, value, now⟩ distinct (.inl rfl),
      update_forget, Table.lookup, parts, isKey]

/-- A new key is known from then on; what is forgotten for it is the oldest key of a full table. -/
theorem add_spec (sound : Sound canon table) (room : 0 < size) {key : Key}
    (new : table.lookup canon (canon key) = none) (value : Value) (now : Nat) :
    ∃ next victim, add table key value now = .ok next ∧ Sound canon next ∧
      next.lookup canon =
        Function.update (forget victim (table.lookup canon)) (canon key) (.some value) ∧
      ∀ lost ∈ victim, Evicts canon table key lost := by
  have absent : canon key ∉ keys canon table.contents := known_eq_none_iff.mp new
  by_cases free : table.entries < size
  · obtain ⟨slots, written, appended⟩ := put_filled table.slots free ⟨key, value, now⟩
    refine ⟨⟨slots, table.entries + 1⟩, none, ?_, ⟨free, ?_⟩, ?_, fun lost none => ?_⟩
    · rw [add, if_pos free, written]
      rfl
    · show (keys canon (filled slots (table.entries + 1))).Nodup
      rw [appended, keys, List.map_append, List.nodup_append]
      refine ⟨sound.distinct, List.nodup_singleton _, fun other member last isLast => ?_⟩
      rintro rfl
      rw [List.map_singleton, List.mem_singleton] at isLast
      exact absent (isLast ▸ member)
    · show known canon (filled slots (table.entries + 1)) = _
      rw [appended]
      exact known_concat absent
    · cases none
  · have full : table.entries = size := Nat.le_antisymm sound.fits (not_lt.mp free)
    obtain ⟨target, old, finds, place, least⟩ := oldest_spec sound.fits (by rwa [full])
    obtain ⟨slots, before, after, written, parts, parts'⟩ :=
      put_within table.slots sound.fits place ⟨key, value, now⟩
    replace parts : table.contents = before ++ old :: after := parts
    have distinct := sound.distinct
    rw [parts] at distinct
    have fresh := absent
    rw [parts] at fresh
    refine ⟨{ table with slots }, .some (canon old.key), ?_, ⟨sound.fits, ?_⟩, ?_, ?_⟩
    · rw [add, if_neg free, finds, ok_bind, written]
      rfl
    · show (keys canon (filled slots table.entries)).Nodup
      rw [parts']
      rw [keys, List.map_append, List.map_cons] at distinct fresh ⊢
      rw [List.nodup_middle] at distinct ⊢
      refine List.nodup_cons.mpr ⟨fun member => fresh ?_, (List.nodup_cons.mp distinct).2⟩
      rw [List.mem_append, List.mem_cons]
      exact (List.mem_append.mp member).imp_right .inr
    · show known canon (filled slots table.entries) = _
      rw [parts', Table.lookup, parts]
      exact known_replace _ distinct (.inr fresh)
    · rintro lost isLost
      cases isLost
      exact ⟨full, new, old, List.mem_of_getElem? place, rfl, least⟩

/-- The update of a cache: the new value is known, and at most one other key is forgotten. -/
theorem updateOrAdd_spec (sound : Sound canon table) (room : 0 < size) (key : Key)
    (value : Value) (now : Nat) :
    ∃ next victim, updateOrAdd canon table key value now = .ok next ∧ Sound canon next ∧
      next.lookup canon =
        Function.update (forget victim (table.lookup canon)) (canon key) (.some value) ∧
      ∀ lost ∈ victim, Evicts canon table key lost := by
  rw [updateOrAdd]
  rcases find_cases sound key with ⟨finds, new⟩ | ⟨index, old, finds, place, isKey, -⟩
  · rw [finds, ok_bind]
    exact add_spec sound room new value now
  · rw [finds, ok_bind]
    obtain ⟨next, updates, sound', learns⟩ := updateEntry_spec sound place isKey value now
    refine ⟨next, none, updates, sound', learns, fun lost none => ?_⟩
    cases none

end Specifications

end CacheTable
