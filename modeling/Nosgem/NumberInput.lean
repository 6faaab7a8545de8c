/-
This file settles which link a number selects. The input is checked to be
digits, as many as its buffer holds, and `atoi` computes in 16 bits; so a number
of 65536 or more is taken modulo `2 ^ 16`, and where the rest is the number of a
link, that link is followed. All other numbers select their link, or are
reported as invalid.
-/

import Nosgem.NumberCommand

namespace Nosgem

open CText Interaction

/-! ### The selected link -/

/-- The link of a number, counted from 1. -/
def linkOfNumber (table : NosRenderCtx) (number : Nat) : Option NosLink :=
  if number = 0 then none else table.links[number - 1]?

/-- The message for a number that is not the number of a link; the page stays. -/
def invalidNumber (st : MainState) : Io (MainState ⊕ Unit) := do
  invoke (.print (text "Invalid link number\n"))
  return .inl st

/-- A number does what it should: it resolves the URL of its link, or it is reported. -/
def Obeys (st : MainState) (table : NosRenderCtx) (input : Text) : Prop :=
  command st input =
    match linkOfNumber table (decimalValue input) with
    | some link => followTarget st (nosUrlResolve st.current link.url)
    | none => invalidNumber st

section Numbers

variable {st : MainState} {table : NosRenderCtx} {input : Text}

theorem linkOfNumber_eq_none {number : Nat} :
    linkOfNumber table number = none ↔ number = 0 ∨ table.links.length < number := by
  unfold linkOfNumber
  split
  · rename_i zero
    exact iff_of_true rfl (.inl zero)
  · rw [List.getElem?_eq_none_iff]
    omega

/-- The number command goes by the number in 16 bits. -/
theorem command_atoi (defined : st.links = some table) (number : isNumber input) :
    command st input =
      match linkOfNumber table (atoi input) with
      | some link => followTarget st (nosUrlResolve st.current link.url)
      | none => invalidNumber st := by
  cases found : linkOfNumber table (atoi input) with
  | some link =>
    unfold linkOfNumber at found
    split at found
    · cases found
    · rename_i some
      exact command_number defined number (Nat.pos_of_ne_zero some) found
  | none =>
    have outside := linkOfNumber_eq_none.mp found
    rw [command_isNumber st number]
    unfold followLink linkCount
    simp only [defined, pure_eq, ret_bind]
    rw [if_pos outside]
    rfl

/-- Following a link is not the report of an invalid number. -/
theorem followTarget_ne_invalid (st : MainState) (target : Option NosUrl) :
    followTarget st target ≠ invalidNumber st := by
  intro same
  cases target with
  | none =>
    injection same with message
    injection message with message
    exact absurd message (by decide)
  | some next => cases same

/-- A number is obeyed exactly when it is below `2 ^ 16`, or when what is left of it modulo `2 ^ 16`
is not the number of a link. -/
theorem numberCommand_obeys_iff (defined : st.links = some table) (number : isNumber input) :
    Obeys st table input ↔ decimalValue input < 65536 ∨ decimalValue input % 65536 = 0 ∨
      table.links.length < decimalValue input % 65536 := by
  have command := command_atoi defined number
  have few := table.linksFit
  rw [nosMaxLinks] at few
  constructor
  · intro obeys
    by_contra wrong
    rw [not_or, not_lt] at wrong
    have invalid : linkOfNumber table (decimalValue input) = none :=
      linkOfNumber_eq_none.mpr (by omega)
    rw [Obeys, invalid, command] at obeys
    cases found : linkOfNumber table (atoi input) with
    | none => exact wrong.2 (linkOfNumber_eq_none.mp found)
    | some link =>
      rw [found] at obeys
      exact followTarget_ne_invalid st _ obeys
  · intro holds
    suffices same : linkOfNumber table (decimalValue input) = linkOfNumber table (atoi input) by
      rw [Obeys, same]
      exact command
    by_cases small : decimalValue input < 65536
    · rw [atoi, uintRange, Nat.mod_eq_of_lt small]
    · have outside := holds.resolve_left small
      rw [linkOfNumber_eq_none.mpr (by omega)]
      exact (linkOfNumber_eq_none.mpr outside).symm

end Numbers

/-- A page with one link. -/
def oneLink : NosRenderCtx := ⟨[⟨text "/a", text "A"⟩], by decide, 0, 0⟩

theorem numberCommand_obeys_one :
    Obeys ⟨plainUrl, nosNavInit, some oneLink⟩ oneLink (text "1") :=
  (numberCommand_obeys_iff rfl (by decide)).mpr (by decide)

/-- The number 65537 follows the first link. -/
theorem numberCommand_wraps :
    decimalValue (text "65537") = 65537 ∧ oneLink.links.length = 1 ∧
      command ⟨plainUrl, nosNavInit, some oneLink⟩ (text "65537") =
        .ret (.inl ⟨{ plainUrl with path := text "/a" }, ⟨[plainUrl], by decide⟩, some oneLink⟩) ∧
      ¬ Obeys ⟨plainUrl, nosNavInit, some oneLink⟩ oneLink (text "65537") := by
  have follows : command ⟨plainUrl, nosNavInit, some oneLink⟩ (text "65537") =
      followTarget ⟨plainUrl, nosNavInit, some oneLink⟩ (nosUrlResolve plainUrl (text "/a")) :=
    command_number rfl (show isNumber (text "65537") by decide)
      (show 0 < atoi (text "65537") by decide) (show oneLink.links[_]? = some _ from rfl)
  have invalid : linkOfNumber oneLink (decimalValue (text "65537")) = none := by decide
  refine ⟨by decide, rfl, ?_, fun obeys => ?_⟩
  · rw [follows, show nosUrlResolve plainUrl (text "/a") =
      some { plainUrl with path := text "/a" } by decide]
    rfl
  · rw [Obeys, invalid, follows] at obeys
    exact followTarget_ne_invalid _ _ obeys

end Nosgem
