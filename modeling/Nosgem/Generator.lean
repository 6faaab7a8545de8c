/-
This file is about generators that keep a state and mix an input into it at every
step. Two questions are asked of such a generator: whether two states can merge,
that is, whether the same inputs can lead them to one state; and whether an
input can be seen in the output of the step that mixes it in.

The states of a run never merge when no single step merges two of them. A step
that first advances the state and then mixes in an input merges nothing when
neither half does; and a congruential advance merges nothing when its multiplier
can be undone. The output of a step is free of its input when the mixing changes
nothing of the state that the output shows.
-/

import Mathlib.Algebra.Group.Defs
import Mathlib.Logic.Function.Basic

namespace Generator

variable {State Input Output : Type}

/-! ### Runs of a generator -/

/-- The state after one step for each of the inputs. -/
def stateAfter (step : State → Input → State) (inputs : List Input) (state : State) : State :=
  inputs.foldl step state

@[simp] theorem stateAfter_nil (step : State → Input → State) :
    stateAfter step [] = id := rfl

theorem stateAfter_cons (step : State → Input → State) (input : Input) (inputs : List Input) :
    stateAfter step (input :: inputs) = stateAfter step inputs ∘ fun state => step state input :=
  rfl

/-- When no step merges two states, no run does. -/
theorem stateAfter_injective {step : State → Input → State}
    (keepsApart : ∀ input, Function.Injective fun state => step state input)
    (inputs : List Input) : Function.Injective (stateAfter step inputs) := by
  induction inputs with
  | nil =>
    rw [stateAfter_nil]
    exact Function.injective_id
  | cons input inputs inductionHypothesis =>
    rw [stateAfter_cons]
    exact inductionHypothesis.comp (keepsApart input)

/-! ### Advancing and mixing -/

/-- A step that advances the state and then mixes an input into it. -/
def mixedStep (advance : State → State) (mix : State → Input → State) (state : State)
    (input : Input) : State := mix (advance state) input

theorem mixedStep_injective {advance : State → State} {mix : State → Input → State}
    (advanceApart : Function.Injective advance)
    (mixApart : ∀ input, Function.Injective fun state => mix state input) (input : Input) :
    Function.Injective fun state => mixedStep advance mix state input :=
  (mixApart input).comp advanceApart

/-- What `shown` shows of a state does not tell which input was mixed into it. -/
def Blind (mix : State → Input → State) (shown : State → Output) : Prop :=
  ∀ state input, shown (mix state input) = shown state

/-- An output that is blind to the mixing is decided by the state before the step. -/
theorem Blind.mixedStep {mix : State → Input → State} {shown : State → Output}
    (blind : Blind mix shown) (advance : State → State) (state : State) (input : Input) :
    shown (Generator.mixedStep advance mix state input) = shown (advance state) :=
  blind (advance state) input

/-! ### Congruential generators -/

section Congruential

variable {Word : Type} [Mul Word] [Add Word]

/-- The advance of a congruential generator. -/
def congruential (multiplier increment state : Word) : Word := state * multiplier + increment

/-- A congruential generator whose multiplier can be undone merges no states. -/
theorem congruential_injective [IsRightCancelAdd Word] {multiplier : Word} (undo : Word)
    (undone : ∀ state, state * multiplier * undo = state) (increment : Word) :
    Function.Injective (congruential multiplier increment) := by
  intro state other same
  have products : state * multiplier = other * multiplier := add_right_cancel same
  calc state = state * multiplier * undo := (undone state).symm
    _ = other * multiplier * undo := by rw [products]
    _ = other := undone other

end Congruential

end Generator
