/-
This file reasons about what a program has done before. The history environment
keeps the calls of a run with their answers as its state and answers anything,
so a side condition on a call may speak about everything that came before it;
every run of a program against any environment is also a run against its
history.

The last part puts two environments side by side. What a program keeps in the
one and in the other, it keeps in both.
-/

import Nosgem.Interaction

namespace Interaction

section Histories

variable {Op : Type} {Ans : Op → Type} {First State Other : Type}

/-! ### The history of a run -/

/-- The environment that keeps the history of a run and answers anything. -/
def historyEnv : Env Ans (List (Event Ans)) := fun history op answer next =>
  next = history ++ [⟨op, answer⟩]

/-- Every run is a run against its history. -/
theorem Steps.recorded {env : Env Ans State} {state final : State} {prog left : Prog Ans First}
    {trace : List (Event Ans)} (run : Steps env state prog trace final left)
    (before : List (Event Ans)) : Steps historyEnv before prog trace (before ++ trace) left := by
  induction run generalizing before with
  | refl =>
    rw [List.append_nil]
    exact .refl _ _
  | @call _ _ _ op _ answer trace _ _ _ inductionHypothesis =>
    have tail := inductionHypothesis (before ++ [⟨op, answer⟩])
    rw [List.append_assoc, List.singleton_append] at tail
    exact .call rfl tail

/-- A run against a history adds its own events to it. -/
theorem Steps.adds {before after : List (Event Ans)} {prog left : Prog Ans First}
    {trace : List (Event Ans)} (run : Steps historyEnv before prog trace after left) :
    after = before ++ trace ∧ Steps anyEnv () prog trace () left := by
  induction run with
  | refl => exact ⟨(List.append_nil _).symm, .refl _ _⟩
  | call answered _ inductionHypothesis =>
    obtain ⟨rfl, tail⟩ := inductionHypothesis
    rw [answered, List.append_assoc]
    exact ⟨rfl, .call trivial tail⟩

variable {allowed : List (Event Ans) → Op → Prop} {kind : Op → Prop}
  {post : First → List (Event Ans) → Prop} {prog : Prog Ans First} {before : List (Event Ans)}

/-- A program returns with a history to which it has added one of its own runs. -/
theorem Meets.added (meets : Meets historyEnv allowed prog post before) :
    Meets historyEnv allowed prog (fun value after => post value after ∧
      ∃ trace, after = before ++ trace ∧ Steps anyEnv () prog trace () (.ret value)) before :=
  meets.and_runs fun _ trace _ run => ⟨trace, run.adds⟩

/-- A program may make its calls where each is allowed after any calls of their kind. -/
theorem Calls.meets_history (calls : Calls kind prog)
    (permitted : ∀ trace op, (∀ event ∈ trace, kind event.op) → kind op →
      allowed (before ++ trace) op) :
    Meets historyEnv allowed prog
      (fun value after => ∃ trace, after = before ++ trace ∧ (∀ event ∈ trace, kind event.op) ∧
        Steps anyEnv () prog trace () (.ret value)) before := by
  have meets : Meets historyEnv allowed prog (fun _ after => ∃ trace, after = before ++ trace ∧
      ∀ event ∈ trace, kind event.op) before := by
    refine calls.invariant ?_ ⟨[], (List.append_nil _).symm, List.forall_mem_nil _⟩
    rintro _ op ⟨trace, rfl, since⟩ isKind
    refine ⟨permitted trace op since isKind, fun answer after added => ?_⟩
    refine ⟨trace ++ [⟨op, answer⟩], by rw [added, List.append_assoc], fun event member => ?_⟩
    rcases List.mem_append.mp member with old | new
    · exact since event old
    · rw [List.mem_singleton.mp new]
      exact isKind
  refine meets.added.mono ?_
  rintro value after ⟨⟨trace, rfl, since⟩, other, same, run⟩
  obtain rfl := List.append_cancel_left same
  exact ⟨trace, rfl, since, run⟩

/-- What is allowed in the history is allowed in every run. -/
theorem Meets.allowed_of_run {env : Env Ans State} {state final : State}
    (meets : Meets historyEnv allowed prog post []) {trace : List (Event Ans)} {op : Op}
    {next : Ans op → Prog Ans First} (run : Steps env state prog trace final (.call op next)) :
    allowed trace op := meets.allowed_of_steps (run.recorded [])

/-! ### Two environments side by side -/

/-- The environment whose answers both environments may give. -/
def bothEnv (first : Env Ans State) (second : Env Ans Other) : Env Ans (State × Other) :=
  fun state op answer next => first state.1 op answer next.1 ∧ second state.2 op answer next.2

/-- What a program keeps in each of two environments it keeps in both. -/
theorem Meets.both {first : Env Ans State} {second : Env Ans Other}
    {allowed : State → Op → Prop} {permitted : Other → Op → Prop} {post : First → State → Prop}
    {later : First → Other → Prop} {state : State} {other : Other}
    (left : Meets first allowed prog post state) (right : Meets second permitted prog later other) :
    Meets (bothEnv first second) (fun held op => allowed held.1 op ∧ permitted held.2 op) prog
      (fun value held => post value held.1 ∧ later value held.2) (state, other) := by
  induction prog generalizing state other with
  | ret value => exact ⟨left, right⟩
  | cut => trivial
  | call op next inductionHypothesis =>
    exact ⟨⟨left.1, right.1⟩, fun answer after answered => inductionHypothesis answer
      (left.2 answer after.1 answered.1) (right.2 answer after.2 answered.2)⟩

end Histories

end Interaction
