/-
This file is about objects that answer calls and change their state with every
call, where a call may go wrong. An object simulates a specification when a
relation between their states is kept by every call: then no call goes wrong,
and whatever is called in which order, the answers are those of the
specification.
-/

namespace Simulation

variable {State Spec Call Answer Error : Type}

/-- The answers to a sequence of calls, and the state behind it. -/
def answers (respond : State → Call → Except Error (Answer × State)) (state : State) :
    List Call → Except Error (List Answer × State)
  | [] => .ok ([], state)
  | call :: calls =>
    match respond state call with
    | .error stop => .error stop
    | .ok (answer, next) =>
      match answers respond next calls with
      | .error stop => .error stop
      | .ok (rest, last) => .ok (answer :: rest, last)

/-- The answers of a specification, and its state behind them. -/
def answersOf (respondOf : Spec → Call → Answer × Spec) (spec : Spec) :
    List Call → List Answer × Spec
  | [] => ([], spec)
  | call :: calls =>
    let (answer, next) := respondOf spec call
    let (rest, last) := answersOf respondOf next calls
    (answer :: rest, last)

/-- Every allowed call is answered as the specification answers it, and keeps the relation. -/
def Simulates (respond : State → Call → Except Error (Answer × State))
    (respondOf : Spec → Call → Answer × Spec) (holds : State → Spec → Prop)
    (allowed : Call → Prop) : Prop :=
  ∀ state spec call, holds state spec → allowed call →
    ∃ next, respond state call = .ok ((respondOf spec call).1, next) ∧
      holds next (respondOf spec call).2

section Runs

variable {respond : State → Call → Except Error (Answer × State)}
  {respondOf : Spec → Call → Answer × Spec} {holds : State → Spec → Prop} {allowed : Call → Prop}

/-- A sequence of allowed calls is answered as the specification answers it. -/
theorem Simulates.answers (simulates : Simulates respond respondOf holds allowed) {state : State}
    {spec : Spec} (related : holds state spec) {calls : List Call}
    (each : ∀ call ∈ calls, allowed call) :
    ∃ last,
      Simulation.answers respond state calls = .ok ((answersOf respondOf spec calls).1, last) ∧
      holds last (answersOf respondOf spec calls).2 := by
  induction calls generalizing state spec with
  | nil => exact ⟨state, rfl, related⟩
  | cons call calls inductionHypothesis =>
    obtain ⟨next, responds, kept⟩ :=
      simulates state spec call related (each call List.mem_cons_self)
    obtain ⟨last, rest, stays⟩ :=
      inductionHypothesis kept fun later member => each later (List.mem_cons_of_mem _ member)
    refine ⟨last, ?_, stays⟩
    rw [Simulation.answers, responds]
    dsimp only
    rw [rest]
    rfl

end Runs

end Simulation
