/-
This file defines interaction programs: finite trees of calls to the operations
of one interface, with an answer of the environment after every call. A program
is translated once and then run against several environments; an environment is
a relation that says which answers an operation may have and which state it
leaves. The file gives the runs of a program, the decomposition of a run along
sequencing and along a loop, and a calculus of pre- and postconditions with a
side condition on every call.

A loop that the program itself does not bound is unrolled a number of times
and then cut. A cut is not an outcome: it is the place where the observation
of a longer run stops, so a safety statement about every number of unrollings
is a statement about every finite prefix of every run.
-/

import Mathlib.Data.List.Chain
import Mathlib.Tactic.Basic

namespace Interaction

/-! ### Programs -/

/-- A program over an interface whose operation `op` is answered in `Ans op`. -/
inductive Prog {Op : Type} (Ans : Op → Type) (Result : Type) where
  | ret (value : Result)
  | call (op : Op) (next : Ans op → Prog Ans Result)
  | cut

section Programs

variable {Op : Type} {Ans : Op → Type} {First Second Third State : Type}

/-- Sequencing: the second program runs on the value the first one returns. -/
def Prog.bind : Prog Ans First → (First → Prog Ans Second) → Prog Ans Second
  | .ret value, rest => rest value
  | .call op next, rest => .call op fun answer => (next answer).bind rest
  | .cut, _ => .cut

instance : Monad (Prog Ans) where
  pure := .ret
  bind := .bind

/-- The program that calls one operation and returns its answer. -/
def perform (op : Op) : Prog Ans (Ans op) := .call op .ret

theorem pure_eq (value : First) : (pure value : Prog Ans First) = .ret value := rfl

@[simp] theorem ret_bind (value : First) (rest : First → Prog Ans Second) :
    (Prog.ret value >>= rest) = rest value := rfl

@[simp] theorem call_bind (op : Op) (next : Ans op → Prog Ans First)
    (rest : First → Prog Ans Second) :
    (Prog.call op next >>= rest) = .call op fun answer => next answer >>= rest := rfl

@[simp] theorem perform_bind (op : Op) (rest : Ans op → Prog Ans Second) :
    (perform op >>= rest) = .call op rest := rfl

/-- A loop whose body returns either the next loop state or the result of the loop, unrolled
`fuel` times. -/
def loop (body : First → Prog Ans (First ⊕ Second)) : Nat → First → Prog Ans Second
  | 0, _ => .cut
  | fuel + 1, start => body start >>= fun
    | .inl next => loop body fuel next
    | .inr result => .ret result

/-! ### Runs -/

/-- One call and the answer it got. -/
structure Event (Ans : Op → Type) where
  op : Op
  answer : Ans op

/-- An environment relates a state, a call and an answer to the state after the call. -/
abbrev Env (Ans : Op → Type) (State : Type) := State → (op : Op) → Ans op → State → Prop

/-- The runs of a program: from a state and a program, a list of events leads to a state and to
what is left of the program. -/
inductive Steps (env : Env Ans State) :
    State → Prog Ans First → List (Event Ans) → State → Prog Ans First → Prop where
  | refl (state : State) (prog : Prog Ans First) : Steps env state prog [] state prog
  | call {state middle final : State} {op : Op} {next : Ans op → Prog Ans First}
      {answer : Ans op} {trace : List (Event Ans)} {rest : Prog Ans First}
      (answered : env state op answer middle)
      (tail : Steps env middle (next answer) trace final rest) :
      Steps env state (.call op next) (⟨op, answer⟩ :: trace) final rest

variable {env : Env Ans State}

theorem Steps.append {state middle final : State} {prog between rest : Prog Ans First}
    {front back : List (Event Ans)} (head : Steps env state prog front middle between)
    (tail : Steps env middle between back final rest) :
    Steps env state prog (front ++ back) final rest := by
  induction head with
  | refl => exact tail
  | call answered _ inductionHypothesis => exact .call answered (inductionHypothesis tail)

/-- A run of the first program is a run of the sequence. -/
theorem Steps.bind_left {state final : State} {prog left : Prog Ans First}
    {trace : List (Event Ans)} (run : Steps env state prog trace final left)
    (rest : First → Prog Ans Second) :
    Steps env state (prog >>= rest) trace final (left >>= rest) := by
  induction run with
  | refl => exact .refl _ _
  | call answered _ inductionHypothesis => exact .call answered inductionHypothesis

/-- A complete run of the first program continues with the second one. -/
theorem Steps.bind {state middle final : State} {prog : Prog Ans First} {value : First}
    {front back : List (Event Ans)} {rest : First → Prog Ans Second} {left : Prog Ans Second}
    (head : Steps env state prog front middle (.ret value))
    (tail : Steps env middle (rest value) back final left) :
    Steps env state (prog >>= rest) (front ++ back) final left :=
  (head.bind_left rest).append tail

/-- Where a run of a sequence stands: inside the first program, or inside the second one after a
complete run of the first. -/
theorem Steps.bind_cases {prog : Prog Ans First} {rest : First → Prog Ans Second}
    {state final : State} {trace : List (Event Ans)} {left : Prog Ans Second}
    (run : Steps env state (prog >>= rest) trace final left) :
    (∃ inner, Steps env state prog trace final inner ∧ left = (inner >>= rest)) ∨
      ∃ value front back middle, Steps env state prog front middle (.ret value) ∧
        Steps env middle (rest value) back final left ∧ trace = front ++ back := by
  induction prog generalizing state trace with
  | ret value => exact .inr ⟨value, [], trace, state, .refl _ _, run, rfl⟩
  | cut => exact .inl ⟨.cut, by cases run; exact ⟨.refl _ _, rfl⟩⟩
  | call op next inductionHypothesis =>
    cases run with
    | refl => exact .inl ⟨.call op next, .refl _ _, rfl⟩
    | call answered tail =>
      rcases inductionHypothesis _ tail with ⟨inner, head, rfl⟩ |
        ⟨value, front, back, middle, head, second, rfl⟩
      · exact .inl ⟨inner, .call answered head, rfl⟩
      · exact .inr ⟨value, _ :: front, back, middle, .call answered head, second, rfl⟩

/-- A run of a sequence that is about to call an operation is about to call it in one of the two
parts. -/
theorem Steps.bind_call {prog : Prog Ans First} {rest : First → Prog Ans Second}
    {state final : State} {trace : List (Event Ans)} {op : Op} {next : Ans op → Prog Ans Second}
    (run : Steps env state (prog >>= rest) trace final (.call op next)) :
    (∃ inner, Steps env state prog trace final (.call op inner)) ∨
      ∃ value front back middle, Steps env state prog front middle (.ret value) ∧
        Steps env middle (rest value) back final (.call op next) ∧ trace = front ++ back := by
  rcases run.bind_cases with ⟨inner, head, equal⟩ | complete
  · cases inner with
    | ret value => exact .inr ⟨value, trace, [], final, head, equal ▸ .refl _ _, by simp⟩
    | cut => cases equal
    | call other continuation =>
      cases equal
      exact .inl ⟨continuation, head⟩
  · exact .inr complete

/-- A complete run of a sequence splits into complete runs of its parts. -/
theorem Steps.bind_ret {prog : Prog Ans First} {rest : First → Prog Ans Second}
    {state final : State} {trace : List (Event Ans)} {result : Second}
    (run : Steps env state (prog >>= rest) trace final (.ret result)) :
    ∃ value front back middle, Steps env state prog front middle (.ret value) ∧
      Steps env middle (rest value) back final (.ret result) ∧ trace = front ++ back := by
  rcases run.bind_cases with ⟨inner, head, equal⟩ | complete
  · cases inner with
    | ret value => exact ⟨value, trace, [], final, head, equal ▸ .refl _ _, by simp⟩
    | cut => cases equal
    | call other continuation => cases equal
  · exact complete

theorem Steps.of_ret {state final : State} {value : First} {trace : List (Event Ans)}
    {left : Prog Ans First} (run : Steps env state (.ret value) trace final left) :
    trace = [] ∧ final = state ∧ left = .ret value := by
  cases run
  exact ⟨rfl, rfl, rfl⟩

theorem Steps.of_cut {state final : State} {trace : List (Event Ans)} {left : Prog Ans First}
    (run : Steps env state .cut trace final left) :
    trace = [] ∧ final = state ∧ left = .cut := by
  cases run
  exact ⟨rfl, rfl, rfl⟩

/-- A run of a call and the rest of a sequence. -/
theorem Steps.perform_step {op : Op} {answer : Ans op} {rest : Ans op → Prog Ans First}
    {state middle final : State} {trace : List (Event Ans)} {left : Prog Ans First}
    (answered : env state op answer middle)
    (tail : Steps env middle (rest answer) trace final left) :
    Steps env state (perform op >>= rest) (⟨op, answer⟩ :: trace) final left :=
  .call answered tail

/-- A complete run of a call and the rest of a sequence. -/
theorem Steps.perform_ret {op : Op} {rest : Ans op → Prog Ans First} {state final : State}
    {trace : List (Event Ans)} {value : First}
    (run : Steps env state (perform op >>= rest) trace final (.ret value)) :
    ∃ answer middle tail, env state op answer middle ∧
      Steps env middle (rest answer) tail final (.ret value) ∧ trace = ⟨op, answer⟩ :: tail := by
  rw [perform_bind] at run
  cases run with
  | call answered tail => exact ⟨_, _, _, answered, tail, rfl⟩

/-- A run of a call and the rest of a sequence that is about to call an operation: the call
itself, or an operation of the rest. -/
theorem Steps.perform_call {op target : Op} {rest : Ans op → Prog Ans First} {state final : State}
    {trace : List (Event Ans)} {next : Ans target → Prog Ans First}
    (run : Steps env state (perform op >>= rest) trace final (.call target next)) :
    (target = op ∧ trace = []) ∨ ∃ answer middle tail, env state op answer middle ∧
      Steps env middle (rest answer) tail final (.call target next) ∧
      trace = ⟨op, answer⟩ :: tail := by
  rw [perform_bind] at run
  cases run with
  | refl => exact .inl ⟨rfl, rfl⟩
  | call answered tail => exact .inr ⟨_, _, _, answered, tail, rfl⟩

/-- Every event of a run is an answer of the environment. -/
theorem Steps.answered {prog left : Prog Ans First} {state final : State}
    {trace : List (Event Ans)} (run : Steps env state prog trace final left) {op : Op}
    {answer : Ans op} (member : ⟨op, answer⟩ ∈ trace) :
    ∃ before after, env before op answer after := by
  induction run with
  | refl => cases member
  | call answered _ inductionHypothesis =>
    cases member with
    | head => exact ⟨_, _, answered⟩
    | tail _ later => exact inductionHypothesis later

/-! ### Runs of a loop -/

/-- The loop states a run passes through: from a loop state, complete runs of the body lead over the
visited loop states to another one. -/
inductive Iterates (env : Env Ans State) (body : First → Prog Ans (First ⊕ Second)) :
    First → State → List First → List (Event Ans) → First → State → Prop where
  | refl (start : First) (state : State) : Iterates env body start state [] [] start state
  | step {start between last : First} {state middle final : State} {visited : List First}
      {front back : List (Event Ans)}
      (iteration : Steps env state (body start) front middle (.ret (.inl between)))
      (tail : Iterates env body between middle visited back last final) :
      Iterates env body start state (start :: visited) (front ++ back) last final

variable {body : First → Prog Ans (First ⊕ Second)}

/-- The first loop state of a run, its last one counted in. -/
theorem Iterates.head?_visited {start last : First} {state final : State} {visited : List First}
    {trace : List (Event Ans)} (run : Iterates env body start state visited trace last final) :
    (visited ++ [last]).head? = some start := by
  cases run <;> rfl

theorem Iterates.append {start between last : First} {state middle final : State}
    {visited later : List First} {front back : List (Event Ans)}
    (head : Iterates env body start state visited front between middle)
    (tail : Iterates env body between middle later back last final) :
    Iterates env body start state (visited ++ later) (front ++ back) last final := by
  induction head with
  | refl => exact tail
  | step iteration _ inductionHypothesis =>
    rw [List.append_assoc]
    exact .step iteration (inductionHypothesis tail)

/-- The invariant rule of loop states: what every iteration keeps, the last loop state of a run
has. -/
theorem Iterates.invariant (holds : First → Prop)
    (kept : ∀ {start state trace middle next}, holds start →
      Steps env state (body start) trace middle (.ret (.inl next)) → holds next)
    {start last : First} {state final : State} {visited : List First} {trace : List (Event Ans)}
    (run : Iterates env body start state visited trace last final) (initially : holds start) :
    holds last := by
  induction run with
  | refl => exact initially
  | step iteration tail inductionHypothesis => exact inductionHypothesis (kept initially iteration)

/-- The invariant rule for good iterations: what every good iteration keeps, the last loop state of
a run of good iterations has. -/
theorem Iterates.invariant_of_good (good : First → First → Prop) (holds : First → Prop)
    (kept : ∀ {start state trace middle next}, holds start → good start next →
      Steps env state (body start) trace middle (.ret (.inl next)) → holds next)
    {start last : First} {state final : State} {visited : List First} {trace : List (Event Ans)}
    (run : Iterates env body start state visited trace last final)
    (chain : (visited ++ [last]).IsChain good) (initially : holds start) : holds last := by
  induction run with
  | refl => exact initially
  | step iteration tail inductionHypothesis =>
    rw [List.cons_append, List.isChain_cons] at chain
    exact inductionHypothesis chain.2
      (kept initially (chain.1 _ tail.head?_visited) iteration)

/-- The chain rule of loop states: what every iteration does between two loop states, a run does
between each and the next. -/
theorem Iterates.isChain (related : First → First → Prop)
    (step : ∀ {start state trace middle next},
      Steps env state (body start) trace middle (.ret (.inl next)) → related start next)
    {start last : First} {state final : State} {visited : List First} {trace : List (Event Ans)}
    (run : Iterates env body start state visited trace last final) :
    (visited ++ [last]).IsChain related := by
  induction run with
  | refl => exact List.isChain_singleton _
  | step iteration tail inductionHypothesis =>
    rw [List.cons_append, List.isChain_cons, tail.head?_visited]
    refine ⟨fun next first => ?_, inductionHypothesis⟩
    cases first
    exact step iteration

/-- A loop that is about to call an operation is about to call it in the body, from a loop state
that complete iterations reached. -/
theorem Steps.loop_call {fuel : Nat} {start : First} {state final : State}
    {trace : List (Event Ans)} {op : Op} {next : Ans op → Prog Ans Second}
    (run : Steps env state (loop body fuel start) trace final (.call op next)) :
    ∃ here visited front back middle inner,
      Iterates env body start state visited front here middle ∧
        Steps env middle (body here) back final (.call op inner) ∧ trace = front ++ back := by
  induction fuel generalizing start state trace with
  | zero => cases run.of_cut.2.2
  | succ fuel inductionHypothesis =>
    rcases run.bind_call with ⟨inner, head⟩ | ⟨value, front, back, middle, head, tail, rfl⟩
    · exact ⟨start, [], [], trace, state, inner, .refl _ _, head, rfl⟩
    · cases value with
      | inr result => cases tail.of_ret.2.2
      | inl between =>
        obtain ⟨here, visited, front', back', middle', inner, iterates, last, rfl⟩ :=
          inductionHypothesis tail
        exact ⟨here, start :: visited, front ++ front', back', middle', inner, .step head iterates,
          last, (List.append_assoc _ _ _).symm⟩

/-- A loop that returns does so from the body, at a loop state that complete iterations
reached. -/
theorem Steps.loop_ret {fuel : Nat} {start : First} {state final : State}
    {trace : List (Event Ans)} {result : Second}
    (run : Steps env state (loop body fuel start) trace final (.ret result)) :
    ∃ here visited front back middle, Iterates env body start state visited front here middle ∧
      Steps env middle (body here) back final (.ret (.inr result)) ∧ trace = front ++ back := by
  induction fuel generalizing start state trace with
  | zero => cases run.of_cut.2.2
  | succ fuel inductionHypothesis =>
    obtain ⟨value, front, back, middle, head, tail, rfl⟩ := run.bind_ret
    cases value with
    | inr other =>
      obtain ⟨rfl, rfl, equal⟩ := tail.of_ret
      cases equal
      exact ⟨start, [], [], front, state, .refl _ _, head, by simp⟩
    | inl between =>
      obtain ⟨here, visited, front', back', middle', iterates, last, rfl⟩ :=
        inductionHypothesis tail
      exact ⟨here, start :: visited, front ++ front', back', middle', .step head iterates, last,
        (List.append_assoc _ _ _).symm⟩

/-- Iterations and a last one that ends the loop are a run of it. -/
theorem Iterates.loop_run {start here : First} {state middle final : State} {visited : List First}
    {front back : List (Event Ans)} {result : Second}
    (iterates : Iterates env body start state visited front here middle)
    (last : Steps env middle (body here) back final (.ret (.inr result))) {fuel : Nat}
    (enough : visited.length < fuel) :
    Steps env state (loop body fuel start) (front ++ back) final (.ret result) := by
  obtain ⟨fuel, rfl⟩ : ∃ less, fuel = less + 1 := ⟨fuel - 1, by omega⟩
  induction iterates generalizing fuel with
  | refl => exact last.bind_left _
  | step iteration _ inductionHypothesis =>
    obtain ⟨less, rfl⟩ : ∃ less, fuel = less + 1 := ⟨fuel - 1, by simp at enough; omega⟩
    rw [List.append_assoc]
    exact iteration.bind (inductionHypothesis last less (by simpa using enough))

/-- A run of a loop stands in its body, at a loop state that complete iterations reached. -/
theorem Steps.loop_cases {fuel : Nat} {start : First} {state final : State}
    {trace : List (Event Ans)} {left : Prog Ans Second}
    (run : Steps env state (loop body fuel start) trace final left) :
    ∃ here visited front back middle inner,
      Iterates env body start state visited front here middle ∧
        Steps env middle (body here) back final inner ∧ trace = front ++ back := by
  induction fuel generalizing start state trace with
  | zero =>
    obtain ⟨rfl, rfl, _⟩ := run.of_cut
    exact ⟨start, [], [], [], final, body start, .refl _ _, .refl _ _, rfl⟩
  | succ fuel inductionHypothesis =>
    rcases run.bind_cases with ⟨inner, head, _⟩ | ⟨value, front, back, middle, head, tail, rfl⟩
    · exact ⟨start, [], [], trace, state, inner, .refl _ _, head, rfl⟩
    · cases value with
      | inr result =>
        obtain ⟨rfl, rfl, _⟩ := tail.of_ret
        exact ⟨start, [], [], front, state, _, .refl _ _, head, by simp⟩
      | inl between =>
        obtain ⟨here, visited, front', back', middle', inner, iterates, last, rfl⟩ :=
          inductionHypothesis tail
        exact ⟨here, start :: visited, front ++ front', back', middle', inner, .step head iterates,
          last, (List.append_assoc _ _ _).symm⟩

/-! ### The run of a trace -/

/-- The events decide where a complete run ends and what it returns. -/
theorem Steps.ret_unique {prog : Prog Ans First} {state state' final final' : State}
    {front front' back back' : List (Event Ans)} {value value' : First}
    (run : Steps env state prog front final (.ret value))
    (other : Steps env state' prog front' final' (.ret value'))
    (same : front ++ back = front' ++ back') : value = value' ∧ front = front' ∧ back = back' := by
  induction prog generalizing state state' front front' with
  | ret only =>
    obtain ⟨rfl, _, equal⟩ := run.of_ret
    obtain ⟨rfl, _, equal'⟩ := other.of_ret
    cases equal
    cases equal'
    exact ⟨rfl, rfl, same⟩
  | cut => cases run.of_cut.2.2
  | call op next inductionHypothesis =>
    cases run with
    | call _ tail =>
      cases other with
      | call _ tail' =>
        rw [List.cons_append, List.cons_append, List.cons.injEq] at same
        obtain ⟨equal, same⟩ := same
        cases equal
        obtain ⟨values, fronts, backs⟩ := inductionHypothesis _ tail tail' same
        exact ⟨values, by rw [fronts], backs⟩

/-- The events decide the last iteration of a loop that returns. -/
theorem Iterates.unique {start here here' : First}
    {state state' middle middle' final final' : State}
    {visited visited' : List First} {front front' back back' rest rest' : List (Event Ans)}
    {result result' : Second}
    (iterates : Iterates env body start state visited front here middle)
    (last : Steps env middle (body here) back final (.ret (.inr result)))
    (iterates' : Iterates env body start state' visited' front' here' middle')
    (last' : Steps env middle' (body here') back' final' (.ret (.inr result')))
    (same : front ++ (back ++ rest) = front' ++ (back' ++ rest')) :
    here = here' ∧ back = back' ∧ result = result' := by
  induction iterates generalizing state' visited' front' with
  | refl =>
    cases iterates' with
    | refl =>
      obtain ⟨equal, backs, _⟩ := last.ret_unique last' same
      cases equal
      exact ⟨rfl, backs, rfl⟩
    | step iteration' _ =>
      rw [List.nil_append, List.append_assoc] at same
      cases (last.ret_unique iteration' same).1
  | step iteration _ inductionHypothesis =>
    cases iterates' with
    | refl =>
      rw [List.nil_append, List.append_assoc] at same
      cases (iteration.ret_unique last' same).1
    | step iteration' tail' =>
      rw [List.append_assoc, List.append_assoc] at same
      obtain ⟨equal, _, backs⟩ := iteration.ret_unique iteration' same
      cases equal
      exact inductionHypothesis last tail' backs

/-! ### Preconditions -/

/-- `Meets env allowed prog post state`: from `state`, every call the program makes is allowed in
the state it is made in, and every value it returns satisfies `post` in the state it returns in,
whatever the environment answers. -/
def Meets (env : Env Ans State) (allowed : State → Op → Prop) :
    Prog Ans First → (First → State → Prop) → State → Prop
  | .ret value, post, state => post value state
  | .call op next, post, state =>
      allowed state op ∧
        ∀ answer after, env state op answer after → Meets env allowed (next answer) post after
  | .cut, _, _ => True

variable {allowed : State → Op → Prop}

@[simp] theorem meets_pure {value : First} {post : First → State → Prop} {state : State} :
    Meets env allowed (pure value) post state ↔ post value state := Iff.rfl

theorem meets_call {op : Op} {next : Ans op → Prog Ans First} {post : First → State → Prop}
    {state : State} :
    Meets env allowed (.call op next) post state ↔ allowed state op ∧
      ∀ answer after, env state op answer after →
        Meets env allowed (next answer) post after := Iff.rfl

theorem meets_cut {post : First → State → Prop} {state : State} :
    Meets env allowed .cut post state := trivial

/-- The sequencing rule. -/
theorem meets_bind {prog : Prog Ans First} {rest : First → Prog Ans Second}
    {post : Second → State → Prop} {state : State} :
    Meets env allowed (prog >>= rest) post state ↔
      Meets env allowed prog (fun value => Meets env allowed (rest value) post) state := by
  induction prog generalizing state with
  | ret value => exact Iff.rfl
  | cut => exact Iff.rfl
  | call op next inductionHypothesis =>
    rw [call_bind, meets_call, meets_call]
    simp only [inductionHypothesis]

/-- The rule of consequence. -/
theorem Meets.mono {prog : Prog Ans First} {strong weak : First → State → Prop} {state : State}
    (meets : Meets env allowed prog strong state)
    (implies : ∀ value after, strong value after → weak value after) :
    Meets env allowed prog weak state := by
  induction prog generalizing state with
  | ret value => exact implies value state meets
  | cut => exact meets_cut
  | call op next inductionHypothesis =>
    exact ⟨meets.1, fun answer after answered =>
      inductionHypothesis answer (meets.2 answer after answered)⟩

theorem Meets.bind {prog : Prog Ans First} {rest : First → Prog Ans Second}
    {between : First → State → Prop} {post : Second → State → Prop} {state : State}
    (head : Meets env allowed prog between state)
    (tail : ∀ value after, between value after → Meets env allowed (rest value) post after) :
    Meets env allowed (prog >>= rest) post state :=
  meets_bind.mpr (head.mono tail)

/-- The loop rule: an invariant of the loop state that every iteration keeps. -/
theorem meets_loop (invariant : First → State → Prop) {post : Second → State → Prop}
    (iteration : ∀ here state, invariant here state →
      Meets env allowed (body here)
        (fun
          | .inl next => invariant next
          | .inr result => post result) state)
    (fuel : Nat) {start : First} {state : State} (initially : invariant start state) :
    Meets env allowed (loop body fuel start) post state := by
  induction fuel generalizing start state with
  | zero => exact meets_cut
  | succ fuel inductionHypothesis =>
    refine (iteration start state initially).bind fun value after held => ?_
    cases value with
    | inl next => exact inductionHypothesis held
    | inr result => exact held

/-- A run whose calls leave the state as it is ends where it started. -/
theorem Steps.stays {kind : Op → Prop} {prog left : Prog Ans First} {state final : State}
    {trace : List (Event Ans)} (run : Steps env state prog trace final left)
    (quiet : ∀ event ∈ trace, kind event.op)
    (keeps : ∀ state op answer after, kind op → env state op answer after → after = state) :
    final = state := by
  induction run with
  | refl => rfl
  | call answered _ inductionHypothesis =>
    rw [inductionHypothesis fun event member => quiet event (List.mem_cons_of_mem _ member)]
    exact keeps _ _ _ _ (quiet _ List.mem_cons_self) answered

/-- Soundness: what is left of a program after a run still meets the postcondition. -/
theorem Meets.steps {prog left : Prog Ans First} {post : First → State → Prop}
    {state final : State} {trace : List (Event Ans)} (meets : Meets env allowed prog post state)
    (run : Steps env state prog trace final left) : Meets env allowed left post final := by
  induction run with
  | refl => exact meets
  | call answered _ inductionHypothesis => exact inductionHypothesis (meets.2 _ _ answered)

theorem Meets.allowed_of_steps {prog : Prog Ans First} {post : First → State → Prop}
    {state final : State} {trace : List (Event Ans)} {op : Op} {next : Ans op → Prog Ans First}
    (meets : Meets env allowed prog post state)
    (run : Steps env state prog trace final (.call op next)) : allowed final op :=
  (meets.steps run).1

theorem Meets.post_of_steps {prog : Prog Ans First} {post : First → State → Prop}
    {state final : State} {trace : List (Event Ans)} {value : First}
    (meets : Meets env allowed prog post state)
    (run : Steps env state prog trace final (.ret value)) : post value final :=
  meets.steps run

/-- What holds at the end of every complete run may be added to a postcondition. -/
theorem Meets.and_runs {prog : Prog Ans First} {post extra : First → State → Prop} {state : State}
    (meets : Meets env allowed prog post state)
    (runs : ∀ value trace final, Steps env state prog trace final (.ret value) →
      extra value final) :
    Meets env allowed prog (fun value after => post value after ∧ extra value after) state := by
  induction prog generalizing state with
  | ret value => exact ⟨meets, runs value [] state (.refl _ _)⟩
  | cut => exact meets_cut
  | call op next inductionHypothesis =>
    exact ⟨meets.1, fun answer after answered => inductionHypothesis answer
      (meets.2 answer after answered)
      fun value trace final tail => runs value _ final (.call answered tail)⟩

/-! ### Total correctness -/

/-- `Returns env prog post state`: whatever the environment answers from `state` on, the program is
not cut and not left without an answer, and it returns a value that satisfies `post` in the state it
returns in. -/
def Returns (env : Env Ans State) : Prog Ans First → (First → State → Prop) → State → Prop
  | .ret value, post, state => post value state
  | .call op next, post, state =>
      (∃ answer after, env state op answer after) ∧
        ∀ answer after, env state op answer after → Returns env (next answer) post after
  | .cut, _, _ => False

theorem Returns.mono {prog : Prog Ans First} {strong weak : First → State → Prop} {state : State}
    (returns : Returns env prog strong state)
    (implies : ∀ value after, strong value after → weak value after) :
    Returns env prog weak state := by
  induction prog generalizing state with
  | ret value => exact implies value state returns
  | cut => exact returns
  | call op next inductionHypothesis =>
    exact ⟨returns.1, fun answer after answered =>
      inductionHypothesis answer (returns.2 answer after answered)⟩

theorem Returns.bind {prog : Prog Ans First} {rest : First → Prog Ans Second}
    {between : First → State → Prop} {post : Second → State → Prop} {state : State}
    (head : Returns env prog between state)
    (tail : ∀ value after, between value after → Returns env (rest value) post after) :
    Returns env (prog >>= rest) post state := by
  induction prog generalizing state with
  | ret value => exact tail value state head
  | cut => exact head.elim
  | call op next inductionHypothesis =>
    exact ⟨head.1, fun answer after answered =>
      inductionHypothesis answer (head.2 answer after answered)⟩

/-- A call that has an answer, and the rest of a sequence. -/
theorem Returns.perform {op : Op} {rest : Ans op → Prog Ans First} {post : First → State → Prop}
    {state : State} (answers : ∃ answer after, env state op answer after)
    (tail : ∀ answer after, env state op answer after → Returns env (rest answer) post after) :
    Returns env (Interaction.perform op >>= rest) post state := ⟨answers, tail⟩

/-- What holds at the end of every complete run may be added to a postcondition. -/
theorem Returns.and_runs {prog : Prog Ans First} {post extra : First → State → Prop} {state : State}
    (returns : Returns env prog post state)
    (runs : ∀ value trace final, Steps env state prog trace final (.ret value) →
      extra value final) :
    Returns env prog (fun value after => post value after ∧ extra value after) state := by
  induction prog generalizing state with
  | ret value => exact ⟨returns, runs value [] state (.refl _ _)⟩
  | cut => exact returns
  | call op next inductionHypothesis =>
    exact ⟨returns.1, fun answer after answered => inductionHypothesis answer
      (returns.2 answer after answered)
      fun value trace final tail => runs value _ final (.call answered tail)⟩

/-- The loop rule of total correctness: a measure that every iteration lowers, and fuel for it. -/
theorem Returns.loop {body : First → Prog Ans (First ⊕ Second)} (invariant : First → State → Prop)
    (measure : First → State → Nat) {post : Second → State → Prop}
    (iteration : ∀ here state, invariant here state →
      Returns env (body here)
        (fun
          | .inl next => fun after => invariant next after ∧ measure next after < measure here state
          | .inr result => post result) state)
    {fuel : Nat} {start : First} {state : State} (enough : measure start state < fuel)
    (initially : invariant start state) :
    Returns env (Interaction.loop body fuel start) post state := by
  induction fuel generalizing start state with
  | zero => cases enough
  | succ fuel inductionHypothesis =>
    refine (iteration start state initially).bind fun value after held => ?_
    cases value with
    | inl next => exact inductionHypothesis (by omega) held.1
    | inr result => exact held

theorem Returns.complete {prog : Prog Ans First} {post : First → State → Prop} {state : State}
    (returns : Returns env prog post state) :
    ∃ value trace final, Steps env state prog trace final (.ret value) ∧ post value final := by
  induction prog generalizing state with
  | ret value => exact ⟨value, [], state, .refl _ _, returns⟩
  | cut => exact returns.elim
  | call op next inductionHypothesis =>
    obtain ⟨answer, after, answered⟩ := returns.1
    obtain ⟨value, trace, final, tail, holds⟩ :=
      inductionHypothesis answer (returns.2 answer after answered)
    exact ⟨value, ⟨op, answer⟩ :: trace, final, .call answered tail, holds⟩

/-! ### The operations a program may call -/

/-- Every operation the program may call, whatever it is answered, satisfies `kind`. -/
def Calls (kind : Op → Prop) : Prog Ans First → Prop
  | .ret _ => True
  | .call op next => kind op ∧ ∀ answer, Calls kind (next answer)
  | .cut => True

variable {kind : Op → Prop}

@[simp] theorem calls_pure {value : First} : Calls kind (pure value : Prog Ans First) := trivial

@[simp] theorem calls_call {op : Op} {next : Ans op → Prog Ans First} :
    Calls kind (.call op next) ↔ kind op ∧ ∀ answer, Calls kind (next answer) := Iff.rfl

@[simp] theorem calls_perform {op : Op} : Calls kind (perform op : Prog Ans (Ans op)) ↔ kind op :=
  ⟨fun calls => calls.1, fun holds => ⟨holds, fun _ => trivial⟩⟩

theorem Calls.mono {wider : Op → Prop} {prog : Prog Ans First} (calls : Calls kind prog)
    (implies : ∀ op, kind op → wider op) : Calls wider prog := by
  induction prog with
  | ret value => trivial
  | cut => trivial
  | call op next inductionHypothesis =>
    exact ⟨implies op calls.1, fun answer => inductionHypothesis answer (calls.2 answer)⟩

theorem Calls.bind {prog : Prog Ans First} {rest : First → Prog Ans Second}
    (head : Calls kind prog) (tail : ∀ value, Calls kind (rest value)) :
    Calls kind (prog >>= rest) := by
  induction prog with
  | ret value => exact tail value
  | cut => trivial
  | call op next inductionHypothesis =>
    exact ⟨head.1, fun answer => inductionHypothesis answer (head.2 answer)⟩

/-- A call followed by the rest of a sequence. -/
theorem Calls.perform {op : Op} {rest : Ans op → Prog Ans First} (holds : kind op)
    (tail : ∀ answer, Calls kind (rest answer)) :
    Calls kind (Interaction.perform op >>= rest) := ⟨holds, tail⟩

theorem Calls.loop {body : First → Prog Ans (First ⊕ Second)}
    (iteration : ∀ here, Calls kind (body here)) (fuel : Nat) (start : First) :
    Calls kind (Interaction.loop body fuel start) := by
  induction fuel generalizing start with
  | zero => trivial
  | succ fuel inductionHypothesis =>
    refine (iteration start).bind fun value => ?_
    cases value with
    | inl next => exact inductionHypothesis next
    | inr result => trivial

theorem Calls.of_steps {prog : Prog Ans First} {state final : State} {trace : List (Event Ans)}
    {op : Op} {next : Ans op → Prog Ans First} (calls : Calls kind prog)
    (run : Steps env state prog trace final (.call op next)) : kind op := by
  generalize equal : Prog.call op next = left at run
  induction run with
  | refl => subst equal; exact calls.1
  | call _ _ inductionHypothesis => exact inductionHypothesis (calls.2 _) equal

theorem Calls.of_mem {prog left : Prog Ans First} {state final : State}
    {trace : List (Event Ans)} (calls : Calls kind prog)
    (run : Steps env state prog trace final left) : ∀ event ∈ trace, kind event.op := by
  induction run with
  | refl => simp
  | call _ _ inductionHypothesis =>
    rintro event (_ | ⟨_, later⟩)
    · exact calls.1
    · exact inductionHypothesis (calls.2 _) event later

/-- Like `Calls`, and the program is cut nowhere: whatever it is answered, it goes on to return. -/
def Finishes (kind : Op → Prop) : Prog Ans First → Prop
  | .ret _ => True
  | .call op next => kind op ∧ ∀ answer, Finishes kind (next answer)
  | .cut => False

@[simp] theorem finishes_pure {value : First} : Finishes kind (pure value : Prog Ans First) :=
  trivial

@[simp] theorem finishes_call {op : Op} {next : Ans op → Prog Ans First} :
    Finishes kind (.call op next) ↔ kind op ∧ ∀ answer, Finishes kind (next answer) := Iff.rfl

theorem Finishes.calls {prog : Prog Ans First} (finishes : Finishes kind prog) :
    Calls kind prog := by
  induction prog with
  | ret value => trivial
  | cut => trivial
  | call op next inductionHypothesis =>
    exact ⟨finishes.1, fun answer => inductionHypothesis answer (finishes.2 answer)⟩

theorem Finishes.bind {prog : Prog Ans First} {rest : First → Prog Ans Second}
    (head : Finishes kind prog) (tail : ∀ value, Finishes kind (rest value)) :
    Finishes kind (prog >>= rest) := by
  induction prog with
  | ret value => exact tail value
  | cut => exact head
  | call op next inductionHypothesis =>
    exact ⟨head.1, fun answer => inductionHypothesis answer (head.2 answer)⟩

/-- A call followed by the rest of a sequence. -/
theorem Finishes.perform {op : Op} {rest : Ans op → Prog Ans First} (holds : kind op)
    (tail : ∀ answer, Finishes kind (rest answer)) :
    Finishes kind (Interaction.perform op >>= rest) := ⟨holds, tail⟩

/-- A program that finishes returns where every call has an answer, and what every answer keeps is
kept from its start to its end. -/
theorem Finishes.returns {prog : Prog Ans First} (finishes : Finishes kind prog)
    (keeps : State → State → Prop) (refl : ∀ state, keeps state state)
    (trans : ∀ {state middle final}, keeps state middle → keeps middle final → keeps state final)
    (answers : ∀ state op, ∃ answer after, env state op answer after)
    (steps : ∀ state op answer after, kind op → env state op answer after → keeps state after)
    (state : State) : Returns env prog (fun _ after => keeps state after) state := by
  induction prog generalizing state with
  | ret value => exact refl state
  | cut => exact finishes.elim
  | call op next inductionHypothesis =>
    refine ⟨answers state op, fun answer after answered => ?_⟩
    have kept := steps state op answer after finishes.1 answered
    exact (inductionHypothesis answer (finishes.2 answer) after).mono
      fun _ _ later => trans kept later

/-- A program that finishes returns with its postcondition where every call has an answer. -/
theorem Finishes.meets {prog : Prog Ans First} {post : First → State → Prop} {state : State}
    (finishes : Finishes kind prog)
    (answers : ∀ state op, ∃ answer after, env state op answer after)
    (meets : Meets env allowed prog post state) : Returns env prog post state := by
  induction prog generalizing state with
  | ret value => exact meets
  | cut => exact finishes.elim
  | call op next inductionHypothesis =>
    exact ⟨answers state op, fun answer after answered =>
      inductionHypothesis answer (finishes.2 answer) (meets.2 answer after answered)⟩

/-- A run of a sequence that is about to call an operation the first program never calls is past
the first program. -/
theorem Steps.past {prog : Prog Ans First} {rest : First → Prog Ans Second} {state final : State}
    {trace : List (Event Ans)} {op : Op} {next : Ans op → Prog Ans Second}
    (run : Steps env state (prog >>= rest) trace final (.call op next)) (calls : Calls kind prog)
    (other : ¬ kind op) :
    ∃ value front back middle, Steps env state prog front middle (.ret value) ∧
      Steps env middle (rest value) back final (.call op next) ∧ trace = front ++ back := by
  rcases run.bind_call with ⟨inner, head⟩ | complete
  · exact absurd (calls.of_steps head) other
  · exact complete

/-- Where a run of a sequence stands whose first program calls operations of one kind: about to call
one of these, cut, or past the first program. -/
theorem Steps.bind_calls {prog : Prog Ans First} {rest : First → Prog Ans Second}
    {state final : State} {trace : List (Event Ans)} {left : Prog Ans Second}
    (run : Steps env state (prog >>= rest) trace final left) (calls : Calls kind prog) :
    ((∃ op next, left = .call op next ∧ kind op) ∨ left = .cut) ∧
        (∀ event ∈ trace, kind event.op) ∨
      ∃ value front back middle, Steps env state prog front middle (.ret value) ∧
        Steps env middle (rest value) back final left ∧ trace = front ++ back ∧
        ∀ event ∈ front, kind event.op := by
  rcases run.bind_cases with
    ⟨inner, head, equal⟩ | ⟨value, front, back, middle, head, tail, equal⟩
  · cases inner with
    | ret value =>
      exact .inr ⟨value, trace, [], final, head, equal ▸ .refl _ _, by simp, calls.of_mem head⟩
    | call op next => exact .inl ⟨.inl ⟨op, _, equal, calls.of_steps head⟩, calls.of_mem head⟩
    | cut => exact .inl ⟨.inr equal, calls.of_mem head⟩
  · exact .inr ⟨value, front, back, middle, head, tail, equal, calls.of_mem head⟩

/-! ### The values a program may return -/

/-- Every value the program may return, whatever its calls are answered, satisfies `post`. -/
def Yields (post : First → Prop) : Prog Ans First → Prop
  | .ret value => post value
  | .call _ next => ∀ answer, Yields post (next answer)
  | .cut => True

theorem Yields.mono {post weak : First → Prop} {prog : Prog Ans First} (yields : Yields post prog)
    (implies : ∀ value, post value → weak value) : Yields weak prog := by
  induction prog with
  | ret value => exact implies value yields
  | cut => trivial
  | call op next inductionHypothesis =>
    exact fun answer => inductionHypothesis answer (yields answer)

/-- Only the end of a sequence says what it returns. -/
theorem Yields.bind {post : Second → Prop} {prog : Prog Ans First} {rest : First → Prog Ans Second}
    (tail : ∀ value, Yields post (rest value)) : Yields post (prog >>= rest) := by
  induction prog with
  | ret value => exact tail value
  | cut => trivial
  | call op next inductionHypothesis => exact fun answer => inductionHypothesis answer

theorem Yields.of_steps {post : First → Prop} {prog : Prog Ans First} {state final : State}
    {trace : List (Event Ans)} {value : First} (yields : Yields post prog)
    (run : Steps env state prog trace final (.ret value)) : post value := by
  generalize equal : Prog.ret value = left at run
  induction run with
  | refl => subst equal; exact yields
  | call _ _ inductionHypothesis => exact inductionHypothesis (yields _) equal

/-! ### How often operations are called -/

/-- The calls of one kind in a run. -/
def callsIn (counted : Op → Bool) (trace : List (Event Ans)) : Nat :=
  trace.countP fun event => counted event.op

variable {counted : Op → Bool}

@[simp] theorem callsIn_append (front back : List (Event Ans)) :
    callsIn counted (front ++ back) = callsIn counted front + callsIn counted back :=
  List.countP_append

/-- Whatever the program is answered, it makes at most `bound` calls of one kind. -/
def CallsAtMost (counted : Op → Bool) : (bound : Nat) → Prog Ans First → Prop
  | _, .ret _ => True
  | bound, .call op next =>
    if counted op then 0 < bound ∧ ∀ answer, CallsAtMost counted (bound - 1) (next answer)
    else ∀ answer, CallsAtMost counted bound (next answer)
  | _, .cut => True

theorem Calls.atMost {prog : Prog Ans First} (calls : Calls (fun op => ¬ counted op) prog)
    (bound : Nat) : CallsAtMost counted bound prog := by
  induction prog with
  | ret value => trivial
  | cut => trivial
  | call op next inductionHypothesis =>
    rw [CallsAtMost, if_neg calls.1]
    exact fun answer => inductionHypothesis answer (calls.2 answer)

/-- A program without counted calls may stand behind. -/
theorem CallsAtMost.bind_left {prog : Prog Ans First} {rest : First → Prog Ans Second} {bound : Nat}
    (head : CallsAtMost counted bound prog)
    (tail : ∀ value, Calls (fun op => ¬ counted op) (rest value)) :
    CallsAtMost counted bound (prog >>= rest) := by
  induction prog generalizing bound with
  | ret value => exact (tail value).atMost bound
  | cut => trivial
  | call op next inductionHypothesis =>
    rw [CallsAtMost] at head
    rw [call_bind, CallsAtMost]
    split
    · rename_i isCounted
      rw [if_pos isCounted] at head
      exact ⟨head.1, fun answer => inductionHypothesis answer (head.2 answer)⟩
    · rename_i other
      rw [if_neg other] at head
      exact fun answer => inductionHypothesis answer (head answer)

/-- A program without counted calls may stand in front. -/
theorem CallsAtMost.bind_right {prog : Prog Ans First} {rest : First → Prog Ans Second}
    {bound : Nat} (head : Calls (fun op => ¬ counted op) prog)
    (tail : ∀ value, CallsAtMost counted bound (rest value)) :
    CallsAtMost counted bound (prog >>= rest) := by
  induction prog with
  | ret value => exact tail value
  | cut => trivial
  | call op next inductionHypothesis =>
    rw [call_bind, CallsAtMost, if_neg head.1]
    exact fun answer => inductionHypothesis answer (head.2 answer)

/-- A single call in front of a program without counted calls. -/
theorem CallsAtMost.perform {op : Op} {rest : Ans op → Prog Ans First}
    (tail : ∀ answer, Calls (fun op => ¬ counted op) (rest answer)) :
    CallsAtMost counted 1 (Interaction.perform op >>= rest) := by
  rw [perform_bind, CallsAtMost]
  split
  · exact ⟨Nat.one_pos, fun answer => (tail answer).atMost 0⟩
  · exact fun answer => (tail answer).atMost 1

theorem CallsAtMost.of_steps {prog left : Prog Ans First} {state final : State}
    {trace : List (Event Ans)} {bound : Nat} (atMost : CallsAtMost counted bound prog)
    (run : Steps env state prog trace final left) : callsIn counted trace ≤ bound := by
  induction run generalizing bound with
  | refl => exact Nat.zero_le _
  | @call _ _ _ op _ _ _ _ _ _ inductionHypothesis =>
    rw [CallsAtMost] at atMost
    rw [callsIn, List.countP_cons]
    split at atMost
    · rename_i isCounted
      have later := inductionHypothesis (atMost.2 _)
      rw [if_pos isCounted]
      rw [callsIn] at later
      omega
    · rename_i other
      rw [if_neg other]
      exact inductionHypothesis (atMost _)

/-! ### The order of operations -/

/-- Whatever the program is answered, it calls no `early` operation after a `late` one. -/
def Staged (early late : Op → Prop) : Prog Ans First → Prop
  | .ret _ => True
  | .call op next => ∀ answer, Staged early late (next answer) ∧
      (late op → Calls (fun op => ¬ early op) (next answer))
  | .cut => True

variable {early late : Op → Prop}

theorem Calls.staged {prog : Prog Ans First} (calls : Calls (fun op => ¬ early op) prog) :
    Staged early late prog := by
  induction prog with
  | ret value => trivial
  | cut => trivial
  | call op next inductionHypothesis =>
    exact fun answer => ⟨inductionHypothesis answer (calls.2 answer), fun _ => calls.2 answer⟩

/-- A program without late operations may stand in front of a staged one. -/
theorem Staged.bind {prog : Prog Ans First} {rest : First → Prog Ans Second}
    (head : Calls (fun op => ¬ late op) prog) (tail : ∀ value, Staged early late (rest value)) :
    Staged early late (prog >>= rest) := by
  induction prog with
  | ret value => exact tail value
  | cut => trivial
  | call op next inductionHypothesis =>
    exact fun answer => ⟨inductionHypothesis answer (head.2 answer), fun done => absurd done head.1⟩

/-- A run of a staged program that is about to call an early operation has called no late one. -/
theorem Staged.of_steps {prog : Prog Ans First} {state final : State} {trace : List (Event Ans)}
    {op : Op} {next : Ans op → Prog Ans First} (staged : Staged early late prog)
    (run : Steps env state prog trace final (.call op next)) (isEarly : early op) :
    ∀ event ∈ trace, ¬ late event.op := by
  generalize equal : Prog.call op next = left at run
  induction run with
  | refl => simp
  | call answered tail inductionHypothesis =>
    subst equal
    rintro event (_ | ⟨_, later⟩)
    · exact fun done => ((staged _).2 done).of_steps tail isEarly
    · exact inductionHypothesis (staged _).1 rfl event later

/-! ### Frames -/

/-- The frame rule: a program whose calls are all allowed in a state and do not change it leaves
the state as it is. -/
theorem Calls.meets {prog : Prog Ans First} {state : State} (calls : Calls kind prog)
    (permitted : ∀ op, kind op → allowed state op)
    (stays : ∀ op answer after, kind op → env state op answer after → after = state) :
    Meets env allowed prog (fun _ after => after = state) state := by
  induction prog with
  | ret value => exact rfl
  | cut => trivial
  | call op next inductionHypothesis =>
    refine ⟨permitted op calls.1, fun answer after answered => ?_⟩
    obtain rfl := stays op answer after calls.1 answered
    exact inductionHypothesis answer (calls.2 answer)

/-- The invariant rule: a program whose calls are all allowed where an invariant holds, and keep
it, keeps it. -/
theorem Calls.invariant {prog : Prog Ans First} {inv : State → Prop} {state : State}
    (calls : Calls kind prog)
    (upheld : ∀ state op, inv state → kind op → allowed state op ∧
      ∀ answer after, env state op answer after → inv after)
    (initially : inv state) : Meets env allowed prog (fun _ after => inv after) state := by
  induction prog generalizing state with
  | ret value => exact initially
  | cut => trivial
  | call op next inductionHypothesis =>
    obtain ⟨permitted, keeps⟩ := upheld state op initially calls.1
    exact ⟨permitted, fun answer after answered =>
      inductionHypothesis answer (calls.2 answer) (keeps answer after answered)⟩

/-! ### What a program shows of its result -/

/-- The program that returns what is shown of the result of a program. -/
def Prog.map (shown : First → Second) (prog : Prog Ans First) : Prog Ans Second :=
  prog >>= fun value => .ret (shown value)

/-- A sequence shows what its second part shows. -/
theorem map_bind (shown : Second → Third) (prog : Prog Ans First)
    (rest : First → Prog Ans Second) :
    (prog >>= rest).map shown = prog >>= fun value => (rest value).map shown := by
  induction prog with
  | ret value => rfl
  | cut => rfl
  | call op next inductionHypothesis => exact congrArg _ (funext inductionHypothesis)

/-- A program may go on with what is shown of a result. -/
theorem bind_map (shown : First → Second) (prog : Prog Ans First)
    (rest : Second → Prog Ans Third) :
    (prog.map shown >>= rest) = prog >>= fun value => rest (shown value) := by
  induction prog with
  | ret value => rfl
  | cut => rfl
  | call op next inductionHypothesis => exact congrArg _ (funext inductionHypothesis)

/-- A run of a program is a run of what it shows. -/
theorem Steps.map {state final : State} {prog : Prog Ans First} {trace : List (Event Ans)}
    {value : First} (run : Steps env state prog trace final (.ret value))
    (shown : First → Second) : Steps env state (prog.map shown) trace final (.ret (shown value)) :=
  run.bind_left _

/-- A loop whose body goes by a part of the loop state is the loop on that part. -/
theorem loop_map {body : First → Prog Ans (First ⊕ Second)}
    {seen : Third → Prog Ans (Third ⊕ Second)} (part : First → Third)
    (bodies : ∀ start, (body start).map (Sum.map part id) = seen (part start)) (fuel : Nat)
    (start : First) : loop body fuel start = loop seen fuel (part start) := by
  induction fuel generalizing start with
  | zero => rfl
  | succ fuel inductionHypothesis =>
    rw [loop, loop, ← bodies, bind_map]
    congr 1
    funext result
    cases result with
    | inl next => exact inductionHypothesis next
    | inr result => rfl

/-! ### Runs with any answers -/

/-- The environment in which every call may have every answer. -/
def anyEnv : Env Ans Unit := fun _ _ _ _ => True

theorem Steps.any {op : Op} {answer : Ans op} {rest : Ans op → Prog Ans First}
    {trace : List (Event Ans)} {left : Prog Ans First}
    (tail : Steps anyEnv () (rest answer) trace () left) :
    Steps anyEnv () (perform op >>= rest) (⟨op, answer⟩ :: trace) () left := .call trivial tail

/-- A run with any answers is a run of an environment that allows these answers and stays in its
state. -/
theorem Steps.of_any {env : Env Ans State} {state : State} {prog left : Prog Ans First}
    {trace : List (Event Ans)} {start last : Unit} (run : Steps anyEnv start prog trace last left)
    (stays : ∀ event ∈ trace, env state event.op event.answer state) :
    Steps env state prog trace state left := by
  induction run with
  | refl => exact .refl _ _
  | call _ _ inductionHypothesis =>
    exact .call (stays _ List.mem_cons_self)
      (inductionHypothesis fun event member => stays event (List.mem_cons_of_mem _ member))

end Programs

end Interaction
