/-
This file keeps the books of a program that acquires and releases objects. An
interface says for each operation which object an answer of it hands out, which
object it takes back and which objects it works on; the ledger is the list of
the objects a run holds. An object that is handed out is not held at that
moment, so a run that only takes back and only works on what it holds never
releases an object twice and never uses one after its release.
-/

import Nosgem.Interaction
import Mathlib.Data.List.Basic

namespace Interaction

section Ledger

variable {Op : Type} {Ans : Op → Type} {Object First Second : Type}

/-- What the operations of an interface do to the objects a program holds. -/
structure Accounts (Ans : Op → Type) (Object : Type) where
  acquired : (op : Op) → Ans op → Option Object
  released : Op → Option Object
  used : Op → List Object

variable [DecidableEq Object] (accounts : Accounts Ans Object)

/-- The objects held after a call. -/
def Accounts.after (held : List Object) (op : Op) (answer : Ans op) : List Object :=
  let kept := match accounts.released op with
    | none => held
    | some object => held.erase object
  match accounts.acquired op answer with
  | none => kept
  | some object => object :: kept

/-- The environment that hands out objects which are not held, and otherwise answers anything. -/
def Accounts.ledger : Env Ans (List Object) := fun held op answer next =>
  (∀ object, accounts.acquired op answer = some object → object ∉ held) ∧
    next = accounts.after held op answer

/-- A call that works on held objects and takes back a held object. -/
structure Accounts.Permitted (held : List Object) (op : Op) : Prop where
  used : ∀ object ∈ accounts.used op, object ∈ held
  released : ∀ object, accounts.released op = some object → object ∈ held

/-- An operation that neither hands out nor takes back an object. -/
structure Accounts.Quiet (op : Op) : Prop where
  acquired : ∀ answer, accounts.acquired op answer = none
  released : accounts.released op = none

variable {accounts} {held : List Object} {op : Op}

theorem Accounts.Quiet.after (quiet : accounts.Quiet op) (answer : Ans op) :
    accounts.after held op answer = held := by
  simp only [Accounts.after, quiet.acquired answer, quiet.released]

variable {allowed : List Object → Op → Prop} {post : First → List Object → Prop}

/-- A quiet call leaves the ledger alone. -/
theorem meets_quiet {rest : Ans op → Prog Ans First} (quiet : accounts.Quiet op)
    (permitted : allowed held op)
    (tail : ∀ answer, Meets accounts.ledger allowed (rest answer) post held) :
    Meets accounts.ledger allowed (perform op >>= rest) post held := by
  refine ⟨permitted, fun answer after answered => ?_⟩
  rw [answered.2, quiet.after]
  exact tail answer

/-- A call that takes an object back strikes it out of the ledger. -/
theorem meets_release (object : Object) {rest : Ans op → Prog Ans First}
    (released : accounts.released op = some object)
    (acquired : ∀ answer, accounts.acquired op answer = none) (permitted : allowed held op)
    (tail : ∀ answer, Meets accounts.ledger allowed (rest answer) post (held.erase object)) :
    Meets accounts.ledger allowed (perform op >>= rest) post held := by
  refine ⟨permitted, fun answer after answered => ?_⟩
  have struck : after = held.erase object := by
    rw [answered.2]
    simp only [Accounts.after, acquired answer, released]
  rw [struck]
  exact tail answer

/-- A call that may hand out an object enters it into the ledger. -/
theorem meets_acquire {rest : Ans op → Prog Ans First} (released : accounts.released op = none)
    (permitted : allowed held op)
    (refused : ∀ answer, accounts.acquired op answer = none →
      Meets accounts.ledger allowed (rest answer) post held)
    (handed : ∀ answer object, accounts.acquired op answer = some object → object ∉ held →
      Meets accounts.ledger allowed (rest answer) post (object :: held)) :
    Meets accounts.ledger allowed (perform op >>= rest) post held := by
  refine ⟨permitted, fun answer after answered => ?_⟩
  obtain ⟨fresh, rfl⟩ := answered
  cases acquired : accounts.acquired op answer with
  | none =>
    simp only [Accounts.after, acquired, released]
    exact refused answer acquired
  | some object =>
    simp only [Accounts.after, acquired, released]
    exact handed answer object acquired (fresh object acquired)

/-- A program of quiet and allowed calls leaves the ledger alone. -/
theorem Calls.quiet {kind : Op → Prop} {prog : Prog Ans First} (calls : Calls kind prog)
    (quiet : ∀ op, kind op → accounts.Quiet op) (permitted : ∀ op, kind op → allowed held op) :
    Meets accounts.ledger allowed prog (fun _ after => after = held) held :=
  calls.meets permitted fun op answer after member answered => by
    rw [answered.2, (quiet op member).after]

end Ledger

end Interaction
