/-
This file settles what a command does to the current URL and to the history. A
command that fails reports it, and then both are what they were before it: the
calls that may fail write to `next` only, and `next` is assigned to the current
URL after the report was ruled out. Every other command stays, goes back by one
page, or pushes the current URL and goes to another one.
-/

import Nosgem.CommandLocals
import Nosgem.History

namespace Nosgem

open CText Interaction

/-! ### Reports -/

/-- The messages by which a command reports its failure. -/
def diagnostics : List Text :=
  [text "Invalid link number\n", text "Failed to resolve link\n", text "Invalid URL\n",
    text "No history\n", text "URL too long\n", text "Cancelled\n",
    text "Failed to write bookmarks\n"]

/-- A failure was reported. -/
def Diagnosed (trace : List (Event Answer)) : Prop :=
  ∃ message ∈ diagnostics, ⟨.print message, ()⟩ ∈ trace

/-! ### Changes -/

/-- The current URL and the history are as before. -/
def Stays (before after : MainLocals) : Prop :=
  after.current = before.current ∧ after.history = before.history

/-- The current URL of before is pushed, if the history has room. -/
def Pushes (before after : MainLocals) : Prop :=
  after.history.items =
    if before.history.items.length < nosNavMax then before.current :: before.history.items
    else before.history.items

/-- The last URL of the history is popped into the current one. -/
def Pops (before after : MainLocals) : Prop :=
  before.history.items = after.current :: after.history.items

theorem goTo_items (st : MainState) (target : NosUrl) :
    (st.goTo target).history.items =
      if st.history.items.length < nosNavMax then st.current :: st.history.items
      else st.history.items := by
  split
  · rename_i room
    exact nosNavPush_items room st.current
  · rename_i full
    rw [MainState.goTo, nosNavPush_full (not_lt.mp full)]

/-! ### Runs of commands -/

section Runs

variable {State : Type} {env : Env Answer State} {state final : State}
  {trace : List (Event Answer)} {message : Text}

/-- A command that prints leaves the current URL and the history as they were. -/
theorem commandIn_prints {before : MainLocals} {input : Text} {result : MainLocals ⊕ Unit}
    (run : Steps env state (commandIn before input) trace final (.ret result))
    (printed : ⟨.print message, ()⟩ ∈ trace) :
    ∃ after, result = .inl after ∧ Stays before after := by
  have without := run.map (Sum.map MainLocals.state id)
  rw [commandIn_state] at without
  have stays := command_prints without printed
  cases result with
  | inl after =>
    have same : after.state = before.state := by injection stays
    exact ⟨after, rfl, congrArg MainState.current same, congrArg MainState.history same⟩
  | inr ended => cases stays

/-- A command that does not end the loop stays, or it pushes the old URL and goes to the page that
it names, or it goes back. -/
theorem commandIn_next {before after : MainLocals} {input : Text}
    (run : Steps env state (commandIn before input) trace final (.ret (.inl after))) :
    Stays before after ∨
      (Pushes before after ∧ Navigates before.state trace input after.state) ∨
      (Pops before after ∧ input = text "b") := by
  have without := run.map (Sum.map MainLocals.state id)
  rw [commandIn_state] at without
  rcases command_next without with same | ⟨url, history, back, popped, same⟩ | navigates
  · exact .inl ⟨congrArg MainState.current same, congrArg MainState.history same⟩
  · have current : after.current = url := congrArg MainState.current same
    have left : after.history = history := congrArg MainState.history same
    refine .inr (.inr ⟨?_, back⟩)
    rw [Pops, current, left]
    exact nosNavPop_eq_some.mp popped
  · obtain ⟨target, same⟩ := navigates.goTo
    have left : after.history = (before.state.goTo target).history :=
      congrArg MainState.history same
    refine .inr (.inl ⟨?_, navigates⟩)
    rw [Pushes, left]
    exact goTo_items before.state target

/-- A command that reports a failure leaves the current URL and the history as they were, and every
command leaves them so, or pushes the old URL and goes to the page that it names, or goes back. -/
theorem commandIn_changes {before : MainLocals} {input : Text} {result : MainLocals ⊕ Unit}
    (run : Steps env state (commandIn before input) trace final (.ret result)) :
    (Diagnosed trace → ∃ after, result = .inl after ∧ Stays before after) ∧
      ∀ after, result = .inl after →
        Stays before after ∨
          (Pushes before after ∧ Navigates before.state trace input after.state) ∨
          (Pops before after ∧ input = text "b") := by
  constructor
  · rintro ⟨message, _, printed⟩
    exact commandIn_prints run printed
  · rintro after rfl
    exact commandIn_next run

/-- Between two turns of the main loop, the current URL and the history stay, or the old URL is
pushed, or the last one is popped. -/
theorem turns_changes {fuel pageLines : Nat} {start last : MainLocals} {visited : List MainLocals}
    (run : Iterates env (turnIn fuel pageLines) start state visited trace last final) :
    (visited ++ [last]).IsChain fun before after =>
      Stays before after ∨ Pushes before after ∨ Pops before after := by
  refine run.isChain _ fun iteration => ?_
  obtain ⟨links, _, _, _, _, asked, _⟩ := iteration.bind_ret
  obtain ⟨input, _, _, _, _, done, _⟩ := asked.bind_ret
  cases input with
  | none => cases done.of_ret.2.2
  | some input =>
    rcases commandIn_next done with stays | ⟨pushes, _⟩ | ⟨pops, _⟩
    · exact .inl stays
    · exact .inr (.inl pushes)
    · exact .inr (.inr pops)

end Runs

/-- A port of zero is refused after the host was written: `next` holds half a URL, and the page
stays. -/
theorem commandIn_changes_port :
    ∃ after,
      Steps anyEnv () (commandIn ⟨homeUrl, homeUrl, nosNavInit, none⟩ (text "a:0"))
        [⟨.print (text "Invalid URL\n"), ()⟩] () (.ret (.inl after)) ∧
      after.next.host = text "a" ∧ after.next.path = [] ∧
      Stays ⟨homeUrl, homeUrl, nosNavInit, none⟩ after := by
  have run : Steps anyEnv () (commandIn ⟨homeUrl, homeUrl, nosNavInit, none⟩ (text "a:0"))
      [⟨.print (text "Invalid URL\n"), ()⟩] ()
      (.ret (.inl ⟨homeUrl, ⟨text "a", 1965, []⟩, nosNavInit, none⟩)) :=
    .call trivial (.refl _ _)
  have reported : Diagnosed [⟨.print (text "Invalid URL\n"), ()⟩] :=
    ⟨_, by decide, List.mem_singleton_self _⟩
  obtain ⟨after, same, stays⟩ := (commandIn_changes run).1 reported
  cases same
  exact ⟨_, run, rfl, rfl, stays⟩

end Nosgem
