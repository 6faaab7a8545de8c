/-
This file gives the invariant rule of the main loop. Outside of its requests
and of the bookmark command the loop works with the screen and the keyboard,
reads local files and looks at memory nothing was written to; so what these
operations keep, and a turn of the request loop and the bookmark command keep
too, holds at every call, at every command prompt and at the end of every run.
-/

import Nosgem.History

namespace Nosgem

open CText Interaction

/-! ### The calls of a page -/

/-- The screen, the keyboard, the reading of a file, and memory nothing was written to. -/
def PageOp : Op → Prop
  | .print _ | .getch | .fgetsStdin _ | .fopenRead _ | .userAbort | .strayUint | .strayText => True
  | _ => False

theorem calls_showOut (out : List Out) : Calls PageOp (showOut out) := by
  induction out with
  | nil => trivial
  | cons head rest inductionHypothesis =>
    cases head with
    | put output => exact .perform trivial fun _ => inductionHypothesis
    | pause =>
      exact .perform trivial fun _ => .perform trivial fun _ =>
        .perform trivial fun _ => inductionHypothesis

theorem calls_finishBody (st : NosBodyState) : Calls PageOp (finishBody st) := by
  obtain ⟨kind, rawLines, pageLines, screen⟩ := st
  cases kind with
  | undecided => exact .perform trivial fun _ => trivial
  | raw => trivial
  | gem rstream =>
    unfold finishBody
    dsimp only
    generalize nosRenderStreamFlush rstream = flushed
    obtain ⟨rc, out, flushed⟩ := flushed
    refine (calls_showOut out).bind fun _ => ?_
    split
    · exact .perform trivial fun _ => trivial
    · trivial

theorem calls_renderHomepage (path : Path) (links : Option NosRenderCtx) (pageLines : Nat) :
    Calls PageOp (renderHomepage path links pageLines) := by
  unfold renderHomepage
  refine .perform trivial fun content => ?_
  cases content with
  | none => trivial
  | some content => exact (calls_showOut _).bind fun _ => (calls_showOut _).bind fun _ => trivial

theorem calls_displayFile (path : Path) (title failure : String) (pageLines : Nat)
    (links : Option NosRenderCtx) :
    Calls PageOp (displayFile path title failure pageLines links) := by
  unfold displayFile
  refine .perform trivial fun _ => (calls_renderHomepage path links pageLines).bind fun done => ?_
  dsimp only
  split
  · exact .perform trivial fun _ => trivial
  · trivial

theorem calls_nosUiPrompt (prompt : Text) (max : Nat) : Calls PageOp (nosUiPrompt prompt max) := by
  have reads : Calls PageOp (nosUiPrompt [] max) := by
    refine .perform trivial fun line => ?_
    cases line <;> trivial
  unfold nosUiPrompt at reads ⊢
  split
  · exact .perform trivial fun _ => reads
  · exact reads

theorem calls_followLink (st : MainState) (idx : Nat) : Calls PageOp (followLink st idx) := by
  have count : Calls PageOp (linkCount st.links) := by
    unfold linkCount
    split
    · trivial
    · exact ⟨trivial, fun _ => trivial⟩
  have url (i : Nat) : Calls PageOp (linkUrl st.links i) := by
    unfold linkUrl
    split
    · trivial
    · exact ⟨trivial, fun _ => trivial⟩
  unfold followLink
  refine count.bind fun _ => ?_
  split
  · exact .perform trivial fun _ => trivial
  · refine (url _).bind fun _ => ?_
    split
    · exact .perform trivial fun _ => trivial
    · trivial

/-! ### The rule -/

variable {State : Type} {env : Env Answer State} {allowed : State → Op → Prop} {inv : State → Prop}

/-- An invariant that the parts of the main loop keep, and which allows their calls. -/
structure Upheld (env : Env Answer State) (allowed : State → Op → Prop) (inv : State → Prop) :
    Prop where
  pages : ∀ state op, inv state → PageOp op → allowed state op ∧
    ∀ answer after, env state op answer after → inv after
  exchanges : ∀ (fuel : Nat) (st : StreamState NosBodyState) (state : State), inv state →
    Meets env allowed (exchange fuel bodyCb st) (fun _ after => inv after) state
  bookmarks : ∀ (st : MainState) (state : State), inv state →
    Meets env allowed (addBookmark st) (fun _ after => inv after) state

variable {fuel pageLines : Nat} {state : State}

theorem Upheld.nosGeminiRequestStream (upheld : Upheld env allowed inv) (url : NosUrl)
    (user : NosBodyState) (initially : inv state) :
    Meets env allowed (nosGeminiRequestStream fuel url bodyCb user) (fun _ after => inv after)
      state := by
  refine meets_loop (fun _ after => inv after) (fun here middle held => ?_) fuel initially
  refine (upheld.exchanges fuel here middle held).mono fun next after held => ?_
  cases next <;> exact held

/-- What quiet parts of the main loop do. -/
theorem Upheld.quiet (upheld : Upheld env allowed inv) {Result : Type} {prog : Io Result}
    (calls : Calls PageOp prog) (initially : inv state) :
    Meets env allowed prog (fun _ after => inv after) state :=
  calls.invariant upheld.pages initially

theorem Upheld.displayFetched (upheld : Upheld env allowed inv) (url : NosUrl)
    (initially : inv state) :
    Meets env allowed (displayFetched fuel pageLines url) (fun _ after => inv after) state := by
  have fetches {state : State} (held : inv state) :
      Meets env allowed (fetchAndRender fuel url pageLines) (fun _ after => inv after) state := by
    unfold fetchAndRender
    refine (upheld.nosGeminiRequestStream url _ held).bind fun done after held => ?_
    refine upheld.quiet ((calls_showOut _).bind fun _ => ?_) held
    dsimp only
    split
    · exact .perform trivial fun _ => trivial
    split
    · refine (calls_finishBody _).bind fun _ => .perform trivial fun aborted => ?_
      split
      · exact .perform trivial fun _ => .perform trivial fun _ => trivial
      · exact .perform trivial fun _ => trivial
    · exact .perform trivial fun _ => .perform trivial fun _ => trivial
  have titles (title : Text) : Calls PageOp (invoke (.print title)) := calls_perform.mpr trivial
  unfold Nosgem.displayFetched
  refine (upheld.quiet (titles _) initially).bind fun _ after held => ?_
  refine (fetches held).bind fun done after held => upheld.quiet ?_ held
  dsimp only
  split
  · exact .perform trivial fun _ => trivial
  · trivial

theorem Upheld.display (upheld : Upheld env allowed inv) (st : MainState) (initially : inv state) :
    Meets env allowed (display fuel pageLines st) (fun _ after => inv after) state := by
  unfold Nosgem.display
  split
  · exact upheld.quiet (calls_displayFile _ _ _ _ _) initially
  · exact upheld.quiet (calls_displayFile _ _ _ _ _) initially
  · exact upheld.displayFetched _ initially

theorem Upheld.command (upheld : Upheld env allowed inv) (st : MainState) (input : Text)
    (initially : inv state) :
    Meets env allowed (command st input) (fun _ after => inv after) state := by
  have tells (message : Text) : Calls PageOp (invoke (.print message) >>= fun _ =>
      return (.inl st : MainState ⊕ Unit)) := .perform trivial fun _ => trivial
  unfold Nosgem.command
  split
  · exact initially
  split
  · exact initially
  split
  · exact initially
  split
  · exact initially
  split
  · exact initially
  split
  · exact (upheld.bookmarks st state initially).bind fun _ _ held => held
  split
  · split
    · exact initially
    · exact upheld.quiet (tells _) initially
  split
  · exact upheld.quiet ((calls_followLink st _).bind fun _ => trivial) initially
  · split
    · exact upheld.quiet (tells _) initially
    · exact initially

/-- A turn keeps the invariant. -/
theorem Upheld.turn (upheld : Upheld env allowed inv) (st : MainState) (initially : inv state) :
    Meets env allowed (turn fuel pageLines st) (fun _ after => inv after) state := by
  unfold Nosgem.turn
  refine (upheld.display st initially).bind fun links after held => ?_
  refine (upheld.quiet (calls_nosUiPrompt _ 256) held).bind fun input after held => ?_
  cases input with
  | none => exact held
  | some input => exact upheld.command _ input held

/-- The invariant holds at the head of every turn. -/
theorem Upheld.iterates (upheld : Upheld env allowed inv) {here next : MainState}
    {visited : List MainState} {trace : List (Event Answer)} {final : State}
    (run : Iterates env (Nosgem.turn fuel pageLines) here state visited trace next final)
    (initially : inv state) : inv final := by
  induction run with
  | refl => exact initially
  | step iteration _ inductionHypothesis =>
    exact inductionHypothesis ((upheld.turn _ initially).post_of_steps iteration)

/-- Every call of the main loop is allowed, and the invariant holds where the loop ends. -/
theorem Upheld.mainLoop (upheld : Upheld env allowed inv) (home : NosUrl) (initially : inv state) :
    Meets env allowed (mainLoop fuel pageLines home) (fun _ after => inv after) state := by
  refine meets_loop (fun _ after => inv after) (fun here middle held => ?_) fuel initially
  refine (upheld.turn here held).mono fun next after held => ?_
  cases next <;> exact held

/-! ### A run -/

/-- A turn in which the home page does not open, the user asks for a bookmark and the bookmark is
about to be written. -/
theorem turn_bookmark {after : State}
    (quiet : ∀ op (answer : Answer op), PageOp op → env state op answer state)
    (opened : env state (.fopenWrite .bookmarks .append) true after) :
    ∃ trace output next, Steps env state (Nosgem.turn 1 24 (.initial homeUrl)) trace after
      (.call (.fputs .bookmarks output) next) := by
  let page : List (Event Answer) := [⟨.print (text "\n== HOME ==\n"), ()⟩,
    ⟨.fopenRead .homepage, none⟩, ⟨.print (text "Failed to open HOMEPAGE.GEM\n"), ()⟩]
  have displayed : Steps env state (Nosgem.display 1 24 (.initial homeUrl)) page state
    (.ret none) := .call (quiet _ _ trivial) (.call (quiet _ _ trivial)
      (.call (quiet _ _ trivial) (.refl _ _)))
  have prompted (prompt : Text) (shown : prompt ≠ []) {max : Nat} (line : FgetsLine max) :
      Steps env state (nosUiPrompt prompt max) _ state
        (.ret (some (rstripNewline line.bytes))) :=
    nosUiPrompt_reads shown (quiet _ _ trivial) (quiet _ _ trivial)
  let letter : FgetsLine 256 := ⟨text "a\n", by decide, by decide, by decide⟩
  let label : FgetsLine 128 := ⟨text "x\n", by decide, by decide, by decide⟩
  have fits : makeCurrentUrl (MainState.initial homeUrl).current urlbufSize ≠ [] := by decide
  have typed : Nosgem.command (.initial homeUrl) (rstripNewline letter.bytes) =
      addBookmark (.initial homeUrl) >>= fun _ => return .inl (.initial homeUrl) := by
    rw [show rstripNewline letter.bytes = text "a" by decide]
    unfold Nosgem.command
    rw [if_neg (by decide), if_neg (by decide), if_neg (by decide), if_neg (by decide),
      if_neg (by decide), if_pos rfl]
  have adding : ∃ output next, Steps env state
      (nosBookmarksAdd (makeCurrentUrl (MainState.initial homeUrl).current urlbufSize)
        (rstripNewline label.bytes)) [⟨.fopenWrite .bookmarks .append, true⟩] after
      (.call (.fputs .bookmarks output) next) := by
    unfold nosBookmarksAdd
    rw [if_neg fits]
    exact ⟨_, _, .call opened (.refl _ _)⟩
  obtain ⟨output, next, adding⟩ := adding
  have bookmarks : ∃ trace next, Steps env state (addBookmark (.initial homeUrl)) trace after
      (.call (.fputs .bookmarks output) next) := by
    unfold addBookmark
    dsimp only
    rw [if_neg fits]
    exact ⟨_, _, (prompted _ (by decide) label).bind (adding.bind_left _)⟩
  obtain ⟨trace, next, bookmarks⟩ := bookmarks
  exact ⟨_, output, _, displayed.bind ((prompted _ (by decide) letter).bind
    (typed ▸ bookmarks.bind_left _))⟩

end Nosgem
