/-
This file settles what Back undoes. A complete turn of the main loop displays a
page, reads a command and carries it out; the command stays where it is, goes
back in the history, or goes to another page and pushes the current one. The
push is dropped when the history is full, and the main loop does not look at
its result, so the Back of the next turn undoes the command exactly when there
was room in the history.
-/

import Nosgem.Browser
import Nosgem.PageLinks

namespace Nosgem

open CText Interaction

/-! ### The history as a stack -/

theorem nosNavPush_items {nav : NosNav} (room : nav.items.length < nosNavMax) (url : NosUrl) :
    (nosNavPush nav url).2.items = url :: nav.items := by
  rw [nosNavPush, dif_neg (not_le.mpr room)]

theorem nosNavPush_full {nav : NosNav} (full : nav.items.length ≥ nosNavMax) (url : NosUrl) :
    nosNavPush nav url = (-1, nav) := dif_pos full

theorem nosNavPop_eq_some {nav rest : NosNav} {url : NosUrl} :
    nosNavPop nav = some (url, rest) ↔ nav.items = url :: rest.items := by
  obtain ⟨items, itemsFit⟩ := nav
  obtain ⟨restItems, restFit⟩ := rest
  cases items with
  | nil => simp [nosNavPop]
  | cons first items => simp [nosNavPop]

/-- Popping undoes a push exactly when the push found room. -/
theorem nosNavPop_push_iff (nav : NosNav) (url : NosUrl) :
    nosNavPop (nosNavPush nav url).2 = some (url, nav) ↔ nav.items.length < nosNavMax := by
  rw [nosNavPop_eq_some]
  by_cases room : nav.items.length < nosNavMax
  · exact iff_of_true (nosNavPush_items room url) room
  · rw [nosNavPush_full (not_lt.mp room)]
    refine iff_of_false (fun same => ?_) room
    have lengths := congrArg List.length same
    rw [List.length_cons] at lengths
    exact absurd lengths (Nat.ne_of_lt (Nat.lt_succ_self _))

/-! ### What a command does -/

/-- The empty command and the commands of one letter. -/
def commandWords : List Text :=
  [[], text "q", text "r", text "h", text "B", text "a", text "b"]

/-- A link the number command may read: an entry of the table, or what the memory holds where there
is none. -/
def ReadsLink (links : Option NosRenderCtx) (trace : List (Event Answer)) (link : Text) : Prop :=
  (∃ table, links = some table ∧ ∃ entry ∈ table.links, entry.url = link) ∨
    ⟨.strayText, link⟩ ∈ trace

/-- A command changes the current page and succeeds: `h` and `B`, a number whose link resolves
against the current URL, and a typed URL that parses. -/
inductive Navigates (st : MainState) (trace : List (Event Answer)) : Text → MainState → Prop where
  | home : Navigates st trace (text "h") (st.goTo (localPage "/homepage"))
  | bookmarks : Navigates st trace (text "B") (st.goTo (localPage "/bookmarks"))
  | link {input link : Text} {target : NosUrl} (number : isNumber input)
      (reads : ReadsLink st.links trace link)
      (resolved : nosUrlResolve st.current link = some target) :
      Navigates st trace input (st.goTo target)
  | typed {input : Text} {target : NosUrl} (word : input ∉ commandWords)
      (number : ¬ isNumber input) (parsed : parseUserUrl input = some target) :
      Navigates st trace input (st.goTo target)

/-- A command that succeeds goes to some page. -/
theorem Navigates.goTo {st moved : MainState} {trace : List (Event Answer)} {input : Text}
    (navigates : Navigates st trace input moved) : ∃ target, moved = st.goTo target := by
  cases navigates with
  | home => exact ⟨_, rfl⟩
  | bookmarks => exact ⟨_, rfl⟩
  | link _ _ _ => exact ⟨_, rfl⟩
  | typed _ _ _ => exact ⟨_, rfl⟩

/-- Nothing was printed. -/
def Quiet (trace : List (Event Answer)) : Prop := ∀ message, ⟨.print message, ()⟩ ∉ trace

section Runs

variable {State : Type} {env : Env Answer State} {state final : State} {trace : List (Event Answer)}

theorem linkCount_ret {links : Option NosRenderCtx} {count : Nat}
    (run : Steps env state (linkCount links) trace final (.ret count)) : Quiet trace := by
  cases links with
  | none =>
    obtain ⟨_, _, _, _, counted, rfl⟩ := run.perform_ret
    rw [counted.of_ret.1]
    exact fun message member => by cases List.mem_singleton.mp member
  | some table =>
    rw [run.of_ret.1]
    exact fun message => List.not_mem_nil

theorem linkUrl_ret {links : Option NosRenderCtx} {i : Nat} {link : Text}
    (run : Steps env state (linkUrl links i) trace final (.ret link)) :
    ReadsLink links trace link ∧ Quiet trace := by
  unfold linkUrl at run
  split at run
  · rename_i entry found
    obtain ⟨rfl, _, equal⟩ := run.of_ret
    cases equal
    obtain ⟨table, defined, at_i⟩ := Option.bind_eq_some_iff.mp found
    exact ⟨.inl ⟨table, defined, entry, List.mem_of_getElem? at_i, rfl⟩,
      fun message => List.not_mem_nil⟩
  · obtain ⟨_, _, _, _, stray, rfl⟩ := run.perform_ret
    obtain ⟨rfl, _, equal⟩ := stray.of_ret
    cases equal
    exact ⟨.inr List.mem_cons_self, fun message member => by cases List.mem_singleton.mp member⟩

theorem Quiet.append {front back : List (Event Answer)} (quietFront : Quiet front)
    (quietBack : Quiet back) : Quiet (front ++ back) := fun message member =>
  (List.mem_append.mp member).elim (quietFront message) (quietBack message)

theorem ReadsLink.append {links : Option NosRenderCtx} {link : Text} (front : List (Event Answer))
    {middle : List (Event Answer)} (reads : ReadsLink links middle link)
    (back : List (Event Answer)) : ReadsLink links (front ++ (middle ++ back)) link :=
  reads.imp_right fun member => by simp [member]

/-- The number command stays, or it prints nothing and goes to the URL of a link. -/
theorem followLink_ret {st next : MainState} {idx : Nat}
    (run : Steps env state (followLink st idx) trace final (.ret next)) :
    next = st ∨ (Quiet trace ∧ ∃ link target, ReadsLink st.links trace link ∧
      nosUrlResolve st.current link = some target ∧ next = st.goTo target) := by
  unfold followLink at run
  obtain ⟨count, counting, _, _, counts, counted, rfl⟩ := run.bind_ret
  split at counted
  · obtain ⟨_, _, _, _, told, _⟩ := counted.perform_ret
    exact .inl (by injection told.of_ret.2.2)
  obtain ⟨link, reading, rest, _, read, found, rfl⟩ := counted.bind_ret
  split at found
  · obtain ⟨_, _, _, _, told, _⟩ := found.perform_ret
    exact .inl (by injection told.of_ret.2.2)
  · rename_i target resolved
    obtain ⟨reads, quiet⟩ := linkUrl_ret read
    obtain ⟨rfl, _, equal⟩ := found.of_ret
    refine .inr ⟨(linkCount_ret counts).append ?_, link, target, reads.append counting [],
      resolved, by injection equal⟩
    rwa [List.append_nil]

/-- What a command does that does not stay. -/
inductive Leaves (st : MainState) (trace : List (Event Answer)) (input : Text) :
    MainState ⊕ Unit → Prop where
  | quits (quit : input = text "q") : Leaves st trace input (.inr ())
  | back {url : NosUrl} {history : NosNav} (back : input = text "b")
      (popped : nosNavPop st.history = some (url, history)) :
      Leaves st trace input (.inl { st with current := url, history })
  | navigates {moved : MainState} (navigates : Navigates st trace input moved) :
      Leaves st trace input (.inl moved)

/-- A command stays, or it prints nothing and leaves: it ends the loop, goes back, or goes to
another page. -/
theorem command_cases {st : MainState} {input : Text} {result : MainState ⊕ Unit}
    (run : Steps env state (command st input) trace final (.ret result)) :
    result = .inl st ∨ (Quiet trace ∧ Leaves st trace input result) := by
  have returned {value : MainState ⊕ Unit}
      (run : Steps env state (.ret value) trace final (.ret result))
      (leaves : Leaves st trace input value) : Quiet trace ∧ Leaves st trace input result := by
    obtain ⟨rfl, _, equal⟩ := run.of_ret
    cases equal
    exact ⟨fun message => List.not_mem_nil, leaves⟩
  unfold command at run
  split_ifs at run with empty quit reload home bookmarks add back number
  · exact .inl (by injection run.of_ret.2.2)
  · exact .inr (returned run (.quits quit))
  · exact .inl (by injection run.of_ret.2.2)
  · exact .inr (returned run (.navigates (home ▸ .home)))
  · exact .inr (returned run (.navigates (bookmarks ▸ .bookmarks)))
  · obtain ⟨_, _, _, _, _, added, _⟩ := run.bind_ret
    exact .inl (by injection added.of_ret.2.2)
  · split at run
    · rename_i url history popped
      exact .inr (returned run (.back back popped))
    · obtain ⟨_, _, _, _, told, _⟩ := run.perform_ret
      exact .inl (by injection told.of_ret.2.2)
  · obtain ⟨followed, following, _, _, follow, rest, rfl⟩ := run.bind_ret
    obtain ⟨rfl, _, equal⟩ := rest.of_ret
    cases equal
    rcases followLink_ret follow with rfl | ⟨quiet, link, target, reads, resolved, rfl⟩
    · exact .inl rfl
    · rw [List.append_nil]
      exact .inr ⟨quiet, .navigates (.link number reads resolved)⟩
  · split at run
    · obtain ⟨_, _, _, _, told, _⟩ := run.perform_ret
      exact .inl (by injection told.of_ret.2.2)
    · rename_i target parsed
      have word : input ∉ commandWords := by
        simp only [commandWords, List.mem_cons, List.not_mem_nil, or_false, not_or]
        exact ⟨empty, quit, reload, home, bookmarks, add, back⟩
      exact .inr (returned run (.navigates (.typed word number parsed)))

/-- A command that does not end the loop stays, goes back, or goes to another page. -/
theorem command_next {st next : MainState} {input : Text}
    (run : Steps env state (command st input) trace final (.ret (.inl next))) :
    next = st ∨
      (∃ url history, input = text "b" ∧ nosNavPop st.history = some (url, history) ∧
        next = { st with current := url, history }) ∨
      Navigates st trace input next := by
  rcases command_cases run with stays | ⟨_, leaves⟩
  · exact .inl (by injection stays)
  · cases leaves with
    | back back popped => exact .inr (.inl ⟨_, _, back, popped, rfl⟩)
    | navigates navigates => exact .inr (.inr navigates)

/-- A command that prints stays. -/
theorem command_prints {st : MainState} {input message : Text} {result : MainState ⊕ Unit}
    (run : Steps env state (command st input) trace final (.ret result))
    (printed : ⟨.print message, ()⟩ ∈ trace) : result = .inl st := by
  rcases command_cases run with stays | ⟨quiet, _⟩
  · exact stays
  · exact absurd printed (quiet message)

/-! ### What a turn does -/

/-- A complete turn of the main loop in which `input` was entered: its page was displayed and left
`links`, and the command was carried out with that table. -/
def Entered (env : Env Answer State) (fuel pageLines : Nat) (here : MainState) (state : State)
    (links : Option NosRenderCtx) (input : Text) (trace : List (Event Answer))
    (result : MainState ⊕ Unit) (final : State) : Prop :=
  ∃ page asked carried shown answered, trace = page ++ (asked ++ carried) ∧
    Steps env state (display fuel pageLines here) page shown (.ret links) ∧
    Steps env shown (nosUiPrompt (text "Command (number/url/b/r/h/B/a/q): ") 256) asked answered
      (.ret (some input)) ∧
    Steps env answered (command { here with links } input) carried final (.ret result)

theorem Entered.turn {fuel pageLines : Nat} {here : MainState} {links : Option NosRenderCtx}
    {input : Text} {result : MainState ⊕ Unit}
    (entered : Entered env fuel pageLines here state links input trace result final) :
    Steps env state (turn fuel pageLines here) trace final (.ret result) := by
  obtain ⟨page, asked, carried, shown, answered, rfl, displayed, prompted, done⟩ := entered
  exact displayed.bind (prompted.bind done)

/-- A turn that goes on has carried out a command. -/
theorem turn_next {fuel pageLines : Nat} {here next : MainState}
    (run : Steps env state (turn fuel pageLines here) trace final (.ret (.inl next))) :
    ∃ links input, Entered env fuel pageLines here state links input trace (.inl next) final := by
  unfold turn at run
  obtain ⟨links, page, _, shown, displayed, asked, rfl⟩ := run.bind_ret
  obtain ⟨input, prompt, carried, answered, prompted, done, rfl⟩ := asked.bind_ret
  cases input with
  | none => cases done.of_ret.2.2
  | some input =>
    exact ⟨links, input, page, prompt, carried, shown, answered, rfl, displayed, prompted, done⟩

/-! ### Back -/

/-- The result of a turn is back at a page with a history. -/
def BackAt (current : NosUrl) (history : NosNav) (result : MainState ⊕ Unit) : Prop :=
  ∃ returned, result = .inl returned ∧ returned.current = current ∧ returned.history = history

/-- Back goes to the top of the history. -/
theorem command_back {st : MainState} {url : NosUrl} {rest : NosNav}
    (popped : nosNavPop st.history = some (url, rest)) :
    command st (text "b") = .ret (.inl { st with current := url, history := rest }) := by
  unfold command
  rw [if_neg (by decide), if_neg (by decide), if_neg (by decide), if_neg (by decide),
    if_neg (by decide), if_neg (by decide), if_pos rfl, popped]
  rfl

theorem backAt_iff {st : MainState} {result : MainState ⊕ Unit} (current : NosUrl)
    (history : NosNav) (some : st.history.items ≠ [])
    (run : Steps env state (command st (text "b")) trace final (.ret result)) :
    BackAt current history result ↔ nosNavPop st.history = .some (current, history) := by
  obtain ⟨url, items, top⟩ := List.exists_cons_of_ne_nil some
  obtain ⟨rest, popped⟩ : ∃ rest, nosNavPop st.history = .some (url, rest) := by
    have fits := st.history.itemsFit
    rw [top, List.length_cons] at fits
    exact ⟨⟨items, by omega⟩, nosNavPop_eq_some.mpr top⟩
  rw [command_back popped] at run
  cases run.of_ret.2.2
  rw [popped, Option.some.injEq, Prod.mk.injEq]
  constructor
  · rintro ⟨_, equal, rfl, rfl⟩
    cases equal
    exact ⟨rfl, rfl⟩
  · rintro ⟨rfl, rfl⟩
    exact ⟨_, rfl, rfl, rfl⟩

/-- A turn of the main loop in which a command was entered that went to another page. -/
def Visits (env : Env Answer State) (fuel pageLines : Nat) (here : MainState) (state : State)
    (trace : List (Event Answer)) (moved : MainState) (final : State) : Prop :=
  ∃ links input, Entered env fuel pageLines here state links input trace (.inl moved) final ∧
    Navigates { here with links } trace input moved

/-- At every prompt of the main loop, and for every command entered there that goes to another page,
Back at the next prompt returns to the page and to the history in front of the command exactly when
the history was not full. -/
theorem back_undoes_iff {fuel pageLines : Nat} {start middle : State}
    {front rear : List (Event Answer)} {here moved : MainState} {links : Option NosRenderCtx}
    {result : MainState ⊕ Unit}
    (visits : Visits env fuel pageLines here start front moved middle)
    (back : Entered env fuel pageLines moved middle links (text "b") rear result final) :
    BackAt here.current here.history result ↔ here.history.items.length < nosNavMax := by
  obtain ⟨_, _, _, navigates⟩ := visits
  obtain ⟨target, rfl⟩ := navigates.goTo
  obtain ⟨_, _, _, _, _, _, _, _, command⟩ := back
  have some : (nosNavPush here.history here.current).2.items ≠ [] := by
    by_cases room : here.history.items.length < nosNavMax
    · rw [nosNavPush_items room]
      exact List.cons_ne_nil _ _
    · rw [nosNavPush_full (not_lt.mp room)]
      rintro empty
      rw [empty] at room
      exact room (by decide)
  rw [backAt_iff here.current here.history some command]
  exact nosNavPop_push_iff here.history here.current

/-- A prompt prints its text and reads a line. -/
theorem nosUiPrompt_reads {prompt : Text} (shown : prompt ≠ []) {max : Nat} {line : FgetsLine max}
    {middle : State} (printed : env state (.print prompt) () middle)
    (read : env middle (.fgetsStdin max) (some line) final) :
    Steps env state (nosUiPrompt prompt max)
      [⟨.print prompt, ()⟩, ⟨.fgetsStdin max, some line⟩] final
      (.ret (some (rstripNewline line.bytes))) := by
  unfold nosUiPrompt
  rw [if_pos shown]
  exact .call printed (.call read (.refl _ _))

end Runs

/-! ### Runs over local pages -/

theorem display_closed {st : MainState} {path : Path} (isLocal : localFile st.current = some path) :
    ∃ page, Steps anyEnv () (display 1 24 st) page () (.ret st.links) := by
  have closed (path : Path) (titleLine failure : String) : ∃ page, Steps anyEnv ()
      (displayFile path titleLine failure 24 st.links) page () (.ret st.links) :=
    ⟨⟨.print _, ()⟩ :: ⟨.fopenRead path, none⟩ :: ⟨.print _, ()⟩ :: [],
      .any (.any (.any (.refl _ _)))⟩
  rw [display]
  cases source : pageSource st.current with
  | homepage => exact closed _ _ _
  | bookmarks => exact closed _ _ _
  | gemini =>
    rw [localFile, source] at isLocal
    cases isLocal

/-- A turn on a local page that does not open, in which a line was entered whose command makes no
calls. -/
theorem entered_closed {st : MainState} {path : Path} {input : Text} {result : MainState ⊕ Unit}
    (isLocal : localFile st.current = some path) (line : FgetsLine 256)
    (typed : rstripNewline line.bytes = input) (done : command st input = .ret result) :
    ∃ trace, Entered anyEnv 1 24 st () st.links input trace result () := by
  obtain ⟨page, displayed⟩ := display_closed isLocal
  let prompt := text "Command (number/url/b/r/h/B/a/q): "
  have prompted : Steps anyEnv () (nosUiPrompt prompt 256)
      [⟨.print prompt, ()⟩, ⟨.fgetsStdin 256, some line⟩] () (.ret (some input)) :=
    typed ▸ nosUiPrompt_reads (by decide) (show anyEnv () _ _ () from trivial) trivial
  have carried : Steps anyEnv () (command st input) [] () (.ret result) := done ▸ .refl _ _
  exact ⟨_, page, _, _, (), (), rfl, displayed, prompted, carried⟩

/-- A line with one character. -/
def keyLine (key : Byte) (other : key ≠ lf) : FgetsLine 256 where
  bytes := [key, lf]
  some := List.cons_ne_nil _ _
  fits := Nat.lt_of_sub_eq_succ rfl
  oneLine := by simpa using Ne.symm other

/-- The command `h`. -/
def goHome (st : MainState) : MainState := st.goTo (localPage "/homepage")

theorem entered_home {st : MainState} {path : Path} (isLocal : localFile st.current = some path) :
    ∃ trace, Entered anyEnv 1 24 st () st.links (text "h") trace (.inl (goHome st)) () :=
  entered_closed isLocal (keyLine (byte 'h') (by decide)) (by decide) rfl

/-- Asking for the home page again and again pushes it as long as there is room. -/
theorem goHome_run (count : Nat) {st : MainState} (atHome : st.current = localPage "/homepage")
    (room : st.history.items.length + count ≤ nosNavMax) :
    ∃ visited trace last, Iterates anyEnv (turn 1 24) st () visited trace last () ∧
      last.current = localPage "/homepage" ∧
      last.history.items.length = st.history.items.length + count := by
  induction count generalizing st with
  | zero => exact ⟨[], [], st, .refl _ _, atHome, rfl⟩
  | succ count inductionHypothesis =>
    have isLocal : localFile st.current = some .homepage := by
      rw [atHome]
      decide
    have pushed : (goHome st).history.items.length = st.history.items.length + 1 := by
      rw [goHome, MainState.goTo, nosNavPush_items (by omega), List.length_cons]
    obtain ⟨front, entered⟩ := entered_home isLocal
    obtain ⟨visited, back, last, iterates, home, length⟩ :=
      @inductionHypothesis (goHome st) rfl (by omega)
    exact ⟨st :: visited, front ++ back, last, .step entered.turn iterates, home, by omega⟩

/-- Back undoes a command that found an empty history. -/
theorem back_undoes_iff_home :
    ∃ front moved rear result links,
      Visits anyEnv 1 24 (.initial homeUrl) () front moved () ∧
      Entered anyEnv 1 24 moved () links (text "b") rear result () ∧
      BackAt homeUrl nosNavInit result := by
  have isLocal : localFile (MainState.initial homeUrl).current = some .homepage := by decide
  have home : localFile (goHome (.initial homeUrl)).current = some .homepage := rfl
  obtain ⟨front, entered⟩ := entered_home isLocal
  obtain ⟨rear, back⟩ := entered_closed home (keyLine (byte 'b') (by decide))
    (show _ = text "b" from rfl) rfl
  have visits : Visits anyEnv 1 24 (.initial homeUrl) () front (goHome (.initial homeUrl)) () :=
    ⟨_, _, entered, .home⟩
  exact ⟨front, _, rear, _, _, visits, back, (back_undoes_iff visits back).mpr (by decide)⟩

/-- The history is full of home pages and the bookmarks are displayed. When the home page is asked
for again, Back does not return to the bookmarks. -/
theorem back_skips_page :
    ∃ visited before here front moved rear returned links,
      Iterates anyEnv (turn 1 24) (.initial homeUrl) () visited before here () ∧
      Visits anyEnv 1 24 here () front moved () ∧
      Entered anyEnv 1 24 moved () links (text "b") rear (.inl returned) () ∧
      here.current = localPage "/bookmarks" ∧ returned.current = localPage "/homepage" ∧
      ¬ BackAt here.current here.history (.inl returned) := by
  have atStart : localFile (MainState.initial homeUrl).current = some .homepage := by decide
  obtain ⟨first, home⟩ := entered_home atStart
  obtain ⟨visited, trace, last, iterates, atHome, length⟩ :=
    @goHome_run 30 (goHome (.initial homeUrl)) rfl (by decide)
  replace length : last.history.items.length = 31 := length
  have fits : last.history.items.length ≤ nosNavMax := last.history.itemsFit
  let here := last.goTo (localPage "/bookmarks")
  have items : here.history.items = localPage "/homepage" :: last.history.items := by
    rw [← atHome]
    exact nosNavPush_items (by rw [length]; decide) last.current
  have full : here.history.items.length ≥ nosNavMax := by
    rw [items, List.length_cons, length]
    decide
  have moves : goHome here = { here with current := localPage "/homepage" } := by
    rw [goHome, MainState.goTo, nosNavPush_full full]
  have isLocal : localFile last.current = some .homepage := by
    rw [atHome]
    decide
  obtain ⟨_, bookmarks⟩ := entered_closed isLocal (keyLine (byte 'B') (by decide))
    (show _ = text "B" from rfl) rfl
  obtain ⟨front, entered⟩ := entered_home (show localFile here.current = some .bookmarks from rfl)
  have popped : nosNavPop (goHome here).history = some (localPage "/homepage", last.history) := by
    rw [moves]
    exact nosNavPop_eq_some.mpr items
  obtain ⟨rear, back⟩ := entered_closed
    (show localFile (goHome here).current = some .homepage from rfl)
    (keyLine (byte 'b') (by decide)) (show _ = text "b" from rfl) (command_back popped)
  have visits : Visits anyEnv 1 24 here () front (goHome here) () := ⟨_, _, entered, .home⟩
  have before := (Iterates.step home.turn iterates).append (.step bookmarks.turn (.refl _ _))
  refine ⟨_, _, here, front, _, rear, _, _, before, visits, back, rfl, rfl, fun restored => ?_⟩
  exact absurd ((back_undoes_iff visits back).mp restored) (not_lt.mpr full)

end Nosgem
