/-
This file settles whether a prompt consumes a line of the standard input. Every
prompt of the browser, whoever issues it, is one `fgets` into a buffer of its
own size, and what does not fit the buffer stays in the stream. So the prompts
are answered by the lines, one by one, exactly as long as every line that has
been read fitted the buffer of its prompt; the rest of a line that did not fit
is the answer to the next prompt.
-/

import Nosgem.History

namespace Nosgem

open CText Interaction

/-! ### The standard input -/

/-- The standard input is a text, and `fgets` takes its next piece; nothing else reads it. -/
def stdinEnv : Env Answer Text := fun stream op answer after =>
  match op, answer with
  | .fgetsStdin size, none => fgets size stream = none ∧ after = stream
  | .fgetsStdin size, some line => fgets size stream = some (line.bytes, after)
  | _, _ => after = stream

/-- A prompt: the size of its buffer, and what was read into it, nothing at the end of the input. -/
structure Prompt where
  size : Nat
  answer : Option Text

/-- The prompts of a run, in the order in which they were issued. -/
def promptsIn (trace : List (Event Answer)) : List Prompt :=
  trace.filterMap fun event =>
    match event with
    | ⟨.fgetsStdin size, line⟩ => some ⟨size, line.map FgetsLine.bytes⟩
    | _ => none

@[simp] theorem promptsIn_append (front back : List (Event Answer)) :
    promptsIn (front ++ back) = promptsIn front ++ promptsIn back := List.filterMap_append

/-- The number of characters read in front of a prompt. -/
def readBefore (prompts : List Prompt) (k : Nat) : Nat :=
  ((prompts.take k).map fun prompt => (prompt.answer.getD []).length).sum

/-- The `k`-th prompt starts to read at the `k`-th line, so nothing of an earlier line is left for
it, and it is answered by this line, cut to its buffer. -/
def OneLineEach (stream : Text) (prompts : List Prompt) : Prop :=
  ∀ k prompt, prompts[k]? = some prompt →
    readBefore prompts k = ((fullLines stream).take k).flatten.length ∧
      prompt.answer = ((fullLines stream)[k]?).map fun line => line.take (prompt.size - 1)

/-- Every line that is read by a prompt with another one behind it fits the buffer of its prompt,
with its line end. -/
def LinesFit (stream : Text) (prompts : List Prompt) : Prop :=
  ∀ k prompt line, prompts[k]? = some prompt → k + 1 < prompts.length →
    (fullLines stream)[k]? = some line → line.length < prompt.size

/-! ### Prompts and lines -/

/-- The prompts are answered by the pieces of the stream. -/
def AnsweredFrom : Text → List Prompt → Prop
  | _, [] => True
  | stream, prompt :: prompts =>
    match fgets prompt.size stream with
    | none => prompt.answer = none ∧ AnsweredFrom stream prompts
    | some (line, rest) => prompt.answer = some line ∧ AnsweredFrom rest prompts

theorem answeredFrom_of_steps {Result : Type} {prog left : Io Result} {stream final : Text}
    {trace : List (Event Answer)} (run : Steps stdinEnv stream prog trace final left) :
    AnsweredFrom stream (promptsIn trace) := by
  induction run with
  | refl => trivial
  | @call stream middle final op next answer trace rest answered _ inductionHypothesis =>
    cases op with
    | fgetsStdin size =>
      cases answer with
      | none =>
        obtain ⟨ended, rfl⟩ := answered
        simp only [promptsIn, List.filterMap_cons, AnsweredFrom, ended]
        exact ⟨rfl, inductionHypothesis⟩
      | some line =>
        have taken : fgets size stream = some (line.bytes, middle) := answered
        simp only [promptsIn, List.filterMap_cons, AnsweredFrom, taken]
        exact ⟨rfl, inductionHypothesis⟩
    | _ =>
      obtain rfl : middle = stream := answered
      exact inductionHypothesis

theorem readBefore_cons (prompt : Prompt) (prompts : List Prompt) (k : Nat) :
    readBefore (prompt :: prompts) (k + 1) =
      (prompt.answer.getD []).length + readBefore prompts k := by
  simp [readBefore]

/-- A prompt that takes the whole first line leaves the other lines to the other prompts. -/
theorem oneLineEach_cons {prompt : Prompt} {prompts : List Prompt} {stream line : Text}
    {more : List Text} (lines : fullLines stream = line :: more)
    (again : fullLines more.flatten = more) (answer : prompt.answer = some line)
    (fits : line.length < prompt.size) :
    OneLineEach stream (prompt :: prompts) ↔ OneLineEach more.flatten prompts := by
  have cut : line.take (prompt.size - 1) = line := List.take_of_length_le (by omega)
  constructor
  · intro each k other found
    obtain ⟨before, answered⟩ := each (k + 1) other (by simpa using found)
    rw [readBefore_cons, answer, lines, List.take_succ_cons, List.flatten_cons, List.length_append,
      Option.getD_some] at before
    rw [lines, List.getElem?_cons_succ] at answered
    rw [again]
    exact ⟨by omega, answered⟩
  · intro each k other found
    cases k with
    | zero =>
      rw [List.getElem?_cons_zero, Option.some.injEq] at found
      rw [lines, ← found, answer]
      exact ⟨rfl, by rw [List.getElem?_cons_zero, Option.map_some, cut]⟩
    | succ k =>
      obtain ⟨before, answered⟩ := each k other (by simpa using found)
      rw [again] at before answered
      rw [readBefore_cons, answer, lines, List.take_succ_cons, List.flatten_cons,
        List.length_append, Option.getD_some, List.getElem?_cons_succ]
      exact ⟨by omega, answered⟩

theorem linesFit_cons {prompt : Prompt} {prompts : List Prompt} {stream line : Text}
    {more : List Text} (lines : fullLines stream = line :: more)
    (again : fullLines more.flatten = more) (fits : line.length < prompt.size) :
    LinesFit stream (prompt :: prompts) ↔ LinesFit more.flatten prompts := by
  constructor
  · intro fit k other later found goesOn member
    rw [again] at member
    exact fit (k + 1) other later (by simpa using found) (by simpa using goesOn)
      (by rw [lines]; simpa using member)
  · intro fit k other later found goesOn member
    cases k with
    | zero =>
      rw [lines, List.getElem?_cons_zero, Option.some.injEq] at member
      rw [List.getElem?_cons_zero, Option.some.injEq] at found
      rw [← member, ← found]
      exact fits
    | succ k =>
      rw [lines] at member
      exact fit k other later (by simpa using found) (by simpa using goesOn)
        (by rw [again]; simpa using member)

/-- At the end of the input no prompt is answered. -/
theorem oneLineEach_nil {prompts : List Prompt} (answered : AnsweredFrom [] prompts) :
    OneLineEach [] prompts := by
  have unanswered : ∀ prompt ∈ prompts, prompt.answer = none := by
    induction prompts with
    | nil => simp
    | cons prompt prompts inductionHypothesis =>
      rw [AnsweredFrom, show fgets prompt.size [] = none from rfl] at answered
      exact List.forall_mem_cons.mpr ⟨answered.1, inductionHypothesis answered.2⟩
  intro k prompt found
  constructor
  · rw [fullLines, List.take_nil, List.flatten_nil, List.length_nil, readBefore,
      List.sum_eq_zero_iff_forall_eq_nat]
    intro length member
    obtain ⟨other, taken, rfl⟩ := List.mem_map.mp member
    rw [unanswered other (List.mem_of_mem_take taken)]
    rfl
  · rw [unanswered prompt (List.mem_of_getElem? found)]
    rfl

/-- The rest of a line that does not fit is there for the next prompt, so there must not be any. -/
theorem oneLineEach_long {prompt : Prompt} {prompts : List Prompt} {stream line : Text}
    {more : List Text} (lines : fullLines stream = line :: more)
    (answer : prompt.answer = some (line.take (prompt.size - 1))) (some : line ≠ [])
    (long : prompt.size ≤ line.length) : OneLineEach stream (prompt :: prompts) ↔ prompts = [] := by
  constructor
  · intro each
    cases prompts with
    | nil => rfl
    | cons second prompts =>
      obtain ⟨before, _⟩ := each 1 second rfl
      have positive := List.length_pos_iff.mpr some
      have start : readBefore (second :: prompts) 0 = 0 := rfl
      rw [readBefore_cons, start, answer, Option.getD_some, List.length_take, lines,
        List.take_succ_cons, List.take_zero, List.flatten_singleton] at before
      omega
  · rintro rfl k other found
    cases k with
    | zero =>
      rw [List.getElem?_cons_zero, Option.some.injEq] at found
      rw [← found, lines]
      exact ⟨rfl, answer⟩
    | succ k => cases found

theorem linesFit_long {prompt : Prompt} {prompts : List Prompt} {stream line : Text}
    {more : List Text} (lines : fullLines stream = line :: more)
    (long : prompt.size ≤ line.length) : LinesFit stream (prompt :: prompts) ↔ prompts = [] := by
  constructor
  · intro fit
    cases prompts with
    | nil => rfl
    | cons second prompts =>
      have fits := fit 0 prompt line rfl (by simp) (by rw [lines]; rfl)
      exact absurd fits (not_lt.mpr long)
  · rintro rfl k other line _ goesOn
    simp at goesOn

/-- The prompts take a line each exactly when the lines fit. -/
theorem oneLineEach_iff {prompts : List Prompt} {stream : Text}
    (answered : AnsweredFrom stream prompts) :
    OneLineEach stream prompts ↔ LinesFit stream prompts := by
  induction prompts generalizing stream with
  | nil => exact iff_of_true (fun _ _ found => by cases found) fun _ _ _ found => by cases found
  | cons prompt prompts inductionHypothesis =>
    by_cases ended : stream = []
    · subst ended
      exact iff_of_true (oneLineEach_nil answered) fun k _ line _ _ found => by
        rw [fullLines] at found
        cases found
    obtain ⟨line, more, lines, joined, again, piece⟩ := fullLines_eq ended
    rw [AnsweredFrom, fgets, if_neg ended, piece] at answered
    obtain ⟨answer, others⟩ := answered
    by_cases fits : line.length < prompt.size
    · have cut : line.take (prompt.size - 1) = line := List.take_of_length_le (by omega)
      rw [cut] at answer others
      have rest : stream.drop line.length = more.flatten := by
        conv_lhs => rw [joined, List.drop_left]
      rw [rest] at others
      rw [oneLineEach_cons lines again answer fits, linesFit_cons lines again fits]
      exact inductionHypothesis others
    · have some : line ≠ [] := fun empty => by
        have taken := piece_ne_nil Nat.one_pos ended
        rw [piece, empty] at taken
        exact taken rfl
      rw [oneLineEach_long lines answer some (not_lt.mp fits), linesFit_long lines (not_lt.mp fits)]

/-- In every run of the main loop, at every moment: each prompt that was issued has been answered by
its own line, the `k`-th one by the `k`-th line, exactly when every line that was read by a prompt
with another one behind it fitted the buffer of its prompt. -/
theorem prompts_oneLineEach_iff {fuel pageLines : Nat} {home : NosUrl} {stream final : Text}
    {trace : List (Event Answer)} {left : Io Unit}
    (run : Steps stdinEnv stream (mainLoop fuel pageLines home) trace final left) :
    OneLineEach stream (promptsIn trace) ↔ LinesFit stream (promptsIn trace) :=
  oneLineEach_iff (answeredFrom_of_steps run)

/-! ### A label and a command -/

/-- A bookmark is added with a label that is read from the stream. -/
theorem addBookmark_run {st : MainState} (fits : makeCurrentUrl st.current urlbufSize ≠ [])
    {stream rest : Text} {label : FgetsLine 128}
    (read : fgets 128 stream = some (label.bytes, rest)) :
    ∃ trace, Steps stdinEnv stream (addBookmark st) trace rest (.ret ()) ∧
      promptsIn trace = [⟨128, some label.bytes⟩] := by
  let url := makeCurrentUrl st.current urlbufSize
  let word := rstripNewline label.bytes
  let line := text "=> " ++ url ++ (if word ≠ [] then text " " ++ word else []) ++ [lf]
  let adding : List (Event Answer) := [⟨.fopenWrite .bookmarks .append, true⟩,
    ⟨.fputs .bookmarks line, true⟩, ⟨.fclose .bookmarks, true⟩]
  have added : Steps stdinEnv rest (nosBookmarksAdd url word) adding rest (.ret 0) := by
    unfold nosBookmarksAdd
    rw [if_neg fits]
    exact .call rfl (.call rfl (.call rfl (.refl _ _)))
  have told : Steps stdinEnv rest (invoke (.print (text "Bookmarked\n")))
    [⟨.print (text "Bookmarked\n"), ()⟩] rest (.ret ()) := .call rfl (.refl _ _)
  have run : Steps stdinEnv stream (addBookmark st)
      ([⟨.print (text "Label (optional): "), ()⟩, ⟨.fgetsStdin 128, some label⟩] ++
        (adding ++ [⟨.print (text "Bookmarked\n"), ()⟩])) rest (.ret ()) := by
    unfold addBookmark
    dsimp only
    rw [if_neg fits]
    exact (nosUiPrompt_reads (by decide) rfl read).bind (added.bind told)
  exact ⟨_, run, rfl⟩

/-- A turn on the home page, which does not open, in which `line` is entered. -/
theorem turn_run {fuel : Nat} {stream middle rest : Text} {line : FgetsLine 256}
    {result : MainState ⊕ Unit} {trace : List (Event Answer)}
    (read : fgets 256 stream = some (line.bytes, middle))
    (done : Steps stdinEnv middle (command (.initial homeUrl) (rstripNewline line.bytes)) trace rest
      (.ret result)) :
    ∃ asked, Steps stdinEnv stream (turn fuel 24 (.initial homeUrl)) (asked ++ trace) rest
        (.ret result) ∧
      promptsIn asked = [⟨256, some line.bytes⟩] := by
  let page : List (Event Answer) := [⟨.print (text "\n== HOME ==\n"), ()⟩,
    ⟨.fopenRead .homepage, none⟩, ⟨.print (text "Failed to open HOMEPAGE.GEM\n"), ()⟩]
  let prompt := text "Command (number/url/b/r/h/B/a/q): "
  have displayed : Steps stdinEnv stream (display fuel 24 (.initial homeUrl)) page stream
    (.ret none) := .call rfl (.call rfl (.call rfl (.refl _ _)))
  have prompted : Steps stdinEnv stream (nosUiPrompt prompt 256) _ middle _ :=
    nosUiPrompt_reads (by decide) rfl read
  have run : Steps stdinEnv stream (turn fuel 24 (.initial homeUrl))
      (page ++ ([⟨.print prompt, ()⟩, ⟨.fgetsStdin 256, some line⟩] ++ trace)) rest (.ret result) :=
    displayed.bind (prompted.bind done)
  exact ⟨page ++ [⟨.print prompt, ()⟩, ⟨.fgetsStdin 256, some line⟩], by rwa [List.append_assoc],
    rfl⟩

/-- The home page is bookmarked with a label, and then the user quits. -/
theorem mainLoop_run {stream : Text} {label : FgetsLine 128}
    (read : fgets 128 stream = some (label.bytes, text "q" ++ [lf])) :
    ∃ trace, Steps stdinEnv (text "a" ++ lf :: stream) (mainLoop 2 24 homeUrl) trace []
        (.ret ()) ∧
      promptsIn trace = [⟨256, some (text "a" ++ [lf])⟩, ⟨128, some label.bytes⟩,
        ⟨256, some (text "q" ++ [lf])⟩] := by
  obtain ⟨adding, added, labelled⟩ :=
    @addBookmark_run (.initial homeUrl) (by decide) stream (text "q" ++ [lf]) label read
  have first : Steps stdinEnv stream (command (.initial homeUrl) (text "a")) (adding ++ [])
    (text "q" ++ [lf]) (.ret (.inl (.initial homeUrl))) := added.bind (.refl _ _)
  obtain ⟨asking, asked, command⟩ := @turn_run 2 (text "a" ++ lf :: stream) stream
    (text "q" ++ [lf]) (keyLine (byte 'a') (by decide)) _ _ rfl first
  obtain ⟨leaving, left, quit⟩ := @turn_run 2 (text "q" ++ [lf]) [] []
    (keyLine (byte 'q') (by decide)) (.inr ()) [] rfl (.refl _ _)
  refine ⟨_, asked.bind (left.bind_left _), ?_⟩
  rw [promptsIn_append, promptsIn_append, promptsIn_append, promptsIn_append, labelled, command,
    quit]
  rfl

/-- A label that fits its prompt. -/
theorem prompts_oneLineEach_iff_label :
    ∃ trace, Steps stdinEnv (text "a\nhome\nq\n") (mainLoop 2 24 homeUrl) trace [] (.ret ()) ∧
      OneLineEach (text "a\nhome\nq\n") (promptsIn trace) := by
  let label : FgetsLine 128 := ⟨text "home\n", by decide, by decide, by decide⟩
  obtain ⟨trace, run, prompts⟩ := @mainLoop_run (text "home\nq\n") label (by decide)
  refine ⟨trace, run, (prompts_oneLineEach_iff run).mpr ?_⟩
  have lines : fullLines (text "a" ++ lf :: text "home\nq\n") =
    [text "a\n", text "home\n", text "q\n"] := by decide
  intro k prompt line found goesOn member
  rw [prompts] at found goesOn
  rw [lines] at member
  rcases k with _ | _ | k
  · cases found
    cases member
    decide
  · cases found
    cases member
    decide
  · simp only [List.length_cons, List.length_nil] at goesOn
    omega

/-- A label that fills its buffer. -/
def longLabel : FgetsLine 128 where
  bytes := List.replicate 127 (byte 'l')
  some := List.cons_ne_nil _ _
  fits := by rw [List.length_replicate]; decide
  oneLine member := by
    have equal := List.eq_of_mem_replicate (List.mem_of_mem_dropLast member)
    exact absurd equal (by decide)

/-- A label that does not fit: `q` stands behind 127 characters of the label, and it is the answer
to the next command prompt. -/
theorem prompts_leak :
    ∃ trace, Steps stdinEnv (text "a" ++ lf :: (longLabel.bytes ++ text "q\n"))
        (mainLoop 2 24 homeUrl) trace [] (.ret ()) ∧
      (promptsIn trace)[2]? = some ⟨256, some (text "q\n")⟩ ∧
      ¬ OneLineEach (text "a" ++ lf :: (longLabel.bytes ++ text "q\n")) (promptsIn trace) := by
  have noLf : lf ∉ longLabel.bytes := fun member =>
    absurd (List.eq_of_mem_replicate member) (by decide)
  have read : fgets 128 (longLabel.bytes ++ text "q\n") =
      some (longLabel.bytes, text "q" ++ [lf]) := by
    have full : piece 127 (longLabel.bytes ++ text "q\n") = longLabel.bytes :=
      piece_full noLf (text "q\n")
    rw [fgets, if_neg (show longLabel.bytes ++ text "q\n" ≠ [] from List.cons_ne_nil _ _),
      show 128 - 1 = 127 from rfl, full, List.drop_left]
    rfl
  obtain ⟨trace, run, prompts⟩ := mainLoop_run read
  refine ⟨trace, run, by rw [prompts]; rfl, fun each => ?_⟩
  have fit := (prompts_oneLineEach_iff run).mp each
  have lines : fullLines (text "a" ++ lf :: (longLabel.bytes ++ text "q\n")) =
      [text "a\n", longLabel.bytes ++ text "q\n"] := by
    have second : longLabel.bytes ++ text "q\n" = (longLabel.bytes ++ text "q") ++ [lf] :=
      (List.append_assoc _ (text "q") [lf]).symm
    have noLfSecond : lf ∉ longLabel.bytes ++ text "q" := by
      rw [List.mem_append, not_or]
      exact ⟨noLf, by decide⟩
    rw [fullLines_line (by decide), second, fullLines_line noLfSecond]
    rfl
  rw [prompts] at fit
  have short := fit 1 _ _ rfl (by decide) (by rw [lines]; rfl)
  have length : longLabel.bytes.length = 127 := List.length_replicate
  rw [List.length_append, length] at short
  exact absurd short (by decide)

end Nosgem
