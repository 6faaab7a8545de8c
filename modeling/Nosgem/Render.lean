/-
This file models `render.c`: word wrapping, the link table, the display of one
gemtext line, and the stream that cuts a body into lines as its chunks arrive.
What a function writes to the screen is part of its result. The pause callback
of the render context is `NULL` in every context the browser builds, so a pause
is always the default one.

The main result describes the stream by the document: whatever chunks it
arrives in, the lines displayed are the lines of the document up to the first
one the parser refuses, and a line that is too long for the buffer is cut and
is the last one.
-/

import Nosgem.Gemtext
import Mathlib.Tactic.Basic

namespace Nosgem

open CText

/-! ### The screen and the link table -/

/-- What reaches the screen: text, or the pause `--More--`, which waits for a key. -/
inductive Out where
  | put (output : Text)
  | pause
  deriving DecidableEq, Repr

/-- `nos_link_t`. -/
structure NosLink where
  url : Text
  label : Text
  deriving DecidableEq, Repr

/-- `NOS_MAX_LINKS`. -/
def nosMaxLinks : Nat := 256

/-- `nos_render_ctx_t`; `link_count` is the length of the list. -/
structure NosRenderCtx where
  links : List NosLink
  linksFit : links.length ≤ nosMaxLinks
  linesPrinted : Nat
  pageLines : Nat

/-- `nos_render_ctx_init`. -/
def nosRenderCtxInit : NosRenderCtx := ⟨[], by decide, 0, 0⟩

/-- `render_line_break`. -/
def renderLineBreak (ctx : NosRenderCtx) : List Out × NosRenderCtx :=
  if ctx.pageLines > 0 ∧ ctx.linesPrinted + 1 ≥ ctx.pageLines then
    ([.pause], { ctx with linesPrinted := 0 })
  else ([], { ctx with linesPrinted := ctx.linesPrinted + 1 })

/-! ### Word wrapping -/

/-- `NOS_WRAP_COLS`. -/
def nosWrapCols : Nat := 80

/-- `sizeof(word)` and `sizeof(label)`. -/
def wordSize : Nat := 256

/-- What the loop of `print_wrapped` does with one word, and the column it leaves. -/
def wrapWord (lead word : Text) (col : Nat) : List Out × Nat :=
  let (again, col) := if col = 0 ∧ lead ≠ [] then ([Out.put lead], lead.length) else ([], col)
  let (gap, col) :=
    if col + (if col ≠ 0 then 1 else 0) + word.length > nosWrapCols then
      if lead ≠ [] then ([Out.put [lf], Out.put lead], lead.length) else ([Out.put [lf]], 0)
    else if col > 0 then ([Out.put [32]], col + 1)
    else ([], col)
  (again ++ gap ++ [.put word], col + word.length)

/-- The loop of `print_wrapped`: every turn takes at least one byte of the text, so its length
bounds the turns. A word that does not fit its buffer is cut and goes on as the next word. -/
def wrapWords (lead : Text) : (fuel : Nat) → (p : Text) → (col : Nat) → List Out
  | 0, _, _ => []
  | fuel + 1, p, col =>
    let p := p.dropWhile isBlank
    if p = [] then []
    else
      let word := (p.takeWhile fun c => !isBlank c).take (wordSize - 1)
      let (out, col) := wrapWord lead word col
      out ++ wrapWords lead fuel (p.drop word.length) col

/-- `print_wrapped`. -/
def printWrapped (ctx : NosRenderCtx) (lead p : Text) : List Out × NosRenderCtx :=
  let (start, col) := if lead ≠ [] then ([Out.put lead], lead.length) else ([], 0)
  let (pause, ctx) := renderLineBreak ctx
  (start ++ wrapWords lead p.length p col ++ .put [lf] :: pause, ctx)

/-! ### One line -/

/-- `add_link`: nothing happens when the table is full. -/
def addLink (ctx : NosRenderCtx) (url label : Text) : NosRenderCtx :=
  if room : ctx.links.length ≥ nosMaxLinks then ctx
  else
    { ctx with
      links := ctx.links ++ [⟨url.take (gemtextUrlSize - 1), label.take (wordSize - 1)⟩]
      linksFit := by
        rw [List.length_append, List.length_singleton]
        omega }

/-- `sprintf(prefix, "[%u] ", ctx->link_count)`. -/
def linkNumber (count : Nat) : Text := text "[" ++ decimal count ++ text "] "

/-- The local `label` of the link case. -/
def linkLabel (parsed : NosGemtextLine) : Text :=
  (if parsed.text ≠ [] then parsed.text else parsed.url).take (wordSize - 1)

/-- `render_parsed`. -/
def renderParsed (ctx : NosRenderCtx) (parsed : NosGemtextLine) : List Out × NosRenderCtx :=
  let heading (lead : String) : List Out × NosRenderCtx :=
    let (pause, ctx) := renderLineBreak ctx
    let (out, ctx) := printWrapped ctx (text lead) parsed.text
    (.put [lf] :: pause ++ out, ctx)
  match parsed.type with
  | .h1 => heading "# "
  | .h2 => heading "## "
  | .h3 => heading "### "
  | .link =>
    let ctx := addLink ctx parsed.url (linkLabel parsed)
    printWrapped ctx (linkNumber ctx.links.length) (linkLabel parsed)
  | .list => printWrapped ctx (text "* ") parsed.text
  | .quote => printWrapped ctx (text "> ") parsed.text
  | .preformat =>
    let (pause, ctx) := renderLineBreak ctx
    ((if parsed.text = [] then [] else [Out.put parsed.text]) ++ .put [lf] :: pause, ctx)
  | .text => printWrapped ctx [] parsed.text

/-! ### The stream -/

/-- `nos_render_stream_t`. -/
structure NosRenderStream where
  ctx : NosRenderCtx
  inPre : Bool
  line : Text

/-- `sizeof(st->line)`. -/
def streamLineSize : Nat := 1024

/-- `nos_render_stream_init`. -/
def nosRenderStreamInit (ctx : NosRenderCtx) : NosRenderStream :=
  ⟨{ ctx with links := [], linksFit := Nat.zero_le _, linesPrinted := 0 }, false, []⟩

/-- The end of a line, the same in feed and in flush: the C string in the buffer is parsed and
rendered, and the buffer is emptied. -/
def renderLine (st : NosRenderStream) : Option (List Out × NosRenderStream) :=
  match nosGemtextParseLine (cString st.line) st.inPre with
  | none => none
  | some (parsed, inPre) =>
    let (out, ctx) := renderParsed st.ctx parsed
    some (out, ⟨ctx, inPre, []⟩)

/-- `nos_render_stream_feed`. -/
def nosRenderStreamFeed : NosRenderStream → Text → Int × List Out × NosRenderStream
  | st, [] => (0, [], st)
  | st, c :: data =>
    if c = cr then nosRenderStreamFeed st data
    else if c = lf then
      match renderLine st with
      | none => (-1, [], st)
      | some (out, st) =>
        let (rc, more, st) := nosRenderStreamFeed st data
        (rc, out ++ more, st)
    else if st.line.length + 1 ≥ streamLineSize then (-1, [], st)
    else nosRenderStreamFeed { st with line := st.line ++ [c] } data

/-- `nos_render_stream_flush`. -/
def nosRenderStreamFlush (st : NosRenderStream) : Int × List Out × NosRenderStream :=
  if st.line = [] then (0, [], st)
  else
    match renderLine st with
    | none => (-1, [], st)
    | some (out, st) => (0, out, st)

/-- Feeding chunks one after the other until one is refused, as the callers of the stream do. -/
def feedChunks : NosRenderStream → List Text → Int × List Out × NosRenderStream
  | st, [] => (0, [], st)
  | st, chunk :: chunks =>
    let (rc, out, st) := nosRenderStreamFeed st chunk
    if rc ≠ 0 then (rc, out, st)
    else
      let (rc, more, st) := feedChunks st chunks
      (rc, out ++ more, st)

/-- `nos_render_gemtext`. -/
def nosRenderGemtext (body : Text) (ctx : NosRenderCtx) : Int × List Out × NosRenderCtx :=
  let (rc, out, st) := nosRenderStreamFeed (nosRenderStreamInit ctx) body
  if rc ≠ 0 then (-1, out, st.ctx)
  else
    let (rc, more, st) := nosRenderStreamFlush st
    (rc, out ++ more, st.ctx)

/-! ### The document behind a stream -/

/-- The lines of a text that goes on an unfinished line: every CR is deleted, every LF ends a line,
and a last line without an LF counts when it is not empty. -/
def lineTexts (unfinished : Text) : Text → List Text
  | [] => if unfinished = [] then [] else [unfinished]
  | c :: data =>
    if c = cr then lineTexts unfinished data
    else if c = lf then unfinished :: lineTexts [] data
    else lineTexts (unfinished ++ [c]) data

/-- The lines that are displayed of a document: up to the first one the parser refuses, and a line
that does not fit the line buffer is cut and is the last one. -/
def shownLines (inPre : Bool) : List Text → List NosGemtextLine
  | [] => []
  | line :: rest =>
    match nosGemtextParseLine (cString (line.take (streamLineSize - 1))) inPre with
    | none => []
    | some (parsed, inPre) =>
      parsed :: if line.length < streamLineSize then shownLines inPre rest else []

/-- Every line fits the line buffer and is accepted by the parser. -/
def acceptsLines (inPre : Bool) : List Text → Bool
  | [] => true
  | line :: rest =>
    decide (line.length < streamLineSize) &&
      match nosGemtextParseLine (cString line) inPre with
      | none => false
      | some (_, inPre) => acceptsLines inPre rest

/-- The lines displayed of a gemtext document. -/
def documentLines (document : Text) : List NosGemtextLine :=
  shownLines false (lineTexts [] document)

/-- A document the renderer accepts as a whole. -/
def acceptsDocument (document : Text) : Bool := acceptsLines false (lineTexts [] document)

/-- The lines rendered one after the other. -/
def renderAll : NosRenderCtx → List NosGemtextLine → List Out × NosRenderCtx
  | ctx, [] => ([], ctx)
  | ctx, parsed :: rest =>
    let (out, ctx) := renderParsed ctx parsed
    let (more, ctx) := renderAll ctx rest
    (out ++ more, ctx)

theorem renderAll_cons (ctx : NosRenderCtx) (parsed : NosGemtextLine) (rest : List NosGemtextLine) :
    renderAll ctx (parsed :: rest) =
      ((renderParsed ctx parsed).1 ++ (renderAll (renderParsed ctx parsed).2 rest).1,
        (renderAll (renderParsed ctx parsed).2 rest).2) := rfl

/-! ### Feeding in chunks -/

/-- Feeding two texts is feeding the second one if the first one was accepted. -/
theorem nosRenderStreamFeed_append (st : NosRenderStream) (front back : Text) :
    nosRenderStreamFeed st (front ++ back) =
      if (nosRenderStreamFeed st front).1 ≠ 0 then nosRenderStreamFeed st front
      else
        let second := nosRenderStreamFeed (nosRenderStreamFeed st front).2.2 back
        (second.1, (nosRenderStreamFeed st front).2.1 ++ second.2.1, second.2.2) := by
  induction front generalizing st with
  | nil => simp [nosRenderStreamFeed]
  | cons c front inductionHypothesis =>
    rw [List.cons_append, nosRenderStreamFeed, nosRenderStreamFeed]
    split
    · exact inductionHypothesis st
    split
    · split
      · simp
      · rename_i out after rendered
        simp only [inductionHypothesis after]
        split
        · rfl
        · simp
    split
    · simp
    · exact inductionHypothesis _

/-- However a text arrives in chunks, feeding them is feeding the text. -/
theorem feedChunks_eq (st : NosRenderStream) (chunks : List Text) :
    feedChunks st chunks = nosRenderStreamFeed st chunks.flatten := by
  induction chunks generalizing st with
  | nil => rfl
  | cons chunk chunks inductionHypothesis =>
    rw [List.flatten_cons, nosRenderStreamFeed_append, feedChunks]
    dsimp only
    split
    · rfl
    · rw [inductionHypothesis]

/-! ### The stream displays the document -/

/-- An unfinished line is the beginning of the next line of the text. -/
theorem lineTexts_unfinished {unfinished : Text} (some : unfinished ≠ []) (data : Text) :
    ∃ more rest, lineTexts unfinished data = (unfinished ++ more) :: rest := by
  induction data generalizing unfinished with
  | nil => exact ⟨[], [], by simp [lineTexts, some]⟩
  | cons c data inductionHypothesis =>
    rw [lineTexts]
    split
    · exact inductionHypothesis some
    split
    · exact ⟨[], _, by rw [List.append_nil]⟩
    · obtain ⟨more, rest, equal⟩ := inductionHypothesis (show unfinished ++ [c] ≠ [] by simp)
      exact ⟨c :: more, rest, by rw [equal, List.append_assoc, List.singleton_append]⟩

/-- Flushing a line that is not empty displays it, if the parser accepts it. -/
theorem flush_line {st : NosRenderStream} (some : st.line ≠ []) :
    ((nosRenderStreamFlush st).2.1, (nosRenderStreamFlush st).2.2.ctx) =
        renderAll st.ctx ((nosGemtextParseLine (cString st.line) st.inPre).toList.map Prod.fst) ∧
      ((nosRenderStreamFlush st).1 = 0 ↔
        (nosGemtextParseLine (cString st.line) st.inPre).isSome) := by
  rw [nosRenderStreamFlush, if_neg some, renderLine]
  cases nosGemtextParseLine (cString st.line) st.inPre with
  | none => simp [renderAll]
  | some done => simp [renderAll]

/-- Flushing displays the unfinished line of a stream. -/
theorem flush_rest (st : NosRenderStream) (fits : st.line.length < streamLineSize) :
    ((nosRenderStreamFlush st).2.1, (nosRenderStreamFlush st).2.2.ctx) =
        renderAll st.ctx (shownLines st.inPre (lineTexts st.line [])) ∧
      ((nosRenderStreamFlush st).1 = 0 ↔ acceptsLines st.inPre (lineTexts st.line [])) := by
  have whole : st.line.take (streamLineSize - 1) = st.line := List.take_of_length_le (by omega)
  rw [lineTexts]
  by_cases empty : st.line = []
  · simp [empty, nosRenderStreamFlush, shownLines, acceptsLines, renderAll]
  · obtain ⟨shown, accepted⟩ := flush_line empty
    rw [if_neg empty]
    simp only [shown, accepted, shownLines, acceptsLines, whole]
    cases nosGemtextParseLine (cString st.line) st.inPre with
    | none => simp
    | some done => simp [fits]

/-- Flushing a full buffer displays what there is room for of a line that goes on, and this is the
last line displayed. -/
theorem flush_full {st : NosRenderStream} (full : st.line.length = streamLineSize - 1)
    {more : Text} (goesOn : more ≠ []) (rest : List Text) :
    ((nosRenderStreamFlush st).2.1, (nosRenderStreamFlush st).2.2.ctx) =
        renderAll st.ctx (shownLines st.inPre ((st.line ++ more) :: rest)) ∧
      acceptsLines st.inPre ((st.line ++ more) :: rest) = false := by
  have some : st.line ≠ [] := fun empty => by
    rw [empty] at full
    cases full
  have cut : (st.line ++ more).take (streamLineSize - 1) = st.line := by
    rw [← full, List.take_left]
  have long : ¬ (st.line ++ more).length < streamLineSize := by
    have longer := List.length_pos_iff.mpr goesOn
    rw [List.length_append]
    omega
  obtain ⟨shown, -⟩ := flush_line some
  simp only [shown, shownLines, cut, long, acceptsLines, if_false, decide_false, Bool.false_and,
    and_true]
  cases nosGemtextParseLine (cString st.line) st.inPre with
  | none => rfl
  | some done => rfl

/-- Flushing a line that the parser refuses displays nothing. -/
theorem flush_refused {st : NosRenderStream}
    (refused : nosGemtextParseLine (cString st.line) st.inPre = none) :
    nosRenderStreamFlush st = (-1, [], st) := by
  have some : st.line ≠ [] := fun empty => by
    have accepted := nosGemtextParseLine_nil st.inPre
    rw [empty, show cString [] = [] from rfl] at refused
    rw [refused] at accepted
    cases accepted
  rw [nosRenderStreamFlush, if_neg some, renderLine, refused]

/-- What feeding a text and then flushing displays, and whether both succeed, from a stream in the
middle of a line. -/
theorem feed_flush (st : NosRenderStream) (data : Text) (fits : st.line.length < streamLineSize) :
    ((nosRenderStreamFeed st data).2.1 ++
          (nosRenderStreamFlush (nosRenderStreamFeed st data).2.2).2.1,
        (nosRenderStreamFlush (nosRenderStreamFeed st data).2.2).2.2.ctx) =
        renderAll st.ctx (shownLines st.inPre (lineTexts st.line data)) ∧
      ((nosRenderStreamFeed st data).1 = 0 ∧
          (nosRenderStreamFlush (nosRenderStreamFeed st data).2.2).1 = 0 ↔
        acceptsLines st.inPre (lineTexts st.line data)) := by
  induction data generalizing st with
  | nil =>
    rw [nosRenderStreamFeed]
    simpa only [List.nil_append, true_and] using flush_rest st fits
  | cons c data inductionHypothesis =>
    rw [nosRenderStreamFeed, lineTexts]
    by_cases isCr : c = cr
    · simp only [if_pos isCr]
      exact inductionHypothesis st fits
    simp only [if_neg isCr]
    by_cases isLf : c = lf
    · -- the line is complete: it is displayed, or the rest of the text is not looked at
      simp only [if_pos isLf]
      have whole : st.line.take (streamLineSize - 1) = st.line := List.take_of_length_le (by omega)
      cases parsed : nosGemtextParseLine (cString st.line) st.inPre with
      | none =>
        simp only [renderLine, parsed, flush_refused parsed, shownLines, whole, acceptsLines]
        simp [renderAll]
      | some done =>
        obtain ⟨line, inPre⟩ := done
        obtain ⟨shown, accepted⟩ := inductionHypothesis ⟨(renderParsed st.ctx line).2, inPre, []⟩
          (Nat.zero_lt_succ _)
        simp only [renderLine, parsed, shownLines, whole, fits, if_true, renderAll_cons,
          acceptsLines, decide_true, Bool.true_and, ← accepted, ← shown, List.append_assoc,
          and_self]
    simp only [if_neg isLf]
    by_cases full : st.line.length + 1 ≥ streamLineSize
    · -- the line does not fit: the flush displays what is in the buffer
      simp only [if_pos full]
      obtain ⟨more, rest, equal⟩ := lineTexts_unfinished (show st.line ++ [c] ≠ [] by simp) data
      rw [List.append_assoc] at equal
      obtain ⟨shown, refused⟩ := flush_full (show st.line.length = streamLineSize - 1 by omega)
        (show [c] ++ more ≠ [] by simp) rest
      simp only [equal, List.nil_append, shown, refused]
      simp
    · simp only [if_neg full]
      exact inductionHypothesis { st with line := st.line ++ [c] } (by
        rw [List.length_append, List.length_singleton]
        omega)

/-- A stream that is fed a document in chunks and then flushed displays the lines of the document
and is left with their links; it succeeds exactly on the documents the renderer accepts. -/
theorem feedChunks_flush (ctx : NosRenderCtx) (chunks : List Text) :
    ((feedChunks (nosRenderStreamInit ctx) chunks).2.1 ++
          (nosRenderStreamFlush (feedChunks (nosRenderStreamInit ctx) chunks).2.2).2.1,
        (nosRenderStreamFlush (feedChunks (nosRenderStreamInit ctx) chunks).2.2).2.2.ctx) =
        renderAll (nosRenderStreamInit ctx).ctx (documentLines chunks.flatten) ∧
      ((feedChunks (nosRenderStreamInit ctx) chunks).1 = 0 ∧
          (nosRenderStreamFlush (feedChunks (nosRenderStreamInit ctx) chunks).2.2).1 = 0 ↔
        acceptsDocument chunks.flatten) := by
  rw [feedChunks_eq]
  exact feed_flush (nosRenderStreamInit ctx) chunks.flatten (Nat.zero_lt_succ _)

end Nosgem
