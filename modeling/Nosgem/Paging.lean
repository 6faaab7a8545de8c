/-
This file settles whether a page can scroll away unseen. The pager of the
browser pauses when it has counted as many line feeds as a page has lines, but
it does not count the line feeds of word wrapping and the one of the header
line, and it counts those of a raw chunk only when the whole chunk is on the
screen. With the header line a pause always comes one line late, so the code
keeps to the page only where the whole body fits on it; the file also says
which bodies keep to their pages below the header line.
-/

import Nosgem.PageLinks
import Nosgem.Documents
import Nosgem.Pager

namespace Nosgem

open CText Pager

/-! ### Line feeds on the screen -/

/-- The line feeds in an output; a pause writes none. -/
def Out.feeds : Out → Nat
  | .put output => output.count lf
  | .pause => 0

theorem feeds_put_plain {output : Text} (noLf : lf ∉ output) : (Out.put output).feeds = 0 :=
  List.count_eq_zero_of_not_mem noLf

/-! ### Word wrapping -/

/-- The words of a text: it is split at its blanks, and a word that does not fit its buffer is cut
into several. -/
def words (p : Text) : List Text := (p.splitOnP isBlank).flatMap (blocks (wordSize - 1))

/-- How often a paragraph is broken when words of some widths are filled in, in a line with `col`
columns, and a blank stands before a word that is not the first thing in its line. Every further
line starts with a lead. -/
def breaks (lead : Nat) : (col : Nat) → (widths : List Nat) → Nat
  | _, [] => 0
  | col, width :: widths =>
    let gap := if col = 0 then 0 else 1
    if col + gap + width > nosWrapCols then breaks lead (lead + width) widths + 1
    else breaks lead (col + gap + width) widths

/-- How often a text behind a lead is broken. -/
def wraps (lead p : Text) : Nat := breaks lead.length lead.length ((words p).map List.length)

theorem words_nil : words [] = [] := rfl

theorem words_blank {c : Byte} (blank : isBlank c) (p : Text) : words (c :: p) = words p := by
  rw [words, List.splitOnP_cons_eq_if_modifyHead, if_pos blank, List.flatMap_cons]
  rfl

theorem words_dropWhile (p : Text) : words (p.dropWhile isBlank) = words p := by
  induction p with
  | nil => rfl
  | cons c p inductionHypothesis =>
    by_cases blank : isBlank c
    · rw [List.dropWhile_cons_of_pos blank, inductionHypothesis, words_blank blank]
    · rw [List.dropWhile_cons_of_neg blank]

/-- A run without blanks is cut into words of its own. -/
theorem words_run {run : Text} (solid : ∀ c ∈ run, isBlank c = false) {rest : Text}
    (ends : ∀ c ∈ rest.head?, isBlank c) :
    words (run ++ rest) = blocks (wordSize - 1) run ++ words rest := by
  cases rest with
  | nil =>
    rw [List.append_nil, words, List.splitOnP_eq_singleton solid, words_nil, List.append_nil,
      List.flatMap_singleton]
  | cons c rest =>
    have blank : isBlank c := ends c rfl
    rw [words_blank blank, words, List.splitOnP_append_cons_of_forall_mem solid c blank,
      List.flatMap_cons]
    rfl

/-- The first word of a text that starts with one, and the words behind it. -/
theorem words_eq {p : Text} (some : p ≠ []) (solid : ∀ c ∈ p.head?, isBlank c = false) :
    let word := (p.takeWhile fun c => !isBlank c).take (wordSize - 1)
    word ≠ [] ∧ words p = word :: words (p.drop word.length) := by
  intro word
  set run := p.takeWhile fun c => !isBlank c with runEq
  have runSolid : ∀ c ∈ run, isBlank c = false := fun c member => by
    simpa using List.mem_takeWhile_imp member
  have ends : ∀ c ∈ (p.dropWhile fun c => !isBlank c).head?, isBlank c := fun c head => by
    have stops := List.head?_dropWhile_not (fun c => !isBlank c) p
    rw [Option.mem_def.mp head] at stops
    simpa using stops
  have joined : p = run ++ p.dropWhile fun c => !isBlank c :=
    (List.takeWhile_append_dropWhile ..).symm
  have runSome : run ≠ [] := by
    obtain ⟨c, rest, rfl⟩ := List.exists_cons_of_ne_nil some
    have first : isBlank c = false := solid c rfl
    rw [runEq, List.takeWhile_cons_of_pos (by simp [first])]
    exact List.cons_ne_nil _ _
  have room : 0 < wordSize - 1 := by decide
  have wordSome : word ≠ [] := by
    rw [← List.length_pos_iff, List.length_take]
    exact Nat.lt_min.mpr ⟨room, List.length_pos_iff.mpr runSome⟩
  have behind : p.drop word.length =
      run.drop (wordSize - 1) ++ p.dropWhile fun c => !isBlank c := by
    conv_lhs => rw [joined]
    rw [List.length_take, List.drop_append, Nat.sub_eq_zero_of_le (Nat.min_le_right _ _),
      List.drop_zero]
    rcases Nat.le_total (wordSize - 1) run.length with long | short
    · rw [Nat.min_eq_left long]
    · rw [Nat.min_eq_right short, List.drop_length, List.drop_of_length_le short]
  refine ⟨wordSome, ?_⟩
  conv_lhs => rw [joined, words_run runSolid ends, blocks_eq room runSome, List.cons_append]
  rw [behind, words_run (fun c member => runSolid c (List.mem_of_mem_drop member)) ends]

theorem plain_of_subset {part p : Text} (noLf : lf ∉ p) (inside : part ⊆ p) : lf ∉ part :=
  fun member => noLf (inside member)

/-- One word breaks the line or not; nothing is paused. -/
theorem wrapWord_feeds {lead word : Text} (leadLf : lf ∉ lead) (wordLf : lf ∉ word) {col : Nat}
    (started : lead ≠ [] → col ≠ 0) :
    Out.pause ∉ (wrapWord lead word col).1 ∧
      if col + (if col = 0 then 0 else 1) + word.length > nosWrapCols then
        feedsIn Out.feeds (wrapWord lead word col).1 = 1 ∧
          (wrapWord lead word col).2 = lead.length + word.length
      else
        feedsIn Out.feeds (wrapWord lead word col).1 = 0 ∧
          (wrapWord lead word col).2 = col + (if col = 0 then 0 else 1) + word.length := by
  have again : ¬ (col = 0 ∧ lead ≠ []) := fun both => started both.2 both.1
  have broken : (Out.put [lf]).feeds = 1 := by decide
  have blank : (Out.put [32]).feeds = 0 := by decide
  have leadFeeds := feeds_put_plain leadLf
  have wordFeeds := feeds_put_plain wordLf
  have gap : (if col ≠ 0 then 1 else 0) = if col = 0 then 0 else 1 := by
    by_cases zero : col = 0
    · rw [if_neg (not_not.mpr zero), if_pos zero]
    · rw [if_pos zero, if_neg zero]
  unfold wrapWord
  simp only [if_neg again, gap]
  by_cases long : col + (if col = 0 then 0 else 1) + word.length > nosWrapCols
  · rw [if_pos long, if_pos long]
    by_cases noLead : lead = []
    · simp [noLead, broken, wordFeeds]
    · simp [noLead, broken, leadFeeds, wordFeeds]
  · rw [if_neg long, if_neg long]
    by_cases zero : col = 0
    · simp [zero, wordFeeds]
    · simp [zero, Nat.pos_of_ne_zero zero, blank, wordFeeds]

/-- The loop of `print_wrapped` breaks a text as often as its words need it. -/
theorem wrapWords_feeds {lead : Text} (leadLf : lf ∉ lead) {fuel : Nat} {p : Text} (noLf : lf ∉ p)
    (covers : p.length ≤ fuel) {col : Nat} (started : lead ≠ [] → col ≠ 0) :
    Out.pause ∉ wrapWords lead fuel p col ∧
      feedsIn Out.feeds (wrapWords lead fuel p col) =
        breaks lead.length col ((words p).map List.length) := by
  induction fuel generalizing p col with
  | zero =>
    obtain rfl : p = [] := List.length_eq_zero_iff.mp (Nat.le_zero.mp covers)
    exact ⟨List.not_mem_nil, rfl⟩
  | succ fuel inductionHypothesis =>
    rw [wrapWords, ← words_dropWhile]
    dsimp only
    have shorter : (p.dropWhile isBlank).length ≤ fuel + 1 :=
      Nat.le_trans (List.length_dropWhile_le _ _) covers
    have plain : lf ∉ p.dropWhile isBlank :=
      plain_of_subset noLf (List.dropWhile_sublist _).subset
    have solid : ∀ c ∈ (p.dropWhile isBlank).head?, isBlank c = false := fun c head => by
      have stops := List.head?_dropWhile_not isBlank p
      rw [Option.mem_def.mp head] at stops
      simpa using stops
    generalize p.dropWhile isBlank = p at shorter plain solid
    split
    · rename_i ended
      rw [ended]
      exact ⟨List.not_mem_nil, rfl⟩
    · rename_i left
      obtain ⟨wordSome, parts⟩ := words_eq left solid
      have wordLf : lf ∉ (p.takeWhile fun c => !isBlank c).take (wordSize - 1) :=
        plain_of_subset plain fun c member =>
          (List.takeWhile_prefix _).subset (List.mem_of_mem_take member)
      generalize (p.takeWhile fun c => !isBlank c).take (wordSize - 1) = word at *
      have taken := List.length_pos_iff.mpr wordSome
      obtain ⟨noPause, fed⟩ := wrapWord_feeds leadLf wordLf started
      rw [parts, List.map_cons, breaks]
      have further (col : Nat) (started : lead ≠ [] → col ≠ 0) :=
        @inductionHypothesis (p.drop word.length)
          (plain_of_subset plain (List.drop_subset _ _)) (by rw [List.length_drop]; omega) col
          started
      simp only [List.mem_append, not_or, feedsIn_append]
      by_cases long : col + (if col = 0 then 0 else 1) + word.length > nosWrapCols
      · rw [if_pos long] at fed ⊢
        obtain ⟨more, rest⟩ := further (lead.length + word.length) fun _ => by omega
        rw [fed.1, fed.2, rest]
        exact ⟨⟨noPause, more⟩, Nat.add_comm _ _⟩
      · rw [if_neg long] at fed ⊢
        obtain ⟨more, rest⟩ := further (col + (if col = 0 then 0 else 1) + word.length)
          fun _ => by omega
        rw [fed.1, fed.2, rest]
        exact ⟨⟨noPause, more⟩, Nat.zero_add _⟩

/-! ### The writes of a gemtext line -/

/-- A paragraph behind a lead: only the line feed at its end is counted. -/
def paragraph (lead p : Text) : Write := ⟨wraps lead p + 1, 1⟩

/-- What is written for a line with `links` links up to it: an empty line above a heading, and the
paragraph; a preformatted line is not wrapped. -/
def lineWrites (links : Nat) (line : NosGemtextLine) : List Write :=
  match line.type with
  | .h1 => [⟨1, 1⟩, paragraph (text "# ") line.text]
  | .h2 => [⟨1, 1⟩, paragraph (text "## ") line.text]
  | .h3 => [⟨1, 1⟩, paragraph (text "### ") line.text]
  | .link => [paragraph (linkNumber links) (linkLabel line)]
  | .list => [paragraph (text "* ") line.text]
  | .quote => [paragraph (text "> ") line.text]
  | .preformat => [⟨1, 1⟩]
  | .text => [paragraph [] line.text]

/-- What is written for lines with `links` links before them; the numbers of links stop at the size
of the table. -/
def pageWrites : (links : Nat) → List NosGemtextLine → List Write
  | _, [] => []
  | links, line :: rest =>
    let links := if line.isLink then min nosMaxLinks (links + 1) else links
    lineWrites links line ++ pageWrites links rest

/-- What a function of the renderer wrote: the writes, and the context goes on counting. -/
structure Rendered (ctx : NosRenderCtx) (writes : List Write) (result : List Out × NosRenderCtx) :
    Prop where
  shows : Shows .pause Out.feeds ctx.pageLines ctx.linesPrinted writes result.1
    result.2.linesPrinted
  page : result.2.pageLines = ctx.pageLines

/-- The counter of a context stands in front of the end of a page. -/
def Counting (ctx : NosRenderCtx) : Prop := ctx.linesPrinted < ctx.pageLines

theorem Rendered.counting {ctx : NosRenderCtx} {writes : List Write}
    {result : List Out × NosRenderCtx} (rendered : Rendered ctx writes result)
    (counting : Counting ctx) : Counting result.2 := by
  rw [Counting, rendered.page]
  exact rendered.shows.after_lt counting

theorem Rendered.append {ctx : NosRenderCtx} {front back : List Write}
    {first second : List Out × NosRenderCtx} (rendered : Rendered ctx front first)
    (further : Rendered first.2 back second) :
    Rendered ctx (front ++ back) (first.1 ++ second.1, second.2) where
  shows := by
    have shows := further.shows
    rw [rendered.page] at shows
    exact rendered.shows.append shows
  page := further.page.trans rendered.page

/-- A line feed that is counted, behind some output. -/
theorem rendered_lineBreak {ctx : NosRenderCtx} (counting : Counting ctx) {shown : List Out}
    (noPause : .pause ∉ shown) {feeds : Nat} (written : feedsIn Out.feeds shown = feeds) :
    Rendered ctx [⟨feeds, 1⟩]
      (shown ++ (renderLineBreak ctx).1, (renderLineBreak ctx).2) := by
  have single := @Shows.single Out .pause Out.feeds shown noPause ⟨feeds, 1⟩ written ctx.pageLines
    ctx.linesPrinted
  have positive : ctx.pageLines > 0 := Nat.zero_lt_of_lt counting
  unfold renderLineBreak
  by_cases full : ctx.linesPrinted + 1 ≥ ctx.pageLines
  · have ends : ctx.linesPrinted + 1 = ctx.pageLines := Nat.le_antisymm counting full
    rw [if_pos ⟨positive, full⟩]
    dsimp only at single
    rw [ends, Nat.div_self positive, Nat.mod_self] at single
    exact ⟨single, rfl⟩
  · rw [if_neg fun both => full both.2]
    dsimp only at single
    rw [Nat.div_eq_of_lt (not_le.mp full), Nat.mod_eq_of_lt (not_le.mp full)] at single
    exact ⟨single, rfl⟩

theorem rendered_printWrapped {ctx : NosRenderCtx} (counting : Counting ctx) {lead p : Text}
    (leadLf : lf ∉ lead) (noLf : lf ∉ p) :
    Rendered ctx [paragraph lead p] (printWrapped ctx lead p) := by
  have lineEnd : (Out.put [lf]).feeds = 1 := by decide
  have leadFeeds := feeds_put_plain leadLf
  have started : lead ≠ [] → lead.length ≠ 0 := fun some =>
    Nat.ne_of_gt (List.length_pos_iff.mpr some)
  obtain ⟨noPause, fed⟩ := wrapWords_feeds leadLf noLf (Nat.le_refl _) started
  let start : List Out := if lead ≠ [] then [.put lead] else []
  have opened : (if lead ≠ [] then ([Out.put lead], lead.length) else ([], 0)) =
      (start, lead.length) := by
    by_cases noLead : lead = []
    · simp [start, noLead]
    · simp [start, noLead]
  have startFeeds : feedsIn Out.feeds start = 0 ∧ Out.pause ∉ start := by
    by_cases noLead : lead = []
    · simp [start, noLead]
    · simp [start, noLead, leadFeeds]
  have result : printWrapped ctx lead p =
      (start ++ wrapWords lead p.length p lead.length ++ [.put [lf]] ++ (renderLineBreak ctx).1,
        (renderLineBreak ctx).2) := by
    rw [printWrapped, opened]
    simp
  rw [result]
  refine rendered_lineBreak counting ?_ ?_
  · simp [startFeeds.2, noPause]
  · rw [feedsIn_append, feedsIn_append, fed, startFeeds.1, feedsIn_cons, lineEnd, feedsIn_nil,
      wraps, Nat.zero_add]

/-- The texts of a line have no line end in them. -/
def PlainLine (line : NosGemtextLine) : Prop := lf ∉ line.text ∧ lf ∉ line.url

theorem linkLabel_plain {line : NosGemtextLine} (plain : PlainLine line) : lf ∉ linkLabel line := by
  unfold linkLabel
  refine fun member => ?_
  have inside := List.mem_of_mem_take member
  split at inside
  · exact plain.1 inside
  · exact plain.2 inside

theorem linkNumber_plain (count : Nat) : lf ∉ linkNumber count := by
  have digits : lf ∉ decimal count := fun member =>
    absurd (isDigit_of_mem_decimal member) (by decide)
  rw [linkNumber, List.mem_append, List.mem_append, not_or, not_or]
  exact ⟨⟨by decide, digits⟩, by decide⟩

theorem rendered_heading {ctx : NosRenderCtx} (counting : Counting ctx) {lead p : Text}
    (leadLf : lf ∉ lead) (noLf : lf ∉ p) :
    Rendered ctx [⟨1, 1⟩, paragraph lead p]
      (.put [lf] :: (renderLineBreak ctx).1 ++ (printWrapped (renderLineBreak ctx).2 lead p).1,
        (printWrapped (renderLineBreak ctx).2 lead p).2) := by
  have above := rendered_lineBreak counting (show .pause ∉ [Out.put [lf]] by simp)
    (show feedsIn Out.feeds [.put [lf]] = 1 by decide)
  exact above.append (rendered_printWrapped (above.counting counting) leadLf noLf)

@[simp] theorem linesPrinted_addLink (ctx : NosRenderCtx) (url label : Text) :
    (addLink ctx url label).linesPrinted = ctx.linesPrinted := by
  unfold addLink
  split <;> rfl

@[simp] theorem pageLines_addLink (ctx : NosRenderCtx) (url label : Text) :
    (addLink ctx url label).pageLines = ctx.pageLines := by
  unfold addLink
  split <;> rfl

/-- Rendering a line writes what is written for it. -/
theorem rendered_renderParsed {ctx : NosRenderCtx} (counting : Counting ctx)
    {line : NosGemtextLine} (plain : PlainLine line) :
    Rendered ctx (lineWrites (renderParsed ctx line).2.links.length line)
      (renderParsed ctx line) := by
  obtain ⟨type, body, url⟩ := line
  obtain ⟨bodyLf, urlLf⟩ := id plain
  cases type with
  | h1 => exact rendered_heading counting (by decide) bodyLf
  | h2 => exact rendered_heading counting (by decide) bodyLf
  | h3 => exact rendered_heading counting (by decide) bodyLf
  | link =>
    set line : NosGemtextLine := ⟨.link, body, url⟩
    have listed : Counting (addLink ctx url (linkLabel line)) := by
      rwa [Counting, linesPrinted_addLink, pageLines_addLink]
    obtain ⟨shows, page⟩ := rendered_printWrapped listed
      (linkNumber_plain (addLink ctx url (linkLabel line)).links.length) (linkLabel_plain plain)
    rw [linesPrinted_addLink, pageLines_addLink] at shows
    rw [pageLines_addLink] at page
    have count : (renderParsed ctx line).2.links.length =
        (addLink ctx url (linkLabel line)).links.length :=
      congrArg List.length (links_printWrapped ..)
    rw [count]
    exact ⟨shows, page⟩
  | list => exact rendered_printWrapped counting (by decide) bodyLf
  | quote => exact rendered_printWrapped counting (by decide) bodyLf
  | preformat =>
    have shown : feedsIn Out.feeds ((if body = [] then [] else [Out.put body]) ++ [.put [lf]]) =
        1 ∧ Out.pause ∉ (if body = [] then [] else [Out.put body]) ++ [Out.put [lf]] := by
      have lineEnd : (Out.put [lf]).feeds = 1 := by decide
      by_cases empty : body = []
      · simp [empty, lineEnd]
      · simp [empty, lineEnd, feeds_put_plain bodyLf]
    have rendered := rendered_lineBreak counting shown.2 shown.1
    rwa [List.append_assoc] at rendered
  | text => exact rendered_printWrapped counting List.not_mem_nil bodyLf

theorem length_links_renderParsed (ctx : NosRenderCtx) (line : NosGemtextLine) :
    (renderParsed ctx line).2.links.length =
      if line.isLink then min nosMaxLinks (ctx.links.length + 1) else ctx.links.length := by
  by_cases isLink : line.isLink
  · rw [if_pos isLink, (renderParsed_link ctx isLink).1, List.length_take, List.length_append,
      List.length_singleton]
  · rw [if_neg isLink, renderParsed_other ctx isLink]

/-- Rendering lines writes what is written for them. -/
theorem rendered_renderAll {ctx : NosRenderCtx} (counting : Counting ctx)
    {parsed : List NosGemtextLine} (plain : ∀ line ∈ parsed, PlainLine line) :
    Rendered ctx (pageWrites ctx.links.length parsed) (renderAll ctx parsed) := by
  induction parsed generalizing ctx with
  | nil => exact ⟨.nil _, rfl⟩
  | cons line parsed inductionHypothesis =>
    obtain ⟨first, others⟩ := List.forall_mem_cons.mp plain
    have rendered := rendered_renderParsed counting first
    have further := inductionHypothesis (rendered.counting counting) others
    rw [pageWrites, renderAll_cons]
    rw [← length_links_renderParsed]
    exact rendered.append further

/-! ### The lines that a stream displays -/

/-- The lines that the feeds and the flush display of a document: up to the first one that does not
fit the line buffer or that the parser refuses. -/
def fedLines (inPre : Bool) : List Text → List NosGemtextLine
  | [] => []
  | line :: rest =>
    if line.length ≥ streamLineSize then []
    else
      match nosGemtextParseLine (cString line) inPre with
      | none => []
      | some (parsed, inPre) => parsed :: fedLines inPre rest

/-- What a stream in the middle of a line shows when it is fed a text, and is flushed if that
succeeds. -/
theorem feed_shows (st : NosRenderStream) (data : Text) (fits : st.line.length < streamLineSize) :
    (if (nosRenderStreamFeed st data).1 ≠ 0 then (nosRenderStreamFeed st data).2.1
      else (nosRenderStreamFeed st data).2.1 ++
        (nosRenderStreamFlush (nosRenderStreamFeed st data).2.2).2.1) =
      (renderAll st.ctx (fedLines st.inPre (lineTexts st.line data))).1 := by
  induction data generalizing st with
  | nil =>
    rw [nosRenderStreamFeed, lineTexts, if_neg (not_not.mpr rfl), List.nil_append,
      nosRenderStreamFlush]
    by_cases empty : st.line = []
    · rw [if_pos empty, if_pos empty]
      rfl
    · rw [if_neg empty, if_neg empty, renderLine, fedLines, if_neg (not_le.mpr fits)]
      cases nosGemtextParseLine (cString st.line) st.inPre with
      | none => rfl
      | some done => simp [fedLines, renderAll]
  | cons c data inductionHypothesis =>
    rw [nosRenderStreamFeed, lineTexts]
    by_cases isCr : c = cr
    · simp only [if_pos isCr]
      exact inductionHypothesis st fits
    simp only [if_neg isCr]
    by_cases isLf : c = lf
    · simp only [if_pos isLf, fedLines, if_neg (not_le.mpr fits)]
      cases parsed : nosGemtextParseLine (cString st.line) st.inPre with
      | none => simp [renderLine, parsed, renderAll]
      | some done =>
        obtain ⟨line, inPre⟩ := done
        have rest := inductionHypothesis ⟨(renderParsed st.ctx line).2, inPre, []⟩
          (Nat.zero_lt_succ _)
        simp only [renderLine, parsed, renderAll_cons, ← rest, List.append_assoc]
        split
        · rfl
        · rfl
    simp only [if_neg isLf]
    by_cases full : st.line.length + 1 ≥ streamLineSize
    · -- the line does not fit: the feed fails, and the flush is not called
      obtain ⟨more, rest, equal⟩ := lineTexts_unfinished (show st.line ++ [c] ≠ [] by simp) data
      have long : (st.line ++ [c] ++ more).length ≥ streamLineSize := by
        rw [List.length_append, List.length_append, List.length_singleton]
        omega
      simp only [if_pos full, equal, fedLines, if_pos long]
      rfl
    · simp only [if_neg full]
      exact inductionHypothesis { st with line := st.line ++ [c] } (by
        rw [List.length_append, List.length_singleton]
        omega)

theorem plain_fedLines {inPre : Bool} {texts : List Text} (plain : ∀ source ∈ texts, lf ∉ source) :
    ∀ line ∈ fedLines inPre texts, PlainLine line := by
  induction texts generalizing inPre with
  | nil => exact fun _ member => by cases member
  | cons source texts inductionHypothesis =>
    obtain ⟨first, others⟩ := List.forall_mem_cons.mp plain
    rw [fedLines]
    split
    · exact fun _ member => by cases member
    split
    · exact fun _ member => by cases member
    rename_i parsed after done
    obtain ⟨textPart, urlPart⟩ := nosGemtextParseLine_parts done
    have inSource : cString source ⊆ source := (List.takeWhile_prefix _).subset
    exact List.forall_mem_cons.mpr ⟨⟨fun member => first (inSource (textPart.subset member)),
      fun member => first (inSource (urlPart.subset member))⟩, inductionHypothesis others⟩

/-! ### The writes of a body -/

/-- The line feeds of a raw chunk are counted behind the chunk. -/
def rawWrite (chunk : Text) : Write := ⟨chunk.count lf, chunk.count lf⟩

/-- What is written for a body below the header line. -/
def bodyWrites (resp : NosGeminiResp) (chunks : List Text) : List Write :=
  if isGemtext resp.metaText then pageWrites 0 (fedLines false (lineTexts [] chunks.flatten))
  else chunks.map rawWrite

/-- What a body puts on the screen: the callback takes the chunks until it refuses one, and a
gemtext stream that took all of them is flushed. -/
def bodyScreen (resp : NosGeminiResp) (pageLines : Nat) (chunks : List Text) : List Out :=
  let (rc, st) := deliver (bodyCb resp) (.start pageLines) chunks
  match st.kind with
  | .gem rstream =>
    if rc ≠ 0 then st.screen else st.screen ++ (nosRenderStreamFlush rstream).2.1
  | _ => st.screen

theorem honest_lineWrites (links : Nat) (line : NosGemtextLine) :
    Honest (lineWrites links line) := by
  have wrapped (lead p : Text) : (paragraph lead p).counted ≤ (paragraph lead p).feeds :=
    Nat.le_add_left _ _
  obtain ⟨type, body, url⟩ := line
  cases type <;> simp [lineWrites, Honest, wrapped]

theorem honest_pageWrites (links : Nat) (parsed : List NosGemtextLine) :
    Honest (pageWrites links parsed) := by
  induction parsed generalizing links with
  | nil => exact fun _ member => by cases member
  | cons line parsed inductionHypothesis =>
    rw [pageWrites]
    exact List.forall_mem_append.mpr ⟨honest_lineWrites _ _, inductionHypothesis _⟩

theorem honest_bodyWrites (resp : NosGeminiResp) (chunks : List Text) :
    Honest (bodyWrites resp chunks) := by
  unfold bodyWrites
  split
  · exact honest_pageWrites _ _
  · intro write member
    obtain ⟨chunk, _, rfl⟩ := List.mem_map.mp member
    exact Nat.le_refl _

/-- The line feeds of a chunk are counted one by one. -/
theorem foldl_rawLineBreak (kind : BodyKind) {rawLines pageLines : Nat}
    (small : rawLines < pageLines) (screen : List Out) (chunk : Text) :
    chunk.foldl (fun st c => if c = lf then rawLineBreak st else st)
        ⟨kind, rawLines, pageLines, screen⟩ =
      ⟨kind, (rawLines + chunk.count lf) % pageLines, pageLines,
        screen ++ List.replicate ((rawLines + chunk.count lf) / pageLines) .pause⟩ := by
  have positive : 0 < pageLines := Nat.zero_lt_of_lt small
  induction chunk generalizing rawLines screen with
  | nil =>
    rw [List.foldl_nil, List.count_nil, Nat.add_zero, Nat.mod_eq_of_lt small,
      Nat.div_eq_of_lt small, List.replicate_zero, List.append_nil]
  | cons c chunk inductionHypothesis =>
    rw [List.foldl_cons]
    by_cases isLf : c = lf
    · rw [if_pos isLf, isLf, List.count_cons_self, rawLineBreak]
      dsimp only
      by_cases full : rawLines + 1 ≥ pageLines
      · have ends : rawLines + (chunk.count lf + 1) = pageLines + chunk.count lf := by omega
        rw [if_pos ⟨positive, full⟩, inductionHypothesis positive, ends, Nat.add_mod_left,
          Nat.add_div_left _ positive, List.replicate_succ, List.append_assoc, Nat.zero_add]
        rfl
      · have next : rawLines + (chunk.count lf + 1) = rawLines + 1 + chunk.count lf := by omega
        rw [if_neg fun both => full both.2, inductionHypothesis (not_le.mp full), next]
    · rw [if_neg isLf, inductionHypothesis small, List.count_cons_of_ne isLf]

theorem deliver_raw_shows (resp : NosGeminiResp) {rawLines pageLines : Nat}
    (small : rawLines < pageLines) (screen : List Out) (chunks : List Text) :
    ∃ shown after, deliver (bodyCb resp) ⟨.raw, rawLines, pageLines, screen⟩ chunks =
        (0, ⟨.raw, after, pageLines, screen ++ shown⟩) ∧
      Shows .pause Out.feeds pageLines rawLines (chunks.map rawWrite) shown after := by
  induction chunks generalizing rawLines screen with
  | nil =>
    refine ⟨[], rawLines, ?_, .nil _⟩
    rw [List.append_nil]
    rfl
  | cons chunk chunks inductionHypothesis =>
    let pauses := List.replicate ((rawLines + chunk.count lf) / pageLines) Out.pause
    have step : bodyCb resp ⟨.raw, rawLines, pageLines, screen⟩ chunk =
        (0, ⟨.raw, (rawLines + chunk.count lf) % pageLines, pageLines,
          screen ++ [.put chunk] ++ pauses⟩) :=
      congrArg (Prod.mk (0 : Int))
        (foldl_rawLineBreak .raw small (screen ++ [Out.put chunk]) chunk)
    obtain ⟨shown, after, delivered, shows⟩ := inductionHypothesis
      (Nat.mod_lt (rawLines + chunk.count lf) (Nat.zero_lt_of_lt small))
      (screen ++ [.put chunk] ++ pauses)
    refine ⟨[.put chunk] ++ pauses ++ shown, after, ?_, .cons (by simp) rfl shows⟩
    rw [deliver, step, if_neg (not_not.mpr rfl), delivered]
    simp only [List.append_assoc]

/-- Above a body with a chunk stands a header line, and below it are the writes of the body. -/
theorem bodyScreen_shows {pageLines : Nat} (positive : 0 < pageLines) (resp : NosGeminiResp)
    {chunks : List Text} (some : chunks ≠ []) :
    ∃ header shown after, bodyScreen resp pageLines chunks = .put header :: shown ∧
      header.count lf = 1 ∧
      Shows .pause Out.feeds pageLines 0 (bodyWrites resp chunks) shown after := by
  obtain ⟨chunk, chunks, rfl⟩ := List.exists_cons_of_ne_nil some
  unfold bodyScreen bodyWrites
  rw [deliver_decided]
  by_cases gemtext : isGemtext resp.metaText
  · rw [if_pos gemtext]
    let header := text "--- Gemtext ---\n"
    let rstream := nosRenderStreamInit (bodyCtx pageLines)
    have decided : decideBody resp (.start pageLines) =
        ⟨.gem rstream, 0, pageLines, [.put header]⟩ := by
      simp only [decideBody, NosBodyState.start, gemtext, if_true]
      rfl
    have shown := feed_shows rstream (chunk :: chunks).flatten (Nat.zero_lt_succ _)
    rw [← feedChunks_eq] at shown
    have plain : ∀ line ∈ fedLines false (lineTexts [] (chunk :: chunks).flatten),
        PlainLine line :=
      plain_fedLines fun source member =>
        (lineTexts_plain List.not_mem_nil List.not_mem_nil _ source member).2
    have rendered := rendered_renderAll (show Counting rstream.ctx from positive) plain
    refine ⟨header, _, _, ?_, by decide, rendered.shows⟩
    rw [decided, deliver_gem_eq rfl]
    refine Eq.trans ?_ (congrArg (List.cons (Out.put header)) shown)
    by_cases refused : (feedChunks rstream (chunk :: chunks)).1 ≠ 0
    · simp only [if_pos refused]
      rfl
    · simp only [if_neg refused]
      rfl
  · rw [if_neg gemtext]
    have decided : decideBody resp (.start pageLines) =
        ⟨.raw, 0, pageLines, [.put (text "--- Response ---\n")]⟩ := by
      simp only [decideBody, NosBodyState.start, gemtext, if_false, Bool.false_eq_true]
      rfl
    obtain ⟨shown, after, delivered, shows⟩ := deliver_raw_shows resp positive
      [.put (text "--- Response ---\n")] (chunk :: chunks)
    rw [decided, delivered]
    exact ⟨_, shown, after, rfl, by decide, shows⟩

/-- For every size of a page, every response and every chunking of its body: between two pauses and
before the first one there are no more line feeds than the page has lines exactly when there is no
pause, because fewer line feeds are counted. When what is behind the last pause is to fit as well,
this is so exactly when the header line and all of the body fit on one page. Below the header line
it is so exactly when the body fits its pages: no raw chunk crosses the end of a page, no line of
gemtext that is wrapped is followed by a pause, and what is written behind the last pause fits on a
page. -/
theorem bodyScreen_paged_iff {pageLines : Nat} (positive : 0 < pageLines) (resp : NosGeminiResp)
    (chunks : List Text) :
    (PagedBetween .pause Out.feeds pageLines (bodyScreen resp pageLines chunks) ↔
      countedOf (bodyWrites resp chunks) < pageLines) ∧
    (Paged .pause Out.feeds pageLines (bodyScreen resp pageLines chunks) ↔
      1 + feedsOf (bodyWrites resp chunks) ≤ pageLines) ∧
    (Paged .pause Out.feeds pageLines (bodyScreen resp pageLines chunks).tail ↔
      EvenPages pageLines (bodyWrites resp chunks)) := by
  have honest := honest_bodyWrites resp chunks
  by_cases none : chunks = []
  · -- nothing is written without a chunk
    have nothing : bodyWrites resp chunks = [] := by
      rw [none, bodyWrites]
      split
      · rfl
      · rfl
    have blank : bodyScreen resp pageLines chunks = [] := by
      rw [none]
      rfl
    have empty : Paged .pause Out.feeds pageLines [] ↔ EvenPages pageLines [] :=
      paged_iff_evenPages positive (nothing ▸ honest) (.nil 0)
    have between : PagedBetween .pause Out.feeds pageLines [] := fun stretch inside _ => by
      simp at inside
    rw [blank, nothing]
    exact ⟨iff_of_true between positive,
      iff_of_true (empty.mpr ⟨by simp, by simp, by simp⟩) positive, empty⟩
  · obtain ⟨header, shown, after, screen, one, shows⟩ := bodyScreen_shows positive resp none
    have noPause : Out.put header ≠ .pause := fun equal => by cases equal
    rw [screen]
    exact ⟨pagedBetween_below_iff positive honest shows noPause one,
      paged_below_iff positive honest shows noPause one,
      paged_iff_evenPages positive honest shows⟩

/-- A successful response with a META. -/
def metaResp (metaText : String) : NosGeminiResp := ⟨20, text metaText⟩

/-- Two lines of gemtext in three chunks fit on a page with four lines. -/
theorem bodyScreen_paged_iff_small :
    PagedBetween .pause Out.feeds 4
        (bodyScreen (metaResp "text/gemini") 4 [text "a", text "\n* b", text "\n"]) ∧
      Paged .pause Out.feeds 4
        (bodyScreen (metaResp "text/gemini") 4 [text "a", text "\n* b", text "\n"]) :=
  have exactly := bodyScreen_paged_iff (by decide) (metaResp "text/gemini")
    [text "a", text "\n* b", text "\n"]
  ⟨exactly.1.mpr (by decide), exactly.2.1.mpr (by decide)⟩

/-- A page has two lines and a raw chunk has four: all of them are on the screen before the first
pause. -/
theorem bodyScreen_scrolls :
    bodyScreen (metaResp "text/plain") 2 [text "a\nb\nc\nd\n"] =
        [.put (text "--- Response ---\n"), .put (text "a\nb\nc\nd\n"), .pause, .pause] ∧
      feedsIn Out.feeds [Out.put (text "a\nb\nc\nd\n")] = 4 ∧
      ¬ PagedBetween .pause Out.feeds 2
        (bodyScreen (metaResp "text/plain") 2 [text "a\nb\nc\nd\n"]) := by
  refine ⟨by decide, by decide, fun paged => ?_⟩
  exact absurd (paged [.put (text "a\nb\nc\nd\n")] ⟨[_], [_], rfl⟩ (by decide)) (by decide)

end Nosgem
