/-
This file settles which bookmarks come back. A bookmark is one line of a
gemtext file, with a blank between its URL and its label, and the reader is the
renderer of gemtext documents. It splits the line at the first blank behind the
URL, deletes every CR, ends it at the first LF and has less room for a URL than
the writer. So the line is read back as the link it was written for exactly
when nothing of this touches its URL and its label.
-/

import Nosgem.Documents
import Nosgem.Files
import Nosgem.UrlInvariant

namespace Nosgem

open CText Interaction

/-! ### What a link line can carry -/

/-- A URL and a label that the reader leaves as they are: the URL fits its buffer and has no byte at
which the reader stops or that it deletes, and there is no CR in the label. -/
structure PassesLine (url label : Text) : Prop where
  urlShort : url.length ≤ 511
  urlSolid : ∀ c ∈ url, isBlank c = false ∧ c ≠ cr ∧ c ≠ lf
  labelSolid : cr ∉ label

/-- Every link of a document passes through a line. -/
theorem passesLine_of_mem_pageLinks {document : Text} {link : NosLink}
    (member : link ∈ pageLinks document) : PassesLine link.url link.label := by
  obtain ⟨line, linkLine, rfl⟩ := List.mem_map.mp (List.mem_of_mem_take member)
  obtain ⟨shown, isLink⟩ := List.mem_filter.mp linkLine
  obtain ⟨source, among, before, after, done⟩ := source_of_mem_shownLines shown
  obtain ⟨noCr, noLf⟩ := lineTexts_plain List.not_mem_nil List.not_mem_nil document source among
  have inSource : cString (source.take (streamLineSize - 1)) <:+: source :=
    (List.takeWhile_prefix _).isInfix.trans (List.take_prefix _ _).isInfix
  obtain ⟨textInside, urlInside⟩ := nosGemtextParseLine_parts done
  obtain ⟨_, _, _, url, _⟩ :=
    nosGemtextParseLine_link done (by simpa [NosGemtextLine.isLink] using isLink)
  have urlPart : (linkOf line).url <:+: source :=
    (List.take_prefix _ _).isInfix.trans (urlInside.trans inSource)
  have labelPart : (linkOf line).label <:+: source := by
    have label : linkLabel line <:+: source := by
      unfold linkLabel
      refine (List.take_prefix _ _).isInfix.trans ?_
      split
      · exact textInside.trans inSource
      · exact urlInside.trans inSource
    exact (List.take_prefix _ _).isInfix.trans label
  refine ⟨List.length_take_le _ _, fun c member => ⟨?_, ?_, ?_⟩, fun member => ?_⟩
  · have token := List.mem_of_mem_take member
    rw [url] at token
    simpa using List.mem_takeWhile_imp token
  · exact fun equal => noCr (equal ▸ urlPart.subset member)
  · exact fun equal => noLf (equal ▸ urlPart.subset member)
  · exact noCr (labelPart.subset member)

/-! ### The line of a bookmark -/

/-- The line that is written for a bookmark, without its end. -/
def bookmarkLine (url label : Text) : Text :=
  text "=> " ++ url ++ if label ≠ [] then text " " ++ label else []

/-- The entry that a bookmark is written for: without a label the reader displays the URL, as far as
the buffer of a label has room for it. -/
def bookmarkLink (url label : Text) : NosLink :=
  ⟨url, if label = [] then url.take 255 else label⟩

/-- The stripped line ends in none of the bytes that are stripped, and was read as one line. -/
theorem rstripNewline_plain {max : Nat} (line : FgetsLine max) :
    lf ∉ rstripNewline line.bytes ∧ (rstripNewline line.bytes).length < max := by
  have leads : rstripNewline line.bytes <+: line.bytes := by
    refine (List.reverse_suffix.mp ?_).trans (List.takeWhile_prefix (· ≠ 0))
    rw [rstripNewline, List.reverse_reverse]
    exact List.dropWhile_suffix _
  refine ⟨fun member => ?_, Nat.lt_of_le_of_lt leads.length_le line.fits⟩
  have kept := List.head?_dropWhile_not (fun c => c == lf || c == cr) (cString line.bytes).reverse
  rw [← List.getLast?_reverse, ← rstripNewline] at kept
  generalize rstripNewline line.bytes = stripped at leads member kept
  rw [← List.dropLast_append_getLast line.some, List.prefix_concat_iff] at leads
  rcases leads with rfl | inside
  · -- the whole line is left, so its last byte is no LF
    rcases List.mem_append.mp member with early | last
    · exact line.oneLine early
    · rw [List.getLast?_concat, ← List.mem_singleton.mp last] at kept
      exact absurd kept (by decide)
  · exact line.oneLine (inside.subset member)

/-- The parser reads back a URL and a label from the line that was written for them. -/
theorem nosGemtextParseLine_bookmark {url label : Text} (passes : PassesLine url label)
    (some : url ≠ []) (noBlank : ∀ c ∈ label.head?, isBlank c = false)
    (fits : label.length < gemtextTextSize) :
    nosGemtextParseLine (bookmarkLine url label) false = .some (⟨.link, label, url⟩, false) := by
  set back := if label ≠ [] then text " " ++ label else [] with backEq
  have solid : ∀ c ∈ url, (!isBlank c) = true := fun c member => by
    simp [(passes.urlSolid c member).1]
  have trimmed : trimLeft ((bookmarkLine url label).drop 2) = url ++ back := by
    obtain ⟨c, rest, rfl⟩ := List.exists_cons_of_ne_nil some
    have first : isBlank c = false := (passes.urlSolid c List.mem_cons_self).1
    change (byte ' ' :: c :: (rest ++ back)).dropWhile isBlank = c :: (rest ++ back)
    rw [List.dropWhile_cons_of_pos rfl, List.dropWhile_cons_of_neg (by simp [first])]
  have token : (url ++ back).takeWhile (fun c => !isBlank c) = url := by
    have ends : back.takeWhile (fun c => !isBlank c) = [] := by
      rw [backEq]
      split
      · rfl
      · rfl
    rw [List.takeWhile_append_of_pos solid, ends, List.append_nil]
  have behind : trimLeft back = label := by
    rw [backEq]
    cases label with
    | nil => rfl
    | cons c rest =>
      have first : isBlank c = false := noBlank c rfl
      change (byte ' ' :: c :: rest).dropWhile isBlank = c :: rest
      rw [List.dropWhile_cons_of_pos rfl, List.dropWhile_cons_of_neg (by simp [first])]
  have short : ¬ url.length ≥ gemtextUrlSize := not_le.mpr (Nat.lt_succ_of_le passes.urlShort)
  have noFence : ¬ (text "```").isPrefixOf (bookmarkLine url label) := Bool.false_ne_true
  have noHash : (bookmarkLine url label).head? ≠ .some (byte '#') := fun equal => by
    have same : byte '=' = byte '#' := Option.some.inj equal
    exact absurd same (by decide)
  have marked : (text "=>").isPrefixOf (bookmarkLine url label) := rfl
  rw [nosGemtextParseLine, if_neg noFence, if_neg Bool.false_ne_true, if_neg noHash, if_pos marked]
  dsimp only
  rw [trimmed, token, if_neg short, List.drop_left, behind, storeText, if_neg (not_le.mpr fits)]

theorem linkOf_bookmark {url label : Text} (passes : PassesLine url label)
    (fits : label.length < wordSize) : linkOf ⟨.link, label, url⟩ = bookmarkLink url label := by
  have whole : url.take (gemtextUrlSize - 1) = url := List.take_of_length_le passes.urlShort
  have shown : ∀ p : Text, (p.take (wordSize - 1)).take (wordSize - 1) = p.take 255 := fun p => by
    rw [List.take_take, Nat.min_self, wordSize]
  rw [linkOf, bookmarkLink, whole, linkLabel, shown]
  by_cases empty : label = []
  · rw [if_pos empty, if_neg (not_not.mpr empty)]
  · rw [if_neg empty, if_pos empty, List.take_of_length_le (Nat.le_of_lt_succ fits)]

/-! ### Rendering a file -/

/-- A document that arrives in chunks is fed to the stream and flushed without an error, and the
stream is left as `st`. -/
def Renders (ctx : NosRenderCtx) (chunks : List Text) (st : NosRenderStream) : Prop :=
  ∃ out fed more, feedChunks (nosRenderStreamInit ctx) chunks = (0, out, fed) ∧
    nosRenderStreamFlush fed = (0, more, st)

section Rendering

variable {ctx : NosRenderCtx} {chunks : List Text} {st : NosRenderStream}

theorem Renders.links (renders : Renders ctx chunks st) :
    st.ctx.links = pageLinks chunks.flatten := by
  obtain ⟨_, _, _, fed, flushed⟩ := renders
  have table := links_flush ctx chunks
  rwa [fed, flushed] at table

/-- Behind a line end the buffer is empty. -/
theorem line_feed_terminated {data : Text} (terminated : Terminated data) (empty : st.line = [])
    (fed : (nosRenderStreamFeed st data).1 = 0) : (nosRenderStreamFeed st data).2.2.line = [] := by
  rcases terminated with rfl | ⟨front, rfl⟩
  · exact empty
  rw [nosRenderStreamFeed_append] at fed ⊢
  split at fed
  · rename_i failed
    exact absurd fed failed
  rename_i taken
  rw [if_neg taken]
  generalize (nosRenderStreamFeed st front).2.2 = middle at fed ⊢
  dsimp only at fed ⊢
  rw [nosRenderStreamFeed, if_neg (show lf ≠ cr by decide), if_pos rfl] at fed ⊢
  cases rendered : renderLine middle with
  | none => simp [rendered] at fed
  | some shown =>
    unfold renderLine at rendered
    split at rendered
    · cases rendered
    · cases rendered
      rfl

/-- A file that ends in a line end is taken by the feeds alone. -/
theorem Renders.fed (renders : Renders ctx chunks st) (terminated : Terminated chunks.flatten) :
    st.line = [] ∧
      ∃ out, nosRenderStreamFeed (nosRenderStreamInit ctx) chunks.flatten = (0, out, st) := by
  obtain ⟨out, fed, more, taken, flushed⟩ := renders
  rw [feedChunks_eq] at taken
  have empty : fed.line = [] := by
    have ended :=
      line_feed_terminated terminated (show (nosRenderStreamInit ctx).line = [] from rfl)
    rw [taken] at ended
    exact ended rfl
  rw [nosRenderStreamFlush, if_pos empty] at flushed
  cases flushed
  exact ⟨empty, out, taken⟩

/-- A line behind such a file that the parser takes is rendered behind it. -/
theorem Renders.append_line (renders : Renders ctx chunks st)
    (terminated : Terminated chunks.flatten) {line : Text} {shown : NosGemtextLine} {inPre : Bool}
    (parsed : nosGemtextParseLine line st.inPre = some (shown, inPre)) (nulFree : 0 ∉ line)
    (noCr : cr ∉ line) (noLf : lf ∉ line) (short : line.length < streamLineSize)
    {longer : List Text} (joined : longer.flatten = chunks.flatten ++ (line ++ [lf])) :
    ∃ after, Renders ctx longer after ∧ after.ctx = (renderParsed st.ctx shown).2 := by
  obtain ⟨empty, out, fed⟩ := renders.fed terminated
  have texts : lineTexts st.line (line ++ [lf]) = [line] := by
    rw [lineTexts_line noCr noLf, empty]
    rfl
  obtain ⟨output, succeeds⟩ :=
    feed_flush st (line ++ [lf]) (by rw [empty]; exact Nat.zero_lt_succ _)
  have lineShown : shownLines st.inPre [line] = [shown] := by
    rw [shownLines, List.take_of_length_le (Nat.le_sub_one_of_lt short), cString_eq_self nulFree,
      parsed]
    simp [shownLines]
  have accepted : acceptsLines st.inPre [line] := by
    rw [acceptsLines, cString_eq_self nulFree, parsed]
    simp [acceptsLines, short]
  rw [texts] at output succeeds
  rw [lineShown] at output
  obtain ⟨second, flushed⟩ := succeeds.mpr accepted
  have taken : feedChunks (nosRenderStreamInit ctx) longer =
      (0, out ++ (nosRenderStreamFeed st (line ++ [lf])).2.1,
        (nosRenderStreamFeed st (line ++ [lf])).2.2) := by
    rw [feedChunks_eq, joined, nosRenderStreamFeed_append, fed, if_neg (not_not.mpr rfl)]
    exact Prod.ext second rfl
  exact ⟨_, ⟨_, _, _, taken, Prod.ext flushed rfl⟩, congrArg Prod.snd output⟩

end Rendering

/-! ### The round trip -/

/-- A bookmarks file that is there and to which a bookmark can be added: it ends in a line end, it
was rendered without an error, its last line stands outside the preformatted blocks, and there is
room in the link table. -/
structure TakesBookmark (ctx : NosRenderCtx) (chunks : List Text) (st : NosRenderStream) :
    Prop where
  terminated : Terminated chunks.flatten
  renders : Renders ctx chunks st
  outside : st.inPre = false
  room : st.ctx.links.length < nosMaxLinks

/-- The file is rendered again, and its link table is the old one with the bookmark behind it. -/
def BookmarkKept (ctx : NosRenderCtx) (longer : List Text) (st : NosRenderStream)
    (url label : Text) : Prop :=
  ∃ after, Renders ctx longer after ∧ after.ctx.links = st.ctx.links ++ [bookmarkLink url label]

/-- The writer puts the line of the bookmark behind the file. -/
theorem nosBookmarksAdd_appends {url label : Text} (some : url ≠ []) {desk after : Desk}
    {trace : List (Event Answer)} {rc : Int}
    (run : Steps fileEnv desk (nosBookmarksAdd url label) trace after (.ret rc)) :
    rc = 0 ∧ after.disk .bookmarks =
      .some (desk.content .bookmarks ++ (bookmarkLine url label ++ [lf])) := by
  unfold nosBookmarksAdd at run
  rw [if_neg some] at run
  obtain ⟨opened, _, _, ⟨rfl, rfl⟩, writing, _⟩ := run.perform_ret
  obtain ⟨written, _, _, ⟨rfl, rfl⟩, closing, _⟩ := writing.perform_ret
  obtain ⟨closed, _, _, ⟨rfl, rfl⟩, done, _⟩ := closing.perform_ret
  obtain ⟨rfl, rfl, equal⟩ := done.of_ret
  cases equal
  refine ⟨rfl, ?_⟩
  rw [Desk.disk_put_self, Desk.content, Desk.disk_put_self, Option.getD_some, bookmarkLine,
    List.append_assoc _ _ [lf]]

theorem nulFree_makeCurrentUrl {url : NosUrl} (sound : url.Sound) (outMax : Nat) :
    0 ∉ makeCurrentUrl url outMax := by
  have scheme : 0 ∉ nosUrlScheme := by decide
  have port : 0 ∉ if url.port ≠ nosDefaultPort then colon :: decimal url.port else [] := by
    split
    · rw [List.mem_cons, not_or]
      exact ⟨by decide, fun member => absurd (isDigit_of_mem_decimal member) (by decide)⟩
    · exact List.not_mem_nil
  unfold makeCurrentUrl
  split
  · exact List.not_mem_nil
  · simp only [List.mem_append, not_or]
    exact ⟨⟨⟨scheme, sound.hostEnds⟩, port⟩, sound.pathEnds⟩

theorem nulFree_bookmarkLine {url label : Text} (urlEnds : 0 ∉ url) (labelEnds : 0 ∉ label) :
    0 ∉ bookmarkLine url label := by
  have back : 0 ∉ if label ≠ [] then text " " ++ label else [] := by
    split
    · rw [List.mem_append, not_or]
      exact ⟨by decide, labelEnds⟩
    · exact List.not_mem_nil
  rw [bookmarkLine, List.mem_append, List.mem_append, not_or, not_or]
  exact ⟨⟨by decide, urlEnds⟩, back⟩

/-- A bookmark that passes through its line comes back. -/
theorem BookmarkKept.of_passes {url label : Text} (passes : PassesLine url label) (some : url ≠ [])
    (noBlank : ∀ c ∈ label.head?, isBlank c = false) (urlEnds : 0 ∉ url) (labelEnds : 0 ∉ label)
    (labelLf : lf ∉ label) (labelShort : label.length < 128) {ctx : NosRenderCtx}
    {chunks longer : List Text} {st : NosRenderStream} (file : TakesBookmark ctx chunks st)
    (joined : longer.flatten = chunks.flatten ++ (bookmarkLine url label ++ [lf])) :
    BookmarkKept ctx longer st url label := by
  have plain : cr ∉ bookmarkLine url label ∧ lf ∉ bookmarkLine url label := by
    have back : cr ∉ (if label ≠ [] then text " " ++ label else []) ∧
        lf ∉ (if label ≠ [] then text " " ++ label else []) := by
      split
      · simp only [List.mem_append, not_or]
        exact ⟨⟨by decide, passes.labelSolid⟩, ⟨by decide, labelLf⟩⟩
      · exact ⟨List.not_mem_nil, List.not_mem_nil⟩
    simp only [bookmarkLine, List.mem_append, not_or]
    exact ⟨⟨⟨by decide, fun member => (passes.urlSolid _ member).2.1 rfl⟩, back.1⟩,
      ⟨⟨by decide, fun member => (passes.urlSolid _ member).2.2 rfl⟩, back.2⟩⟩
  have short : (bookmarkLine url label).length < streamLineSize := by
    have back : (if label ≠ [] then text " " ++ label else []).length ≤ 1 + label.length := by
      split
      · rw [List.length_append]
        exact Nat.le_refl _
      · exact Nat.zero_le _
    have front : (text "=> ").length = 3 := rfl
    have urlShort := passes.urlShort
    rw [bookmarkLine, List.length_append, List.length_append, streamLineSize]
    omega
  have parsed := nosGemtextParseLine_bookmark passes some noBlank
    (Nat.lt_trans labelShort (by decide))
  rw [← file.outside] at parsed
  obtain ⟨after, renders, rendered⟩ := file.renders.append_line file.terminated parsed
    (nulFree_bookmarkLine urlEnds labelEnds) plain.1 plain.2 short joined
  refine ⟨after, renders, ?_⟩
  rw [rendered, (renderParsed_link st.ctx rfl).1,
    linkOf_bookmark passes (Nat.lt_trans labelShort (by decide))]
  refine List.take_of_length_le ?_
  rw [List.length_append, List.length_singleton]
  exact file.room

/-- A bookmark that comes back has passed through a line. -/
theorem BookmarkKept.passes {ctx : NosRenderCtx} {longer : List Text} {st : NosRenderStream}
    {url label : Text} (kept : BookmarkKept ctx longer st url label) : PassesLine url label := by
  obtain ⟨after, renders, table⟩ := kept
  have listed : bookmarkLink url label ∈ pageLinks longer.flatten := by
    rw [← renders.links, table]
    exact List.mem_append_right _ List.mem_cons_self
  obtain ⟨urlShort, urlSolid, labelSolid⟩ := passesLine_of_mem_pageLinks listed
  refine ⟨urlShort, urlSolid, ?_⟩
  by_cases empty : label = []
  · rw [empty]
    exact List.not_mem_nil
  · rwa [bookmarkLink, if_neg empty] at labelSolid

/-- For every URL of a reachable state of the main loop, every label a prompt returns and every file
a bookmark can be added to: the bookmark comes back, and the others stay, exactly when the text of
the URL has at most 511 bytes, none of them a blank, a TAB, a CR or an LF, and there is no CR in
the label. -/
theorem bookmarkKept_iff {State : Type} {env : Env Answer State} {raw : Text} {home : NosUrl}
    {fuel pageLines : Nat} {state start asking asked : State} {visited : List MainState}
    {before prompting : List (Event Answer)} {here : MainState} {current : NosUrl}
    {url label : Text} {ctx : NosRenderCtx} {chunks longer : List Text} {st : NosRenderStream}
    {desk after : Desk} {writing : List (Event Answer)} {rc : Int}
    (parsed : nosUrlParse (cString raw) = some home) (memory : ReadsStrings env)
    (turns : Iterates env (turn fuel pageLines) (.initial home) state visited before here start)
    (held : current ∈ here.current :: here.history.items)
    (printed : makeCurrentUrl current urlbufSize = url) (nonEmpty : url ≠ [])
    (prompted : Steps env asking (nosUiPrompt (text "Label (optional): ") 128) prompting asked
      (.ret (some label)))
    (noBlank : ∀ c ∈ label.head?, isBlank c = false)
    (file : TakesBookmark ctx chunks st) (existing : desk.disk .bookmarks = some chunks.flatten)
    (added : Steps fileEnv desk (nosBookmarksAdd url label) writing after (.ret rc))
    (content : after.disk .bookmarks = some longer.flatten) :
    BookmarkKept ctx longer st url label ↔ PassesLine url label := by
  refine ⟨BookmarkKept.passes, fun passes => ?_⟩
  have sound : here.Sound := turns.invariant MainState.Sound
    (fun sound run => sound.turn memory run) (.initial parsed)
  have currentSound : current.Sound := by
    rcases List.mem_cons.mp held with rfl | past
    · exact sound.current
    · exact sound.history current past
  have urlEnds : 0 ∉ url := printed ▸ nulFree_makeCurrentUrl currentSound urlbufSize
  obtain ⟨line, rfl⟩ := nosUiPrompt_line prompted
  obtain ⟨labelLf, labelShort⟩ := rstripNewline_plain line
  obtain ⟨_, written⟩ := nosBookmarksAdd_appends nonEmpty added
  rw [content, Desk.content, existing, Option.getD_some, Option.some.injEq] at written
  exact .of_passes passes nonEmpty noBlank urlEnds (nulFree_rstripNewline line.bytes) labelLf
    labelShort file written

/-! ### A bookmark with a label, and a URL with a blank -/

/-- A desk with a bookmarks file. -/
def bookmarksDesk (file : Text) : Desk :=
  ⟨Function.update (fun _ => none) .bookmarks (some file), []⟩

theorem nosBookmarksAdd_run {url : Text} (some : url ≠ []) (label : Text) (desk : Desk) :
    ∃ trace after, Steps fileEnv desk (nosBookmarksAdd url label) trace after (.ret 0) ∧
      after.disk .bookmarks =
        .some (desk.content .bookmarks ++ (bookmarkLine url label ++ [lf])) := by
  let line := text "=> " ++ url ++ (if label ≠ [] then text " " ++ label else []) ++ [lf]
  let opened := desk.put .bookmarks (.some (desk.content .bookmarks))
  let written := opened.put .bookmarks (.some (opened.content .bookmarks ++ line))
  let writing : List (Event Answer) := [⟨.fopenWrite .bookmarks .append, true⟩,
    ⟨.fputs .bookmarks line, true⟩, ⟨.fclose .bookmarks, true⟩]
  have run : Steps fileEnv desk (nosBookmarksAdd url label) writing written (.ret 0) := by
    unfold nosBookmarksAdd
    rw [if_neg some]
    exact .call ⟨rfl, rfl⟩ (.call ⟨rfl, rfl⟩ (.call ⟨rfl, rfl⟩ (.refl _ _)))
  exact ⟨writing, written, run, (nosBookmarksAdd_appends some run).2⟩

/-- A document is rendered when neither the feed nor the flush reports an error. -/
theorem renders_of_zero {ctx : NosRenderCtx} {chunks : List Text}
    (fed : (feedChunks (nosRenderStreamInit ctx) chunks).1 = 0)
    (flushed : (nosRenderStreamFlush (feedChunks (nosRenderStreamInit ctx) chunks).2.2).1 = 0) :
    Renders ctx chunks
      (nosRenderStreamFlush (feedChunks (nosRenderStreamInit ctx) chunks).2.2).2.2 :=
  ⟨_, _, _, Prod.ext fed rfl, Prod.ext flushed rfl⟩

/-- A file with one bookmark. -/
def oneBookmark : List Text := [text "=> gemini://a/ A\n"]

/-- What rendering it leaves. -/
def oneBookmarkSt : NosRenderStream :=
  (nosRenderStreamFlush (feedChunks (nosRenderStreamInit nosRenderCtxInit) oneBookmark).2.2).2.2

theorem takesBookmark_one : TakesBookmark nosRenderCtxInit oneBookmark oneBookmarkSt where
  terminated := .inr ⟨text "=> gemini://a/ A", rfl⟩
  renders := renders_of_zero (by decide) (by decide)
  outside := by decide
  room := by decide

/-- The home page is bookmarked. -/
theorem bookmarkKept_iff_home :
    ∃ longer, BookmarkKept nosRenderCtxInit longer oneBookmarkSt
      (text "gemini://local/homepage") (text "home") := by
  let label : FgetsLine 128 := ⟨text "home\n", by decide, by decide, by decide⟩
  obtain ⟨writing, after, added, content⟩ := nosBookmarksAdd_run
    (show text "gemini://local/homepage" ≠ [] by decide) (text "home")
    (bookmarksDesk oneBookmark.flatten)
  have prompted := @nosUiPrompt_reads Unit stringsEnv () () (text "Label (optional): ")
    (by decide) 128 label () trivial trivial
  refine ⟨[_], (bookmarkKept_iff (show nosUrlParse (cString (text "gemini://local/homepage")) =
    some homeUrl by decide) (fun _ _ _ strings => strings)
    (.refl _ _ : Iterates stringsEnv (turn 1 24) _ () _ _ _ _) List.mem_cons_self (by decide)
    (by decide) prompted (fun c head => by cases head; rfl) takesBookmark_one rfl added
    (by rw [content, List.flatten_singleton])).mpr ?_⟩
  exact ⟨by decide, by decide, by decide⟩

/-- A URL with a blank in its path, as it is typed. -/
def blankLine : FgetsLine 256 := ⟨text "gemini://h/a b\n", by decide, by decide, by decide⟩

/-- The user goes to a URL with a blank and bookmarks it without a label. The file is rendered
without an error, but the link in it is another one. -/
theorem bookmarkKept_blank :
    ∃ visited before here prompting writing after longer shown,
      nosUrlParse (cString (text "gemini://local/homepage")) = some homeUrl ∧
      Iterates stringsEnv (turn 1 24) (.initial homeUrl) () visited before here () ∧
      makeCurrentUrl here.current urlbufSize = text "gemini://h/a b" ∧
      Steps stringsEnv () (nosUiPrompt (text "Label (optional): ") 128) prompting ()
        (.ret (some [])) ∧
      TakesBookmark nosRenderCtxInit oneBookmark oneBookmarkSt ∧
      Steps fileEnv (bookmarksDesk oneBookmark.flatten)
        (nosBookmarksAdd (text "gemini://h/a b") []) writing after (.ret 0) ∧
      after.disk .bookmarks = some longer ∧
      Renders nosRenderCtxInit [longer] shown ∧
      shown.ctx.links = [⟨text "gemini://a/", text "A"⟩, ⟨text "gemini://h/a", text "b"⟩] ∧
      ¬ BookmarkKept nosRenderCtxInit [longer] oneBookmarkSt (text "gemini://h/a b") [] := by
  have typed : Steps stringsEnv () (turn 1 24 (.initial homeUrl))
      [⟨.print (text "\n== HOME ==\n"), ()⟩, ⟨.fopenRead .homepage, none⟩,
        ⟨.print (text "Failed to open HOMEPAGE.GEM\n"), ()⟩,
        ⟨.print (text "Command (number/url/b/r/h/B/a/q): "), ()⟩,
        ⟨.fgetsStdin 256, some blankLine⟩]
      () (.ret (.inl ((MainState.initial homeUrl).goTo ⟨text "h", 1965, text "/a b"⟩))) := by
    iterate 5 refine .call (show stringsEnv () _ _ () from trivial) ?_
    exact .refl _ _
  let noLabel : FgetsLine 128 := ⟨[lf], by decide, by decide, by decide⟩
  have prompted := @nosUiPrompt_reads Unit stringsEnv () () (text "Label (optional): ")
    (by decide) 128 noLabel () trivial trivial
  obtain ⟨writing, after, added, content⟩ := nosBookmarksAdd_run
    (show text "gemini://h/a b" ≠ [] by decide) [] (bookmarksDesk oneBookmark.flatten)
  have parsed : nosUrlParse (cString (text "gemini://local/homepage")) = some homeUrl := by decide
  have renders : Renders nosRenderCtxInit [text "=> gemini://a/ A\n=> gemini://h/a b\n"] _ :=
    renders_of_zero (by decide) (by decide)
  refine ⟨_, _, _, _, writing, after, _, _, parsed, .step typed (.refl _ _), by decide, prompted,
    takesBookmark_one, added, content, renders, by decide, fun kept => ?_⟩
  exact absurd (kept.passes.urlSolid (byte ' ') (by decide)).1 (by decide)

end Nosgem
