/-
This file settles whether the number displayed before a link identifies it. The
renderer adds the link to its table and then displays the size of the table as
the number; a full table does not grow, so all further links are displayed with
the same number and are not in the table. The numbers identify their links
exactly in the documents with no more link lines than the table has entries.
-/

import Nosgem.Render

namespace Nosgem

open CText

/-! ### Counting the chosen members of a list -/

section Counting

variable {Member : Type} (chosen : Member → Bool)

/-- How many chosen members stand before an index. -/
def countBefore (list : List Member) (i : Nat) : Nat := ((list.take i).filter chosen).length

variable {chosen} {list : List Member} {i j : Nat} {member : Member}

theorem filter_eq_of_getElem? (found : list[i]? = some member) (isChosen : chosen member) :
    list.filter chosen =
      (list.take i).filter chosen ++ member :: (list.drop (i + 1)).filter chosen := by
  obtain ⟨inside, rfl⟩ := List.getElem?_eq_some_iff.mp found
  conv_lhs => rw [← List.take_append_drop i list, List.drop_eq_getElem_cons inside]
  rw [List.filter_append, List.filter_cons_of_pos isChosen]

theorem countBefore_lt_length (found : list[i]? = some member) (isChosen : chosen member) :
    countBefore chosen list i < (list.filter chosen).length := by
  rw [filter_eq_of_getElem? found isChosen, countBefore, List.length_append, List.length_cons]
  omega

theorem getElem?_filter (found : list[i]? = some member) (isChosen : chosen member) :
    (list.filter chosen)[countBefore chosen list i]? = some member := by
  rw [filter_eq_of_getElem? found isChosen, countBefore,
    List.getElem?_append_right (Nat.le_refl _), Nat.sub_self, List.getElem?_cons_zero]

theorem countBefore_lt (found : list[i]? = some member) (isChosen : chosen member) (less : i < j) :
    countBefore chosen list i < countBefore chosen list j := by
  have cut : (list.take j)[i]? = some member := by rw [List.getElem?_take_of_lt less, found]
  have bound := countBefore_lt_length cut isChosen
  rwa [countBefore, List.take_take, Nat.min_eq_left (Nat.le_of_lt less)] at bound

/-- Every count below the number of chosen members is the count before one of them. -/
theorem exists_countBefore {count : Nat} (less : count < (list.filter chosen).length) :
    ∃ i member, list[i]? = some member ∧ chosen member ∧ countBefore chosen list i = count := by
  induction list generalizing count with
  | nil => cases less
  | cons first list inductionHypothesis =>
    by_cases isChosen : chosen first
    · rw [List.filter_cons_of_pos isChosen, List.length_cons] at less
      cases count with
      | zero => exact ⟨0, first, rfl, isChosen, rfl⟩
      | succ count =>
        obtain ⟨i, member, found, holds, equal⟩ := inductionHypothesis (Nat.lt_of_succ_lt_succ less)
        refine ⟨i + 1, member, found, holds, ?_⟩
        rw [countBefore, List.take_succ_cons, List.filter_cons_of_pos isChosen, List.length_cons]
        exact congrArg (· + 1) equal
    · rw [List.filter_cons_of_neg isChosen] at less
      obtain ⟨i, member, found, holds, equal⟩ := inductionHypothesis less
      refine ⟨i + 1, member, found, holds, ?_⟩
      rw [countBefore, List.take_succ_cons, List.filter_cons_of_neg isChosen]
      exact equal

end Counting

/-! ### The link table of a rendered document -/

def NosGemtextLine.isLink (line : NosGemtextLine) : Bool := line.type == .link

/-- The entry `add_link` makes for a link line. -/
def linkOf (line : NosGemtextLine) : NosLink :=
  ⟨line.url.take (gemtextUrlSize - 1), (linkLabel line).take (wordSize - 1)⟩

/-- The link lines of a document, outside its preformatted blocks. -/
def linkLines (document : Text) : List NosGemtextLine :=
  (documentLines document).filter NosGemtextLine.isLink

@[simp] theorem links_renderLineBreak (ctx : NosRenderCtx) :
    (renderLineBreak ctx).2.links = ctx.links := by
  unfold renderLineBreak
  split <;> rfl

@[simp] theorem links_printWrapped (ctx : NosRenderCtx) (lead p : Text) :
    (printWrapped ctx lead p).2.links = ctx.links := links_renderLineBreak ctx

theorem links_addLink (ctx : NosRenderCtx) (url label : Text) :
    (addLink ctx url label).links = List.take nosMaxLinks
      (ctx.links ++ [⟨url.take (gemtextUrlSize - 1), label.take (wordSize - 1)⟩]) := by
  unfold addLink
  split
  · rename_i full
    rw [List.take_append_of_le_length full, List.take_of_length_le ctx.linksFit]
  · rename_i room
    refine (List.take_of_length_le ?_).symm
    rw [List.length_append, List.length_singleton]
    omega

/-- A link line adds its link if there is room, and what is written for it starts with the number of
links then. -/
theorem renderParsed_link (ctx : NosRenderCtx) {line : NosGemtextLine} (isLink : line.isLink) :
    (renderParsed ctx line).2.links = (ctx.links ++ [linkOf line]).take nosMaxLinks ∧
      ∃ more, (renderParsed ctx line).1 =
        .put (linkNumber (renderParsed ctx line).2.links.length) :: more := by
  have type : line.type = .link := by simpa [NosGemtextLine.isLink] using isLink
  have number (count : Nat) : linkNumber count ≠ [] := by
    unfold linkNumber
    simp [show text "[" = [byte '['] from rfl]
  simp only [renderParsed, type, links_printWrapped, links_addLink]
  refine ⟨rfl, ?_⟩
  simp only [printWrapped, number, ne_eq, not_false_eq_true, if_true]
  exact ⟨_, rfl⟩

/-- Every other line leaves the table alone. -/
theorem renderParsed_other (ctx : NosRenderCtx) {line : NosGemtextLine} (other : ¬ line.isLink) :
    (renderParsed ctx line).2.links = ctx.links := by
  obtain ⟨type, body, url⟩ := line
  cases type with
  | link => exact absurd rfl other
  | _ => simp [renderParsed]

theorem take_append_take {Member : Type} (front back : List Member) (count : Nat) :
    (front.take count ++ back).take count = (front ++ back).take count := by
  rw [List.take_append, List.take_append, List.take_take, Nat.min_self, List.length_take]
  congr 2
  omega

/-- The table holds the first links. -/
theorem links_renderAll (ctx : NosRenderCtx) (lines : List NosGemtextLine) :
    (renderAll ctx lines).2.links =
      (ctx.links ++ (lines.filter NosGemtextLine.isLink).map linkOf).take nosMaxLinks := by
  induction lines generalizing ctx with
  | nil => simp [renderAll, List.take_of_length_le ctx.linksFit]
  | cons line lines inductionHypothesis =>
    rw [renderAll_cons, inductionHypothesis]
    by_cases isLink : line.isLink
    · rw [(renderParsed_link ctx isLink).1, List.filter_cons_of_pos isLink, List.map_cons,
        take_append_take, List.append_assoc, List.singleton_append]
    · rw [renderParsed_other ctx isLink, List.filter_cons_of_neg isLink]

theorem renderAll_append (ctx : NosRenderCtx) (front back : List NosGemtextLine) :
    renderAll ctx (front ++ back) =
      ((renderAll ctx front).1 ++ (renderAll (renderAll ctx front).2 back).1,
        (renderAll (renderAll ctx front).2 back).2) := by
  induction front generalizing ctx with
  | nil => rfl
  | cons line front inductionHypothesis =>
    rw [List.cons_append, renderAll_cons, renderAll_cons, inductionHypothesis, List.append_assoc]

/-! ### The numbers on the screen -/

/-- Line `i` is a link line for `url`, and on the screen the number goes on where the output of the
lines before it ends. -/
def DisplayedAs (screen : List Out) (ctx : NosRenderCtx) (lines : List NosGemtextLine)
    (i number : Nat) (url : Text) : Prop :=
  ∃ line more, lines[i]? = some line ∧ line.isLink ∧ line.url = url ∧
    screen = (renderAll ctx (lines.take i)).1 ++ .put (linkNumber number) :: more

/-- What the displayed numbers are for: each finds its link in the table, and no two links share
one. -/
structure NumbersIdentify (screen : List Out) (ctx : NosRenderCtx) (lines : List NosGemtextLine)
    (table : List NosLink) : Prop where
  present : ∀ i number url, DisplayedAs screen ctx lines i number url →
    1 ≤ number ∧ number ≤ table.length ∧ (table[number - 1]?).map NosLink.url = some url
  distinct : ∀ i j number url other, DisplayedAs screen ctx lines i number url →
    DisplayedAs screen ctx lines j number other → i = j

theorem linkNumber_injective : Function.Injective linkNumber := by
  intro count other equal
  unfold linkNumber at equal
  exact decimal_injective (List.append_cancel_left (List.append_cancel_right equal))

/-- A document with an empty table at its start: the number of a link line counts the link lines up
to it, until the table is full. -/
theorem displayedAs_iff {ctx : NosRenderCtx} (empty : ctx.links = []) (lines : List NosGemtextLine)
    (i number : Nat) (url : Text) :
    DisplayedAs (renderAll ctx lines).1 ctx lines i number url ↔
      ∃ line, lines[i]? = some line ∧ line.isLink ∧ line.url = url ∧
        number = min nosMaxLinks (countBefore NosGemtextLine.isLink lines i + 1) := by
  have screen {line : NosGemtextLine} (found : lines[i]? = some line) (isLink : line.isLink) :
      ∃ more, (renderAll ctx lines).1 = (renderAll ctx (lines.take i)).1 ++
        .put (linkNumber (min nosMaxLinks (countBefore NosGemtextLine.isLink lines i + 1))) ::
          more := by
    obtain ⟨inside, rfl⟩ := List.getElem?_eq_some_iff.mp found
    obtain ⟨table, out, shown⟩ := renderParsed_link (renderAll ctx (lines.take i)).2 isLink
    have count : (renderParsed (renderAll ctx (lines.take i)).2 lines[i]).2.links.length =
        min nosMaxLinks (countBefore NosGemtextLine.isLink lines i + 1) := by
      rw [table, links_renderAll, empty, List.nil_append, List.length_take, List.length_append,
        List.length_singleton, List.length_take, List.length_map, countBefore]
      omega
    refine ⟨out ++ (renderAll (renderParsed (renderAll ctx (lines.take i)).2 lines[i]).2
      (lines.drop (i + 1))).1, ?_⟩
    conv_lhs => rw [← List.take_append_drop i lines, List.drop_eq_getElem_cons inside]
    rw [renderAll_append, renderAll_cons, shown, count, List.cons_append]
  constructor
  · rintro ⟨line, more, found, isLink, same, written⟩
    refine ⟨line, found, isLink, same, ?_⟩
    obtain ⟨out, equal⟩ := screen found isLink
    rw [equal] at written
    have first := (List.cons.inj (List.append_cancel_left written)).1
    exact (linkNumber_injective (Out.put.inj first)).symm
  · rintro ⟨line, found, isLink, same, rfl⟩
    obtain ⟨more, equal⟩ := screen found isLink
    exact ⟨line, more, found, isLink, same, equal⟩

/-- A line that is displayed was parsed from the C string of one of the lines, as far as the buffer
has room for it. -/
theorem source_of_mem_shownLines {inPre : Bool} {texts : List Text} {line : NosGemtextLine}
    (member : line ∈ shownLines inPre texts) :
    ∃ source ∈ texts, ∃ before after,
      nosGemtextParseLine (cString (source.take (streamLineSize - 1))) before =
        some (line, after) := by
  induction texts generalizing inPre with
  | nil => cases member
  | cons first texts inductionHypothesis =>
    rw [shownLines] at member
    split at member
    · cases member
    rename_i parsed after done
    rcases List.mem_cons.mp member with rfl | later
    · exact ⟨first, List.mem_cons_self, _, _, done⟩
    · split at later
      · obtain ⟨source, among, parses⟩ := inductionHypothesis later
        exact ⟨source, List.mem_cons_of_mem _ among, parses⟩
      · cases later

theorem parsed_of_mem_shownLines {inPre : Bool} {texts : List Text} {line : NosGemtextLine}
    (member : line ∈ shownLines inPre texts) :
    ∃ buffer before after, nosGemtextParseLine (cString buffer) before = some (line, after) := by
  obtain ⟨source, _, before, after, done⟩ := source_of_mem_shownLines member
  exact ⟨_, before, after, done⟩

theorem url_length_of_mem_shownLines {inPre : Bool} {texts : List Text} {line : NosGemtextLine}
    (member : line ∈ shownLines inPre texts) (isLink : line.isLink) :
    line.url.length < gemtextUrlSize := by
  obtain ⟨buffer, before, after, done⟩ := parsed_of_mem_shownLines member
  exact (nosGemtextParseLine_link done (by simpa [NosGemtextLine.isLink] using isLink)).2.2.2.2

/-- The numbers displayed with an accepted document identify its links exactly when the document has
no more link lines than the table has entries. -/
theorem linkNumbers_iff (ctx : NosRenderCtx) (chunks : List Text) (out more : List Out)
    (st after : NosRenderStream)
    (fed : feedChunks (nosRenderStreamInit ctx) chunks = (0, out, st))
    (flushed : nosRenderStreamFlush st = (0, more, after)) :
    NumbersIdentify (out ++ more) (nosRenderStreamInit ctx).ctx (documentLines chunks.flatten)
        after.ctx.links ↔
      (linkLines chunks.flatten).length ≤ nosMaxLinks := by
  have rendered := (feedChunks_flush ctx chunks).1
  rw [fed, flushed] at rendered
  obtain ⟨screen, table⟩ := Prod.mk.inj rendered
  dsimp only at screen table
  have empty : (nosRenderStreamInit ctx).ctx.links = [] := rfl
  have links : after.ctx.links = ((linkLines chunks.flatten).map linkOf).take nosMaxLinks := by
    rw [table, links_renderAll, empty, List.nil_append, linkLines]
  rw [screen, links]
  set lines := documentLines chunks.flatten
  have shown := displayedAs_iff empty lines
  constructor
  · -- the link line behind a full table has the number of the last one in it
    intro identify
    refine not_lt.mp fun many => ?_
    have many : nosMaxLinks < (lines.filter NosGemtextLine.isLink).length := many
    obtain ⟨i, last, foundLast, lastLink, countLast⟩ :=
      exists_countBefore (Nat.lt_of_le_of_lt (Nat.sub_le nosMaxLinks 1) many)
    obtain ⟨j, next, foundNext, nextLink, countNext⟩ := exists_countBefore many
    have same := identify.distinct i j nosMaxLinks last.url next.url
      ((shown _ _ _).mpr ⟨last, foundLast, lastLink, rfl, by rw [countLast]; rfl⟩)
      ((shown _ _ _).mpr ⟨next, foundNext, nextLink, rfl, by rw [countNext]; rfl⟩)
    rw [same, countNext] at countLast
    cases countLast
  · intro few
    have fits {i : Nat} {line : NosGemtextLine} (found : lines[i]? = some line)
        (isLink : line.isLink) : countBefore NosGemtextLine.isLink lines i + 1 ≤ nosMaxLinks :=
      Nat.le_trans (countBefore_lt_length found isLink) few
    rw [List.take_of_length_le (by rwa [List.length_map])]
    constructor
    · intro i number url displayed
      obtain ⟨line, found, isLink, rfl, rfl⟩ := (shown _ _ _).mp displayed
      rw [Nat.min_eq_right (fits found isLink), Nat.add_sub_cancel, List.length_map,
        List.getElem?_map, linkLines, getElem?_filter found isLink]
      refine ⟨Nat.le_add_left _ _, countBefore_lt_length found isLink, ?_⟩
      have short := url_length_of_mem_shownLines (List.mem_of_getElem? found) isLink
      rw [Option.map_some, Option.map_some, linkOf, List.take_of_length_le (by omega)]
    · intro i j number url other first second
      obtain ⟨line, found, isLink, _, equal⟩ := (shown _ _ _).mp first
      obtain ⟨line', found', isLink', _, equal'⟩ := (shown _ _ _).mp second
      rw [Nat.min_eq_right (fits found isLink)] at equal
      rw [Nat.min_eq_right (fits found' isLink')] at equal'
      have same : countBefore NosGemtextLine.isLink lines i =
          countBefore NosGemtextLine.isLink lines j := by omega
      rcases Nat.lt_trichotomy i j with less | equal | greater
      · exact absurd same (Nat.ne_of_lt (countBefore_lt found isLink less))
      · exact equal
      · exact absurd same (Nat.ne_of_gt (countBefore_lt found' isLink' greater))

/-- A document in two chunks, with a link inside a preformatted block. -/
def twoLinks : List Text := [text "=> a\n```\n=> x\n``", text "`\n=> b B"]

theorem linkNumbers_iff_twoLinks :
    let fed := feedChunks (nosRenderStreamInit nosRenderCtxInit) twoLinks
    let flushed := nosRenderStreamFlush fed.2.2
    NumbersIdentify (fed.2.1 ++ flushed.2.1) (nosRenderStreamInit nosRenderCtxInit).ctx
      (documentLines twoLinks.flatten) flushed.2.2.ctx.links :=
  (linkNumbers_iff nosRenderCtxInit twoLinks _ _ _ _ (Prod.ext (by decide) rfl)
    (Prod.ext (by decide) rfl)).mpr (by decide)

/-! ### A crowded document -/

/-- A link line on the relative URL `name`. -/
def linkText (name : Text) : Text := text "=> " ++ name

/-- As many links to `a` as the table has entries, and one to `b` behind them. -/
def crowdedTexts : List Text :=
  List.replicate nosMaxLinks (linkText (text "a")) ++ [linkText (text "b")]

def crowded : Text := crowdedTexts.flatMap (· ++ [lf])

theorem lineTexts_line {line : Text} (noCr : cr ∉ line) (noLf : lf ∉ line)
    (unfinished data : Text) :
    lineTexts unfinished (line ++ lf :: data) = (unfinished ++ line) :: lineTexts [] data := by
  induction line generalizing unfinished with
  | nil => simp [lineTexts, show lf ≠ cr by decide]
  | cons c line inductionHypothesis =>
    rw [List.mem_cons, not_or] at noCr noLf
    rw [List.cons_append, lineTexts, if_neg (Ne.symm noCr.1), if_neg (Ne.symm noLf.1),
      inductionHypothesis noCr.2 noLf.2, List.append_assoc, List.singleton_append]

/-- Terminated lines are read back one by one. -/
theorem lineTexts_flatMap {lines : List Text} (plain : ∀ line ∈ lines, cr ∉ line ∧ lf ∉ line) :
    lineTexts [] (lines.flatMap (· ++ [lf])) = lines := by
  induction lines with
  | nil => rfl
  | cons line lines inductionHypothesis =>
    obtain ⟨noCr, noLf⟩ := plain line List.mem_cons_self
    rw [List.flatMap_cons, List.append_assoc, List.singleton_append, lineTexts_line noCr noLf,
      inductionHypothesis fun other member => plain other (List.mem_cons_of_mem _ member),
      List.nil_append]

/-- Lines that fit, that the parser accepts and that toggle nothing are all displayed. -/
theorem shownLines_map (parse : Text → NosGemtextLine) {lines : List Text}
    (parsed : ∀ line ∈ lines, line.length < streamLineSize ∧
      nosGemtextParseLine (cString line) false = some (parse line, false)) :
    shownLines false lines = lines.map parse ∧ acceptsLines false lines := by
  induction lines with
  | nil => exact ⟨rfl, rfl⟩
  | cons line lines inductionHypothesis =>
    obtain ⟨fits, done⟩ := parsed line List.mem_cons_self
    obtain ⟨shown, accepted⟩ := inductionHypothesis fun other member =>
      parsed other (List.mem_cons_of_mem _ member)
    have whole : line.take (streamLineSize - 1) = line := List.take_of_length_le (by omega)
    simp [shownLines, acceptsLines, whole, done, fits, shown, accepted]

/-- A link line on a relative URL as it is parsed. -/
def parsedLink (name : Text) : NosGemtextLine := ⟨.link, [], name⟩

/-- The crowded document is accepted, and all its lines are displayed. -/
theorem documentLines_crowded :
    documentLines crowded =
        List.replicate nosMaxLinks (parsedLink (text "a")) ++ [parsedLink (text "b")] ∧
      acceptsDocument crowded := by
  have plain : ∀ line ∈ crowdedTexts, line = linkText (text "a") ∨ line = linkText (text "b") := by
    intro line member
    simp only [crowdedTexts, List.mem_append, List.mem_replicate, List.mem_singleton] at member
    exact member.imp And.right id
  have texts : lineTexts [] crowded = crowdedTexts := lineTexts_flatMap fun line member => by
    rcases plain line member with rfl | rfl <;> decide
  obtain ⟨shown, accepted⟩ : shownLines false crowdedTexts =
      crowdedTexts.map (fun line => parsedLink (line.drop 3)) ∧ acceptsLines false crowdedTexts :=
    shownLines_map _ fun line member => by
      rcases plain line member with rfl | rfl <;> decide
  refine ⟨?_, by rw [acceptsDocument, texts, accepted]⟩
  rw [documentLines, texts, shown, crowdedTexts, List.map_append, List.map_replicate]
  rfl

/-- The last link of a document that displays one link line more than the table has entries is
displayed with a number that belongs to another link. -/
theorem collide_of_documentLines {document first last : Text}
    (lines : documentLines document =
      List.replicate nosMaxLinks (parsedLink first) ++ [parsedLink last])
    (accepted : acceptsDocument document) :
    let fed := feedChunks (nosRenderStreamInit nosRenderCtxInit) [document]
    let flushed := nosRenderStreamFlush fed.2.2
    (fed.1 = 0 ∧ flushed.1 = 0) ∧
      DisplayedAs (fed.2.1 ++ flushed.2.1) (nosRenderStreamInit nosRenderCtxInit).ctx
        (documentLines document) nosMaxLinks nosMaxLinks last ∧
      flushed.2.2.ctx.links[nosMaxLinks - 1]? = some (linkOf (parsedLink first)) := by
  obtain ⟨rendered, succeeds⟩ := feedChunks_flush nosRenderCtxInit [document]
  rw [List.flatten_singleton] at rendered succeeds
  obtain ⟨screen, table⟩ := Prod.mk.inj rendered
  have empty : (nosRenderStreamInit nosRenderCtxInit).ctx.links = [] := rfl
  have links (name : Text) : (parsedLink name).isLink = true := rfl
  refine ⟨succeeds.mpr accepted, ?_, ?_⟩
  · rw [screen, displayedAs_iff empty, lines]
    refine ⟨parsedLink last, ?_, rfl, rfl, ?_⟩
    · rw [List.getElem?_append_right (by simp), List.length_replicate, Nat.sub_self,
        List.getElem?_cons_zero]
    · rw [countBefore, List.take_left' List.length_replicate,
        List.filter_replicate_of_pos (links _),
        List.length_replicate]
      rfl
  · rw [table, links_renderAll, empty, lines, List.nil_append, List.filter_append,
      List.filter_replicate_of_pos (links _), List.map_append, List.map_replicate,
      List.take_left' List.length_replicate, List.getElem?_replicate, if_pos (by decide)]

/-- The link to `b` of the crowded document is displayed with the number of a link to `a`. -/
theorem linkNumbers_collide :
    let fed := feedChunks (nosRenderStreamInit nosRenderCtxInit) [crowded]
    let flushed := nosRenderStreamFlush fed.2.2
    (fed.1 = 0 ∧ flushed.1 = 0) ∧
      DisplayedAs (fed.2.1 ++ flushed.2.1) (nosRenderStreamInit nosRenderCtxInit).ctx
        (documentLines crowded) nosMaxLinks nosMaxLinks (text "b") ∧
      flushed.2.2.ctx.links[nosMaxLinks - 1]? = some ⟨text "a", text "a"⟩ :=
  collide_of_documentLines documentLines_crowded.1 documentLines_crowded.2

end Nosgem
