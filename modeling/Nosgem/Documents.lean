/-
This file settles when the renderer takes a document, and what it shows of it. A
document is cut into lines at its LFs once its CRs are deleted. However it
arrives in chunks, the stream does what the renderer of whole documents does;
it succeeds exactly when every line fits the line buffer and every link outside
the preformatted blocks has a URL that fits its own; and then it renders each
line once and in order. A line stands in a preformatted block when an odd
number of the lines before it start with the fence of such a block.
-/

import Nosgem.LinkNumbers

namespace Nosgem

open CText

/-! ### Streams and whole documents -/

/-- The calls of the stream on a document in chunks: init, a feed for each chunk until one of them
fails, and flush. -/
def streamGemtext (chunks : List Text) (ctx : NosRenderCtx) : Int × List Out × NosRenderCtx :=
  let (rc, out, st) := feedChunks (nosRenderStreamInit ctx) chunks
  if rc ≠ 0 then (rc, out, st.ctx)
  else
    let (rc, more, st) := nosRenderStreamFlush st
    (rc, out ++ more, st.ctx)

theorem nosRenderStreamFeed_rc (st : NosRenderStream) (data : Text) :
    (nosRenderStreamFeed st data).1 = 0 ∨ (nosRenderStreamFeed st data).1 = -1 := by
  induction data generalizing st with
  | nil => exact .inl rfl
  | cons c data inductionHypothesis =>
    rw [nosRenderStreamFeed]
    split
    · exact inductionHypothesis st
    split
    · split
      · exact .inr rfl
      · exact inductionHypothesis _
    split
    · exact .inr rfl
    · exact inductionHypothesis _

/-- The chunks of a document do not matter. -/
theorem streamGemtext_eq (chunks : List Text) (ctx : NosRenderCtx) :
    streamGemtext chunks ctx = nosRenderGemtext chunks.flatten ctx := by
  unfold streamGemtext nosRenderGemtext
  rw [feedChunks_eq]
  rcases nosRenderStreamFeed_rc (nosRenderStreamInit ctx) chunks.flatten with zero | failed
  · simp only [zero]
    rfl
  · simp only [failed]

/-- The stream succeeds when every call of it does. -/
theorem streamGemtext_zero_iff (chunks : List Text) (ctx : NosRenderCtx) :
    (streamGemtext chunks ctx).1 = 0 ↔ acceptsDocument chunks.flatten := by
  rw [← (feedChunks_flush ctx chunks).2, streamGemtext]
  by_cases zero : (feedChunks (nosRenderStreamInit ctx) chunks).1 = 0
  · simp [zero]
  · simp [zero]

theorem streamGemtext_shows {chunks : List Text} {ctx : NosRenderCtx}
    (zero : (streamGemtext chunks ctx).1 = 0) :
    (streamGemtext chunks ctx).2 =
      renderAll (nosRenderStreamInit ctx).ctx (documentLines chunks.flatten) := by
  have fed := ((feedChunks_flush ctx chunks).2.mpr ((streamGemtext_zero_iff chunks ctx).mp zero)).1
  rw [← (feedChunks_flush ctx chunks).1, streamGemtext]
  simp only [fed]
  rfl

/-! ### The lines of a document -/

/-- The lines of a document: its CRs are deleted and it is split at its LFs; what stands behind the
last LF is a line when it is not empty. -/
def gemtextLines (body : Text) : List Text :=
  let parts := (body.filter (· ≠ cr)).splitOn lf
  if parts.getLast? = some [] then parts.dropLast else parts

/-- Dropping an empty last part leaves the first part of a longer list alone. -/
theorem dropEmpty_cons {first : Text} {parts : List Text} (more : parts ≠ []) :
    (if (first :: parts).getLast? = some [] then (first :: parts).dropLast else first :: parts) =
      first :: if parts.getLast? = some [] then parts.dropLast else parts := by
  obtain ⟨second, parts, rfl⟩ := List.exists_cons_of_ne_nil more
  rw [List.getLast?_cons_cons]
  split
  · rw [List.dropLast_cons_of_ne_nil more]
  · rfl

theorem lineTexts_eq_split {unfinished : Text} (noLf : lf ∉ unfinished) (data : Text) :
    lineTexts unfinished data =
      let parts := (unfinished ++ data.filter (· ≠ cr)).splitOn lf
      if parts.getLast? = some [] then parts.dropLast else parts := by
  induction data generalizing unfinished with
  | nil =>
    rw [List.filter_nil, List.append_nil, List.splitOn_eq_singleton noLf, lineTexts]
    by_cases empty : unfinished = []
    · simp [empty]
    · simp [empty]
  | cons c data inductionHypothesis =>
    rw [lineTexts]
    by_cases isCr : c = cr
    · rw [if_pos isCr, inductionHypothesis noLf, List.filter_cons_of_neg (by simpa using isCr)]
    rw [if_neg isCr, List.filter_cons_of_pos (by simpa using isCr)]
    by_cases isLf : c = lf
    · rw [if_pos isLf, isLf, List.splitOn_append_cons_self_of_not_mem noLf]
      dsimp only
      rw [dropEmpty_cons (List.splitOn_ne_nil _ _), inductionHypothesis List.not_mem_nil,
        List.nil_append]
    · have noLf' : lf ∉ unfinished ++ [c] := by
        simpa [noLf] using Ne.symm isLf
      rw [if_neg isLf, inductionHypothesis noLf', List.append_assoc, List.singleton_append]

theorem lineTexts_eq_gemtextLines (body : Text) : lineTexts [] body = gemtextLines body := by
  rw [lineTexts_eq_split List.not_mem_nil, List.nil_append]
  rfl

/-- The lines of a document have no line ends in them. -/
theorem lineTexts_plain {unfinished : Text} (noCr : cr ∉ unfinished) (noLf : lf ∉ unfinished)
    (data : Text) : ∀ line ∈ lineTexts unfinished data, cr ∉ line ∧ lf ∉ line := by
  induction data generalizing unfinished with
  | nil =>
    rw [lineTexts]
    split
    · simp
    · simpa using ⟨noCr, noLf⟩
  | cons c data inductionHypothesis =>
    rw [lineTexts]
    by_cases isCr : c = cr
    · rw [if_pos isCr]
      exact inductionHypothesis noCr noLf
    rw [if_neg isCr]
    by_cases isLf : c = lf
    · rw [if_pos isLf, List.forall_mem_cons]
      exact ⟨⟨noCr, noLf⟩, inductionHypothesis List.not_mem_nil List.not_mem_nil⟩
    · rw [if_neg isLf]
      refine inductionHypothesis ?_ ?_
      · simpa [noCr] using Ne.symm isCr
      · simpa [noLf] using Ne.symm isLf

/-- The lines of a text without a NUL have none. -/
theorem nulFree_lineTexts {unfinished data : Text} (front : 0 ∉ unfinished) (back : 0 ∉ data) :
    ∀ line ∈ lineTexts unfinished data, 0 ∉ line := by
  induction data generalizing unfinished with
  | nil =>
    rw [lineTexts]
    split
    · simp
    · simpa using front
  | cons c data inductionHypothesis =>
    obtain ⟨other, rest⟩ := not_or.mp (mt List.mem_cons.mpr back)
    rw [lineTexts]
    split
    · exact inductionHypothesis front rest
    split
    · intro line member
      rcases List.mem_cons.mp member with rfl | later
      · exact front
      · exact inductionHypothesis List.not_mem_nil rest line later
    · refine inductionHypothesis ?_ rest
      simpa [front] using other

/-! ### What the parser accepts -/

/-- A line that starts or ends a preformatted block. -/
def isFence (line : Text) : Bool := (text "```").isPrefixOf line

/-- A line that starts as a link. -/
def startsLink (line : Text) : Bool := (text "=>").isPrefixOf line

/-- The URL token of a link line. -/
def urlToken (line : Text) : Text := (trimLeft (line.drop 2)).takeWhile fun c => !isBlank c

theorem storeText_isSome {type : NosGemtextType} {url p : Text} {inPre : Bool}
    (fits : p.length < gemtextTextSize) : (storeText type url inPre p).isSome := by
  rw [storeText, if_neg (not_le.mpr fits)]
  rfl

/-- A line that fits the text buffer is refused only as a link with a long URL. -/
theorem nosGemtextParseLine_isSome_iff {line : Text} (fits : line.length < gemtextTextSize)
    (inPre : Bool) :
    (nosGemtextParseLine line inPre).isSome ↔
      (startsLink line → inPre = false → (urlToken line).length < gemtextUrlSize) := by
  have dropped (count : Nat) : (line.drop count).length < gemtextTextSize :=
    Nat.lt_of_le_of_lt (List.length_drop ▸ Nat.sub_le _ _) fits
  have trimmed (count : Nat) : (trimLeft (line.drop count)).length < gemtextTextSize :=
    Nat.lt_of_le_of_lt (List.length_dropWhile_le _ _) (dropped count)
  have notLink (first : Byte) (other : first ≠ byte '=') (head : line.head? = some first) :
      ¬ startsLink line := by
    intro starts
    obtain ⟨rest, rfl⟩ := List.isPrefixOf_iff_prefix.mp starts
    exact other (Option.some.inj head).symm
  unfold nosGemtextParseLine
  by_cases fence : (text "```").isPrefixOf line
  · rw [if_pos fence]
    obtain ⟨rest, rfl⟩ := List.isPrefixOf_iff_prefix.mp fence
    exact iff_of_true rfl fun starts => absurd starts (notLink (byte '`') (by decide) rfl)
  rw [if_neg fence]
  by_cases inside : inPre
  · rw [if_pos inside]
    exact iff_of_true (storeText_isSome fits) fun _ outside => by simp [inside] at outside
  rw [if_neg inside]
  by_cases hash : line.head? = some (byte '#')
  · rw [if_pos hash]
    refine iff_of_true ?_ fun starts => absurd starts (notLink _ (by decide) hash)
    split
    · exact storeText_isSome (trimmed 3)
    · split
      · exact storeText_isSome (trimmed 2)
      · exact storeText_isSome (trimmed 1)
  rw [if_neg hash]
  by_cases starts : (text "=>").isPrefixOf line
  · rw [if_pos starts]
    change (if (urlToken line).length ≥ gemtextUrlSize then none
      else storeText .link (urlToken line) inPre
        (trimLeft ((trimLeft (line.drop 2)).drop (urlToken line).length))).isSome ↔ _
    have rest : (trimLeft ((trimLeft (line.drop 2)).drop (urlToken line).length)).length <
        gemtextTextSize :=
      Nat.lt_of_le_of_lt (List.length_dropWhile_le _ _)
        (Nat.lt_of_le_of_lt (List.length_drop ▸ Nat.sub_le _ _) (trimmed 2))
    by_cases long : (urlToken line).length ≥ gemtextUrlSize
    · rw [if_pos long]
      refine iff_of_false Bool.false_ne_true fun short => ?_
      exact absurd (short starts (Bool.not_eq_true _ ▸ inside)) (not_lt.mpr long)
    · rw [if_neg long]
      exact iff_of_true (storeText_isSome rest) fun _ _ => not_le.mp long
  rw [if_neg starts]
  refine iff_of_true ?_ fun starts' => absurd starts' starts
  split
  · exact storeText_isSome (dropped 2)
  · split
    · exact storeText_isSome (trimmed 1)
    · exact storeText_isSome fits

/-- The parser changes its flag at a fence, and nowhere else. -/
theorem nosGemtextParseLine_flag {line : Text} {inPre after : Bool} {parsed : NosGemtextLine}
    (done : nosGemtextParseLine line inPre = some (parsed, after)) :
    after = if isFence line then !inPre else inPre := by
  have kept {type : NosGemtextType} {url p : Text}
      (stored : storeText type url inPre p = some (parsed, after)) : after = inPre :=
    (storeText_eq_some stored).2.2
  unfold nosGemtextParseLine at done
  split at done
  · rename_i fence
    cases done
    rw [isFence, if_pos fence]
  rename_i other
  rw [isFence, if_neg other]
  split at done
  · exact kept done
  split at done
  · split at done
    · exact kept done
    · split at done
      · exact kept done
      · exact kept done
  split at done
  · dsimp only at done
    split at done
    · cases done
    · exact kept done
  split at done
  · exact kept done
  split at done
  · exact kept done
  · exact kept done

/-! ### The lines that are accepted -/

/-- A line of a document stands in a preformatted block: an odd number of the lines before it are
fences. -/
def insidePre (lines : List Text) (i : Nat) : Bool := countBefore isFence lines i % 2 == 1

/-- Every line has at most 1023 characters, and outside the preformatted blocks every line that
starts as a link has a URL token of at most 511 characters. -/
def AllFit (lines : List Text) : Prop :=
  ∀ i line, lines[i]? = some line →
    line.length ≤ 1023 ∧
      (startsLink line → insidePre lines i = false → (urlToken line).length ≤ 511)

/-- Each line was parsed, with the flag that the fences before it leave. -/
def ParsesEach (lines : List Text) (parsed : List NosGemtextLine) : Prop :=
  parsed.length = lines.length ∧
    ∀ i line, lines[i]? = some line → ∃ shown after, parsed[i]? = some shown ∧
      nosGemtextParseLine line (insidePre lines i) = some (shown, after)

/-- The flag behind `fences` fences. -/
def flagAfter (fences : Nat) : Bool := fences % 2 == 1

theorem flagAfter_succ (fences : Nat) : flagAfter (fences + 1) = !flagAfter fences := by
  unfold flagAfter
  rcases Nat.mod_two_eq_zero_or_one fences with even | odd
  · simp [Nat.add_mod, even]
  · simp [Nat.add_mod, odd]

theorem countBefore_cons (line : Text) (lines : List Text) (i : Nat) :
    countBefore isFence (line :: lines) (i + 1) =
      (if isFence line then 1 else 0) + countBefore isFence lines i := by
  rw [countBefore, List.take_succ_cons, List.filter_cons]
  split
  · rw [List.length_cons, Nat.add_comm, countBefore]
  · rw [Nat.zero_add, countBefore]

/-- The flag behind a line. -/
theorem flagAfter_line (fences : Nat) (line : Text) :
    (if isFence line then !flagAfter fences else flagAfter fences) =
      flagAfter (fences + if isFence line then 1 else 0) := by
  split
  · exact (flagAfter_succ fences).symm
  · rfl

/-- What is said about every line of a document behind some fences is said about its first line, and
about the others behind the fences and that line. -/
theorem forall_lines_cons (holds : Text → Bool → Prop) (fences : Nat) (line : Text)
    (lines : List Text) :
    (∀ i other, (line :: lines)[i]? = some other →
        holds other (flagAfter (fences + countBefore isFence (line :: lines) i))) ↔
      holds line (flagAfter fences) ∧ ∀ i other, lines[i]? = some other →
        holds other (flagAfter (fences + (if isFence line then 1 else 0) +
          countBefore isFence lines i)) := by
  constructor
  · intro all
    refine ⟨all 0 line rfl, fun i other found => ?_⟩
    have later := all (i + 1) other found
    rwa [countBefore_cons, ← Nat.add_assoc] at later
  · rintro ⟨first, later⟩ i other found
    cases i with
    | zero =>
      cases found
      exact first
    | succ i =>
      rw [countBefore_cons, ← Nat.add_assoc]
      exact later i other found

theorem acceptsLines_iff {lines : List Text} (nulFree : ∀ line ∈ lines, 0 ∉ line) (fences : Nat) :
    acceptsLines (flagAfter fences) lines ↔ ∀ i line, lines[i]? = some line →
      line.length < streamLineSize ∧ (startsLink line →
        flagAfter (fences + countBefore isFence lines i) = false →
        (urlToken line).length < gemtextUrlSize) := by
  induction lines generalizing fences with
  | nil => simp [acceptsLines]
  | cons line lines inductionHypothesis =>
    rw [forall_lines_cons fun line inside => line.length < streamLineSize ∧
      (startsLink line → inside = false → (urlToken line).length < gemtextUrlSize),
      acceptsLines, cString_eq_self (nulFree line List.mem_cons_self), Bool.and_eq_true,
      decide_eq_true_eq, and_assoc]
    refine and_congr_right fun fits => ?_
    rw [← nosGemtextParseLine_isSome_iff fits]
    cases done : nosGemtextParseLine line (flagAfter fences) with
    | none => simp
    | some result =>
      obtain ⟨parsed, after⟩ := result
      rw [nosGemtextParseLine_flag done, flagAfter_line]
      simpa using inductionHypothesis (fun other member =>
        nulFree other (List.mem_cons_of_mem _ member)) _

/-- The lines that are shown of lines that are accepted are all of them. -/
theorem shownLines_of_accepts {lines : List Text} (nulFree : ∀ line ∈ lines, 0 ∉ line)
    (fences : Nat) (accepted : acceptsLines (flagAfter fences) lines) :
    (shownLines (flagAfter fences) lines).length = lines.length ∧
      ∀ i line, lines[i]? = some line → ∃ shown after,
        (shownLines (flagAfter fences) lines)[i]? = some shown ∧
        nosGemtextParseLine line (flagAfter (fences + countBefore isFence lines i)) =
          some (shown, after) := by
  induction lines generalizing fences with
  | nil => simp [shownLines]
  | cons line lines inductionHypothesis =>
    have whole := cString_eq_self (nulFree line List.mem_cons_self)
    rw [acceptsLines, whole, Bool.and_eq_true, decide_eq_true_eq] at accepted
    obtain ⟨fits, rest⟩ := accepted
    rw [shownLines, List.take_of_length_le (Nat.le_sub_one_of_lt fits), whole]
    cases done : nosGemtextParseLine line (flagAfter fences) with
    | none => simp [done] at rest
    | some result =>
      obtain ⟨parsed, after⟩ := result
      simp only [done] at rest
      simp only [fits, if_true]
      rw [nosGemtextParseLine_flag done, flagAfter_line] at rest ⊢
      obtain ⟨length, each⟩ := inductionHypothesis (fun other member =>
        nulFree other (List.mem_cons_of_mem _ member)) _ rest
      refine ⟨congrArg (· + 1) length, fun i other found => ?_⟩
      cases i with
      | zero =>
        cases found
        exact ⟨parsed, after, rfl, done⟩
      | succ i =>
        rw [countBefore_cons, ← Nat.add_assoc]
        exact each i other found

/-! ### Whole documents -/

/-- However a body without NULs arrives in chunks, the stream returns and shows what the renderer of
whole documents does, and leaves the same table. It succeeds exactly when every line and every link
fits, and then renders every line once and in order. -/
theorem streamGemtext_exact (ctx : NosRenderCtx) (chunks : List Text)
    (nulFree : 0 ∉ chunks.flatten) :
    streamGemtext chunks ctx = nosRenderGemtext chunks.flatten ctx ∧
      ((streamGemtext chunks ctx).1 = 0 ↔ AllFit (gemtextLines chunks.flatten)) ∧
      ((streamGemtext chunks ctx).1 = 0 → ∃ parsed,
        ParsesEach (gemtextLines chunks.flatten) parsed ∧
        (streamGemtext chunks ctx).2 = renderAll (nosRenderStreamInit ctx).ctx parsed) := by
  have lineNulFree : ∀ line ∈ lineTexts [] chunks.flatten, 0 ∉ line :=
    nulFree_lineTexts List.not_mem_nil nulFree
  have accepted := acceptsLines_iff lineNulFree 0
  have shown := shownLines_of_accepts lineNulFree 0
  simp only [Nat.zero_add, lineTexts_eq_gemtextLines] at accepted shown
  have accepts : (streamGemtext chunks ctx).1 = 0 ↔
      acceptsLines (flagAfter 0) (gemtextLines chunks.flatten) := by
    rw [streamGemtext_zero_iff, acceptsDocument, lineTexts_eq_gemtextLines]
    rfl
  refine ⟨streamGemtext_eq chunks ctx, ?_, fun zero => ?_⟩
  · rw [accepts, accepted]
    exact forall_congr' fun i => forall_congr' fun line => forall_congr' fun _ =>
      and_congr Nat.lt_succ_iff (forall_congr' fun _ => forall_congr' fun _ => Nat.lt_succ_iff)
  · refine ⟨documentLines chunks.flatten, ?_, streamGemtext_shows zero⟩
    rw [documentLines, lineTexts_eq_gemtextLines]
    exact shown (accepts.mp zero)

/-- A document cut inside a line end, inside a link and in front of its last line. -/
def cutDocument : List Text := [text "```\r", text "\n=> gem", text "ini://a/\nb"]

theorem streamGemtext_exact_cut :
    0 ∉ cutDocument.flatten ∧ (streamGemtext cutDocument nosRenderCtxInit).1 = 0 ∧
      ∃ parsed, ParsesEach (gemtextLines cutDocument.flatten) parsed ∧
        (streamGemtext cutDocument nosRenderCtxInit).2 =
          renderAll (nosRenderStreamInit nosRenderCtxInit).ctx parsed := by
  have zero : (streamGemtext cutDocument nosRenderCtxInit).1 = 0 := by decide
  exact ⟨by decide, zero, (streamGemtext_exact nosRenderCtxInit cutDocument (by decide)).2.2 zero⟩

end Nosgem
