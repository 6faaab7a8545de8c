/-
This file follows `print_wrapped` into the buffer of its word and the 16 bits of
its column. A word is measured over its full length, copied as far as it fits,
and clamped; the text goes on behind the clamped length. What is written is a
list of pieces, each with the column that is tracked behind it.

The buffer shows the word, or its first 255 characters, so no access falls
outside of it; every turn takes at least one character, so the loop ends; and in
front of columns that fit in 16 bits the pieces are what the model of the
wrapping without a buffer writes.
-/

import Nosgem.Buffers
import Nosgem.Gemini
import Nosgem.Render

namespace Nosgem

open CText Buffers

/-! ### The source function -/

/-- What `print_wrapped` writes: the prefix, a line feed with the prefix behind it, the blank
between two words, or the word in the buffer. -/
inductive WrapPiece where
  | lead
  | newLine
  | blank
  | word (s : Text)
  deriving DecidableEq, Repr

/-- The text of a piece. -/
def WrapPiece.shown (lead : Text) : WrapPiece → Text
  | .lead => lead
  | .newLine => lf :: lead
  | .blank => [32]
  | .word s => s

/-- The length of the word at the front of the text. -/
def measureWord (p : Text) : Nat := (p.takeWhile fun c => !isBlank c).length

/-- The length that the word has in its buffer. -/
def clampWord (wlen : Nat) : Nat := if wlen ≥ wordSize then wordSize - 1 else wlen

/-- The loop that copies a word, as far as it fits. -/
def copyWord (word : Vector Byte wordSize) (wlen : Nat) :
    Text → Except Stop (Vector Byte wordSize)
  | [] => .ok word
  | c :: rest =>
    if isBlank c then .ok word
    else if wlen + 1 < wordSize then do
      let word ← put word wlen c
      copyWord word (wlen + 1) rest
    else copyWord word (wlen + 1) rest

/-- `(unsigned int)strlen(prefix)`. -/
def leadCols (lead : Text) : Nat := lead.length % uintRange

/-- The prefix in front of a word in column 0. -/
def startLine (lead : Text) (col : Nat) : List (WrapPiece × Nat) × Nat :=
  if col = 0 ∧ lead ≠ [] then ([(.lead, leadCols lead)], leadCols lead) else ([], col)

/-- `(col ? 1 : 0)`. -/
def gapCols (col : Nat) : Nat := if col ≠ 0 then 1 else 0

/-- What is written in front of a word of length `wlen`, and the column it leaves. -/
def breakLine (lead : Text) (wlen col : Nat) : List (WrapPiece × Nat) × Nat :=
  let (again, col) := startLine lead col
  if (col + gapCols col + wlen) % uintRange > nosWrapCols then
    let col := if lead ≠ [] then leadCols lead else 0
    (again ++ [(.newLine, col)], col)
  else if col > 0 then (again ++ [(.blank, (col + 1) % uintRange)], (col + 1) % uintRange)
  else (again, col)

/-- The word behind the blanks that are skipped has a character. -/
theorem measureWord_pos {p : Text} (some : p.dropWhile isBlank ≠ []) :
    0 < measureWord (p.dropWhile isBlank) := by
  obtain ⟨c, rest, shape⟩ := List.exists_cons_of_ne_nil some
  have stops := List.head?_dropWhile_not isBlank p
  rw [shape, List.head?_cons] at stops
  dsimp only at stops
  rw [shape, measureWord, List.takeWhile_cons_of_pos (by simp [stops])]
  exact Nat.succ_pos _

theorem clampWord_eq (wlen : Nat) : clampWord wlen = min wlen (wordSize - 1) := by
  rw [clampWord, wordSize]
  split
  · omega
  · omega

theorem length_drop_word_lt {p : Text} (some : p.dropWhile isBlank ≠ []) :
    ((p.dropWhile isBlank).drop (clampWord (measureWord (p.dropWhile isBlank)))).length <
      p.length := by
  have shorter := (List.dropWhile_suffix isBlank (l := p)).length_le
  have positive := List.length_pos_iff.mpr some
  have taken := measureWord_pos some
  rw [List.length_drop, clampWord_eq, wordSize]
  omega

/-- The loop of `print_wrapped`. -/
def wrapLoop (lead : Text) (word : Vector Byte wordSize) (p : Text) (col : Nat) :
    Except Stop (List (WrapPiece × Nat)) :=
  let rest := p.dropWhile isBlank
  if _ : rest = [] then .ok []
  else do
    let wlen := clampWord (measureWord rest)
    let word ← copyWord word 0 rest
    let word ← put word wlen 0
    let (front, col) := breakLine lead wlen col
    let shown ← copyOut word wordSize
    let col := (col + wlen) % uintRange
    let back ← wrapLoop lead word (rest.drop wlen) col
    return front ++ (.word shown, col) :: back
termination_by p.length
decreasing_by exact length_drop_word_lt ‹_›

/-- `print_wrapped` in front of its last line feed, with what the buffer of its word holds in the
beginning. -/
def printWrappedIn (word : Vector Byte wordSize) (lead p : Text) :
    Except Stop (List (WrapPiece × Nat)) := do
  let (start, col) := startLine lead 0
  let rest ← wrapLoop lead word p col
  return start ++ rest

/-! ### The buffer of a word -/

/-- The word at the front of a text that does not start with a blank, as its buffer shows it. -/
def pieceOf (p : Text) : Text := (p.takeWhile fun c => !isBlank c).take (wordSize - 1)

theorem length_pieceOf (p : Text) : (pieceOf p).length = clampWord (measureWord p) := by
  rw [pieceOf, List.length_take, clampWord_eq, measureWord, Nat.min_comm]

/-- What the buffer shows of a word is not empty. -/
theorem pieceOf_bounds {p : Text} (some : p.dropWhile isBlank ≠ []) :
    0 < (pieceOf (p.dropWhile isBlank)).length ∧ (pieceOf (p.dropWhile isBlank)).length ≤ 255 := by
  have measured := measureWord_pos some
  rw [length_pieceOf, clampWord_eq, wordSize]
  omega

theorem pieceOf_leads (p : Text) : pieceOf p <+: p :=
  (List.take_prefix _ _).trans (List.takeWhile_prefix _)

/-- The copy puts what fits of the word behind what it has copied. -/
theorem copyWord_filled (word : Vector Byte wordSize) {done p : Text}
    (holds : filled word (clampWord done.length) = done.take (wordSize - 1)) :
    ∃ next, copyWord word done.length p = .ok next ∧
      filled next (clampWord (done ++ p.takeWhile fun c => !isBlank c).length) =
        (done ++ p.takeWhile fun c => !isBlank c).take (wordSize - 1) := by
  induction p generalizing word done with
  | nil => exact ⟨word, rfl, by simpa using holds⟩
  | cons c p inductionHypothesis =>
    by_cases blank : isBlank c
    · refine ⟨word, by rw [copyWord, if_pos blank], ?_⟩
      rw [List.takeWhile_cons_of_neg (by simp [blank]), List.append_nil]
      exact holds
    · rw [copyWord, if_neg blank, List.takeWhile_cons_of_pos (by simp [blank])]
      have length : (done ++ [c]).length = done.length + 1 := by simp
      have appended : ∃ next, (if done.length + 1 < wordSize then do
            let word ← put word done.length c
            copyWord word (done.length + 1) p
          else copyWord word (done.length + 1) p) = copyWord next (done ++ [c]).length p ∧
          filled next (clampWord (done ++ [c]).length) = (done ++ [c]).take (wordSize - 1) := by
        rw [clampWord_eq] at holds ⊢
        rw [length]
        by_cases room : done.length + 1 < wordSize
        · rw [Nat.min_eq_left (by omega), List.take_of_length_le (by omega)] at holds
          obtain ⟨next, stored, longer⟩ := put_filled word (show done.length < wordSize by omega) c
          refine ⟨next, by rw [if_pos room, stored]; rfl, ?_⟩
          rw [Nat.min_eq_left (by omega), List.take_of_length_le (by rw [length]; omega), longer,
            holds]
        · refine ⟨word, if_neg room, ?_⟩
          rw [Nat.min_eq_right (by omega)] at holds ⊢
          rw [holds, List.take_append_of_le_length (by omega)]
      obtain ⟨next, equal, longer⟩ := appended
      obtain ⟨last, copied, filled⟩ := inductionHypothesis next longer
      refine ⟨last, by rw [equal, copied], ?_⟩
      rw [List.append_assoc, List.singleton_append] at filled
      exact filled

/-- The buffer shows the word, or what fits of it. -/
theorem shows_pieceOf (word : Vector Byte wordSize) {p : Text} (nulFree : 0 ∉ p) :
    ∃ copied ended, copyWord word 0 p = .ok copied ∧
      put copied (clampWord (measureWord p)) 0 = .ok ended ∧
      copyOut ended wordSize = .ok (pieceOf p) := by
  have empty : filled word (clampWord ([] : Text).length) = ([] : Text).take (wordSize - 1) := rfl
  obtain ⟨copied, copies, holds⟩ := copyWord_filled word (p := p) empty
  rw [List.nil_append] at holds
  have inside : clampWord (measureWord p) < wordSize := by
    rw [clampWord_eq, wordSize]
    omega
  obtain ⟨ended, stored, longer⟩ := put_filled copied inside 0
  refine ⟨copied, ended, copies, stored, copyOut_filled ?_ ?_ ?_⟩
  · rw [length_pieceOf, longer]
    exact congrArg (· ++ [0]) holds
  · exact fun member => nulFree ((pieceOf_leads p).subset member)
  · rw [length_pieceOf]
    exact inside

/-! ### The words of a text -/

/-- The words of a text as they are written: its parts without blanks, cut where they do not fit the
buffer. -/
def wordsOf (p : Text) : List Text :=
  if _ : p.dropWhile isBlank = [] then []
  else
    pieceOf (p.dropWhile isBlank) ::
      wordsOf ((p.dropWhile isBlank).drop (clampWord (measureWord (p.dropWhile isBlank))))
termination_by p.length
decreasing_by exact length_drop_word_lt ‹_›

/-- The pieces of a list of words. -/
def layWords (lead : Text) : (words : List Text) → (col : Nat) → List (WrapPiece × Nat)
  | [], _ => []
  | word :: words, col =>
    let (front, mid) := breakLine lead word.length col
    let col := (mid + word.length) % uintRange
    front ++ (.word word, col) :: layWords lead words col

/-- The pieces of a text. -/
def layText (lead p : Text) : List (WrapPiece × Nat) :=
  let (start, col) := startLine lead 0
  start ++ layWords lead (wordsOf p) col

theorem wrapLoop_eq (lead : Text) (word : Vector Byte wordSize) {p : Text} (nulFree : 0 ∉ p)
    (col : Nat) : wrapLoop lead word p col = .ok (layWords lead (wordsOf p) col) := by
  induction p using wordsOf.induct generalizing word col with
  | case1 p ended => rw [wrapLoop, wordsOf, dif_pos ended, dif_pos ended, layWords]
  | case2 p goesOn inductionHypothesis =>
    have restFree : 0 ∉ p.dropWhile isBlank := fun member =>
      nulFree ((List.dropWhile_suffix isBlank).subset member)
    obtain ⟨copied, shown, copies, ends, shows⟩ := shows_pieceOf word restFree
    rw [wrapLoop, wordsOf, dif_neg goesOn, dif_neg goesOn, layWords, length_pieceOf]
    dsimp only
    rw [copies, ok_bind, ends, ok_bind]
    generalize breakLine lead _ col = broken
    obtain ⟨front, mid⟩ := broken
    dsimp only
    rw [shows, ok_bind,
      inductionHypothesis shown fun member => restFree (List.mem_of_mem_drop member)]
    rfl

/-- No access falls outside of the buffer, and the pieces are those of the words. -/
theorem printWrappedIn_eq (word : Vector Byte wordSize) (lead : Text) {p : Text}
    (nulFree : 0 ∉ p) : printWrappedIn word lead p = .ok (layText lead p) := by
  rw [printWrappedIn, layText]
  generalize startLine lead 0 = started
  obtain ⟨start, col⟩ := started
  dsimp only
  rw [wrapLoop_eq lead word nulFree, ok_bind]
  rfl

/-! ### Columns without overflow -/

/-- What a piece puts on the screen. -/
def WrapPiece.outs (lead : Text) : WrapPiece → List Out
  | .lead => [.put lead]
  | .newLine => if lead ≠ [] then [.put [lf], .put lead] else [.put [lf]]
  | .blank => [.put [32]]
  | .word s => [.put s]

/-- A prefix for which no column leaves the range of its type. -/
def ShortLead (lead : Text) : Prop := lead.length + 511 < uintRange

/-- The columns behind a word. -/
def InRange (lead : Text) (col : Nat) : Prop := col ≤ max nosWrapCols (lead.length + 255)

theorem inRange_lead (lead : Text) : InRange lead lead.length :=
  Nat.le_trans (Nat.le_add_right _ 255) (Nat.le_max_right _ _)

section Columns

variable {lead word : Text} {col wlen : Nat}

/-- Behind the start of a line no column is 0 with a prefix, so a word is preceded by a line break
if it does not fit behind a blank, and by a blank if it does not start its line. -/
theorem breakLine_eq (short : ShortLead lead) (inRange : InRange lead col)
    (started : lead ≠ [] → col ≠ 0) (fits : wlen ≤ 255) :
    breakLine lead wlen col =
      if nosWrapCols < col + gapCols col + wlen then
        ([(.newLine, lead.length)], lead.length)
      else if col > 0 then ([(.blank, col + 1)], col + 1)
      else ([], col) := by
  rw [ShortLead, uintRange] at short
  rw [InRange, nosWrapCols] at inRange
  have strlen : leadCols lead = lead.length := Nat.mod_eq_of_lt (by rw [uintRange]; omega)
  have blank : gapCols col ≤ 1 := by
    rw [gapCols]
    split <;> omega
  have next : (col + 1) % uintRange = col + 1 := Nat.mod_eq_of_lt (by rw [uintRange]; omega)
  have sum : (col + gapCols col + wlen) % uintRange = col + gapCols col + wlen :=
    Nat.mod_eq_of_lt (by rw [uintRange]; omega)
  have leadCol : (if lead ≠ [] then lead.length else 0) = lead.length := by
    by_cases noLead : lead = [] <;> simp [noLead]
  rw [breakLine, startLine, if_neg fun both => started both.2 both.1]
  dsimp only
  rw [sum, strlen, leadCol, next]
  rfl

theorem inRange_breakLine (short : ShortLead lead) (inRange : InRange lead col)
    (started : lead ≠ [] → col ≠ 0) (fits : wlen ≤ 255) :
    ((breakLine lead wlen col).2 + wlen) % uintRange = (breakLine lead wlen col).2 + wlen ∧
      InRange lead ((breakLine lead wlen col).2 + wlen) := by
  suffices inside : InRange lead ((breakLine lead wlen col).2 + wlen) by
    refine ⟨Nat.mod_eq_of_lt ?_, inside⟩
    rw [InRange, nosWrapCols] at inside
    rw [ShortLead, uintRange] at short
    rw [uintRange]
    omega
  rw [breakLine_eq short inRange started fits, InRange]
  by_cases long : nosWrapCols < col + gapCols col + wlen
  · rw [if_pos long]
    omega
  · rw [if_neg long]
    by_cases positive : col > 0
    · rw [gapCols, if_pos (Nat.ne_of_gt positive)] at long
      rw [if_pos positive]
      omega
    · rw [if_neg positive]
      omega

theorem wrapWord_eq (short : ShortLead lead) (inRange : InRange lead col)
    (started : lead ≠ [] → col ≠ 0) (fits : word.length ≤ 255) :
    wrapWord lead word col =
      ((breakLine lead word.length col).1.flatMap (·.1.outs lead) ++ [.put word],
        (breakLine lead word.length col).2 + word.length) := by
  rw [breakLine_eq short inRange started fits, wrapWord,
    if_neg fun both => started both.2 both.1]
  dsimp only
  by_cases long : nosWrapCols < col + gapCols col + word.length
  · rw [if_pos long, if_pos (show col + (if col ≠ 0 then 1 else 0) + word.length > _ from long)]
    by_cases noLead : lead = []
    · subst noLead
      rfl
    · simp [noLead, WrapPiece.outs]
  · rw [if_neg long, if_neg (show ¬ col + (if col ≠ 0 then 1 else 0) + word.length > _ from long)]
    split <;> rfl

end Columns

theorem wrapWords_cons (lead : Text) (fuel : Nat) {p : Text} (some : p.dropWhile isBlank ≠ [])
    (col : Nat) :
    wrapWords lead (fuel + 1) p col =
      (wrapWord lead (pieceOf (p.dropWhile isBlank)) col).1 ++
        wrapWords lead fuel ((p.dropWhile isBlank).drop (pieceOf (p.dropWhile isBlank)).length)
          (wrapWord lead (pieceOf (p.dropWhile isBlank)) col).2 := by
  rw [wrapWords]
  exact if_neg some

/-- The pieces of words are what the wrapping without a buffer writes for them. -/
theorem layWords_outs {lead : Text} (short : ShortLead lead) {p : Text} {col fuel : Nat}
    (inRange : InRange lead col) (started : lead ≠ [] → col ≠ 0) (enough : p.length ≤ fuel) :
    (layWords lead (wordsOf p) col).flatMap (·.1.outs lead) = wrapWords lead fuel p col := by
  induction p using wordsOf.induct generalizing col fuel with
  | case1 p ended =>
    rw [wordsOf, dif_pos ended, layWords]
    cases fuel with
    | zero => rfl
    | succ fuel =>
      rw [wrapWords]
      dsimp only
      rw [if_pos ended]
      rfl
  | case2 p goesOn inductionHypothesis =>
    have shorter := length_drop_word_lt goesOn
    obtain ⟨fuel, rfl⟩ : ∃ less, fuel = less + 1 := ⟨fuel - 1, by omega⟩
    obtain ⟨positive, fits⟩ := pieceOf_bounds goesOn
    obtain ⟨noWrap, after⟩ := inRange_breakLine short inRange started fits
    have rest := inductionHypothesis after (fun _ => by omega)
      (Nat.le_of_lt_succ (Nat.lt_of_lt_of_le shorter enough))
    rw [wordsOf, dif_neg goesOn, layWords, wrapWords_cons lead fuel goesOn col,
      wrapWord_eq short inRange started fits]
    dsimp only
    rw [noWrap, List.flatMap_append, List.flatMap_cons, rest, length_pieceOf, List.append_assoc]
    rfl

theorem startLine_eq {lead : Text} (short : ShortLead lead) :
    startLine lead 0 = (if lead ≠ [] then [(.lead, lead.length)] else [], lead.length) := by
  rw [ShortLead, uintRange] at short
  have strlen : leadCols lead = lead.length := Nat.mod_eq_of_lt (by rw [uintRange]; omega)
  by_cases noLead : lead = []
  · subst noLead
    rfl
  · rw [startLine, if_pos ⟨rfl, noLead⟩, if_pos noLead, strlen]

/-- In front of columns that fit in their type, `print_wrapped` writes its pieces and a line
feed. -/
theorem printWrapped_eq (ctx : NosRenderCtx) {lead : Text} (short : ShortLead lead) (p : Text) :
    printWrapped ctx lead p =
      ((layText lead p).flatMap (·.1.outs lead) ++ .put [lf] :: (renderLineBreak ctx).1,
        (renderLineBreak ctx).2) := by
  have words := layWords_outs short (inRange_lead lead)
    (fun some => Nat.ne_of_gt (List.length_pos_iff.mpr some)) (Nat.le_refl p.length)
  rw [layText, startLine_eq short]
  dsimp only
  rw [List.flatMap_append, words, printWrapped]
  by_cases noLead : lead = []
  · subst noLead
    rfl
  · rw [if_pos noLead, if_pos noLead]
    rfl

end Nosgem
