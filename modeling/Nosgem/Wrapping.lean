/-
This file says what word wrapping puts on the screen. The words of a text are
written in their order, with nothing but blanks, line breaks and copies of the
prefix between them, and a word that is longer than its buffer is cut into
pieces that are words of their own; so no character of a word is lost. With
words that fit a line behind the prefix, every line has at most 80 columns, the
tracked column is the length of the line, and a line is broken only where the
next word does not fit.
-/

import Nosgem.WordBuffers

namespace Nosgem

open CText Buffers

/-! ### The words -/

/-- The characters of a text that are no blanks and no tabs. -/
def unblanked (s : Text) : Text := s.filter fun c => !isBlank c

@[simp] theorem unblanked_append (front back : Text) :
    unblanked (front ++ back) = unblanked front ++ unblanked back := List.filter_append ..

theorem unblanked_dropWhile (p : Text) : unblanked (p.dropWhile isBlank) = unblanked p := by
  induction p with
  | nil => rfl
  | cons c p inductionHypothesis =>
    by_cases blank : isBlank c
    · rw [List.dropWhile_cons_of_pos blank, inductionHypothesis, unblanked, unblanked,
        List.filter_cons_of_neg (by simp [blank])]
    · rw [List.dropWhile_cons_of_neg blank]

/-- A word of a text: a part of it without blanks that is not empty and fits the buffer. -/
structure IsWord (p word : Text) : Prop where
  part : word <:+: p
  unblanked : unblanked word = word
  some : 0 < word.length
  fits : word.length ≤ 255

theorem isWord_pieceOf {p : Text} (some : p.dropWhile isBlank ≠ []) :
    IsWord p (pieceOf (p.dropWhile isBlank)) where
  part := (pieceOf_leads _).isInfix.trans (List.dropWhile_suffix isBlank).isInfix
  unblanked := List.filter_eq_self.mpr fun _ member =>
    @List.mem_takeWhile_imp _ (fun c => !isBlank c) _ _ (List.mem_of_mem_take member)
  some := (pieceOf_bounds some).1
  fits := (pieceOf_bounds some).2

theorem isWord_of_mem {p word : Text} (member : word ∈ wordsOf p) : IsWord p word := by
  induction p using wordsOf.induct with
  | case1 p ended =>
    rw [wordsOf, dif_pos ended] at member
    cases member
  | case2 p goesOn inductionHypothesis =>
    rw [wordsOf, dif_neg goesOn] at member
    rcases List.mem_cons.mp member with rfl | later
    · exact isWord_pieceOf goesOn
    · have word := inductionHypothesis later
      refine ⟨word.part.trans ?_, word.unblanked, word.some, word.fits⟩
      exact (List.drop_suffix _ _).isInfix.trans (List.dropWhile_suffix isBlank).isInfix

/-- The words of a text are the text without its blanks. -/
theorem flatten_wordsOf (p : Text) : (wordsOf p).flatten = unblanked p := by
  induction p using wordsOf.induct with
  | case1 p ended =>
    rw [wordsOf, dif_pos ended, ← unblanked_dropWhile, ended]
    rfl
  | case2 p goesOn inductionHypothesis =>
    have split : pieceOf (p.dropWhile isBlank) ++
        (p.dropWhile isBlank).drop (clampWord (measureWord (p.dropWhile isBlank))) =
        p.dropWhile isBlank := by
      rw [← length_pieceOf]
      exact List.prefix_iff_eq_append.mp (pieceOf_leads _)
    rw [wordsOf, dif_neg goesOn, List.flatten_cons, inductionHypothesis, ← unblanked_dropWhile p]
    conv => rhs; rw [← split]
    rw [unblanked_append, (isWord_pieceOf goesOn).unblanked]

/-! ### The pieces -/

/-- The word that a piece writes. -/
def WrapPiece.content : WrapPiece → Text
  | .word s => s
  | _ => []

theorem content_startLine (lead : Text) (col : Nat) :
    (startLine lead col).1.flatMap (·.1.content) = [] := by
  unfold startLine
  split <;> rfl

theorem content_breakLine (lead : Text) (wlen col : Nat) :
    (breakLine lead wlen col).1.flatMap (·.1.content) = [] := by
  have start := content_startLine lead col
  unfold breakLine
  dsimp only
  split
  · rw [List.flatMap_append, start]
    rfl
  split
  · rw [List.flatMap_append, start]
    rfl
  · exact start

theorem content_layWords (lead : Text) (words : List Text) (col : Nat) :
    (layWords lead words col).flatMap (·.1.content) = words.flatten := by
  induction words generalizing col with
  | nil => rfl
  | cons word words inductionHypothesis =>
    rw [layWords]
    dsimp only
    rw [List.flatMap_append, content_breakLine, List.flatMap_cons, inductionHypothesis]
    rfl

/-- The words that are written are the text without its blanks, for every prefix. -/
theorem content_layText (lead p : Text) :
    (layText lead p).flatMap (·.1.content) = unblanked p := by
  rw [layText]
  dsimp only
  rw [List.flatMap_append, content_startLine, content_layWords, flatten_wordsOf]
  rfl

/-! ### The lines -/

/-- What the pieces write, with the last line feed. -/
def shownText (lead : Text) (pieces : List (WrapPiece × Nat)) : Text :=
  pieces.flatMap (·.1.shown lead) ++ [lf]

/-- The lines that the pieces make behind the prefix, with the line that they start in. -/
def bodies (lead : Text) : (line : Text) → List (WrapPiece × Nat) → List Text
  | line, [] => [line]
  | line, (piece, _) :: rest =>
    if piece = .newLine then line :: bodies lead [] rest
    else bodies lead (line ++ piece.shown lead) rest

/-- A piece in the middle of a text: no prefix of its own, and only words of the text. -/
def WrapPiece.Within (p : Text) : WrapPiece → Prop
  | .lead => False
  | .word s => IsWord p s
  | _ => True

section Lines

variable {lead p : Text} {pieces : List (WrapPiece × Nat)}

/-- Every line starts with the prefix and ends in a line feed. -/
theorem shownText_bodies (lead line : Text) (pieces : List (WrapPiece × Nat)) :
    lead ++ (line ++ shownText lead pieces) =
      (bodies lead line pieces).flatMap fun body => lead ++ body ++ [lf] := by
  induction pieces generalizing line with
  | nil => simp [bodies, shownText]
  | cons first rest inductionHypothesis =>
    obtain ⟨piece, col⟩ := first
    rw [bodies]
    split
    · rename_i breaks
      have further := inductionHypothesis []
      subst breaks
      rw [List.flatMap_cons, ← further]
      simp [shownText, WrapPiece.shown]
    · rw [← inductionHypothesis]
      simp [shownText]

/-- The lines without their blanks are the words. -/
theorem unblanked_bodies (within : ∀ piece ∈ pieces, piece.1.Within p) (line : Text) :
    unblanked (bodies lead line pieces).flatten =
      unblanked line ++ pieces.flatMap (·.1.content) := by
  induction pieces generalizing line with
  | nil => simp [bodies]
  | cons first rest inductionHypothesis =>
    obtain ⟨piece, col⟩ := first
    have inside := within _ List.mem_cons_self
    have further := inductionHypothesis fun other member =>
      within other (List.mem_cons_of_mem _ member)
    rw [bodies, List.flatMap_cons]
    cases piece with
    | lead => exact inside.elim
    | newLine => rw [if_pos rfl, List.flatten_cons, unblanked_append, further]; rfl
    | blank =>
      rw [if_neg nofun, further, unblanked_append, List.append_assoc]
      rfl
    | word s =>
      rw [if_neg nofun, further, unblanked_append, List.append_assoc]
      rw [show unblanked (WrapPiece.shown lead (.word s)) = s from inside.unblanked]
      rfl

theorem noLf_bodies (noLf : lf ∉ p) (within : ∀ piece ∈ pieces, piece.1.Within p) {line : Text}
    (lineLf : lf ∉ line) : ∀ body ∈ bodies lead line pieces, lf ∉ body := by
  induction pieces generalizing line with
  | nil =>
    intro body member
    rw [List.mem_singleton.mp member]
    exact lineLf
  | cons first rest inductionHypothesis =>
    obtain ⟨piece, col⟩ := first
    have inside := within _ List.mem_cons_self
    have further {line : Text} := @inductionHypothesis (fun other member =>
      within other (List.mem_cons_of_mem _ member)) line
    rw [bodies]
    cases piece with
    | lead => exact inside.elim
    | newLine =>
      rw [if_pos rfl]
      rintro body (_ | ⟨_, later⟩)
      · exact lineLf
      · exact further List.not_mem_nil body later
    | blank =>
      rw [if_neg nofun]
      exact further (by simpa [WrapPiece.shown, lineLf] using show lf ≠ 32 by decide)
    | word s =>
      rw [if_neg nofun]
      have wordLf : lf ∉ s := fun member => noLf (inside.part.subset member)
      exact further (by simp [WrapPiece.shown, lineLf, wordLf])

/-- Behind a prefix for which no column leaves its range no piece is another copy of it. -/
theorem within_layWords (short : ShortLead lead) {words : List Text}
    (areWords : ∀ word ∈ words, IsWord p word) {col : Nat} (inRange : InRange lead col)
    (started : lead ≠ [] → col ≠ 0) :
    ∀ piece ∈ layWords lead words col, piece.1.Within p := by
  induction words generalizing col with
  | nil => simp [layWords]
  | cons word words inductionHypothesis =>
    have isWord := areWords word List.mem_cons_self
    obtain ⟨noWrap, after⟩ := inRange_breakLine short inRange started isWord.fits
    have further := inductionHypothesis
      (fun other member => areWords other (List.mem_cons_of_mem _ member)) after
      (fun _ => by have := isWord.some; omega)
    rw [layWords]
    dsimp only
    rw [noWrap]
    intro piece member
    rcases List.mem_append.mp member with front | back
    · rw [breakLine_eq short inRange started isWord.fits] at front
      split at front
      · rw [List.mem_singleton.mp front]
        trivial
      split at front
      · rw [List.mem_singleton.mp front]
        trivial
      · cases front
    · rcases List.mem_cons.mp back with rfl | later
      · exact isWord
      · exact further piece later

theorem within_layText (short : ShortLead lead) (p : Text) :
    ∀ piece ∈ layWords lead (wordsOf p) lead.length, piece.1.Within p :=
  within_layWords short (fun _ => isWord_of_mem) (inRange_lead lead)
    (fun some => Nat.ne_of_gt (List.length_pos_iff.mpr some))

/-- The output is made of lines behind the prefix. -/
theorem shownText_layText (short : ShortLead lead) (p : Text) :
    shownText lead (layText lead p) =
      (bodies lead [] (layWords lead (wordsOf p) lead.length)).flatMap
        fun body => lead ++ body ++ [lf] := by
  rw [← shownText_bodies, layText, startLine_eq short]
  by_cases noLead : lead = []
  · subst noLead
    rfl
  · rw [if_pos noLead, shownText, shownText, List.flatMap_append, List.flatMap_cons]
    simp [WrapPiece.shown]

end Lines

/-- Word wrapping stays inside of its buffer, ends, and loses nothing: the words that are written
are the text without its blanks, in order. In front of columns that fit in their type, the output
is made of lines that start with the prefix. -/
theorem printWrappedIn_lossless (word : Vector Byte wordSize) (lead : Text) {p : Text}
    (nulFree : 0 ∉ p) (noLf : lf ∉ p) :
    ∃ pieces, printWrappedIn word lead p = .ok pieces ∧
      pieces.flatMap (·.1.content) = unblanked p ∧
      (ShortLead lead → ∃ lines : List Text,
        shownText lead pieces = lines.flatMap (fun line => lead ++ line ++ [lf]) ∧
        (∀ line ∈ lines, lf ∉ line) ∧ unblanked lines.flatten = unblanked p) := by
  refine ⟨layText lead p, printWrappedIn_eq word lead nulFree, content_layText lead p,
    fun short => ⟨_, shownText_layText short p, ?_, ?_⟩⟩
  · exact noLf_bodies noLf (within_layText short p) List.not_mem_nil
  · rw [unblanked_bodies (within_layText short p), content_layWords, flatten_wordsOf]
    rfl

/-- A word that is longer than the buffer is cut, and nothing of it is lost. -/
theorem printWrappedIn_lossless_cut :
    ∃ pieces, printWrappedIn (Vector.replicate wordSize 0) (text "> ")
        (List.replicate 300 (byte 'a') ++ text " b") = .ok pieces ∧
      pieces.flatMap (·.1.content) = List.replicate 300 (byte 'a') ++ text "b" ∧
      ∃ lines : List Text,
        shownText (text "> ") pieces = lines.flatMap (fun line => text "> " ++ line ++ [lf]) ∧
        (∀ line ∈ lines, lf ∉ line) ∧
        unblanked lines.flatten = List.replicate 300 (byte 'a') ++ text "b" := by
  have without (c : Byte) (other : c ≠ byte 'a') (notIn : c ∉ text " b") :
      c ∉ List.replicate 300 (byte 'a') ++ text " b" := fun member =>
    (List.mem_append.mp member).elim (fun long => other (List.eq_of_mem_replicate long)) notIn
  have words : unblanked (List.replicate 300 (byte 'a') ++ text " b") =
      List.replicate 300 (byte 'a') ++ text "b" := by
    rw [unblanked_append, unblanked, List.filter_replicate_of_pos (by decide)]
    rfl
  obtain ⟨pieces, done, content, lines⟩ := printWrappedIn_lossless (Vector.replicate wordSize 0)
    (text "> ") (without 0 (by decide) (by decide)) (without lf (by decide) (by decide))
  rw [words] at content lines
  exact ⟨pieces, done, content, lines (show 2 + 511 < uintRange by decide)⟩

/-! ### The columns -/

/-- The line behind a piece. -/
def WrapPiece.after (lead line : Text) : WrapPiece → Text
  | .newLine => lead
  | piece => line ++ piece.shown lead

/-- The line that the output stands in behind the pieces. -/
def currentLine (lead : Text) (line : Text) (pieces : List (WrapPiece × Nat)) : Text :=
  pieces.foldl (fun line piece => piece.1.after lead line) line

/-- A piece is written as it should: the line behind it fits the screen, the column is its length,
and a line break stands in front of a word that does not fit the line. -/
structure WellPlaced (lead line : Text) (piece : WrapPiece) (col : Nat)
    (back : List (WrapPiece × Nat)) : Prop where
  fits : (piece.after lead line).length ≤ nosWrapCols
  tracked : col = (piece.after lead line).length
  greedy : piece = .newLine → ∃ word next later, back = (.word word, next) :: later ∧
    nosWrapCols < line.length + gapCols line.length + word.length

section Placed

variable {lead p line : Text} {pieces : List (WrapPiece × Nat)}

/-- All pieces behind a line are well placed. -/
def AllPlaced (lead line : Text) (pieces : List (WrapPiece × Nat)) : Prop :=
  ∀ front piece col back, pieces = front ++ (piece, col) :: back →
    WellPlaced lead (currentLine lead line front) piece col back

theorem allPlaced_nil (lead line : Text) : AllPlaced lead line [] := by
  intro front piece col back split
  simp at split

theorem allPlaced_cons {piece : WrapPiece} {col : Nat} :
    AllPlaced lead line ((piece, col) :: pieces) ↔
      WellPlaced lead line piece col pieces ∧ AllPlaced lead (piece.after lead line) pieces := by
  constructor
  · refine fun placed => ⟨placed [] piece col pieces rfl, fun front other next back split => ?_⟩
    exact placed ((piece, col) :: front) other next back (by rw [split, List.cons_append])
  · rintro ⟨placed, further⟩ front other next back split
    cases front with
    | nil =>
      cases split
      exact placed
    | cons first front =>
      obtain ⟨rfl, rest⟩ := List.cons.inj split
      exact further front other next back rest

/-- Every line of well placed pieces fits the screen. -/
theorem length_bodies {start : Text} (begins : start = lead ++ line)
    (placed : AllPlaced lead start pieces) (fits : lead.length + line.length ≤ nosWrapCols) :
    ∀ body ∈ bodies lead line pieces, lead.length + body.length ≤ nosWrapCols := by
  induction pieces generalizing start line with
  | nil =>
    intro body member
    rw [List.mem_singleton.mp member]
    exact fits
  | cons first rest inductionHypothesis =>
    obtain ⟨piece, col⟩ := first
    obtain ⟨here, further⟩ := allPlaced_cons.mp placed
    have onScreen := here.fits
    rw [bodies]
    by_cases breaks : piece = .newLine
    · subst breaks
      rw [if_pos rfl]
      rintro body (_ | ⟨_, later⟩)
      · exact fits
      · exact inductionHypothesis (List.append_nil lead).symm further onScreen body later
    · have longer : piece.after lead start = lead ++ (line ++ piece.shown lead) := by
        rw [begins]
        cases piece with
        | newLine => exact absurd rfl breaks
        | _ => exact List.append_assoc ..
      rw [longer, List.length_append] at onScreen
      rw [if_neg breaks]
      exact inductionHypothesis longer further onScreen

/-- Words that fit behind the prefix are well placed. -/
theorem allPlaced_layWords (narrow : lead.length ≤ 40) {words : List Text}
    (fit : ∀ word ∈ words, 0 < word.length ∧ lead.length + word.length ≤ nosWrapCols)
    (onScreen : line.length ≤ nosWrapCols) (started : lead ≠ [] → line.length ≠ 0) :
    AllPlaced lead line (layWords lead words line.length) := by
  have short : ShortLead lead := by
    rw [ShortLead, uintRange]
    omega
  induction words generalizing line with
  | nil => exact allPlaced_nil lead line
  | cons word words inductionHypothesis =>
    obtain ⟨some, fits⟩ := fit word List.mem_cons_self
    have inRange : InRange lead line.length := Nat.le_trans onScreen (Nat.le_max_left _ _)
    have inBuffer : word.length ≤ 255 := by
      rw [nosWrapCols] at fits
      omega
    obtain ⟨noWrap, -⟩ := inRange_breakLine short inRange started inBuffer
    -- the word, and what comes behind it
    have behind {line : Text} (room : line.length + word.length ≤ nosWrapCols) :
        AllPlaced lead line ((.word word, line.length + word.length) ::
          layWords lead words (line.length + word.length)) := by
      have length : (line ++ word).length = line.length + word.length := List.length_append
      have placed : AllPlaced lead (line ++ word) (layWords lead words (line ++ word).length) :=
        inductionHypothesis (fun other member => fit other (List.mem_cons_of_mem _ member))
          (by rw [length]; exact room) (fun _ => by rw [length]; omega)
      rw [length] at placed
      rw [← length] at room
      exact allPlaced_cons.mpr ⟨⟨room, length.symm, fun other => by cases other⟩, placed⟩
    rw [layWords]
    dsimp only
    rw [noWrap, breakLine_eq short inRange started inBuffer]
    by_cases long : nosWrapCols < line.length + gapCols line.length + word.length
    · rw [if_pos long]
      have leadFits : lead.length ≤ nosWrapCols := by omega
      exact allPlaced_cons.mpr ⟨⟨leadFits, rfl, fun _ => ⟨word, _, _, rfl, long⟩⟩, behind fits⟩
    · rw [if_neg long]
      by_cases positive : line.length > 0
      · rw [gapCols, if_pos (Nat.ne_of_gt positive)] at long
        rw [if_pos positive]
        have length : (line ++ [32]).length = line.length + 1 := List.length_append
        have next : AllPlaced lead (line ++ [32]) _ := behind (by rw [length]; omega)
        have onScreen : (line ++ [32]).length ≤ nosWrapCols := by omega
        rw [length] at next
        exact allPlaced_cons.mpr ⟨⟨onScreen, length.symm, fun other => by cases other⟩, next⟩
      · rw [if_neg positive]
        exact behind (by omega)

theorem allPlaced_layText (narrow : lead.length ≤ 40)
    (fit : ∀ word ∈ wordsOf p, lead.length + word.length ≤ nosWrapCols) :
    AllPlaced lead lead (layWords lead (wordsOf p) lead.length) :=
  allPlaced_layWords narrow (fun word member => ⟨(isWord_of_mem member).some, fit word member⟩)
    (by rw [nosWrapCols]; omega) (fun some => Nat.ne_of_gt (List.length_pos_iff.mpr some))

end Placed

/-- With a prefix of at most 40 characters and words that fit a line behind it, every line has at
most 80 columns, the tracked column is the length of the current line at every moment, and a line
break stands only in front of a word that does not fit the line. -/
theorem printWrappedIn_fits (word : Vector Byte wordSize) {lead p : Text} (nulFree : 0 ∉ p)
    (noLf : lf ∉ p) (narrow : lead.length ≤ 40)
    (fit : ∀ part, part <:+: p → unblanked part = part → part.length ≤ 80 - lead.length) :
    ∃ pieces, printWrappedIn word lead p = .ok pieces ∧
      (∃ lines : List Text,
        shownText lead pieces = lines.flatMap (fun line => lead ++ line ++ [lf]) ∧
        ∀ line ∈ lines, lf ∉ line ∧ lead.length + line.length ≤ 80) ∧
      ∀ front piece col back, pieces = front ++ (piece, col) :: back →
        WellPlaced lead (currentLine lead [] front) piece col back := by
  have short : ShortLead lead := by
    rw [ShortLead, uintRange]
    omega
  have words (word : Text) (member : word ∈ wordsOf p) :
      lead.length + word.length ≤ nosWrapCols := by
    have isWord := isWord_of_mem member
    have fits := fit word isWord.part isWord.unblanked
    rw [nosWrapCols]
    omega
  have placed := allPlaced_layText narrow words
  refine ⟨layText lead p, printWrappedIn_eq word lead nulFree,
    ⟨_, shownText_layText short p, fun line member => ⟨?_, ?_⟩⟩, ?_⟩
  · exact noLf_bodies noLf (within_layText short p) List.not_mem_nil line member
  · have leadFits : lead.length + 0 ≤ nosWrapCols := Nat.le_trans narrow (by decide)
    exact length_bodies (List.append_nil lead).symm placed leadFits line member
  · rw [layText, startLine_eq short]
    by_cases noLead : lead = []
    · subst noLead
      exact placed
    · rw [if_pos noLead]
      refine allPlaced_cons.mpr ⟨⟨?_, rfl, fun other => by cases other⟩, placed⟩
      exact Nat.le_trans narrow (by decide)

theorem printWrappedIn_fits_words :
    ∃ pieces, printWrappedIn (Vector.replicate wordSize 0) (text "> ") (text "one  two") =
        .ok pieces ∧
      ∃ lines : List Text,
        shownText (text "> ") pieces = lines.flatMap (fun line => text "> " ++ line ++ [lf]) ∧
        ∀ line ∈ lines, lf ∉ line ∧ (text "> ").length + line.length ≤ 80 := by
  obtain ⟨pieces, done, lines, -⟩ := printWrappedIn_fits (Vector.replicate wordSize 0)
    (show 0 ∉ text "one  two" by decide) (by decide) (show (text "> ").length ≤ 40 by decide)
    fun part inside _ => Nat.le_trans inside.length_le (by decide)
  exact ⟨pieces, done, lines⟩

end Nosgem
