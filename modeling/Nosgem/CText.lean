/-
This file gives the part of the C text library that byte-level programs rest
on: bytes and C strings as lists, case folding in the C locale, the pieces in
which `fgets` reads a text, the words `sscanf` takes out of a line, and decimal
output. A buffer is the list of the bytes stored in it; the C string in it is
the part before the first NUL.

The main results are about pieces. A reader that calls `fgets` with a fixed
size sees a text as a list of pieces; the pieces of a text join back to it, and
a list of complete pieces is read back as itself, so a writer that replaces
complete pieces by complete pieces keeps every piece boundary.
-/

import Mathlib.Data.List.TakeWhile
import Mathlib.Data.List.Infix
import Mathlib.Tactic.Basic

namespace CText

/-! ### Bytes and strings -/

/-- The `char` of the 16-bit target, eight bits wide and unsigned. -/
abbrev Byte := UInt8

abbrev Text := List Byte

/-- A statement about the bytes of a text is decided on these, not on all bytes. -/
instance (priority := 2000) (s : Text) (holds : Byte → Prop) [DecidablePred holds] :
    Decidable (∀ c ∈ s, holds c) := List.decidableBAll holds s

/-- The byte of a C character constant. -/
abbrev byte (character : Char) : Byte := character.toNat.toUInt8

/-- The bytes of a C string literal. -/
def text (literal : String) : Text := literal.toList.map byte

def lf : Byte := 10

def cr : Byte := 13

/-- The C string stored in a buffer: what stands before the first NUL. -/
def cString (buffer : Text) : Text := buffer.takeWhile (· ≠ 0)

/-- `tolower` in the C locale. -/
def toLower (c : Byte) : Byte := if 65 ≤ c ∧ c ≤ 90 then c + 32 else c

/-- `isspace` in the C locale: blank, and TAB, LF, VT, FF, CR. -/
def isSpace (c : Byte) : Bool := c == 32 || (9 ≤ c && c ≤ 13)

def isBlank (c : Byte) : Bool := c == 32 || c == 9

def isDigit (c : Byte) : Bool := byte '0' ≤ c && c ≤ byte '9'

/-- `strstr(hay, needle) != NULL`. -/
def strstr (hay needle : Text) : Bool := hay.tails.any fun tail => needle.isPrefixOf tail

/-- `%u`. -/
def decimal (value : Nat) : Text := (Nat.toDigits 10 value).map byte

/-- A digit of `%X`. -/
def hexDigit (nibble : Nat) : Byte :=
  if nibble < 10 then (48 + nibble).toUInt8 else (55 + nibble).toUInt8

theorem cString_eq_self {buffer : Text} (nulFree : 0 ∉ buffer) : cString buffer = buffer :=
  List.takeWhile_eq_self_iff.mpr fun c member => by
    simpa using fun equal : c = 0 => nulFree (equal ▸ member)

/-- A C string goes on with the text behind it, if there is no NUL in it. -/
theorem cString_append (front back : Text) :
    cString (front ++ back) = cString front ++ if 0 ∈ front then [] else cString back := by
  induction front with
  | nil => simp [cString]
  | cons c front inductionHypothesis =>
    by_cases nul : c = 0
    · subst nul
      simp [cString]
    · have other : ¬ (0 = c) := Ne.symm nul
      have step (rest : Text) : cString (c :: rest) = c :: cString rest := by simp [cString, nul]
      rw [List.cons_append, step, step, inductionHypothesis]
      simp [other]

theorem nulFree_cString (buffer : Text) : 0 ∉ cString buffer := fun member => by
  simpa using List.mem_takeWhile_imp member

/-! ### Case folding -/

/-- The text with every letter in lower case: two texts are equal up to letter case when they
fold to the same text. -/
def fold (s : Text) : Text := s.map toLower

@[simp] theorem fold_nil : fold [] = [] := rfl

@[simp] theorem fold_cons (c : Byte) (s : Text) : fold (c :: s) = toLower c :: fold s := rfl

/-- Only a letter folds to another byte, and what it folds to is a letter. -/
theorem eq_of_toLower {c mark : Byte} (notLetter : mark < 97) (equal : toLower c = mark) :
    c = mark := by
  unfold toLower at equal
  split at equal
  · rename_i upper
    have first : 65 ≤ c.toNat := UInt8.le_iff_toNat_le.mp upper.1
    have last : c.toNat ≤ 90 := UInt8.le_iff_toNat_le.mp upper.2
    have below : mark.toNat < 97 := UInt8.lt_iff_toNat_lt.mp notLetter
    have value := congrArg UInt8.toNat equal
    rw [UInt8.toNat_add, show (32 : Byte).toNat = 32 from rfl] at value
    omega
  · exact equal

/-- Only a text without letters folds to itself without being folded. -/
theorem eq_of_fold {s target : Text} (noLetters : ∀ c ∈ target, c < 97)
    (folded : fold s = target) : s = target := by
  rw [← folded]
  refine (List.map_id s).symm.trans (List.map_congr_left fun c member => ?_)
  exact eq_of_toLower (noLetters _ (folded ▸ List.mem_map_of_mem member)) rfl

@[simp] theorem length_fold (s : Text) : (fold s).length = s.length := List.length_map _

/-! ### Decimal output -/

/-- The number a string of digits denotes. -/
def decimalValue (digits : Text) : Nat :=
  digits.foldl (fun value c => 10 * value + (c.toNat - 48)) 0

theorem isDigit_byte {c : Char} (digit : c.isDigit) :
    isDigit (byte c) ∧ (byte c).toNat = c.toNat := by
  simp only [Char.isDigit, Bool.and_eq_true, decide_eq_true_eq] at digit
  have lower : 48 ≤ c.toNat := UInt32.le_iff_toNat_le.mp digit.1
  have upper : c.toNat ≤ 57 := UInt32.le_iff_toNat_le.mp digit.2
  have value : (byte c).toNat = c.toNat := by
    simp only [byte, Nat.toUInt8_eq, UInt8.toNat_ofNat']
    omega
  refine ⟨?_, value⟩
  simp only [isDigit, Bool.and_eq_true, decide_eq_true_eq, UInt8.le_iff_toNat_le, value]
  exact ⟨lower, upper⟩

theorem isDigit_of_mem_decimal {value : Nat} {c : Byte} (member : c ∈ decimal value) :
    isDigit c := by
  obtain ⟨digit, digitMember, rfl⟩ := List.mem_map.mp member
  exact (isDigit_byte (Nat.isDigit_of_mem_toDigits (by decide) (by decide) digitMember)).1

theorem decimalValue_decimal (value : Nat) : decimalValue (decimal value) = value := by
  have agree (digits : List Char) (all : ∀ c ∈ digits, c.isDigit) (start : Nat) :
      (digits.map byte).foldl (fun value c => 10 * value + (c.toNat - 48)) start =
        Nat.ofDigitChars 10 digits start := by
    induction digits generalizing start with
    | nil => simp
    | cons c rest inductionHypothesis =>
      rw [List.map_cons, List.foldl_cons, Nat.ofDigitChars_cons,
        (isDigit_byte (all c List.mem_cons_self)).2]
      exact inductionHypothesis (fun d member => all d (List.mem_cons_of_mem _ member)) _
  rw [decimalValue, decimal, agree _ fun c member =>
    Nat.isDigit_of_mem_toDigits (by decide) (by decide) member, Nat.ofDigitChars_ten_toDigits]

theorem decimal_injective : Function.Injective decimal :=
  Function.LeftInverse.injective decimalValue_decimal

/-! ### The pieces `fgets` reads -/

/-- The bytes one `fgets` takes when its buffer has room for `room` bytes before the NUL: up to
and including the first LF, at most `room` of them. -/
def piece : (room : Nat) → Text → Text
  | 0, _ => []
  | _, [] => []
  | room + 1, c :: rest => if c = lf then [c] else c :: piece room rest

/-- `fgets(buffer, size, stream)`: the piece read and the rest of the stream, or nothing at its
end. -/
def fgets (size : Nat) (stream : Text) : Option (Text × Text) :=
  if stream = [] then none
  else some (piece (size - 1) stream, stream.drop (piece (size - 1) stream).length)

/-- `while (fgets(line, size, f))`: the pieces of the whole stream. -/
def readPieces (size : Nat) : (fuel : Nat) → Text → List Text
  | 0, _ => []
  | fuel + 1, stream =>
    match fgets size stream with
    | none => []
    | some (line, rest) => line :: readPieces size fuel rest

/-- Every turn of the loop takes at least one byte, so the length bounds the turns. -/
def pieces (size : Nat) (stream : Text) : List Text := readPieces size stream.length stream

/-- A piece that ends where a reader has to stop: at an LF, or with a full buffer. -/
structure Complete (size : Nat) (line : Text) : Prop where
  short : line.length < size
  stops : lf ∉ line ∧ line.length + 1 = size ∨ ∃ front, line = front ++ [lf] ∧ lf ∉ front

theorem length_piece_le (room : Nat) (stream : Text) : (piece room stream).length ≤ room := by
  fun_induction piece room stream with
  | case1 => simp
  | case2 => simp
  | case3 => simp
  | case4 room c rest _ inductionHypothesis => simpa using inductionHypothesis

theorem piece_leads (room : Nat) (stream : Text) : piece room stream <+: stream := by
  fun_induction piece room stream with
  | case1 => exact List.nil_prefix
  | case2 => exact List.nil_prefix
  | case3 room rest => exact ⟨rest, rfl⟩
  | case4 room c rest _ inductionHypothesis =>
    exact List.cons_prefix_cons.mpr ⟨rfl, inductionHypothesis⟩

theorem piece_ne_nil {room : Nat} {stream : Text} (some : 0 < room) (left : stream ≠ []) :
    piece room stream ≠ [] := by
  fun_cases piece room stream <;> simp_all

theorem piece_full {line : Text} (noLf : lf ∉ line) (rest : Text) :
    piece line.length (line ++ rest) = line := by
  induction line with
  | nil => cases rest <;> rfl
  | cons c line inductionHypothesis =>
    have other : c ≠ lf := fun equal => noLf (by simp [equal])
    rw [List.length_cons, List.cons_append, piece, if_neg other,
      inductionHypothesis fun member => noLf (List.mem_cons_of_mem _ member)]

theorem piece_lf {front : Text} (noLf : lf ∉ front) {room : Nat} (fits : front.length < room)
    (rest : Text) : piece room (front ++ lf :: rest) = front ++ [lf] := by
  induction front generalizing room with
  | nil =>
    obtain ⟨room, rfl⟩ := Nat.exists_eq_succ_of_ne_zero (Nat.ne_of_gt fits)
    rw [List.nil_append, piece, if_pos rfl, List.nil_append]
  | cons c front inductionHypothesis =>
    obtain ⟨room, rfl⟩ := Nat.exists_eq_succ_of_ne_zero (Nat.ne_zero_of_lt fits)
    have other : c ≠ lf := fun equal => noLf (by simp [equal])
    rw [List.cons_append, piece, if_neg other,
      inductionHypothesis (fun member => noLf (List.mem_cons_of_mem _ member))
        (by simpa using fits), List.cons_append]

/-- A complete piece is read back as itself, whatever follows it. -/
theorem piece_of_complete {size : Nat} {line : Text} (complete : Complete size line)
    (rest : Text) : piece (size - 1) (line ++ rest) = line := by
  rcases complete.stops with ⟨noLf, full⟩ | ⟨front, rfl, noLf⟩
  · rw [show size - 1 = line.length by omega]
    exact piece_full noLf rest
  · have short := complete.short
    rw [List.append_assoc]
    exact piece_lf noLf (by simp at short; omega) rest

theorem Complete.ne_nil {size : Nat} (room : 1 < size) {line : Text}
    (complete : Complete size line) : line ≠ [] := by
  rintro rfl
  rcases complete.stops with ⟨_, full⟩ | ⟨front, equal, _⟩
  · simp at full
    omega
  · simp at equal

/-- The fuel of the reading loop does not matter once it covers the stream. -/
theorem readPieces_eq {size : Nat} (room : 1 < size) {fuel : Nat} {stream : Text}
    (covers : stream.length ≤ fuel) : readPieces size fuel stream = pieces size stream := by
  suffices ∀ fuel other, stream.length ≤ fuel → stream.length ≤ other →
      readPieces size fuel stream = readPieces size other stream from
    this _ _ covers (Nat.le_refl _)
  clear covers fuel
  intro fuel
  induction fuel generalizing stream with
  | zero =>
    intro other covers _
    obtain rfl : stream = [] := List.length_eq_zero_iff.mp (Nat.le_zero.mp covers)
    cases other <;> rfl
  | succ fuel inductionHypothesis =>
    intro other covers otherCovers
    by_cases ended : stream = []
    · subst ended
      cases other <;> rfl
    · obtain ⟨other, rfl⟩ : ∃ less, other = less + 1 :=
        ⟨other - 1, by have := List.length_pos_iff.mpr ended; omega⟩
      have taken := List.length_pos_iff.mpr (piece_ne_nil (show 0 < size - 1 by omega) ended)
      have shorter : (stream.drop (piece (size - 1) stream).length).length < stream.length := by
        have := List.length_pos_iff.mpr ended
        rw [List.length_drop]
        omega
      simp only [readPieces, fgets, if_neg ended]
      rw [inductionHypothesis other (by omega) (by omega)]

theorem pieces_nil (size : Nat) : pieces size [] = [] := rfl

/-- One turn of the reading loop. -/
theorem pieces_eq {size : Nat} (room : 1 < size) {stream : Text} (left : stream ≠ []) :
    pieces size stream =
      piece (size - 1) stream :: pieces size (stream.drop (piece (size - 1) stream).length) := by
  have positive := List.length_pos_iff.mpr left
  have taken := List.length_pos_iff.mpr (piece_ne_nil (show 0 < size - 1 by omega) left)
  rw [pieces, show stream.length = (stream.length - 1) + 1 by omega]
  simp only [readPieces, fgets, if_neg left]
  rw [readPieces_eq room (by rw [List.length_drop]; omega)]

/-- The pieces of a text join back to it. -/
theorem flatten_pieces {size : Nat} (room : 1 < size) (stream : Text) :
    (pieces size stream).flatten = stream := by
  induction h : stream.length using Nat.strongRecOn generalizing stream with
  | ind length inductionHypothesis =>
    by_cases ended : stream = []
    · subst ended
      rfl
    · have positive := List.length_pos_iff.mpr ended
      have taken := List.length_pos_iff.mpr (piece_ne_nil (show 0 < size - 1 by omega) ended)
      rw [pieces_eq room ended, List.flatten_cons,
        inductionHypothesis _ (by rw [List.length_drop]; omega) _ rfl]
      conv_rhs => rw [← List.take_append_drop (piece (size - 1) stream).length stream]
      rw [← List.prefix_iff_eq_take.mp (piece_leads _ _)]

/-- A complete piece in front of a text is its first piece. -/
theorem pieces_append {size : Nat} (room : 1 < size) {line : Text}
    (complete : Complete size line) (rest : Text) :
    pieces size (line ++ rest) = line :: pieces size rest := by
  rw [pieces_eq room (by simp [complete.ne_nil room]), piece_of_complete complete,
    List.drop_left]

/-- Complete pieces in front of a text are its first pieces. -/
theorem pieces_flatten_append {size : Nat} (room : 1 < size) {lines : List Text}
    (complete : ∀ line ∈ lines, Complete size line) (rest : Text) :
    pieces size (lines.flatten ++ rest) = lines ++ pieces size rest := by
  induction lines with
  | nil => rfl
  | cons line lines inductionHypothesis =>
    rw [List.flatten_cons, List.append_assoc, pieces_append room (complete _ List.mem_cons_self),
      inductionHypothesis fun other member => complete other (List.mem_cons_of_mem _ member),
      List.cons_append]

/-- A list of complete pieces is read back as itself. -/
theorem pieces_flatten {size : Nat} (room : 1 < size) {lines : List Text}
    (complete : ∀ line ∈ lines, Complete size line) : pieces size lines.flatten = lines := by
  simpa [pieces_nil] using pieces_flatten_append room complete []

/-- A text whose lines are newline-terminated: empty, or ending in LF. -/
def Terminated (stream : Text) : Prop := stream = [] ∨ ∃ front, stream = front ++ [lf]

theorem Terminated.of_append {front back : Text} (terminated : Terminated (front ++ back))
    (left : back ≠ []) : Terminated back := by
  rcases terminated with equal | ⟨init, equal⟩
  · exact absurd (List.append_eq_nil_iff.mp equal).2 left
  · right
    refine ⟨back.dropLast, ?_⟩
    have last : (front ++ back).getLast? = some lf := by rw [equal, List.getLast?_concat]
    rw [List.getLast?_append_of_ne_nil _ left, List.getLast?_eq_some_getLast left] at last
    conv_lhs => rw [← List.dropLast_append_getLast left, Option.some.inj last]

/-- Where a piece stops: at a full buffer, after an LF, or at the end of the stream. -/
theorem piece_stops (room : Nat) (stream : Text) :
    (lf ∉ piece room stream ∧ (piece room stream).length = room) ∨
      (∃ front, piece room stream = front ++ [lf] ∧ lf ∉ front) ∨
      (piece room stream = stream ∧ lf ∉ stream) := by
  fun_induction piece room stream with
  | case1 => exact .inl ⟨by simp, rfl⟩
  | case2 => exact .inr (.inr ⟨rfl, by simp⟩)
  | case3 room rest => exact .inr (.inl ⟨[], rfl, by simp⟩)
  | case4 room c rest other inductionHypothesis =>
    have different : lf ≠ c := Ne.symm other
    rcases inductionHypothesis with ⟨noLf, full⟩ | ⟨front, equal, noLf⟩ | ⟨equal, noLf⟩
    · exact .inl ⟨by simp [different, noLf], by simp [full]⟩
    · exact .inr (.inl ⟨c :: front, by simp [equal], by simp [different, noLf]⟩)
    · exact .inr (.inr ⟨by rw [equal], by simp [different, noLf]⟩)

/-- Every piece of a newline-terminated text is complete. -/
theorem complete_of_mem_pieces {size : Nat} (room : 1 < size) {stream : Text}
    (terminated : Terminated stream) : ∀ line ∈ pieces size stream, Complete size line := by
  induction h : stream.length using Nat.strongRecOn generalizing stream with
  | ind length inductionHypothesis =>
    by_cases ended : stream = []
    · subst ended
      simp [pieces_nil]
    have taken := List.length_pos_iff.mpr (piece_ne_nil (show 0 < size - 1 by omega) ended)
    have positive := List.length_pos_iff.mpr ended
    rw [pieces_eq room ended]
    intro line member
    rcases List.mem_cons.mp member with rfl | later
    · have short := length_piece_le (size - 1) stream
      refine ⟨by omega, ?_⟩
      rcases piece_stops (size - 1) stream with ⟨noLf, full⟩ | stops | ⟨_, noLf⟩
      · exact .inl ⟨noLf, by omega⟩
      · exact .inr stops
      · rcases terminated with rfl | ⟨front, rfl⟩
        · exact absurd rfl ended
        · simp at noLf
    · generalize cut : stream.drop (piece (size - 1) stream).length = rest at later
      have joined : stream = stream.take (piece (size - 1) stream).length ++ rest := by
        rw [← cut, List.take_append_drop]
      have terminatedRest : Terminated rest := by
        by_cases empty : rest = []
        · exact .inl empty
        · exact (joined ▸ terminated : Terminated (_ ++ rest)).of_append empty
      refine inductionHypothesis _ ?_ terminatedRest rfl line later
      rw [← cut, List.length_drop]
      omega

/-- A text without an LF that leaves room in the buffer is one piece. -/
theorem pieces_short {size : Nat} (room : 1 < size) {line : Text} (some : line ≠ [])
    (noLf : lf ∉ line) (short : line.length < size) : pieces size line = [line] := by
  have whole : piece (size - 1) line = line := by
    refine List.IsPrefix.eq_of_length (piece_leads _ _) ?_
    rcases piece_stops (size - 1) line with ⟨_, full⟩ | ⟨front, equal, _⟩ | ⟨equal, _⟩
    · have taken := (piece_leads (size - 1) line).length_le
      omega
    · have member : lf ∈ piece (size - 1) line := by rw [equal]; simp
      exact absurd ((piece_leads _ _).subset member) noLf
    · rw [equal]
  rw [pieces_eq room some, whole, List.drop_length, pieces_nil]

/-- A text is cut into complete pieces and a rest that stops before the buffer is full. -/
theorem pieces_cut {size : Nat} (room : 1 < size) (stream : Text) :
    ∃ lines rest, stream = lines.flatten ++ rest ∧ (∀ line ∈ lines, Complete size line) ∧
      lf ∉ rest ∧ rest.length + 1 < size ∧
      pieces size stream = lines ++ if rest = [] then [] else [rest] := by
  induction h : stream.length using Nat.strongRecOn generalizing stream with
  | ind length inductionHypothesis =>
    by_cases ended : stream = []
    · subst ended
      exact ⟨[], [], rfl, by simp, by simp, room, rfl⟩
    have taken := List.length_pos_iff.mpr (piece_ne_nil (show 0 < size - 1 by omega) ended)
    have fits := length_piece_le (size - 1) stream
    have go (complete : Complete size (piece (size - 1) stream)) : ∃ lines rest,
        stream = lines.flatten ++ rest ∧ (∀ line ∈ lines, Complete size line) ∧ lf ∉ rest ∧
        rest.length + 1 < size ∧
        pieces size stream = lines ++ if rest = [] then [] else [rest] := by
      have positive := List.length_pos_iff.mpr ended
      obtain ⟨lines, rest, joined, all, noLf, short, cut⟩ := inductionHypothesis _
        (by rw [List.length_drop]; omega) (stream.drop (piece (size - 1) stream).length) rfl
      refine ⟨piece (size - 1) stream :: lines, rest, ?_, ?_, noLf, short, ?_⟩
      · rw [List.flatten_cons, List.append_assoc, ← joined]
        conv_lhs => rw [← List.take_append_drop (piece (size - 1) stream).length stream]
        rw [← List.prefix_iff_eq_take.mp (piece_leads _ _)]
      · exact List.forall_mem_cons.mpr ⟨complete, all⟩
      · rw [pieces_eq room ended, cut, List.cons_append]
    rcases piece_stops (size - 1) stream with ⟨noLf, full⟩ | stops | ⟨whole, noLf⟩
    · exact go ⟨by omega, .inl ⟨noLf, by omega⟩⟩
    · exact go ⟨by omega, .inr stops⟩
    · by_cases full : stream.length + 1 = size
      · exact go ⟨by omega, .inl ⟨whole.symm ▸ noLf, by rw [whole]; exact full⟩⟩
      · rw [whole] at fits
        refine ⟨[], stream, rfl, by simp, noLf, by omega, ?_⟩
        rw [if_neg ended, pieces_short room ended noLf (by omega), List.nil_append]

/-! ### Lines -/

/-- The lines of a text, with their line ends; the last one may have none. -/
def fullLines : Text → List Text
  | [] => []
  | c :: rest =>
    if c = lf then [c] :: fullLines rest
    else
      match fullLines rest with
      | [] => [[c]]
      | line :: more => (c :: line) :: more

theorem fullLines_line {front : Text} (noLf : lf ∉ front) (rest : Text) :
    fullLines (front ++ lf :: rest) = (front ++ [lf]) :: fullLines rest := by
  induction front with
  | nil => rw [List.nil_append, fullLines, if_pos rfl, List.nil_append]
  | cons c front inductionHypothesis =>
    rw [List.mem_cons, not_or] at noLf
    rw [List.cons_append, fullLines, if_neg (Ne.symm noLf.1), inductionHypothesis noLf.2,
      List.cons_append]

/-- The first line of a text and the lines of what follows it; a piece is a part of the first line
that its buffer has room for. -/
theorem fullLines_eq {stream : Text} (left : stream ≠ []) :
    ∃ line more, fullLines stream = line :: more ∧ stream = line ++ more.flatten ∧
      fullLines more.flatten = more ∧ ∀ room, piece room stream = line.take room := by
  induction stream with
  | nil => exact absurd rfl left
  | cons c rest inductionHypothesis =>
    have pieces (line : Text) (other : c ≠ lf) (tail : ∀ room, piece room rest = line.take room)
        (room : Nat) : piece room (c :: rest) = (c :: line).take room := by
      cases room with
      | zero => rfl
      | succ room => rw [piece, if_neg other, tail, List.take_succ_cons]
    have whole : (fullLines rest).flatten = rest ∧
        fullLines (fullLines rest).flatten = fullLines rest := by
      by_cases ended : rest = []
      · subst ended
        exact ⟨rfl, rfl⟩
      · obtain ⟨line, more, lines, joined, _⟩ := inductionHypothesis ended
        have flat : (fullLines rest).flatten = rest := by rw [lines, List.flatten_cons, ← joined]
        exact ⟨flat, by rw [flat]⟩
    rw [fullLines]
    by_cases isLf : c = lf
    · rw [if_pos isLf]
      refine ⟨[c], fullLines rest, rfl, by rw [whole.1]; rfl, whole.2, fun room => ?_⟩
      cases room with
      | zero => rfl
      | succ room => rw [piece, if_pos isLf, List.take_succ_cons, List.take_nil]
    · rw [if_neg isLf]
      by_cases ended : rest = []
      · subst ended
        exact ⟨[c], [], rfl, rfl, rfl, pieces [] isLf fun room => by cases room <;> rfl⟩
      · obtain ⟨line, more, lines, joined, again, tail⟩ := inductionHypothesis ended
        rw [lines]
        exact ⟨c :: line, more, rfl, by rw [List.cons_append, ← joined], again,
          pieces line isLf tail⟩

theorem fullLines_noLf {line : Text} (some : line ≠ []) (noLf : lf ∉ line) :
    fullLines line = [line] := by
  induction line with
  | nil => exact absurd rfl some
  | cons c rest inductionHypothesis =>
    rw [List.mem_cons, not_or] at noLf
    rw [fullLines, if_neg (Ne.symm noLf.1)]
    by_cases ended : rest = []
    · subst ended
      rfl
    · rw [inductionHypothesis ended noLf.2]

/-- A line ends with its line end, or it is the last one and has none. -/
theorem stops_of_mem_fullLines {stream : Text} :
    ∀ line ∈ fullLines stream,
      (line ≠ [] ∧ lf ∉ line) ∨ ∃ front, line = front ++ [lf] ∧ lf ∉ front := by
  induction stream with
  | nil => exact fun line member => absurd member List.not_mem_nil
  | cons c rest inductionHypothesis =>
    intro line member
    rw [fullLines] at member
    by_cases isLf : c = lf
    · rw [if_pos isLf] at member
      rcases List.mem_cons.mp member with rfl | later
      · exact .inr ⟨[], by rw [isLf, List.nil_append], by simp⟩
      · exact inductionHypothesis line later
    · rw [if_neg isLf] at member
      have other : lf ≠ c := Ne.symm isLf
      cases lines : fullLines rest with
      | nil =>
        rw [lines, List.mem_singleton] at member
        exact .inl ⟨by simp [member], by simp [member, other]⟩
      | cons first more =>
        rw [lines] at member inductionHypothesis
        rcases List.mem_cons.mp member with rfl | later
        · rcases inductionHypothesis first List.mem_cons_self with ⟨_, noLf⟩ | ⟨front, rfl, noLf⟩
          · exact .inl ⟨by simp, by simp [other, noLf]⟩
          · exact .inr ⟨c :: front, rfl, by simp [other, noLf]⟩
        · exact inductionHypothesis line (List.mem_cons_of_mem _ later)

/-- A line and its line end are cut into pieces by themselves. -/
theorem pieces_line {size : Nat} (room : 1 < size) {front : Text} (noLf : lf ∉ front)
    (rest : Text) :
    pieces size (front ++ lf :: rest) = pieces size (front ++ [lf]) ++ pieces size rest := by
  induction h : front.length using Nat.strongRecOn generalizing front with
  | ind length inductionHypothesis =>
    by_cases fits : front.length + 1 < size
    · have complete : Complete size (front ++ [lf]) :=
        ⟨by rwa [List.length_append], .inr ⟨front, rfl, noLf⟩⟩
      have alone := pieces_append room complete []
      rw [List.append_nil, pieces_nil] at alone
      rw [alone, List.append_cons, pieces_append room complete, List.singleton_append]
    · -- The first piece ends inside the line, with a full buffer.
      obtain ⟨head, tail, rfl, full⟩ : ∃ head tail, front = head ++ tail ∧ head.length + 1 = size :=
        ⟨front.take (size - 1), front.drop (size - 1), (List.take_append_drop _ _).symm,
          by rw [List.length_take]; omega⟩
      rw [List.mem_append, not_or] at noLf
      have complete : Complete size head := ⟨by omega, .inl ⟨noLf.1, full⟩⟩
      rw [List.append_assoc, List.append_assoc, pieces_append room complete,
        pieces_append room complete, List.cons_append,
        inductionHypothesis tail.length (by rw [← h, List.length_append]; omega) noLf.2 rfl]

/-- The pieces of a text are the pieces of its lines. -/
theorem pieces_fullLines {size : Nat} (room : 1 < size) (stream : Text) :
    pieces size stream = (fullLines stream).flatMap (pieces size) := by
  induction h : stream.length using Nat.strongRecOn generalizing stream with
  | ind length inductionHypothesis =>
    by_cases ends : lf ∈ stream
    · obtain ⟨front, rest, rfl, noLf⟩ := List.eq_append_cons_of_mem ends
      rw [pieces_line room noLf, fullLines_line noLf, List.flatMap_cons,
        inductionHypothesis rest.length (by rw [← h, List.length_append, List.length_cons]; omega)
          rest rfl]
    · by_cases ended : stream = []
      · subst ended
        rfl
      · rw [fullLines_noLf ended ends, List.flatMap_singleton]

/-! ### The blocks `fread` delivers -/

/-- `while ((n = fread(buffer, 1, size, f)) > 0)`: every turn takes at least one byte, so the length
of the stream bounds the turns. -/
def readBlocks (size : Nat) : (fuel : Nat) → Text → List Text
  | 0, _ => []
  | fuel + 1, stream =>
    if stream = [] then [] else stream.take size :: readBlocks size fuel (stream.drop size)

/-- The blocks of the whole stream. -/
def blocks (size : Nat) (stream : Text) : List Text := readBlocks size stream.length stream

/-- The blocks of a text join back to it. -/
theorem flatten_blocks {size : Nat} (room : 0 < size) (stream : Text) :
    (blocks size stream).flatten = stream := by
  suffices ∀ fuel, stream.length ≤ fuel → (readBlocks size fuel stream).flatten = stream from
    this _ (Nat.le_refl _)
  intro fuel
  induction fuel generalizing stream with
  | zero =>
    intro covers
    rw [List.length_eq_zero_iff.mp (Nat.le_zero.mp covers)]
    rfl
  | succ fuel inductionHypothesis =>
    intro covers
    rw [readBlocks]
    split
    · rename_i ended
      rw [ended, List.flatten_nil]
    · rw [List.flatten_cons, inductionHypothesis _ (by rw [List.length_drop]; omega),
        List.take_append_drop]

/-- The fuel of the reading loop does not matter once it covers the stream. -/
theorem readBlocks_eq {size fuel : Nat} (room : 0 < size) {stream : Text}
    (covers : stream.length ≤ fuel) : readBlocks size fuel stream = blocks size stream := by
  suffices ∀ fuel other, stream.length ≤ fuel → stream.length ≤ other →
      readBlocks size fuel stream = readBlocks size other stream from
    this _ _ covers (Nat.le_refl _)
  clear covers fuel
  intro fuel
  induction fuel generalizing stream with
  | zero =>
    intro other covers _
    obtain rfl : stream = [] := List.length_eq_zero_iff.mp (Nat.le_zero.mp covers)
    cases other <;> rfl
  | succ fuel inductionHypothesis =>
    intro other covers otherCovers
    by_cases ended : stream = []
    · subst ended
      cases other <;> rfl
    · have positive := List.length_pos_iff.mpr ended
      obtain ⟨other, rfl⟩ : ∃ less, other = less + 1 := ⟨other - 1, by omega⟩
      rw [readBlocks, readBlocks, if_neg ended, if_neg ended,
        inductionHypothesis other (by rw [List.length_drop]; omega)
          (by rw [List.length_drop]; omega)]

/-- One turn of the reading loop. -/
theorem blocks_eq {size : Nat} (room : 0 < size) {stream : Text} (left : stream ≠ []) :
    blocks size stream = stream.take size :: blocks size (stream.drop size) := by
  have positive := List.length_pos_iff.mpr left
  rw [blocks, show stream.length = (stream.length - 1) + 1 by omega, readBlocks, if_neg left,
    readBlocks_eq room (by rw [List.length_drop]; omega)]

/-! ### The words `sscanf` takes -/

/-- `sscanf` with `%<width>s`: white space is skipped and up to `width` other bytes are taken; the
conversion fails at the end of the text. -/
def scanWord (width : Nat) (s : Text) : Option (Text × Text) :=
  let rest := s.dropWhile isSpace
  if rest = [] then none
  else
    let word := (rest.takeWhile fun c => !isSpace c).take width
    some (word, rest.drop word.length)

/-- A text without white space. -/
def Solid (word : Text) : Prop := ∀ c ∈ word, isSpace c = false

instance (word : Text) : Decidable (Solid word) :=
  inferInstanceAs (Decidable (∀ c ∈ word, isSpace c = false))

/-- No byte above the blank is white space. -/
theorem isSpace_of_lt {c : Byte} (high : 32 < c) : isSpace c = false := by
  rw [UInt8.lt_iff_toNat_lt] at high
  have blank : (32 : Byte).toNat = 32 := rfl
  have last : (13 : Byte).toNat = 13 := rfl
  simp only [isSpace, Bool.or_eq_false_iff, beq_eq_false_iff_ne, Bool.and_eq_false_iff,
    decide_eq_false_iff_not, ne_eq, UInt8.le_iff_toNat_le, ← UInt8.toNat_inj]
  omega

theorem dropWhile_solid {word : Text} (solid : Solid word) : word.dropWhile isSpace = word := by
  cases word with
  | nil => rfl
  | cons c rest => rw [List.dropWhile_cons_of_neg (by simp [solid c List.mem_cons_self])]

theorem takeWhile_solid {word : Text} (solid : Solid word) (rest : Text)
    (ends : ∀ c ∈ rest.head?, isSpace c) :
    (word ++ rest).takeWhile (fun c => !isSpace c) = word := by
  rw [List.takeWhile_append_of_pos fun c member => by simp [solid c member]]
  cases rest with
  | nil => simp
  | cons c rest => simp [ends c rfl]

/-- A word that fits the width and ends at white space, or at the end of the text, is taken whole,
whatever white space stands before it. -/
theorem scanWord_of_solid {width : Nat} {blanks word rest : Text}
    (leading : ∀ c ∈ blanks, isSpace c) (solid : Solid word) (some : word ≠ [])
    (fits : word.length ≤ width) (ends : ∀ c ∈ rest.head?, isSpace c) :
    scanWord width (blanks ++ (word ++ rest)) = .some (word, rest) := by
  have skipped : (blanks ++ (word ++ rest)).dropWhile isSpace = word ++ rest := by
    rw [List.dropWhile_append_of_pos leading]
    obtain ⟨c, tail, rfl⟩ := List.exists_cons_of_ne_nil some
    simp [solid c List.mem_cons_self]
  simp only [scanWord, skipped, takeWhile_solid solid rest ends, List.take_of_length_le fits,
    List.drop_left, List.append_eq_nil_iff, some, false_and, if_false]

/-- A word `sscanf` takes has no white space in it. -/
theorem solid_of_scanWord {width : Nat} {s word rest : Text}
    (scanned : scanWord width s = some (word, rest)) : Solid word := by
  simp only [scanWord] at scanned
  split at scanned
  · cases scanned
  · obtain ⟨rfl, -⟩ := Prod.mk.inj (Option.some.inj scanned)
    intro c member
    simpa using List.mem_takeWhile_imp (List.mem_of_mem_take member)

/-- How `sscanf` takes a word: behind white space, up to the width or to the next white space. -/
structure Scans (width : Nat) (s word rest : Text) : Prop where
  split : ∃ blanks, (∀ c ∈ blanks, isSpace c) ∧ s = blanks ++ (word ++ rest)
  solid : Solid word
  some : word ≠ []
  fits : word.length ≤ width
  ends : word.length = width ∨ ∀ c ∈ rest.head?, isSpace c

theorem scans_of_scanWord {width : Nat} (positive : 0 < width) {s word rest : Text}
    (scanned : scanWord width s = some (word, rest)) : Scans width s word rest := by
  have solid := solid_of_scanWord scanned
  have first : ∀ c ∈ (s.dropWhile isSpace).head?, isSpace c = false := fun c head => by
    have stops := List.head?_dropWhile_not isSpace s
    rw [Option.mem_def.mp head] at stops
    simpa using stops
  have joined := List.takeWhile_append_dropWhile (p := isSpace) (l := s)
  simp only [scanWord] at scanned
  split at scanned
  · cases scanned
  rename_i left
  obtain ⟨rfl, rfl⟩ := Prod.mk.inj (Option.some.inj scanned)
  generalize s.dropWhile isSpace = behind at left joined solid first ⊢
  generalize isRun : behind.takeWhile (fun c => !isSpace c) = run at solid ⊢
  have leads : run.take width <+: behind :=
    (List.take_prefix _ _).trans (isRun ▸ List.takeWhile_prefix _)
  refine ⟨⟨s.takeWhile isSpace, fun c => List.mem_takeWhile_imp, ?_⟩, solid, ?_,
    List.length_take_le _ _, ?_⟩
  · conv_lhs => rw [← joined, ← List.take_append_drop (run.take width).length behind]
    rw [← List.prefix_iff_eq_take.mp leads]
  · obtain ⟨c, tail, rfl⟩ := List.exists_cons_of_ne_nil left
    obtain ⟨less, rfl⟩ := Nat.exists_eq_succ_of_ne_zero (Nat.ne_of_gt positive)
    rw [← isRun, List.takeWhile_cons_of_pos (by simp [first c rfl])]
    exact List.cons_ne_nil _ _
  · by_cases cut : width ≤ run.length
    · exact .inl (by rw [List.length_take, Nat.min_eq_left cut])
    · right
      have rest : behind.drop run.length = behind.dropWhile fun c => !isSpace c := by
        conv_lhs => rw [← List.takeWhile_append_dropWhile (p := fun c => !isSpace c) (l := behind)]
        rw [isRun, List.drop_left]
      rw [List.take_of_length_le (Nat.le_of_not_le cut), rest]
      intro c head
      have stops := List.head?_dropWhile_not (fun c => !isSpace c) behind
      rw [Option.mem_def.mp head] at stops
      simpa using stops

theorem Scans.scanWord {width : Nat} {s word rest : Text} (scans : Scans width s word rest) :
    scanWord width s = .some (word, rest) := by
  obtain ⟨⟨blanks, leading, rfl⟩, solid, some, fits, full | ends⟩ := scans
  · have skipped : (blanks ++ (word ++ rest)).dropWhile isSpace = word ++ rest := by
      rw [List.dropWhile_append_of_pos leading]
      obtain ⟨c, tail, rfl⟩ := List.exists_cons_of_ne_nil some
      simp [solid c List.mem_cons_self]
    have taken : ((word ++ rest).takeWhile fun c => !isSpace c).take width = word := by
      rw [List.takeWhile_append_of_pos fun c member => by simp [solid c member], ← full,
        List.take_left]
    simp only [CText.scanWord, skipped, taken, List.drop_left, List.append_eq_nil_iff, some,
      false_and, if_false]
  · exact scanWord_of_solid leading solid some fits ends

/-- The conversion fails on white space alone. -/
theorem scanWord_eq_none {width : Nat} {s : Text} :
    scanWord width s = none ↔ ∀ c ∈ s, isSpace c := by
  simp only [scanWord]
  split
  · rename_i empty
    exact iff_of_true rfl (List.dropWhile_eq_nil_iff.mp empty)
  · rename_i left
    exact iff_of_false (by simp) (mt List.dropWhile_eq_nil_iff.mpr left)

/-- White space in front of a text is skipped. -/
theorem scanWord_skip {width : Nat} {blanks : Text} (leading : ∀ c ∈ blanks, isSpace c) (s : Text) :
    scanWord width (blanks ++ s) = scanWord width s := by
  simp only [scanWord, List.dropWhile_append_of_pos leading]

/-- A word that ends in a text ends there too when something follows the text. -/
theorem Scans.append {width : Nat} {s word rest : Text} (scans : Scans width s word rest)
    (inside : word.length = width ∨ rest ≠ []) (more : Text) :
    Scans width (s ++ more) word (rest ++ more) := by
  obtain ⟨⟨blanks, leading, rfl⟩, solid, some, fits, ends⟩ := scans
  refine ⟨⟨blanks, leading, by simp only [List.append_assoc]⟩, solid, some, fits, ?_⟩
  rcases inside with full | left
  · exact .inl full
  · refine ends.imp_right fun blank c head => blank c ?_
    rwa [List.head?_append_of_ne_nil _ left] at head

/-- White space behind a text does not change its words. -/
theorem scanWord_append_blank {width : Nat} (positive : 0 < width) (s : Text) {blanks : Text}
    (blank : ∀ c ∈ blanks, isSpace c) :
    scanWord width (s ++ blanks) =
      (scanWord width s).map fun taken => (taken.1, taken.2 ++ blanks) := by
  cases scanned : scanWord width s with
  | none =>
    rw [scanWord_eq_none] at scanned
    exact scanWord_eq_none.mpr fun c member =>
      (List.mem_append.mp member).elim (scanned c) (blank c)
  | some taken =>
    obtain ⟨⟨front, leading, rfl⟩, solid, some, fits, ends⟩ := scans_of_scanWord positive scanned
    refine Scans.scanWord ⟨⟨front, leading, by simp only [List.append_assoc]⟩, solid, some, fits,
      ends.imp_right fun white c head => ?_⟩
    cases left : taken.2 with
    | nil =>
      rw [left, List.nil_append] at head
      exact blank c (List.mem_of_mem_head? head)
    | cons d rest =>
      rw [left] at white head
      exact white c head

/-- Where the first word of a text that is continued by a solid byte stands: in the continuation,
in the text, or in both. -/
theorem Scans.of_append {width : Nat} {s more word rest : Text}
    (scans : Scans width (s ++ more) word rest) {first : Byte}
    (head : more.head? = Option.some first) (solidHead : isSpace first = false) :
    ((∀ c ∈ s, isSpace c) ∧ Scans width more word rest) ∨
    (∃ left, Scans width s word left ∧ (word.length = width ∨ left ≠ []) ∧ rest = left ++ more) ∨
    ∃ front back, Scans width s front [] ∧ front.length < width ∧
      Scans (width - front.length) more back rest ∧ word = front ++ back := by
  have positive : 0 < width :=
    Nat.lt_of_lt_of_le (List.length_pos_iff.mpr scans.some) scans.fits
  have unique {word' rest' : Text} (other : Scans width (s ++ more) word' rest') :
      word = word' ∧ rest = rest' := by
    have equal := scans.scanWord.symm.trans other.scanWord
    exact Prod.mk.inj (Option.some.inj equal)
  cases scanned : CText.scanWord width s with
  | none =>
    have blank := scanWord_eq_none.mp scanned
    refine .inl ⟨blank, scans_of_scanWord positive ?_⟩
    rw [← scanWord_skip blank]
    exact scans.scanWord
  | some taken =>
    have inside := scans_of_scanWord positive scanned
    by_cases ended : taken.1.length = width ∨ taken.2 ≠ []
    · obtain ⟨rfl, rfl⟩ := unique (inside.append ended more)
      exact .inr (.inl ⟨taken.2, inside, ended, rfl⟩)
    obtain ⟨short, nothing⟩ := not_or.mp ended
    rw [not_not] at nothing
    have fits := inside.fits
    -- the word goes on in the continuation, as far as the width allows
    cases tail : CText.scanWord (width - taken.1.length) more with
    | none =>
      have blank := scanWord_eq_none.mp tail first (List.mem_of_mem_head? head)
      exact absurd blank (by rw [solidHead]; decide)
    | some following =>
      have behind := scans_of_scanWord (by omega) tail
      refine .inr (.inr ⟨taken.1, following.1, nothing ▸ inside, by omega, ?_⟩)
      obtain ⟨blanks, leading, split⟩ := behind.split
      obtain rfl : blanks = [] := by
        cases blanks with
        | nil => rfl
        | cons c blanks =>
          rw [split] at head
          obtain rfl := Option.some.inj head
          exact absurd (leading c List.mem_cons_self) (by rw [solidHead]; decide)
      obtain ⟨front, white, joined⟩ := inside.split
      have joint : Scans width (s ++ more) (taken.1 ++ following.1) following.2 := by
        refine ⟨⟨front, white, ?_⟩, ?_, ?_, ?_, ?_⟩
        · rw [joined, nothing, split]
          simp only [List.append_nil, List.nil_append, List.append_assoc]
        · exact fun c member => (List.mem_append.mp member).elim (inside.solid c) (behind.solid c)
        · exact List.append_ne_nil_of_left_ne_nil inside.some _
        · rw [List.length_append]
          have := behind.fits
          omega
        · refine behind.ends.imp_left fun full => ?_
          rw [List.length_append, full]
          omega
      obtain ⟨rfl, rfl⟩ := unique joint
      exact ⟨behind, rfl⟩

/-- The bytes of a text that are not white space. -/
def ink (s : Text) : Nat := s.countP fun c => !isSpace c

@[simp] theorem ink_append (front back : Text) : ink (front ++ back) = ink front + ink back :=
  List.countP_append

theorem ink_of_solid {word : Text} (solid : Solid word) : ink word = word.length :=
  List.countP_eq_length.mpr fun c member => by simp [solid c member]

theorem ink_of_blank {blanks : Text} (blank : ∀ c ∈ blanks, isSpace c) : ink blanks = 0 :=
  List.countP_eq_zero.mpr fun c member => by simp [blank c member]

theorem Scans.ink {width : Nat} {s word rest : Text} (scans : Scans width s word rest) :
    ink s = word.length + CText.ink rest := by
  obtain ⟨⟨blanks, leading, rfl⟩, solid, -, -, -⟩ := scans
  rw [ink_append, ink_append, ink_of_blank leading, ink_of_solid solid, Nat.zero_add]

end CText
