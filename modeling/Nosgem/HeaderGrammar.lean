/-
This file compares the header lines that are accepted with the grammar: two
digits, one space, a META of at most 1024 bytes that does not start with a
blank, and CR LF. The reader has a buffer of 1024 bytes for the whole line and
its NUL, and the parser skips blanks in front of the digits and behind them. So
a line of the grammar is accepted, with more or other blanks, too, if it has at
most 1023 bytes; and a line that has no two digits behind its leading blanks, or
a META of more than 1024 bytes, is rejected.
-/

import Nosgem.Framing

namespace Nosgem

open CText Interaction

/-! ### Header lines -/

/-- `read_header_line` and `parse_header` on what it has read: the response, if both return 0. -/
def readHeader (conn : Option WolfSsl) (resp : NosGeminiResp) : Io (Option NosGeminiResp) := do
  let some header ← readHeaderLine conn nosGeminiMaxHeader
    | return none
  let (parsed, resp) := parseHeader header resp nosGeminiMaxHeader
  return if parsed = 0 then some resp else none

/-- The parts of a header line in front of its CR LF, as the parser takes it: blanks, two digits,
blanks, and a META that does not start with a blank. -/
structure HeaderLine where
  leading : Text
  tens : Byte
  ones : Byte
  gap : Text
  metaText : Text
  leadingBlank : ∀ c ∈ leading, isBlank c
  digits : isDigit tens ∧ isDigit ones
  gapBlank : ∀ c ∈ gap, isBlank c
  noBlank : ∀ c ∈ metaText.head?, isBlank c = false

/-- The text of the line. -/
def HeaderLine.front (line : HeaderLine) : Text :=
  line.leading ++ line.tens :: line.ones :: (line.gap ++ line.metaText)

/-- What the line says: the number of its digits, and its META. -/
def HeaderLine.resp (line : HeaderLine) : NosGeminiResp where
  status := (line.tens.toNat - 48) * 10 + (line.ones.toNat - 48)
  metaText := line.metaText

/-- The grammar of the protocol: no blanks in front, one space, and a META of at most 1024 bytes. -/
def HeaderLine.Strict (line : HeaderLine) : Prop :=
  line.leading = [] ∧ line.gap = [byte ' '] ∧ line.metaText.length ≤ 1024

theorem HeaderLine.metaText_length (line : HeaderLine) :
    line.metaText.length < line.front.length := by
  simp only [front, List.length_append, List.length_cons]
  omega

/-! ### The parser -/

section Parser

variable {front : Text} {resp parsed : NosGeminiResp}

theorem dropWhile_lineEnd (front : Text) :
    (front ++ [cr, lf]).dropWhile isBlank = front.dropWhile isBlank ++ [cr, lf] := by
  induction front with
  | nil => rfl
  | cons c front inductionHypothesis =>
    rw [List.cons_append]
    by_cases blank : isBlank c
    · rw [List.dropWhile_cons_of_pos blank, List.dropWhile_cons_of_pos blank, inductionHypothesis]
    · rw [List.dropWhile_cons_of_neg blank, List.dropWhile_cons_of_neg blank, List.cons_append]

theorem head?_dropWhile_isBlank (s : Text) : ∀ c ∈ (s.dropWhile isBlank).head?, isBlank c = false :=
  fun c head => by
    have stops := List.head?_dropWhile_not isBlank s
    rw [Option.mem_def.mp head] at stops
    simpa using stops

/-- A line without NULs that ends in its only CR LF is parsed exactly when it has the parts of a
header line, with room for its META. -/
theorem parseHeader_iff (nulFree : 0 ∉ front) (only : Unsplit (front ++ [cr])) {metaMax : Nat} :
    parseHeader (front ++ [cr, lf]) resp metaMax = (0, parsed) ↔
      ∃ line : HeaderLine, line.front = front ∧ line.resp = parsed ∧
        line.metaText.length < metaMax := by
  have string : cString (front ++ [cr, lf]) = front ++ [cr, lf] :=
    cString_eq_self (by simpa [nulFree] using show (0 : Byte) ≠ cr ∧ (0 : Byte) ≠ lf by decide)
  constructor
  · intro complete
    rw [parseHeader, string, dropWhile_lineEnd] at complete
    generalize shape : front.dropWhile isBlank = rest at complete
    obtain _ | ⟨tens, _ | ⟨ones, rest⟩⟩ := rest
    · cases complete
    · dsimp only [List.cons_append, List.nil_append] at complete
      rw [if_neg fun digits => absurd digits.2 (by decide)] at complete
      cases complete
    · have split : front = front.takeWhile isBlank ++ tens :: ones ::
          (rest.takeWhile isBlank ++ rest.dropWhile isBlank) := by
        rw [List.takeWhile_append_dropWhile, ← shape, List.takeWhile_append_dropWhile]
      have part : rest.dropWhile isBlank <:+: front ++ [cr] :=
        ⟨front.takeWhile isBlank ++ tens :: ones :: rest.takeWhile isBlank, [cr], by
          conv => rhs; rw [split]
          simp⟩
      dsimp only [List.cons_append] at complete
      split at complete
      · rename_i digits
        rw [dropWhile_lineEnd, takeMeta_append (only.part part) (.inr rfl)] at complete
        split at complete
        · cases complete
        · rename_i short
          cases complete
          exact ⟨⟨_, tens, ones, _, _, fun _ => List.mem_takeWhile_imp, digits,
            fun _ => List.mem_takeWhile_imp, head?_dropWhile_isBlank rest⟩, split.symm, rfl,
            not_le.mp short⟩
      · cases complete
  · rintro ⟨line, rfl, rfl, short⟩
    have unsplit : Unsplit line.metaText :=
      only.part ⟨line.leading ++ line.tens :: line.ones :: line.gap, [cr], by
        simp [HeaderLine.front]⟩
    refine parseHeader_parts ?_ line.leadingBlank line.digits line.gapBlank line.noBlank unsplit
      (.inr rfl) short resp
    rw [string, HeaderLine.front]
    simp

end Parser

/-! ### The reader -/

section Reader

variable {front body : Text} {conn : Option WolfSsl} {resp : NosGeminiResp} {wire : Wire}

/-- What is accepted of a line without NULs that ends in its only CR LF: the header lines of at most
1023 bytes. -/
theorem returns_readHeader (stream : wire.unread = front ++ cr :: lf :: body) (nulFree : 0 ∉ front)
    (only : Unsplit (front ++ [cr])) :
    Returns wireEnv (readHeader conn resp) (fun result _ => ∀ parsed, result = some parsed ↔
      front.length + 2 ≤ 1023 ∧ ∃ line : HeaderLine, line.front = front ∧ line.resp = parsed)
      wire := by
  refine (returns_readHeaderBytes conn 1023 [] 0 wire).bind fun header after read => ?_
  rw [stream] at read
  by_cases fits : front.length + 2 ≤ 1023
  · rw [cutHeader_of_unsplit (only.cons (by decide)) fits body] at read
    obtain ⟨-, rfl, -⟩ := read
    intro parsed
    have accepts : (if (parseHeader (front ++ [cr, lf]) resp nosGeminiMaxHeader).1 = 0 then
        some (parseHeader (front ++ [cr, lf]) resp nosGeminiMaxHeader).2 else none) = some parsed ↔
        parseHeader (front ++ [cr, lf]) resp nosGeminiMaxHeader = (0, parsed) := by
      rw [Prod.ext_iff]
      simp
    refine accepts.trans ((parseHeader_iff nulFree only).trans ⟨?_, ?_⟩)
    · rintro ⟨line, same, meant, -⟩
      exact ⟨fits, line, same, meant⟩
    · rintro ⟨-, line, rfl, meant⟩
      have short := line.metaText_length
      exact ⟨line, rfl, meant, by rw [nosGeminiMaxHeader]; omega⟩
  · have early : Unsplit ((front ++ cr :: lf :: body).take 1023) := by
      rw [← List.singleton_append, ← List.append_assoc,
        List.take_append_of_le_length (by rw [List.length_append, List.length_singleton]; omega)]
      exact only.part (List.take_prefix _ _).isInfix
    rw [cutHeader_eq_none (early.cons (by decide))] at read
    obtain ⟨-, rfl⟩ := read
    exact fun parsed => iff_of_false (fun other => by cases other) fun accepted => fits accepted.1

/-- A line with at least one blank behind its digits and of at most 1023 bytes is accepted, and says
what it says; and a line that has no parts with a META of at most 1024 bytes is rejected. -/
theorem readHeader_grammar (nulFree : 0 ∉ front) (only : Unsplit (front ++ [cr])) :
    Returns wireEnv (readHeader conn resp) (fun result _ =>
      (∀ line : HeaderLine, line.front = front → line.gap ≠ [] → front.length + 2 ≤ 1023 →
        result = some line.resp) ∧
      ((∀ line : HeaderLine, line.front = front → 1024 < line.metaText.length) → result = none))
      ⟨front ++ cr :: lf :: body, []⟩ := by
  refine (returns_readHeader rfl nulFree only).mono fun result _ accepts => ⟨?_, fun noLine => ?_⟩
  · exact fun line same _ short => (accepts _).mpr ⟨short, line, same, rfl⟩
  · cases result with
    | none => rfl
    | some parsed =>
      obtain ⟨short, line, same, -⟩ := (accepts parsed).mp rfl
      have long := noLine line same
      have inside := line.metaText_length
      rw [same] at inside
      omega

end Reader

/-- A header line that starts with a blank. -/
def spacedLine : HeaderLine where
  leading := text " "
  tens := byte '2'
  ones := byte '0'
  gap := text " "
  metaText := text "x"
  leadingBlank := by decide
  digits := by decide
  gapBlank := by decide
  noBlank := fun _ first => by cases (show some (byte 'x') = some _ from first); rfl

theorem readHeader_grammar_spaced :
    Returns wireEnv (readHeader none ⟨0, []⟩) (fun result _ => result = some ⟨20, text "x"⟩)
      ⟨text " 20 x" ++ [cr, lf], []⟩ :=
  (readHeader_grammar (show 0 ∉ text " 20 x" by decide) (by decide)).mono fun _ _ holds =>
    holds.1 spacedLine rfl (by decide) (by decide)

/-- A blank in front of the digits is accepted, which the grammar does not have. -/
theorem readHeader_lenient :
    Returns wireEnv (readHeader none ⟨0, []⟩) (fun result _ => result = some ⟨20, text "x"⟩)
        ⟨text " 20 x" ++ [cr, lf], []⟩ ∧
      ¬ ∃ line : HeaderLine, line.Strict ∧ line.front = text " 20 x" := by
  constructor
  · exact (returns_readHeader rfl (by decide) (by decide)).mono fun _ _ accepts =>
      (accepts _).mpr ⟨by decide, spacedLine, rfl, rfl⟩
  · rintro ⟨line, ⟨noLeading, -, -⟩, same⟩
    have digit := line.digits.1
    rw [HeaderLine.front, noLeading, List.nil_append] at same
    rw [(List.cons.inj same).1] at digit
    exact absurd digit (by decide)

end Nosgem
