/-
This file models `gemtext.c`: the parser of one gemtext line. A line is the C
string in the line buffer of its caller. The parser keeps one flag between
lines, whether they stand in a preformatted block, and refuses a line only when
a part of it does not fit its buffer.
-/

import Nosgem.CText

namespace Nosgem

open CText

/-! ### The source functions -/

/-- `nos_gemtext_type_t`. -/
inductive NosGemtextType where
  | text
  | link
  | h1
  | h2
  | h3
  | list
  | quote
  | preformat
  deriving DecidableEq, Repr

/-- `nos_gemtext_line_t`. -/
structure NosGemtextLine where
  type : NosGemtextType
  text : Text
  url : Text
  deriving DecidableEq, Repr

/-- `sizeof(out->text)`. -/
def gemtextTextSize : Nat := 1024

/-- `sizeof(out->url)`. -/
def gemtextUrlSize : Nat := 512

/-- `trim_left`. -/
def trimLeft (p : Text) : Text := p.dropWhile isBlank

/-- The end of every branch but the first one of the parser: the text is stored if it fits, and the
flag stays. -/
def storeText (type : NosGemtextType) (url : Text) (inPre : Bool) (p : Text) :
    Option (NosGemtextLine × Bool) :=
  if p.length ≥ gemtextTextSize then none else some (⟨type, p, url⟩, inPre)

/-- `nos_gemtext_parse_line`: the line it fills and the flag it leaves, nothing where it returns -1,
which leaves the flag as it is. -/
def nosGemtextParseLine (line : Text) (inPre : Bool) : Option (NosGemtextLine × Bool) :=
  if (text "```").isPrefixOf line then some (⟨.preformat, [], []⟩, !inPre)
  else if inPre then storeText .preformat [] inPre line
  else if line.head? = some (byte '#') then
    if (text "###").isPrefixOf line then storeText .h3 [] inPre (trimLeft (line.drop 3))
    else if (text "##").isPrefixOf line then storeText .h2 [] inPre (trimLeft (line.drop 2))
    else storeText .h1 [] inPre (trimLeft (line.drop 1))
  else if (text "=>").isPrefixOf line then
    let p := trimLeft (line.drop 2)
    let url := p.takeWhile fun c => !isBlank c
    if url.length ≥ gemtextUrlSize then none
    else storeText .link url inPre (trimLeft (p.drop url.length))
  else if (text "* ").isPrefixOf line then storeText .list [] inPre (line.drop 2)
  else if line.head? = some (byte '>') then storeText .quote [] inPre (trimLeft (line.drop 1))
  else storeText .text [] inPre line

/-! ### What the parser returns -/

theorem storeText_eq_some {type : NosGemtextType} {url p : Text} {inPre after : Bool}
    {parsed : NosGemtextLine} (stored : storeText type url inPre p = some (parsed, after)) :
    parsed = ⟨type, p, url⟩ ∧ p.length < gemtextTextSize ∧ after = inPre := by
  unfold storeText at stored
  split at stored
  · cases stored
  · rename_i fits
    cases stored
    exact ⟨rfl, not_le.mp fits, rfl⟩

/-- What the parser stores is a part of the line. -/
theorem nosGemtextParseLine_parts {line : Text} {inPre after : Bool} {parsed : NosGemtextLine}
    (done : nosGemtextParseLine line inPre = some (parsed, after)) :
    parsed.text <:+: line ∧ parsed.url <:+: line := by
  have stored {type : NosGemtextType} {url p : Text} (pInside : p <:+: line)
      (urlInside : url <:+: line) (stores : storeText type url inPre p = some (parsed, after)) :
      parsed.text <:+: line ∧ parsed.url <:+: line := by
    rw [(storeText_eq_some stores).1]
    exact ⟨pInside, urlInside⟩
  have dropped (count : Nat) : line.drop count <:+: line := (List.drop_suffix count line).isInfix
  have trimmed (count : Nat) : trimLeft (line.drop count) <:+: line :=
    (List.dropWhile_suffix isBlank).isInfix.trans (dropped count)
  have empty : [] <:+: line := List.nil_infix
  unfold nosGemtextParseLine at done
  split at done
  · cases done
    exact ⟨empty, empty⟩
  split at done
  · exact stored (List.infix_refl line) empty done
  split at done
  · split at done
    · exact stored (trimmed 3) empty done
    split at done
    · exact stored (trimmed 2) empty done
    · exact stored (trimmed 1) empty done
  split at done
  · dsimp only at done
    split at done
    · cases done
    · refine stored ?_ ((List.takeWhile_prefix _).isInfix.trans (trimmed 2)) done
      refine (List.dropWhile_suffix isBlank).isInfix.trans ?_
      exact (List.drop_suffix _ _).isInfix.trans (trimmed 2)
  split at done
  · exact stored (dropped 2) empty done
  split at done
  · exact stored (trimmed 1) empty done
  · exact stored (List.infix_refl line) empty done

/-- A link line stands outside the preformatted blocks, and its URL fits the buffers it is
copied to. -/
theorem nosGemtextParseLine_link {line : Text} {inPre after : Bool} {parsed : NosGemtextLine}
    (done : nosGemtextParseLine line inPre = some (parsed, after)) (isLink : parsed.type = .link) :
    inPre = false ∧ after = false ∧ (text "=>").isPrefixOf line ∧
      parsed.url = (trimLeft (line.drop 2)).takeWhile (fun c => !isBlank c) ∧
      parsed.url.length < gemtextUrlSize := by
  have other {type : NosGemtextType} {url p : Text}
      (stored : storeText type url inPre p = some (parsed, after)) : parsed.type = type :=
    (storeText_eq_some stored).1 ▸ rfl
  unfold nosGemtextParseLine at done
  split at done
  · cases done
    cases isLink
  split at done
  · cases (other done).symm.trans isLink
  rename_i outside
  split at done
  · split at done
    · cases (other done).symm.trans isLink
    · split at done
      · cases (other done).symm.trans isLink
      · cases (other done).symm.trans isLink
  split at done
  · rename_i marked
    dsimp only at done
    split at done
    · cases done
    · rename_i fits
      obtain ⟨rfl, _, rfl⟩ := storeText_eq_some done
      rw [Bool.not_eq_true] at outside
      exact ⟨outside, outside, marked, rfl, not_le.mp fits⟩
  split at done
  · cases (other done).symm.trans isLink
  split at done
  · cases (other done).symm.trans isLink
  · cases (other done).symm.trans isLink

/-- The parser accepts the empty line. -/
theorem nosGemtextParseLine_nil (inPre : Bool) : (nosGemtextParseLine [] inPre).isSome := by
  cases inPre <;> decide

end Nosgem
