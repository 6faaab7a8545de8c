/-
This file is about percent-encoding. A byte of a chosen kind stands for itself,
and every other byte for a percent sign and the two upper-case hexadecimal
digits of its value. Decoding reads every triplet back, and since the percent
sign is not of the chosen kind, it undoes the encoding of every text.
-/

import Nosgem.CText

namespace Percent

open CText

/-- `%XX` for a byte. -/
def triplet (c : Byte) : Text := [byte '%', hexDigit (c.toNat / 16), hexDigit (c.toNat % 16)]

/-- The encoding of a byte: a plain byte stands for itself. -/
def encodeByte (plain : Byte → Bool) (c : Byte) : Text := if plain c then [c] else triplet c

/-- The encoding of a text. -/
def encode (plain : Byte → Bool) (s : Text) : Text := s.flatMap (encodeByte plain)

/-- The value of a hexadecimal digit, in either letter case. -/
def hexValue (c : Byte) : Option Nat :=
  if isDigit c then some (c.toNat - 48)
  else if byte 'A' ≤ c ∧ c ≤ byte 'F' then some (c.toNat - 55)
  else if byte 'a' ≤ c ∧ c ≤ byte 'f' then some (c.toNat - 87)
  else none

/-- Percent-decoding: it fails where a percent sign is not followed by two hexadecimal digits. -/
def decode : Text → Option Text
  | [] => some []
  | c :: rest =>
    if c = byte '%' then
      match rest with
      | high :: low :: rest =>
        match hexValue high, hexValue low with
        | some high, some low => (decode rest).map ((16 * high + low).toUInt8 :: ·)
        | _, _ => none
      | _ => none
    else (decode rest).map (c :: ·)

/-- An upper-case hexadecimal digit. -/
def isUpperHex (c : Byte) : Bool := isDigit c || (byte 'A' ≤ c && c ≤ byte 'F')

/-- A text of plain bytes and of percent signs with two upper-case hexadecimal digits. -/
inductive Encoded (plain : Byte → Bool) : Text → Prop where
  | nil : Encoded plain []
  | plain {c : Byte} {rest : Text} (isPlain : plain c) (tail : Encoded plain rest) :
      Encoded plain (c :: rest)
  | triplet {high low : Byte} {rest : Text} (isHigh : isUpperHex high) (isLow : isUpperHex low)
      (tail : Encoded plain rest) : Encoded plain (byte '%' :: high :: low :: rest)

/-! ### The digits of a byte -/

theorem isUpperHex_hexDigit {nibble : Nat} (small : nibble < 16) : isUpperHex (hexDigit nibble) :=
  (by decide : ∀ nibble < 16, isUpperHex (hexDigit nibble)) nibble small

theorem hexValue_hexDigit {nibble : Nat} (small : nibble < 16) :
    hexValue (hexDigit nibble) = some nibble :=
  (by decide : ∀ nibble < 16, hexValue (hexDigit nibble) = some nibble) nibble small

theorem decode_triplet (c : Byte) (rest : Text) :
    decode (triplet c ++ rest) = (decode rest).map (c :: ·) := by
  have small := c.toNat_lt
  have value : 16 * (c.toNat / 16) + c.toNat % 16 = c.toNat := by omega
  rw [triplet, List.cons_append, List.cons_append, List.cons_append, List.nil_append, decode,
    if_pos rfl, hexValue_hexDigit (by omega), hexValue_hexDigit (by omega)]
  dsimp only
  rw [value, show c.toNat.toUInt8 = c from UInt8.ofNat_toNat]

theorem decode_cons_of_ne {c : Byte} (other : c ≠ byte '%') (rest : Text) :
    decode (c :: rest) = (decode rest).map (c :: ·) := by
  match rest with
  | [] => simp only [decode, if_neg other]
  | [_] => simp only [decode, if_neg other]
  | _ :: _ :: _ => simp only [decode, if_neg other]

/-! ### Encoded texts -/

section Encoding

variable {plain : Byte → Bool}

@[simp] theorem encode_nil : encode plain [] = [] := rfl

@[simp] theorem encode_cons (c : Byte) (s : Text) :
    encode plain (c :: s) = encodeByte plain c ++ encode plain s := List.flatMap_cons

/-- What an encoding consists of. -/
theorem encoded_encode (s : Text) : Encoded plain (encode plain s) := by
  induction s with
  | nil => exact .nil
  | cons c s inductionHypothesis =>
    have small := c.toNat_lt
    rw [encode_cons, encodeByte]
    split
    · rename_i isPlain
      exact .plain isPlain inductionHypothesis
    · exact .triplet (isUpperHex_hexDigit (by omega)) (isUpperHex_hexDigit (by omega))
        inductionHypothesis

/-- A byte of an encoded text is plain, or part of a triplet. -/
theorem Encoded.mem {s : Text} (encoded : Encoded plain s) {c : Byte} (member : c ∈ s) :
    plain c ∨ c = byte '%' ∨ isUpperHex c := by
  induction encoded with
  | nil => cases member
  | plain isPlain _ inductionHypothesis =>
    rcases List.mem_cons.mp member with rfl | later
    · exact .inl isPlain
    · exact inductionHypothesis later
  | triplet isHigh isLow _ inductionHypothesis =>
    simp only [List.mem_cons] at member
    rcases member with rfl | rfl | rfl | later
    · exact .inr (.inl rfl)
    · exact .inr (.inr isHigh)
    · exact .inr (.inr isLow)
    · exact inductionHypothesis later

/-- Decoding undoes the encoding, in front of any text. -/
theorem decode_encode_append (percent : plain (byte '%') = false) (s rest : Text) :
    decode (encode plain s ++ rest) = (decode rest).map (s ++ ·) := by
  induction s with
  | nil => cases h : decode rest <;> simp [h]
  | cons c s inductionHypothesis =>
    rw [encode_cons, List.append_assoc, encodeByte]
    split
    · rename_i isPlain
      have other : ¬ c = byte '%' := by
        rintro rfl
        rw [percent] at isPlain
        cases isPlain
      rw [List.singleton_append, decode_cons_of_ne other, inductionHypothesis, Option.map_map]
      rfl
    · rw [decode_triplet, inductionHypothesis, Option.map_map]
      rfl

theorem decode_encode (percent : plain (byte '%') = false) (s : Text) :
    decode (encode plain s) = some s := by
  simpa [decode] using decode_encode_append percent s []

end Encoding

end Percent
