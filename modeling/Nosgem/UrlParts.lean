/-
This file says what a URL takes from the texts it is built from. The parser cuts
the host and the path out of its text, the normaliser keeps segments of the
path and puts slashes between them, and a link or a query is put behind a part
of a path. So a rule about texts that goes over to their parts, and to texts
put together at a slash or at a question mark, holds of every URL that is built
from texts it holds of.
-/

import Nosgem.RequestLine

namespace Nosgem

open CText Interaction

/-! ### Rules about texts -/

/-- A rule that goes over to the parts of a text, and to two texts put together at a slash or at a
question mark. -/
structure TextRule (holds : Text → Prop) : Prop where
  part : ∀ {s part}, holds s → part <:+: s → holds part
  separator : holds [slash]
  query : ∀ {encoded}, (∀ c ∈ encoded, QueryByte c) → holds (question :: encoded)
  joint : ∀ {front back}, holds front → holds back →
    front.getLast? = some slash ∨ back.head? = some slash ∨
      back.head? = some question → holds (front ++ back)

section Rules

variable {holds : Text → Prop}

theorem TextRule.nil (rule : TextRule holds) : holds [] :=
  rule.part rule.separator ⟨[], [slash], rfl⟩

theorem TextRule.spell (rule : TextRule holds) {stack : List Text}
    (parts : ∀ segment ∈ stack, holds segment) : holds (PathStack.spell slash stack) := by
  induction stack with
  | nil => exact rule.nil
  | cons segment below inductionHypothesis =>
    have spelled :=
      inductionHypothesis fun other member => parts other (List.mem_cons_of_mem _ member)
    have segmentHolds := rule.joint rule.separator (parts segment List.mem_cons_self) (.inl rfl)
    exact rule.joint spelled segmentHolds (.inr (.inl rfl))

/-- The segments of a normalised path are parts of the path, and slashes stand between them. -/
theorem TextRule.normalizePath (rule : TextRule holds) {path result : Text}
    (normalized : Nosgem.normalizePath path pathSize = some result) (held : holds path) :
    holds result := by
  obtain ⟨stack, _, _, left, rfl⟩ := normalizePath_eq_some normalized
  have parts : ∀ segment ∈ stack, holds segment := fun segment member => by
    rw [left] at member
    rcases PathStack.mem_foldl_enter member with read | absent
    · exact rule.part held (PathStack.part_of_mem_splitOn read)
    · cases absent
  rw [PathStack.path]
  split
  · exact rule.separator
  · exact rule.spell parts

/-! ### The pieces of a URL -/

theorem stripScheme_part {raw rest : Text} (stripped : stripScheme raw = some rest) :
    rest <:+ raw := by
  unfold stripScheme at stripped
  split at stripped
  · exact Option.some.inj stripped ▸ List.drop_suffix _ _
  · split at stripped
    · cases stripped
    · exact Option.some.inj stripped ▸ List.suffix_rfl

/-- The directory of a path ends with a slash. -/
theorem getLast?_directory (path : Text) : (directory path).getLast? = some slash := by
  unfold directory
  dsimp only
  split
  · rfl
  · rename_i some
    rw [List.getLast?_reverse]
    have first := List.head?_dropWhile_not (· != slash) path.reverse
    cases left : path.reverse.dropWhile (· != slash) with
    | nil => simp [left] at some
    | cons c tail =>
      rw [left] at first
      simpa using first

theorem TextRule.directory (rule : TextRule holds) {path : Text} (held : holds path) :
    holds (Nosgem.directory path) := by
  unfold Nosgem.directory
  dsimp only
  split
  · exact rule.separator
  · refine rule.part held (List.IsPrefix.isInfix ?_)
    rw [← List.reverse_suffix, List.reverse_reverse]
    exact List.dropWhile_suffix _

/-- A rule holds of the host and of the path of a URL. -/
def NosUrl.Follows (holds : Text → Prop) (url : NosUrl) : Prop := holds url.host ∧ holds url.path

/-- The parser takes the host and the path out of its text. -/
theorem TextRule.nosUrlParse (rule : TextRule holds) {raw : Text} {url : NosUrl}
    (parsed : Nosgem.nosUrlParse raw = some url) (held : holds raw) : url.Follows holds := by
  obtain ⟨authority, pathStart, stripped, _, _, _, authorityParsed, normalized⟩ :=
    nosUrlParse_eq_some parsed
  obtain ⟨_, _, _, _, _, shape⟩ := parseAuthority_eq_some authorityParsed
  have rest := rule.part held (stripScheme_part stripped).isInfix
  constructor
  · refine rule.part (rule.part rest (List.prefix_append authority pathStart).isInfix) ?_
    rcases shape with ⟨equal, _⟩ | ⟨digits, equal, _⟩
    · rw [equal]
    · rw [equal]
      exact (List.prefix_append _ _).isInfix
  · refine rule.normalizePath normalized ?_
    split
    · exact rule.separator
    · exact rule.part rest (List.suffix_append authority pathStart).isInfix

theorem TextRule.nosUrlResolve (rule : TextRule holds) {base next : NosUrl} {link : Text}
    (resolved : Nosgem.nosUrlResolve base link = some next) (baseHolds : base.Follows holds)
    (linkHolds : holds link) : next.Follows holds := by
  rcases nosUrlResolve_eq_some resolved with ⟨_, rfl⟩ | ⟨_, parsed⟩ | ⟨query, _, rfl⟩ |
    ⟨target, path, form, normalized, rfl⟩
  · exact baseHolds
  · exact rule.nosUrlParse parsed linkHolds
  · exact ⟨baseHolds.1, rule.joint baseHolds.2 linkHolds (.inr (.inr query))⟩
  · refine ⟨baseHolds.1, rule.normalizePath normalized ?_⟩
    rcases form with rfl | rfl
    · exact linkHolds
    · exact rule.joint (rule.directory baseHolds.2) linkHolds (.inl (getLast?_directory _))

theorem TextRule.applyQuery (rule : TextRule holds) {base next : NosUrl} {query : Text}
    (applied : Nosgem.applyQuery base query = some next) (held : base.Follows holds) :
    next.Follows holds := by
  obtain ⟨encoded, bytes, _, rfl⟩ := applyQuery_eq_some applied
  refine ⟨held.1, rule.joint ?_ (rule.query bytes) (.inr (.inr rfl))⟩
  exact rule.part held.2 (List.takeWhile_prefix _).isInfix

end Rules

/-- The texts without a NUL: their C string is the whole text. -/
theorem textRule_nulFree : TextRule fun s => 0 ∉ s where
  part nulFree inside member := nulFree (inside.subset member)
  separator := by decide
  query bytes := by
    have noNul : ¬ QueryByte 0 := by
      simp only [QueryByte]
      decide
    rw [List.mem_cons, not_or]
    exact ⟨by decide, not_mem_of_queryByte bytes noNul⟩
  joint frontFree backFree _ := by
    rw [List.mem_append]
    exact not_or.mpr ⟨frontFree, backFree⟩

end Nosgem
