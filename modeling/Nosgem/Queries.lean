/-
This file settles what an answered prompt makes of the current URL. The answer
is percent-encoded into a buffer, put behind the path in place of the old
query, and nothing else changes. Both bounds are exact, the answer is decoded
from the new path without loss, and a second answer replaces the first one as
if it had not been given.
-/

import Nosgem.Gemini
import Nosgem.Percent

namespace Nosgem

open CText

/-! ### The encoder and its buffer -/

/-- The encoding of a query without the bound of its buffer. -/
abbrev encodedQuery (query : Text) : Text := Percent.encode isUnreserved query

/-- The encoder goes on as long as the text with its NUL fits the buffer. -/
theorem encodeQueryBytes_eq {outMax : Nat} (query : Text) {out : Text}
    (room : out.length < outMax) :
    encodeQueryBytes outMax query out =
      if (out ++ encodedQuery query).length < outMax then some (out ++ encodedQuery query)
      else none := by
  induction query generalizing out with
  | nil => rw [encodeQueryBytes, encodedQuery, Percent.encode_nil, List.append_nil, if_pos room]
  | cons c rest inductionHypothesis =>
    have split : out ++ encodedQuery (c :: rest) =
        out ++ Percent.encodeByte isUnreserved c ++ encodedQuery rest := by
      rw [encodedQuery, Percent.encode_cons, List.append_assoc]
    rw [split, encodeQueryBytes, Percent.encodeByte]
    by_cases unreserved : isUnreserved c
    · rw [if_pos unreserved, if_pos unreserved]
      split
      · rw [if_neg]
        simp only [List.length_append, List.length_singleton]
        omega
      · exact inductionHypothesis (by rw [List.length_append, List.length_singleton]; omega)
    · rw [if_neg unreserved, if_neg unreserved]
      have three : (Percent.triplet c).length = 3 := rfl
      split
      · rw [if_neg]
        simp only [List.length_append, three]
        omega
      · have room : (out ++ Percent.triplet c).length < outMax := by
          rw [List.length_append, three]
          omega
        exact inductionHypothesis room

theorem urlEncodeQuery_eq (query : Text) {outMax : Nat} (room : 0 < outMax) :
    urlEncodeQuery query outMax =
      if (encodedQuery query).length < outMax then some (encodedQuery query) else none := by
  rw [urlEncodeQuery, if_neg (by omega), encodeQueryBytes_eq query (by exact room),
    List.nil_append]

/-! ### The path with its query -/

/-- The part of a path in front of its query. -/
def pathOnly (path : Text) : Text := path.takeWhile (· != question)

/-- A query behind a path is not part of it. -/
theorem pathOnly_query (path query : Text) :
    pathOnly (pathOnly path ++ question :: query) = pathOnly path := by
  rw [pathOnly, pathOnly, List.takeWhile_append_of_pos fun c member => by
      simpa using List.mem_takeWhile_imp member,
    List.takeWhile_cons_of_neg (by simp), List.append_nil]

/-- The two buffers of `apply_query`. -/
def QueryFits (base : NosUrl) (query : Text) : Prop :=
  (encodedQuery query).length ≤ 511 ∧
    (pathOnly base.path ++ question :: encodedQuery query).length ≤ 511

instance (base : NosUrl) (query : Text) : Decidable (QueryFits base query) :=
  inferInstanceAs (Decidable (_ ∧ _))

theorem applyQuery_eq (base : NosUrl) (query : Text) :
    applyQuery base query =
      if QueryFits base query then
        some { base with path := pathOnly base.path ++ question :: encodedQuery query }
      else none := by
  have size : pathSize = 512 := rfl
  have length : (pathOnly base.path ++ question :: encodedQuery query).length =
      (pathOnly base.path).length + 1 + (encodedQuery query).length := by
    rw [List.length_append, List.length_cons]
    omega
  unfold applyQuery
  rw [urlEncodeQuery_eq query (by decide)]
  by_cases short : (encodedQuery query).length < pathSize
  · rw [if_pos short]
    dsimp only
    rw [← pathOnly]
    by_cases fits : (pathOnly base.path).length + 1 + (encodedQuery query).length ≥ pathSize
    · rw [if_pos fits, if_neg fun both : QueryFits base query => ?_]
      have := both.2
      omega
    · rw [if_neg fits, if_pos (show QueryFits base query from ⟨by omega, by omega⟩)]
  · rw [if_neg short, if_neg fun both : QueryFits base query => ?_]
    have := both.1
    omega

/-- An answer is taken exactly when its encoding fits its buffer and fits behind the path. It
changes the query alone, which is made of unreserved bytes and triplets and decodes to the answer;
and the next answer leads to the URL it leads to without it. -/
theorem applyQuery_lossless (base : NosUrl) (query : Text) :
    ((applyQuery base query).isSome ↔ (encodedQuery query).length ≤ 511 ∧
        (base.path.takeWhile (· != question) ++ question :: encodedQuery query).length ≤ 511) ∧
      ∀ next, applyQuery base query = some next →
        next.host = base.host ∧ next.port = base.port ∧
        (∃ encoded, next.path = base.path.takeWhile (· != question) ++ question :: encoded ∧
          Percent.Encoded isUnreserved encoded ∧ Percent.decode encoded = some query) ∧
        ∀ other, applyQuery next other = applyQuery base other := by
  rw [applyQuery_eq]
  by_cases fits : QueryFits base query
  · rw [if_pos fits]
    refine ⟨iff_of_true rfl fits, fun next equal => ?_⟩
    obtain rfl := Option.some.inj equal
    refine ⟨rfl, rfl, ⟨_, rfl, Percent.encoded_encode query,
      Percent.decode_encode (by decide) query⟩, fun other => ?_⟩
    have again := pathOnly_query base.path (encodedQuery query)
    rw [applyQuery_eq, applyQuery_eq]
    refine if_congr ?_ ?_ rfl
    · simp only [QueryFits, again]
    · simp only [again]
  · rw [if_neg fits]
    exact ⟨iff_of_false nofun fits, nofun⟩

end Nosgem
