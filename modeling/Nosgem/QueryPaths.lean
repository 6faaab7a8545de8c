/-
This file settles what normalising a path does to a query behind it. The parser
hands path and query to the normaliser as one text, and the normaliser knows no
question mark: the query joins the last segment of the path, and the slashes in
it begin segments of their own.

So the query comes through unchanged exactly when the normaliser keeps each of
the segments in it, keeps the segment that the query joins for the path alone,
and has room for all of them. The one exception is a path that comes down to the
root and ends in a slash, which stands for itself there.
-/

import Nosgem.DirectoryLinks

namespace Nosgem

open CText

/-! ### The last segment of a path -/

/-- What stands behind the last slash. -/
def lastSegment (path : Text) : Text := (path.reverse.takeWhile (· != slash)).reverse

theorem inner_lastSegment (path : Text) : slash ∉ lastSegment path := fun member => by
  simpa using List.mem_takeWhile_imp (List.mem_reverse.mp member)

/-- A path from the root is its directory and its last segment. -/
theorem eq_directory_append {path : Text} (rooted : path.head? = some slash) :
    ∃ front, path = front ++ slash :: lastSegment path ∧ directory path = front ++ [slash] := by
  have joined := List.takeWhile_append_dropWhile (p := (· != slash)) (l := path.reverse)
  rcases PathStack.separated_dropWhile slash path.reverse with none | separated
  · have member : slash ∈ path.reverse := List.mem_reverse.mpr (List.mem_of_mem_head? rooted)
    rw [none, List.append_nil] at joined
    rw [← joined] at member
    exact absurd (List.mem_takeWhile_imp member) (by simp)
  · obtain ⟨rest, after⟩ := eq_slash_cons separated
    refine ⟨rest.reverse, ?_, ?_⟩
    · have whole := congrArg List.reverse joined
      rw [after, List.reverse_append, List.reverse_cons, List.append_assoc, List.singleton_append,
        List.reverse_reverse] at whole
      exact whole.symm
    · rw [directory, after, List.reverse_cons, if_neg (by simp)]

theorem directories_append_slash (front : Text) :
    directories (front ++ [slash]) = directories front := by
  rw [directories, List.splitOn_append_cons_self, List.foldl_append]
  rfl

/-! ### The segments of a query -/

/-- The query behind a path from the root is kept by the normaliser: so are its segments behind the
first slash and the last segment of the path, which may also be the empty one at the root, and the
buffers have room for them. -/
structure QueryKept (path query : Text) : Prop where
  segments : ∀ segment ∈ (query.splitOn slash).tail, KeptSegment segment
  last : KeptSegment (lastSegment path) ∨
    lastSegment path = [] ∧ directories (directory path) = []
  few : (directories (directory path)).length + (query.splitOn slash).length < maxSegments

variable {stack : List Text} {last query first : Text} {rest : List Text}

/-- The query joins the segment in front of it. -/
theorem splitOn_query (inner : slash ∉ last) (split : query.splitOn slash = first :: rest) :
    (last ++ question :: query).splitOn slash = (last ++ question :: first) :: rest := by
  have innerMark : slash ∉ last ++ [question] := by
    rw [List.mem_append, List.mem_singleton, not_or]
    exact ⟨inner, by decide⟩
  rw [← List.singleton_append, ← List.append_assoc, PathStack.splitOn_append_of_inner innerMark,
    split, List.modifyHead_cons, List.append_assoc, List.singleton_append]

/-- The segment that the query joins is kept. -/
theorem kept_query (inner : slash ∉ last) (split : query.splitOn slash = first :: rest) :
    KeptSegment (last ++ question :: first) := by
  have innerFirst : slash ∉ first := PathStack.not_mem_of_mem_splitOn (split ▸ List.mem_cons_self)
  refine PathStack.kept_of_mem ?_ (List.mem_append_right last List.mem_cons_self) (by decide)
  rw [List.mem_append, List.mem_cons, not_or, not_or]
  exact ⟨inner, by decide, innerFirst⟩

/-- A segment that is not kept leaves no more than the stack. -/
theorem length_path_enter {segment : Text} (inner : slash ∉ segment)
    (passed : ¬ KeptSegment segment) :
    (PathStack.path slash (PathStack.enter dot stack segment)).length ≤
      (PathStack.spell slash stack).length + 1 := by
  have short (stack : List Text) : (PathStack.path slash stack).length ≤
      (PathStack.spell slash stack).length + 1 := by
    rw [PathStack.path]
    split
    · exact Nat.le_add_left _ _
    · exact Nat.le_succ _
  rw [PathStack.enter]
  split
  · exact short stack
  rename_i named
  split
  · cases stack with
    | nil => exact short []
    | cons top below =>
      exact (short below).trans (Nat.succ_le_succ (length_spell_append [top] below))
  · rename_i notUp
    obtain ⟨some, notHere⟩ := not_or.mp named
    exact absurd ⟨some, inner, notHere, notUp⟩ passed

/-- The walk along a last segment puts it behind the directories exactly when the segment is kept,
or is empty at the root. -/
theorem walkPath_last_iff (inner : slash ∉ last) :
    walkPath stack last = PathStack.spell slash stack ++ slash :: last ↔
      KeptSegment last ∨ last = [] ∧ stack = [] := by
  have single : last.splitOn slash = [last] := List.splitOn_eq_singleton inner
  by_cases kept : KeptSegment last
  · refine iff_of_true ?_ (.inl kept)
    exact PathStack.path_foldl_enter_of_kept (by simpa [single] using kept)
  rw [or_iff_right kept, walkPath, single, List.foldl_cons, List.foldl_nil]
  constructor
  · intro same
    have short := @length_path_enter stack last inner kept
    rw [same, List.length_append, List.length_cons] at short
    obtain rfl : last = [] := List.length_eq_zero_iff.mp (by omega)
    refine ⟨rfl, ?_⟩
    by_contra deeper
    rw [PathStack.enter, if_pos (.inl rfl), PathStack.path, if_neg deeper] at same
    simp at same
  · rintro ⟨rfl, rfl⟩
    rfl

/-! ### Normalising a path with a query -/

/-- A walk that keeps every segment is too deep exactly when its end is. -/
theorem shallow_of_kept {link : Text} (kept : ∀ segment ∈ link.splitOn slash, KeptSegment segment) :
    Shallow stack link ↔ stack.length + (link.splitOn slash).length < maxSegments := by
  constructor
  · intro shallow
    have deep := shallow _ [] (List.append_nil _).symm
    rwa [PathStack.foldl_enter_of_kept kept, List.length_append, List.length_reverse,
      Nat.add_comm] at deep
  · intro few front back split
    have keptFront : ∀ segment ∈ front, KeptSegment segment := fun segment member =>
      kept segment (split ▸ List.mem_append_left back member)
    rw [split, List.length_append] at few
    rw [PathStack.foldl_enter_of_kept keptFront, List.length_append, List.length_reverse]
    omega

/-- Where the walk spells out a path with the query behind it, it keeps the segments of the query
behind the first slash. -/
theorem kept_of_walkPath_query {path : Text} (kept : ∀ segment ∈ stack, KeptSegment segment)
    (rooted : path.head? = some slash) (split : query.splitOn slash = first :: rest)
    (same : path ++ question :: query = walkPath stack (last ++ question :: query)) :
    ∀ segment ∈ rest, KeptSegment segment := by
  obtain ⟨front, pathSplit, _⟩ := eq_directory_append rooted
  have spelled : walkPath stack (last ++ question :: query) =
      front ++ slash :: (lastSegment path ++ question :: query) := by
    rw [← same, ← List.cons_append, ← List.append_assoc, ← pathSplit]
  have keptBehind := PathStack.kept_of_path_eq (PathStack.kept_foldl_enter
    (fun segment => PathStack.not_mem_of_mem_splitOn) kept) spelled (by simp)
  rw [splitOn_query (inner_lastSegment path) split] at keptBehind
  exact fun segment member => keptBehind segment (List.mem_cons_of_mem _ member)

/-- The walk along a last segment with a query behind it ends where the walk along the segment does,
with the query behind it, exactly when the query is kept there. -/
theorem walkPath_query_iff (kept : ∀ segment ∈ stack, KeptSegment segment) (inner : slash ∉ last)
    (split : query.splitOn slash = first :: rest) :
    Shallow stack (last ++ question :: query) ∧
        walkPath stack last ++ question :: query = walkPath stack (last ++ question :: query) ↔
      (∀ segment ∈ rest, KeptSegment segment) ∧
        (KeptSegment last ∨ last = [] ∧ stack = []) ∧
        stack.length + (rest.length + 1) < maxSegments := by
  have splitLink := splitOn_query inner split
  have keptLink (keptRest : ∀ segment ∈ rest, KeptSegment segment) :
      ∀ segment ∈ (last ++ question :: query).splitOn slash, KeptSegment segment := by
    rw [splitLink]
    exact List.forall_mem_cons.mpr ⟨kept_query inner split, keptRest⟩
  have cancels (keptRest : ∀ segment ∈ rest, KeptSegment segment) :
      walkPath stack last ++ question :: query = walkPath stack (last ++ question :: query) ↔
        KeptSegment last ∨ last = [] ∧ stack = [] := by
    have spelled : walkPath stack (last ++ question :: query) =
        PathStack.spell slash stack ++ slash :: last ++ question :: query := by
      rw [walkPath, PathStack.path_foldl_enter_of_kept (keptLink keptRest), ← List.cons_append,
        ← List.append_assoc]
    rw [spelled, List.append_left_inj, walkPath_last_iff inner]
  constructor
  · rintro ⟨shallow, same⟩
    have keptRest := kept_of_walkPath_query kept (PathStack.head?_path _) split same
    have few := (shallow_of_kept (keptLink keptRest)).mp shallow
    rw [splitLink, List.length_cons] at few
    exact ⟨keptRest, (cancels keptRest).mp same, few⟩
  · rintro ⟨keptRest, lastKept, few⟩
    refine ⟨(shallow_of_kept (keptLink keptRest)).mpr ?_, (cancels keptRest).mpr lastKept⟩
    rwa [splitLink, List.length_cons]

/-- A path from the root that is normalised stays as it is in front of a query exactly when the
query is kept. -/
theorem normalizePath_query_iff {path result : Text} (rooted : path.head? = some slash)
    (short : (path ++ question :: query).length < pathSize)
    (normalized : normalizePath path pathSize = some result) :
    normalizePath (path ++ question :: query) pathSize = some (result ++ question :: query) ↔
      QueryKept path query := by
  obtain ⟨front, pathEq, directoryEq⟩ := eq_directory_append rooted
  obtain ⟨first, rest, split⟩ := List.exists_cons_of_ne_nil (List.splitOn_ne_nil slash query)
  have inner := inner_lastSegment path
  have queryKept : QueryKept path query ↔ (∀ segment ∈ rest, KeptSegment segment) ∧
      (KeptSegment (lastSegment path) ∨ lastSegment path = [] ∧ directories front = []) ∧
      (directories front).length + (rest.length + 1) < maxSegments := by
    rw [← directories_append_slash front, ← directoryEq]
    constructor
    · rintro ⟨segments, last, few⟩
      rw [split] at segments few
      exact ⟨segments, last, few⟩
    · rintro ⟨segments, last, few⟩
      exact ⟨by rwa [split], last, by rwa [split]⟩
  rw [queryKept]
  generalize lastSegment path = last at *
  subst pathEq
  have shortPath : (front ++ slash :: last).length < pathSize := by
    rw [List.length_append] at short
    omega
  have shallow : Shallow [] front := fun before after splitFront =>
    few_of_normalizePath normalized (by
      rw [List.splitOn_append_cons_self, splitFront, List.append_assoc])
  obtain ⟨_, rfl⟩ := (normalizePath_join_iff rooted shortPath shallow).mp normalized
  rw [List.append_assoc, List.cons_append] at short ⊢
  rw [normalizePath_join_iff (rooted_join rooted _) short shallow]
  exact walkPath_query_iff (kept_directories front) inner split

/-- A path from the root is not made longer. -/
theorem length_normalizePath_le {path result : Text} (rooted : path.head? = some slash)
    (normalized : normalizePath path pathSize = some result) : result.length ≤ path.length := by
  obtain ⟨tail, rfl⟩ := eq_slash_cons rooted
  obtain ⟨stack, _, _, left, rfl⟩ := normalizePath_eq_some normalized
  have read : PathStack.cost (tail.splitOn slash) = tail.length + 1 := PathStack.cost_splitOn tail
  have spelled := @PathStack.length_spell_foldl_enter _ slash dot _ (tail.splitOn slash) []
  rw [read, PathStack.spell, List.length_nil, Nat.zero_add] at spelled
  rw [List.splitOn_cons_eq_if_modifyHead, if_pos (by simp), List.foldl_cons, PathStack.enter,
    if_pos (.inl rfl)] at left
  rw [left, PathStack.path]
  split
  · exact Nat.le_add_left _ _
  · exact spelled

/-! ### The parser -/

/-- The host of an accepted URL text without a port is what stands in front of the path. -/
theorem nosUrlParse_host {host path : Text} {url : NosUrl} (noSlash : slash ∉ host)
    (noColon : colon ∉ host) (rooted : path.head? = some slash)
    (parsed : nosUrlParse (nosUrlScheme ++ host ++ path) = some url) : url.host = host := by
  rw [List.append_assoc] at parsed
  obtain ⟨_, authorityParsed, _⟩ := nosUrlParse_parts noSlash (.inr rooted) parsed
  obtain ⟨_, _, _, _, _, form⟩ := parseAuthority_eq_some authorityParsed
  rcases form with ⟨alone, _⟩ | ⟨digits, withPort, _⟩
  · exact alone.symm
  · exact absurd (withPort ▸ List.mem_append_right _ List.mem_cons_self) noColon

/-- The query behind an accepted URL comes through the parser as it is, behind the path as it is
without the query, exactly when it is kept. -/
theorem nosUrlParse_query_iff {host path : Text} {url : NosUrl} (noSlash : slash ∉ host)
    (noColon : colon ∉ host) (rooted : path.head? = some slash)
    (short : (path ++ question :: query).length < pathSize)
    (parsed : nosUrlParse (nosUrlScheme ++ host ++ path) = some url) :
    ((url.path ++ question :: query).length < pathSize →
        nosUrlParse (nosUrlScheme ++ host ++ (path ++ question :: query)) =
          some { url with path := url.path ++ question :: query }) ↔
      QueryKept path query := by
  have wellFormed := nosUrlParse_wellFormed parsed
  have shortPath : path.length < pathSize := by
    rw [List.length_append] at short
    omega
  have rootedQuery : (path ++ question :: query).head? = some slash := by
    rw [List.head?_append, rooted]
    rfl
  obtain rfl := nosUrlParse_host noSlash noColon rooted parsed
  rw [nosUrlParse_scheme wellFormed.hostSome wellFormed.hostShort noSlash noColon rooted
    shortPath] at parsed
  obtain ⟨result, normalized, equal⟩ := Option.map_eq_some_iff.mp parsed
  have fits : (url.path ++ question :: query).length < pathSize := by
    have shorter := length_normalizePath_le rooted normalized
    rw [← equal]
    rw [List.length_append] at short ⊢
    exact Nat.lt_of_le_of_lt (Nat.add_le_add_right shorter _) short
  rw [forall_prop_of_true fits, nosUrlParse_scheme wellFormed.hostSome wellFormed.hostShort noSlash
    noColon rootedQuery short, ← normalizePath_query_iff rooted short normalized, ← equal]
  constructor
  · intro through
    obtain ⟨found, normalizedQuery, same⟩ := Option.map_eq_some_iff.mp through
    rw [normalizedQuery]
    exact congrArg some (congrArg NosUrl.path same)
  · intro through
    rw [through, Option.map_some]

/-- A search for one word. -/
theorem nosUrlParse_query_word :
    nosUrlParse (nosUrlScheme ++ text "h" ++ (text "/s" ++ question :: text "word")) =
      some ⟨text "h", nosDefaultPort, text "/s" ++ question :: text "word"⟩ := by
  have single : (text "word").splitOn slash = [text "word"] :=
    List.splitOn_eq_singleton (by decide)
  have kept : QueryKept (text "/s") (text "word") := by
    refine ⟨fun segment member => ?_, .inl ⟨by decide, by decide, by decide, by decide⟩, by decide⟩
    rw [single] at member
    exact absurd member List.not_mem_nil
  exact (nosUrlParse_query_iff (by decide) (by decide) (by decide) (by decide)
    (show nosUrlParse (nosUrlScheme ++ text "h" ++ text "/s") =
      some ⟨text "h", nosDefaultPort, text "/s"⟩ by decide)).mpr kept (by decide)

/-- A query with a URL in it loses one of the two slashes. -/
theorem nosUrlParse_query_slashes :
    ∃ host path query url, slash ∉ host ∧ colon ∉ host ∧ question ∉ host ∧
      path.head? = some slash ∧ question ∉ path ∧
      (path ++ question :: query).length < pathSize ∧
      nosUrlParse (nosUrlScheme ++ host ++ path) = some url ∧
      (url.path ++ question :: query).length < pathSize ∧
      nosUrlParse (nosUrlScheme ++ host ++ (path ++ question :: query)) =
        some ⟨text "h", nosDefaultPort, text "/s?gemini:/a"⟩ ∧
      nosUrlParse (nosUrlScheme ++ host ++ (path ++ question :: query)) ≠
        some { url with path := url.path ++ question :: query } :=
  ⟨text "h", text "/s", text "gemini://a", ⟨text "h", nosDefaultPort, text "/s"⟩, by decide,
    by decide, by decide, by decide, by decide, by decide, by decide, by decide, by decide,
    by decide⟩

end Nosgem
