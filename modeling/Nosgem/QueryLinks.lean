/-
This file compares a link resolved from two bases that differ only in their
query. A relative link is put behind the last slash of the base, and where the
query holds a slash this is one in the query: its segments are directories then.

The normaliser walks from the directories of the base along the link, and what
the walk does is the same from every stack: it takes some segments off and puts
others on. So the two bases agree exactly when their directories are the same
below what the link climbs, or when both ways are too deep; and a link that is a
query of its own is put behind the query of the base, which has to be the same.
-/

import Nosgem.QueryPaths

namespace Nosgem

open CText

/-! ### Where a relative link leads -/

/-- How many directories a link climbs out of. -/
def climb (link : Text) : Nat := (PathStack.trip dot (link.splitOn slash)).climb

/-- A relative link is normalised by a walk from the directories of the base. -/
theorem normalizePath_relative_iff {path link result : Text} (rooted : path.head? = some slash)
    (short : (directory path ++ link).length < pathSize) :
    normalizePath (directory path ++ link) pathSize = some result ↔
      Shallow [] (directory path ++ link) ∧
        result = walkPath (directories (directory path)) link := by
  obtain ⟨front, pathEq, directoryEq⟩ := eq_directory_append rooted
  have joined : directory path ++ link = front ++ slash :: link := by
    rw [directoryEq, List.append_assoc, List.singleton_append]
  have rootedLink := rooted_join (pathEq ▸ rooted) link
  rw [joined] at short
  rw [joined, directoryEq, directories_append_slash, normalizePath_rooted_iff rootedLink short,
    List.splitOn_append_cons_self, List.foldl_append]
  rw [Shallow, List.splitOn_append_cons_self]
  rfl

/-- Walks from two directories meet exactly when these are the same below what the link climbs. -/
theorem walkPath_eq_iff {stack other : List Text} {link : Text}
    (kept : ∀ segment ∈ stack, KeptSegment segment)
    (keptOther : ∀ segment ∈ other, KeptSegment segment) :
    walkPath stack link = walkPath other link ↔
      stack.drop (climb link) = other.drop (climb link) := by
  rw [climb, ← PathStack.foldl_enter_eq_iff]
  exact ⟨eq_of_walkPath kept keptOther, congrArg (PathStack.path slash)⟩

/-- A link leads to the same place from two paths: it names a scheme or a path from the root, or it
is a query and the paths are the same, or it is relative, the ways from both or neither are too
deep, and then the directories are the same below what the link climbs. -/
def SameFrom (path other link : Text) : Prop :=
  NamesScheme link ∨ link.head? = some slash ∨ link.head? = some question ∧ path = other ∨
    (link.head? ≠ some slash ∧ link.head? ≠ some question ∧
      (Shallow [] (directory path ++ link) ↔ Shallow [] (directory other ++ link)) ∧
      (Shallow [] (directory path ++ link) →
        (directories (directory path)).drop (climb link) =
          (directories (directory other)).drop (climb link)))

/-- What a link keeps of the path it is resolved against. -/
def keptPart (path link : Text) : Text :=
  if link = [] ∨ link.head? = some question then path
  else if link.head? = some slash then [] else directory path

theorem length_keptPart_le {path : Text} (rooted : path.head? = some slash) (link : Text) :
    (keptPart path link).length ≤ path.length := by
  obtain ⟨front, pathEq, directoryEq⟩ := eq_directory_append rooted
  have shorter : (directory path).length ≤ path.length := by
    have whole := congrArg List.length pathEq
    rw [List.length_append, List.length_cons] at whole
    rw [directoryEq, List.length_append, List.length_singleton]
    omega
  rw [keptPart]
  split
  · exact Nat.le_refl _
  split
  · exact Nat.zero_le _
  · exact shorter

theorem keptPart_relative {path link : Text} (nonempty : link ≠ [])
    (noRoot : link.head? ≠ some slash) (noMark : link.head? ≠ some question) :
    keptPart path link = directory path := by
  rw [keptPart, if_neg (not_or.mpr ⟨nonempty, noMark⟩), if_neg noRoot]

/-- The path of a link is the same from two paths that it fits behind exactly when it leads to the
same place. -/
theorem linkPath_eq_iff {path other link : Text} (nonempty : link ≠ [])
    (relative : ¬ NamesScheme link) (rooted : path.head? = some slash)
    (rootedOther : other.head? = some slash)
    (short : (keptPart path link ++ link).length < pathSize)
    (shortOther : (keptPart other link ++ link).length < pathSize) :
    linkPath path link = linkPath other link ↔ SameFrom path other link := by
  rw [SameFrom, or_iff_right relative]
  by_cases noRoot : link.head? = some slash
  · refine iff_of_true ?_ (.inl noRoot)
    rw [linkPath, linkPath, if_neg nonempty, if_neg nonempty, if_pos noRoot, if_pos noRoot]
  rw [or_iff_right noRoot]
  by_cases noMark : link.head? = some question
  · rw [keptPart, if_pos (.inr noMark), List.length_append] at short shortOther
    rw [linkPath, linkPath, if_neg nonempty, if_neg nonempty, if_neg noRoot, if_neg noRoot,
      if_pos noMark, if_pos noMark, if_neg (not_le.mpr short), if_neg (not_le.mpr shortOther),
      Option.some.injEq, List.append_left_inj]
    exact ⟨fun same => .inl ⟨noMark, same⟩, fun same =>
      same.elim And.right fun other => absurd noMark other.2.1⟩
  · rw [keptPart_relative nonempty noRoot noMark] at short shortOther
    rw [linkPath_relative nonempty noRoot noMark (List.length_append ▸ short),
      linkPath_relative nonempty noRoot noMark (List.length_append ▸ shortOther),
      eq_iff_of_eq_some_iff (fun _ => normalizePath_relative_iff rooted short)
        (fun _ => normalizePath_relative_iff rootedOther shortOther),
      walkPath_eq_iff (kept_directories _) (kept_directories _),
      or_iff_right fun query => noMark query.1]
    exact ⟨fun same => ⟨noRoot, noMark, same⟩, fun same => same.2.2⟩

/-! ### Two bases that differ in their query -/

/-- A link that fits behind two bases which differ in what stands behind their paths, a query or
nothing, is resolved in the same way from both exactly when it leads to the same place from their
paths. -/
theorem nosUrlResolve_queries_iff {base : NosUrl} {path query other link : Text}
    (rooted : path.head? = some slash) (nonempty : link ≠ [])
    (short : (path ++ query).length + link.length < pathSize)
    (shortOther : (path ++ other).length + link.length < pathSize) :
    nosUrlResolve { base with path := path ++ query } link =
        nosUrlResolve { base with path := path ++ other } link ↔
      SameFrom (path ++ query) (path ++ other) link := by
  by_cases names : NamesScheme link
  · exact iff_of_true (nosUrlResolve_namesScheme names _ _) (.inl names)
  have rootedBehind (back : Text) : (path ++ back).head? = some slash := by
    rw [List.head?_append, rooted]
    rfl
  have fits {path : Text} (rooted : path.head? = some slash)
      (short : path.length + link.length < pathSize) :
      (keptPart path link ++ link).length < pathSize := by
    have shorter := length_keptPart_le rooted link
    rw [List.length_append]
    omega
  rw [nosUrlResolve_linkPath names, nosUrlResolve_linkPath names,
    (Option.map_injective base.withPath_injective).eq_iff,
    linkPath_eq_iff nonempty names (rootedBehind query) (rootedBehind other)
      (fits (rootedBehind query) short) (fits (rootedBehind other) shortOther)]

/-- A link that climbs out of the directory of the query. -/
theorem nosUrlResolve_queries_up :
    nosUrlResolve ⟨text "h", nosDefaultPort, text "/s" ++ text "?a/b"⟩ (text "../t") =
      nosUrlResolve ⟨text "h", nosDefaultPort, text "/s" ++ []⟩ (text "../t") := by
  have same : SameFrom (text "/s" ++ text "?a/b") (text "/s" ++ []) (text "../t") :=
    .inr (.inr (.inr ⟨by decide, by decide,
      iff_of_true (shallow_of_short (by decide)) (shallow_of_short (by decide)),
      fun _ => by decide⟩))
  exact (@nosUrlResolve_queries_iff ⟨text "h", nosDefaultPort, []⟩ _ _ _ _ (by decide) (by decide)
    (by decide) (by decide)).mpr same

/-- A link from a search with a slash in it leads below the search. -/
theorem nosUrlResolve_queries_slash :
    ∃ (base : NosUrl) (path query other link : Text), path.head? = some slash ∧
      question ∉ path ∧ query.head? = some question ∧ other = [] ∧ link ≠ [] ∧
      (path ++ query).length + link.length < pathSize ∧
      (path ++ other).length + link.length < pathSize ∧
      nosUrlResolve { base with path := path ++ query } link =
        some ⟨text "h", nosDefaultPort, text "/s?a/t"⟩ ∧
      nosUrlResolve { base with path := path ++ other } link =
        some ⟨text "h", nosDefaultPort, text "/t"⟩ ∧
      nosUrlResolve { base with path := path ++ query } link ≠
        nosUrlResolve { base with path := path ++ other } link :=
  ⟨⟨text "h", nosDefaultPort, []⟩, text "/s", text "?a/b", [], text "t", by decide, by decide,
    by decide, by decide, by decide, by decide, by decide, by decide, by decide, by decide⟩

end Nosgem
