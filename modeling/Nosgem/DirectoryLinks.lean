/-
This file settles where a relative link leads from a directory page: a URL whose
text ends in a slash. The normaliser drops that slash, so resolving the link
takes the last directory for a file and starts one directory higher than the
link put behind the text of the page does. Walking from both along the segments
of the link, one directory stays missing until the walk comes to the root. So
the two agree exactly when the page is the root or the link climbs to it, or
when both are refused because they lead deeper than the normaliser can go.
-/

import Nosgem.LinkTargets

namespace Nosgem

open CText

/-! ### Walks along a link -/

/-- The directories of a normalised path, the last one first. -/
def directories (path : Text) : List Text := (path.splitOn slash).foldl (PathStack.enter dot) []

/-- The walk along a link from some directories comes to the root, or starts there. -/
def ClimbsToRoot (stack : List Text) (link : Text) : Prop :=
  ∃ front back, link.splitOn slash = front ++ back ∧
    front.foldl (PathStack.enter dot) stack = []

/-- The walk along a link from some directories is never deeper than the normaliser can go. -/
def Shallow (stack : List Text) (link : Text) : Prop :=
  ∀ front back, link.splitOn slash = front ++ back →
    (front.foldl (PathStack.enter dot) stack).length < maxSegments

/-- Where the walk along a link ends. -/
def walkPath (stack : List Text) (link : Text) : Text :=
  PathStack.path slash ((link.splitOn slash).foldl (PathStack.enter dot) stack)

theorem kept_directories (path : Text) : ∀ segment ∈ directories path, KeptSegment segment :=
  PathStack.kept_foldl_enter (fun _ => PathStack.not_mem_of_mem_splitOn)
    fun _ member => absurd member List.not_mem_nil

/-- What stands behind a slash does not decide whether a text starts from the root. -/
theorem rooted_join {front back : Text} (rooted : (front ++ slash :: back).head? = some slash)
    (link : Text) : (front ++ slash :: link).head? = some slash := by
  cases front with
  | nil => rfl
  | cons c front => exact rooted

/-- A link behind a directory is normalised by a walk from the stack of the directory. -/
theorem normalizePath_join_iff {front link result : Text}
    (rooted : (front ++ slash :: link).head? = some slash)
    (short : (front ++ slash :: link).length < pathSize) (shallow : Shallow [] front) :
    normalizePath (front ++ slash :: link) pathSize = some result ↔
      Shallow (directories front) link ∧ result = walkPath (directories front) link := by
  have joined : (front ++ slash :: link).splitOn slash =
      front.splitOn slash ++ link.splitOn slash := List.splitOn_append_cons_self _ _
  rw [normalizePath_rooted_iff rooted short, joined, List.foldl_append]
  refine and_congr_left fun _ => ⟨fun all first rest split => ?_, fun link first rest split => ?_⟩
  · have deep := all (front.splitOn slash ++ first) rest (by rw [split, List.append_assoc])
    rwa [List.foldl_append] at deep
  · rcases List.append_eq_append_iff.mp split with ⟨more, rfl, later⟩ | ⟨more, early, _⟩
    · rw [List.foldl_append]
      exact link more rest later
    · exact shallow first more early

/-- A stack of kept segments that fits spells out a directory with this stack. -/
theorem directories_spell {stack : List Text} (kept : ∀ segment ∈ stack, KeptSegment segment)
    (few : stack.length < maxSegments) :
    Shallow [] (PathStack.spell slash stack) ∧
      directories (PathStack.spell slash stack) = stack := by
  have keptReverse : ∀ segment ∈ stack.reverse, KeptSegment segment := fun segment member =>
    kept segment (List.mem_reverse.mp member)
  constructor
  · intro front back split
    rw [PathStack.splitOn_spell kept] at split
    cases front with
    | nil => decide
    | cons first front =>
      rw [List.cons_append, List.cons.injEq] at split
      have keptFront : ∀ segment ∈ front, KeptSegment segment := fun segment member =>
        keptReverse segment (split.2 ▸ List.mem_append_left back member)
      have length := congrArg List.length split.2
      rw [List.length_reverse, List.length_append] at length
      rw [← split.1, List.foldl_cons, PathStack.enter, if_pos (.inl rfl),
        PathStack.foldl_enter_of_kept keptFront, List.append_nil, List.length_reverse]
      omega
  · rw [directories, PathStack.splitOn_spell kept, List.foldl_cons, PathStack.enter,
      if_pos (.inl rfl), PathStack.foldl_enter_of_kept keptReverse, List.reverse_reverse,
      List.append_nil]

/-- The directory part of a normal path lacks its last segment. -/
theorem directory_path {stack : List Text} (kept : ∀ segment ∈ stack, KeptSegment segment) :
    directory (PathStack.path slash stack) = PathStack.spell slash stack.tail ++ [slash] := by
  cases stack with
  | nil => rfl
  | cons last below =>
    have inner : slash ∉ last.reverse := fun member =>
      (kept last List.mem_cons_self).inner (List.mem_reverse.mp member)
    have stops : (PathStack.spell slash (last :: below)).reverse.dropWhile (· != slash) =
        slash :: (PathStack.spell slash below).reverse := by
      rw [PathStack.spell, List.reverse_append, List.reverse_cons, List.append_assoc,
        List.singleton_append, PathStack.dropWhile_mark inner]
    rw [PathStack.path, if_neg (List.cons_ne_nil _ _), directory, stops]
    rw [List.reverse_cons, List.reverse_reverse, if_neg (by simp), List.tail_cons]

/-! ### The page and the link -/

/-- The text of a directory page is its scheme, its host and a path that ends in a slash. -/
theorem directoryPage_eq {base : Text} {url : NosUrl} (starts : nosUrlScheme <+: base)
    (ends : base.getLast? = some slash) (parsed : nosUrlParse base = some url) :
    ∃ front, base = nosUrlScheme ++ url.host ++ (front ++ [slash]) ∧ url.port = nosDefaultPort ∧
      (front ++ [slash]).head? = some slash ∧ (front ++ [slash]).length < pathSize ∧
      normalizePath (front ++ [slash]) pathSize = some url.path := by
  obtain ⟨rest, rfl⟩ := starts
  obtain ⟨authority, pathStart, stripped, noSlash, shape, fits, authorityParsed, normalized⟩ :=
    nosUrlParse_eq_some parsed
  rw [stripScheme_scheme, Option.some.injEq] at stripped
  obtain ⟨hostSome, _, _, _, _, form⟩ := parseAuthority_eq_some authorityParsed
  have authoritySome : authority ≠ [] := by
    rcases form with ⟨rfl, _⟩ | ⟨digits, rfl, _⟩
    · exact hostSome
    · simp
  rcases shape with rfl | rooted
  · -- the last byte would be in the authority
    rw [stripped, List.append_nil, List.getLast?_append_of_ne_nil _ authoritySome] at ends
    exact absurd (List.mem_of_getLast? ends) noSlash
  have pathSome : pathStart ≠ [] := fun empty => by
    rw [empty] at rooted
    cases rooted
  have hostOnly : authority = url.host ∧ url.port = nosDefaultPort := by
    rcases form with whole | ⟨digits, _, allDigits, _⟩
    · exact whole
    · have slashInside : slash ∈ digits ++ pathStart :=
        List.mem_append_right _ (List.mem_of_mem_head? rooted)
      exact absurd slashInside (noSlash_of_isAllDigits allDigits)
  rw [stripped, List.getLast?_append_of_ne_nil _ (by simp [pathSome]),
    List.getLast?_append_of_ne_nil _ pathSome] at ends
  have cut : pathStart = pathStart.dropLast ++ [slash] := by
    rw [List.getLast?_eq_some_getLast pathSome, Option.some.injEq] at ends
    rw [← ends, List.dropLast_append_getLast]
  rw [if_neg pathSome] at normalized
  refine ⟨pathStart.dropLast, ?_, hostOnly.2, ?_, ?_, ?_⟩
  · rw [← cut, stripped, hostOnly.1, List.append_assoc]
  · rwa [← cut]
  · rwa [← cut]
  · rwa [← cut]

theorem exists_of_strIEqN {link scheme : Text} (starts : strIEqN link scheme scheme.length) :
    ∃ front rest, link = front ++ rest ∧ fold front = fold scheme := by
  induction scheme generalizing link with
  | nil => exact ⟨[], link, rfl, rfl⟩
  | cons mark scheme inductionHypothesis =>
    cases link with
    | nil => cases starts
    | cons c link =>
      rw [List.length_cons, strIEqN, Bool.and_eq_true, beq_iff_eq] at starts
      obtain ⟨front, rest, rfl, folded⟩ := inductionHypothesis starts.2
      exact ⟨c :: front, rest, rfl, by rw [fold_cons, fold_cons, starts.1, folded]⟩

/-- A text that starts with the scheme, in any letter case, names a scheme. -/
theorem strstr_of_strIEqN {link : Text} (starts : strIEqN link nosUrlScheme nosUrlScheme.length) :
    strstr link (text "://") := by
  obtain ⟨front, rest, rfl, folded⟩ := exists_of_strIEqN starts
  have parts : fold front = text "gemini" ++ text "://" := folded.trans (by decide)
  obtain ⟨name, mark, rfl, _, markFolded⟩ := List.map_eq_append_iff.mp parts
  have isMark : mark = text "://" := eq_of_fold (by decide) markFolded
  rw [strstr, List.any_eq_true, isMark, List.append_assoc]
  exact ⟨text "://" ++ rest, List.mem_tails _ _ |>.mpr (List.suffix_append _ _),
    List.isPrefixOf_iff_prefix.mpr (List.prefix_append _ _)⟩

/-- A relative link is put behind the directory part of the path. -/
theorem linkPath_relative {basePath link : Text} (nonEmpty : link ≠ [])
    (noRoot : link.head? ≠ some slash) (noMark : link.head? ≠ some question)
    (short : (directory basePath).length + link.length < pathSize) :
    linkPath basePath link = normalizePath (directory basePath ++ link) pathSize := by
  rw [linkPath, if_neg nonEmpty, if_neg noRoot, if_neg noMark, if_neg (not_le.mpr short)]

/-! ### The two walks -/

/-- A walk that comes to the root and reads no more than a path buffer holds is never too deep on
the way: two bytes are needed for a level down and three for a level up. -/
theorem shallow_of_climb {stack front back : List Text}
    (short : 2 * stack.length + PathStack.cost (front ++ back) ≤ pathSize)
    (root : (front ++ back).foldl (PathStack.enter dot) stack = []) :
    (front.foldl (PathStack.enter dot) stack).length < maxSegments := by
  have down : 2 * (front.foldl (PathStack.enter dot) stack).length ≤
      2 * stack.length + PathStack.cost front := PathStack.depth_down front stack
  have up : 3 * (front.foldl (PathStack.enter dot) stack).length ≤
      3 * (back.foldl (PathStack.enter dot) (front.foldl (PathStack.enter dot) stack)).length +
        PathStack.cost back := PathStack.depth_up back _
  rw [← List.foldl_append, root, List.length_nil] at up
  rw [PathStack.cost_append, pathSize] at short
  rw [maxSegments]
  omega

/-- A link of less than two bytes for each level is not too deep from the root. -/
theorem shallow_of_short {link : Text} (short : link.length + 1 < 2 * maxSegments) :
    Shallow [] link := by
  intro front back split
  have read : PathStack.cost (link.splitOn slash) = link.length + 1 := PathStack.cost_splitOn link
  have down : 2 * (front.foldl (PathStack.enter dot) []).length ≤
      2 * ([] : List Text).length + PathStack.cost front := PathStack.depth_down front []
  rw [split, PathStack.cost_append] at read
  rw [List.length_nil] at down
  omega

/-- When a walk comes to the root, only what follows decides whether it is too deep. -/
theorem shallow_iff_of_climb {stack front back : List Text} {link : Text}
    (short : 2 * stack.length + link.length < pathSize)
    (split : link.splitOn slash = front ++ back)
    (root : front.foldl (PathStack.enter dot) stack = []) :
    Shallow stack link ↔ ∀ more rest, back = more ++ rest →
      (more.foldl (PathStack.enter dot) []).length < maxSegments := by
  have read : PathStack.cost (link.splitOn slash) = link.length + 1 := PathStack.cost_splitOn link
  rw [split, PathStack.cost_append] at read
  constructor
  · rintro shallow more rest rfl
    have deep := shallow (front ++ more) rest (by rw [split, List.append_assoc])
    rwa [List.foldl_append, root] at deep
  · intro later first rest splitFirst
    rw [split] at splitFirst
    rcases List.append_eq_append_iff.mp splitFirst with ⟨more, rfl, rest⟩ | ⟨more, rfl, _⟩
    · rw [List.foldl_append, root]
      exact later more _ rest
    · exact shallow_of_climb (by omega) root

/-- Two walks that are a segment apart stay apart unless they come to the root. -/
theorem walks_beside {missing : Text} {below : List Text} {link : Text}
    (away : ¬ ClimbsToRoot (missing :: below) link) {front back : List Text}
    (split : link.splitOn slash = front ++ back) :
    (front.foldl (PathStack.enter dot) (missing :: below)).length =
      (front.foldl (PathStack.enter dot) below).length + 1 := by
  rcases PathStack.foldl_enter_beside front [] below missing with
    ⟨first, rest, rfl, root, _⟩ | ⟨above', missing', below', walked, walkedBelow⟩
  · exact absurd ⟨first, rest ++ back, by rw [split, List.append_assoc], root⟩ away
  · rw [List.nil_append] at walked walkedBelow
    rw [walked, walkedBelow, List.length_append, List.length_append, List.length_cons]
    rfl

/-- The walk along a link that comes to the root meets the walk from a directory higher. -/
theorem meet_of_climbsToRoot {missing : Text} {below : List Text} {link : Text}
    (climbs : ClimbsToRoot (missing :: below) link) :
    ∃ front back, link.splitOn slash = front ++ back ∧
      front.foldl (PathStack.enter dot) (missing :: below) = [] ∧
      front.foldl (PathStack.enter dot) below = [] := by
  obtain ⟨front, back, split, root⟩ := climbs
  rcases PathStack.foldl_enter_beside front [] below missing with
    ⟨first, rest, rfl, meet⟩ | ⟨above', missing', below', walked, _⟩
  · exact ⟨first, rest ++ back, by rw [split, List.append_assoc], meet⟩
  · rw [List.nil_append, root] at walked
    simp at walked

/-- The stack of a path that spells out kept segments is known from the path. -/
theorem eq_of_walkPath {stack other : List Text} {link : Text}
    (kept : ∀ segment ∈ stack, KeptSegment segment)
    (keptOther : ∀ segment ∈ other, KeptSegment segment)
    (same : walkPath stack link = walkPath other link) :
    (link.splitOn slash).foldl (PathStack.enter dot) stack =
      (link.splitOn slash).foldl (PathStack.enter dot) other := by
  have inner : ∀ segment ∈ link.splitOn slash, slash ∉ segment := fun segment =>
    PathStack.not_mem_of_mem_splitOn
  have walked := congrArg (fun path => (path.splitOn slash).foldl (PathStack.enter dot) []) same
  dsimp only [walkPath] at walked
  rwa [PathStack.foldl_enter_path (PathStack.kept_foldl_enter inner kept),
    PathStack.foldl_enter_path (PathStack.kept_foldl_enter inner keptOther)] at walked

/-- Two walks that are a segment apart agree when they meet at the root or when both are refused. -/
theorem walks_agree_iff {stack : List Text} (kept : ∀ segment ∈ stack, KeptSegment segment)
    {link : Text} (short : 2 * stack.length + link.length < pathSize) :
    ((Shallow stack.tail link ↔ Shallow stack link) ∧
        (Shallow stack.tail link → walkPath stack.tail link = walkPath stack link)) ↔
      ClimbsToRoot stack link ∨ ¬ Shallow stack.tail link := by
  cases stack with
  | nil => exact iff_of_true ⟨Iff.rfl, fun _ => rfl⟩ (.inl ⟨[], _, rfl, rfl⟩)
  | cons missing below =>
    obtain ⟨_, keptBelow⟩ := List.forall_mem_cons.mp kept
    rw [List.length_cons] at short
    rw [List.tail_cons]
    by_cases climbs : ClimbsToRoot (missing :: below) link
    · -- from the root on the two walks are the same
      refine iff_of_true ?_ (.inl climbs)
      obtain ⟨front, back, split, root, rootBelow⟩ := meet_of_climbsToRoot climbs
      rw [shallow_iff_of_climb (by rw [List.length_cons]; omega) split root,
        shallow_iff_of_climb (by omega) split rootBelow]
      refine ⟨Iff.rfl, fun _ => ?_⟩
      rw [walkPath, walkPath, split, List.foldl_append, List.foldl_append, root, rootBelow]
    · -- the deeper walk stays one segment deeper to the end
      have higher : Shallow (missing :: below) link → Shallow below link :=
        fun shallow front back split => by
          have deep := shallow front back split
          rw [walks_beside climbs split] at deep
          omega
      rw [or_iff_right climbs]
      constructor
      · rintro ⟨_, same⟩ shallow
        have apart := walks_beside climbs (List.append_nil (link.splitOn slash)).symm
        rw [eq_of_walkPath keptBelow kept (same shallow)] at apart
        omega
      · intro deep
        exact ⟨⟨fun shallow => absurd shallow deep, higher⟩, fun shallow => absurd shallow deep⟩

/-! ### Where a relative link leads -/

/-- What is known of a directory whose path is normalised. -/
theorem directory_normalized {front result : Text} (rooted : (front ++ [slash]).head? = some slash)
    (short : (front ++ [slash]).length < pathSize)
    (normalized : normalizePath (front ++ [slash]) pathSize = some result) :
    Shallow [] front ∧ result = PathStack.path slash (directories front) ∧
      ∀ segment ∈ directories front, KeptSegment segment := by
  have joined : (front ++ [slash]).splitOn slash = front.splitOn slash ++ [[]] :=
    List.splitOn_append_cons_self _ _
  obtain ⟨shallow, equal⟩ := (normalizePath_rooted_iff rooted short).mp normalized
  refine ⟨fun first rest split => ?_, ?_, ?_⟩
  · exact shallow first (rest ++ [[]]) (by rw [joined, split, List.append_assoc])
  · rw [equal, joined, List.foldl_append]
    rfl
  · exact kept_directories front

/-- The directories of a text are at most half as many as its bytes, and spelling them out without
the last one takes no more bytes than the text. -/
theorem length_directories (front : Text) :
    2 * (directories front).length ≤ front.length + 1 ∧
      (PathStack.spell slash (directories front).tail).length ≤ front.length := by
  have read : PathStack.cost (front.splitOn slash) = front.length + 1 :=
    PathStack.cost_splitOn front
  have depth : 2 * (directories front).length ≤ 0 + PathStack.cost (front.splitOn slash) :=
    PathStack.depth_down (front.splitOn slash) []
  have spelled : (PathStack.spell slash (directories front)).length ≤
      0 + PathStack.cost (front.splitOn slash) :=
    PathStack.length_spell_foldl_enter (front.splitOn slash) []
  rw [read, Nat.zero_add] at depth spelled
  refine ⟨depth, ?_⟩
  cases stack : directories front with
  | nil => exact Nat.zero_le _
  | cons last others =>
    rw [stack, PathStack.spell, List.length_append, List.length_cons] at spelled
    rw [List.tail_cons]
    omega

/-- The text of the page with the link behind it is parsed by normalising the path with the link
behind it. -/
theorem nosUrlParse_directory {front link : Text} {url : NosUrl} (wellFormed : url.WellFormed)
    (port : url.port = nosDefaultPort) (rooted : (front ++ slash :: link).head? = some slash)
    (short : (front ++ slash :: link).length < pathSize) :
    nosUrlParse (nosUrlScheme ++ url.host ++ (front ++ [slash]) ++ link) =
      (normalizePath (front ++ slash :: link) pathSize).map fun path => { url with path } := by
  have joined : nosUrlScheme ++ url.host ++ (front ++ [slash]) ++ link =
      nosUrlScheme ++ url.host ++ (front ++ slash :: link) := by simp
  rw [joined, nosUrlParse_scheme wellFormed.hostSome wellFormed.hostShort wellFormed.hostSlash
    wellFormed.hostColon rooted short, ← port]

/-- A relative link is resolved by normalising the directories of the base, without the last one,
with the link behind them. -/
theorem nosUrlResolve_relative {stack : List Text} {link : Text} {url : NosUrl}
    (pathEq : url.path = PathStack.path slash stack) (kept : ∀ segment ∈ stack, KeptSegment segment)
    (nonEmpty : link ≠ []) (noScheme : ¬ strstr link (text "://")) (noQuery : question ∉ link)
    (noRoot : link.head? ≠ some slash)
    (short : (PathStack.spell slash stack.tail ++ slash :: link).length < pathSize) :
    nosUrlResolve url link =
      (normalizePath (PathStack.spell slash stack.tail ++ slash :: link) pathSize).map
        fun path => { url with path } := by
  have relative : ¬ NamesScheme link :=
    not_or.mpr ⟨fun scheme => noScheme (strstr_of_strIEqN scheme), noScheme⟩
  have dir : directory url.path = PathStack.spell slash stack.tail ++ [slash] := by
    rw [pathEq, directory_path kept]
  have joined : directory url.path ++ link = PathStack.spell slash stack.tail ++ slash :: link := by
    rw [dir, List.append_assoc, List.singleton_append]
  rw [nosUrlResolve_linkPath relative, linkPath_relative nonEmpty noRoot
    (fun head => noQuery (List.mem_of_mem_head? head))
    (by rwa [← List.length_append, joined]), joined]

/-- Two normalisations that are known agree when they agree to fail or to return. -/
theorem eq_iff_of_eq_some_iff {found other : Option Text} {may mayOther : Prop}
    {result otherResult : Text} (known : ∀ path, found = some path ↔ may ∧ path = result)
    (knownOther : ∀ path, other = some path ↔ mayOther ∧ path = otherResult) :
    found = other ↔ (may ↔ mayOther) ∧ (may → result = otherResult) := by
  constructor
  · rintro rfl
    refine ⟨⟨fun holds => ?_, fun holds => ?_⟩, fun holds => ?_⟩
    · exact ((knownOther result).mp ((known result).mpr ⟨holds, rfl⟩)).1
    · exact ((known otherResult).mp ((knownOther otherResult).mpr ⟨holds, rfl⟩)).1
    · exact ((knownOther result).mp ((known result).mpr ⟨holds, rfl⟩)).2
  · rintro ⟨agree, same⟩
    refine Option.ext fun path => ?_
    rw [known, knownOther]
    constructor
    · rintro ⟨holds, rfl⟩
      exact ⟨agree.mp holds, same holds⟩
    · rintro ⟨holds, rfl⟩
      exact ⟨agree.mpr holds, (same (agree.mpr holds)).symm⟩

/-- Resolving a relative link on a directory page leads to the URL of the text with the link behind
the page exactly when the link climbs to the root, or starts there, or when the link is refused even
from a directory higher. -/
theorem nosUrlResolve_directory_iff {base link : Text} {url : NosUrl}
    (starts : nosUrlScheme <+: base) (ends : base.getLast? = some slash)
    (parsed : nosUrlParse base = some url) (nonEmpty : link ≠ [])
    (noScheme : ¬ strstr link (text "://")) (noQuery : question ∉ link)
    (noRoot : link.head? ≠ some slash)
    (short : (base ++ link).length < nosUrlScheme.length + url.host.length + pathSize) :
    nosUrlResolve url link = nosUrlParse (base ++ link) ↔
      ClimbsToRoot (directories url.path) link ∨ ¬ Shallow (directories url.path).tail link := by
  obtain ⟨front, rfl, port, rooted, shortFront, normalized⟩ := directoryPage_eq starts ends parsed
  obtain ⟨shallow, pathEq, kept⟩ := directory_normalized rooted shortFront normalized
  have samePath : directories url.path = directories front := by
    rw [pathEq]
    exact PathStack.foldl_enter_path kept
  have few : (directories front).length < maxSegments := shallow _ [] (List.append_nil _).symm
  obtain ⟨shallowTail, tailPath⟩ := directories_spell
    (fun segment member => kept segment (List.mem_of_mem_tail member))
    (show (directories front).tail.length < maxSegments by rw [List.length_tail]; omega)
  obtain ⟨depth, spelled⟩ := length_directories front
  simp only [List.length_append, List.length_singleton] at short
  have shortLink : (front ++ slash :: link).length < pathSize := by
    rw [List.length_append, List.length_cons]
    omega
  have shortTail :
      (PathStack.spell slash (directories front).tail ++ slash :: link).length < pathSize := by
    rw [List.length_append, List.length_cons]
    omega
  have rootedLink := rooted_join rooted link
  rw [nosUrlResolve_relative pathEq kept nonEmpty noScheme noQuery noRoot shortTail,
    nosUrlParse_directory (nosUrlParse_wellFormed parsed) port rootedLink shortLink,
    (Option.map_injective url.withPath_injective).eq_iff, samePath,
    eq_iff_of_eq_some_iff
      (fun _ => normalizePath_join_iff (PathStack.head?_spell_append _ _) shortTail shallowTail)
      (fun _ => normalizePath_join_iff rootedLink shortLink shallow),
    tailPath]
  exact walks_agree_iff kept (by omega)

/-- From `gemini://h/d/` the link `../x` leads to the same page either way. -/
theorem nosUrlResolve_directory_iff_up :
    nosUrlResolve ⟨text "h", nosDefaultPort, text "/d"⟩ (text "../x") =
      nosUrlParse (text "gemini://h/d/" ++ text "../x") :=
  (nosUrlResolve_directory_iff (by decide) (by decide) (by decide) (by decide) (by decide)
    (by decide) (by decide) (by decide)).mpr (.inl ⟨[text ".."], [text "x"], by decide, by decide⟩)

/-- From `gemini://h/a/` the link `x` leads to `/x`, and behind the text of the page to `/a/x`. -/
theorem nosUrlResolve_directory_sibling :
    ∃ base link url, nosUrlScheme <+: base ∧ base.getLast? = some slash ∧ question ∉ base ∧
      nosUrlParse base = some url ∧ link ≠ [] ∧ ¬ strstr link (text "://") ∧ question ∉ link ∧
      link.head? ≠ some slash ∧
      (base ++ link).length < nosUrlScheme.length + url.host.length + pathSize ∧
      nosUrlResolve url link = some ⟨text "h", nosDefaultPort, text "/x"⟩ ∧
      nosUrlParse (base ++ link) = some ⟨text "h", nosDefaultPort, text "/a/x"⟩ :=
  ⟨text "gemini://h/a/", text "x", ⟨text "h", nosDefaultPort, text "/a"⟩, by decide, by decide,
    by decide, by decide, by decide, by decide, by decide, by decide, by decide, by decide,
    by decide⟩

end Nosgem
