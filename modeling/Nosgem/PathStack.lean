/-
This file is about hierarchical paths: a path is a list of symbols cut into
segments by a separator, and normalising it means running the segments over a
stack, where one dot keeps the stack, two dots drop its last segment, an empty
segment is skipped and any other segment is put on top. The stack is kept with
its last segment first.

A path is normal when it spells out a stack of such kept segments. The file
shows that running the segments of a path always ends in a stack of kept
segments, that a path that spells out a stack is cut into its segments again,
and that a normal path stays normal when it is cut at a symbol other than the
separator and continued with something that names no directory. What a walk
takes off a stack and puts on it is the same for every stack, so walks along the
same segments from two stacks can be compared.
-/

import Mathlib.Algebra.Ring.Nat
import Mathlib.Data.List.TakeWhile
import Mathlib.Tactic.Basic

namespace PathStack

section Segments

variable {Symbol : Type} (sep dot : Symbol)

/-- A segment that stays on the stack. -/
structure Kept (segment : List Symbol) : Prop where
  some : segment ≠ []
  inner : sep ∉ segment
  notHere : segment ≠ [dot]
  notUp : segment ≠ [dot, dot]

/-- The path a stack spells out below the root. -/
def spell : List (List Symbol) → List Symbol
  | [] => []
  | segment :: below => spell below ++ sep :: segment

/-- The path of a stack; the empty stack is the root. -/
def path (stack : List (List Symbol)) : List Symbol :=
  if stack = [] then [sep] else spell sep stack

variable {sep dot}

theorem spell_eq_nil_iff {stack : List (List Symbol)} : spell sep stack = [] ↔ stack = [] := by
  cases stack <;> simp [spell]

theorem path_eq {stack : List (List Symbol)} :
    path sep stack = if spell sep stack = [] then [sep] else spell sep stack := by
  simp only [path, spell_eq_nil_iff]

theorem spell_eq_flatMap (stack : List (List Symbol)) :
    spell sep stack = stack.reverse.flatMap (sep :: ·) := by
  induction stack with
  | nil => rfl
  | cons segment below inductionHypothesis => simp [spell, inductionHypothesis]

/-- What a stack spells out starts with the separator, as soon as a separator follows it. -/
theorem head?_spell_append (stack : List (List Symbol)) (rest : List Symbol) :
    (spell sep stack ++ sep :: rest).head? = some sep := by
  induction stack generalizing rest with
  | nil => rfl
  | cons segment below inductionHypothesis =>
    rw [spell, List.append_assoc]
    exact inductionHypothesis (segment ++ sep :: rest)

theorem head?_path (stack : List (List Symbol)) : (path sep stack).head? = some sep := by
  cases stack with
  | nil => rfl
  | cons segment below =>
    rw [path, if_neg (List.cons_ne_nil _ _), spell]
    exact head?_spell_append below segment

variable [DecidableEq Symbol]

variable (dot) in
/-- What one segment does to the stack. -/
def enter (stack : List (List Symbol)) (segment : List Symbol) : List (List Symbol) :=
  if segment = [] ∨ segment = [dot] then stack
  else if segment = [dot, dot] then stack.tail
  else segment :: stack

/-- Entering a segment that holds no separator keeps the stack a stack of kept segments. -/
theorem kept_enter {stack : List (List Symbol)} (kept : ∀ segment ∈ stack, Kept sep dot segment)
    {segment : List Symbol} (inner : sep ∉ segment) :
    ∀ other ∈ enter dot stack segment, Kept sep dot other := by
  unfold enter
  split
  · exact kept
  · rename_i named
    split
    · exact fun other member => kept other (List.mem_of_mem_tail member)
    · rename_i notUp
      obtain ⟨someSegment, notHere⟩ := not_or.mp named
      rintro other (_ | ⟨_, member⟩)
      · exact ⟨someSegment, inner, notHere, notUp⟩
      · exact kept other member

theorem enter_of_kept {stack : List (List Symbol)} {segment : List Symbol}
    (kept : Kept sep dot segment) : enter dot stack segment = segment :: stack := by
  rw [enter, if_neg (by simp [kept.some, kept.notHere]), if_neg kept.notUp]

/-- The segments on the stack come from the path. -/
theorem mem_foldl_enter {segments stack : List (List Symbol)} {segment : List Symbol}
    (member : segment ∈ segments.foldl (enter dot) stack) :
    segment ∈ segments ∨ segment ∈ stack := by
  induction segments generalizing stack with
  | nil => exact .inr member
  | cons first segments inductionHypothesis =>
    rcases inductionHypothesis member with later | onStack
    · exact .inl (List.mem_cons_of_mem _ later)
    · unfold enter at onStack
      split at onStack
      · exact .inr onStack
      · split at onStack
        · exact .inr (List.mem_of_mem_tail onStack)
        · rcases List.mem_cons.mp onStack with rfl | below
          · exact .inl List.mem_cons_self
          · exact .inr below

theorem splitOn_flatMap {segments : List (List Symbol)}
    (inner : ∀ segment ∈ segments, sep ∉ segment) :
    (segments.flatMap (sep :: ·)).splitOn sep = [] :: segments := by
  have joined : segments.flatMap (sep :: ·) = [sep].intercalate ([] :: segments) := by
    clear inner
    induction segments with
    | nil => rfl
    | cons segment segments inductionHypothesis =>
      cases segments with
      | nil => simp [List.intercalate]
      | cons next segments =>
        rw [List.flatMap_cons, inductionHypothesis]
        simp [List.intercalate]
  rw [joined, List.splitOn_intercalate _ _ (by simp)]
  simpa using inner

theorem not_mem_of_mem_splitOn {path segment : List Symbol} (member : segment ∈ path.splitOn sep) :
    sep ∉ segment := by
  induction path generalizing segment with
  | nil =>
    rw [List.splitOn_nil, List.mem_singleton] at member
    rw [member]
    exact List.not_mem_nil
  | cons c path inductionHypothesis =>
    rw [List.splitOn_cons_eq_if_modifyHead] at member
    split at member
    · rcases List.mem_cons.mp member with rfl | later
      · exact List.not_mem_nil
      · exact inductionHypothesis later
    · rename_i other
      obtain ⟨head, tail, split⟩ := List.exists_cons_of_ne_nil (List.splitOn_ne_nil sep path)
      rw [split, List.modifyHead_cons] at member
      rcases List.mem_cons.mp member with rfl | later
      · have absent := inductionHypothesis (split ▸ List.mem_cons_self)
        simp only [List.mem_cons, not_or]
        exact ⟨fun equal => other (by simp [equal]), absent⟩
      · exact inductionHypothesis (split ▸ List.mem_cons_of_mem _ later)

omit [DecidableEq Symbol] in
/-- A list is a part of what it is joined into. -/
theorem part_of_mem_intercalate {segments : List (List Symbol)} {segment : List Symbol}
    (member : segment ∈ segments) : segment <:+: [sep].intercalate segments := by
  induction segments with
  | nil => cases member
  | cons first segments inductionHypothesis =>
    cases segments with
    | nil =>
      obtain rfl := List.mem_singleton.mp member
      simp only [List.intercalate_singleton, List.infix_rfl]
    | cons second segments =>
      rw [List.intercalate_cons_cons]
      rcases List.mem_cons.mp member with rfl | later
      · exact ⟨[], [sep] ++ [sep].intercalate (second :: segments), by simp⟩
      · exact List.infix_append_of_infix_right (inductionHypothesis later)

/-- The segments of a path are parts of it. -/
theorem part_of_mem_splitOn {path segment : List Symbol} (member : segment ∈ path.splitOn sep) :
    segment <:+: path := by
  have part : segment <:+: [sep].intercalate (path.splitOn sep) := part_of_mem_intercalate member
  rwa [List.intercalate_splitOn] at part

/-- A text without separators in front of a path joins its first segment. -/
theorem splitOn_append_of_inner {front : List Symbol} (inner : sep ∉ front) (path : List Symbol) :
    (front ++ path).splitOn sep = (path.splitOn sep).modifyHead (front ++ ·) := by
  induction front with
  | nil =>
    rw [List.nil_append]
    cases path.splitOn sep <;> rfl
  | cons c front inductionHypothesis =>
    obtain ⟨other, innerFront⟩ := not_or.mp (mt List.mem_cons.mpr inner)
    rw [List.cons_append, List.splitOn_cons_eq_if_modifyHead,
      if_neg (by simpa using Ne.symm other), inductionHypothesis innerFront]
    cases path.splitOn sep <;> rfl

/-- The segments of a path spell it out again. -/
theorem flatMap_splitOn (path : List Symbol) :
    (path.splitOn sep).flatMap (sep :: ·) = sep :: path := by
  induction path with
  | nil => rfl
  | cons c path inductionHypothesis =>
    rw [List.splitOn_cons_eq_if_modifyHead]
    split
    · rename_i separates
      rw [List.flatMap_cons, inductionHypothesis, beq_iff_eq.mp separates]
      rfl
    · obtain ⟨first, rest, split⟩ := List.exists_cons_of_ne_nil (List.splitOn_ne_nil sep path)
      rw [split, List.flatMap_cons, List.cons_append, List.cons.injEq] at inductionHypothesis
      rw [split, List.modifyHead_cons, List.flatMap_cons, List.cons_append, List.cons_append,
        inductionHypothesis.2]

/-! ### Reading a path segment by segment -/

variable (sep) in
/-- What is left behind a segment is nothing or starts with a separator. -/
theorem separated_dropWhile (path : List Symbol) :
    path.dropWhile (· != sep) = [] ∨ (path.dropWhile (· != sep)).head? = some sep := by
  have stops := List.head?_dropWhile_not (· != sep) path
  cases rest : path.dropWhile (· != sep) with
  | nil => exact .inl rfl
  | cons c tail =>
    rw [rest] at stops
    exact .inr (by simpa using stops)

/-- Behind the separators in front of a path and the segment there, less of it is left. -/
theorem length_dropWhile_lt {path : List Symbol} (some : path.dropWhile (· == sep) ≠ []) :
    ((path.dropWhile (· == sep)).dropWhile (· != sep)).length < path.length := by
  have shorter := (List.dropWhile_suffix (l := path) (· == sep)).length_le
  have inside := List.head?_dropWhile_not (· == sep) path
  cases rest : path.dropWhile (· == sep) with
  | nil => exact absurd rest some
  | cons c tail =>
    rw [rest] at shorter inside
    have notSep : (c != sep) = true := by simpa using inside
    rw [List.dropWhile_cons_of_pos (p := (· != sep)) notSep]
    exact Nat.lt_of_lt_of_le
      (Nat.lt_succ_of_le (List.dropWhile_suffix (l := tail) (· != sep)).length_le) shorter

section Reading

variable {State : Type} {step : State → List Symbol → Option State}
  (skips : ∀ state, step state [] = some state)
include skips

/-- A loop that skips empty segments passes a separator. -/
theorem foldlM_splitOn_sep (state : State) (path : List Symbol) :
    ((sep :: path).splitOn sep).foldlM step state = (path.splitOn sep).foldlM step state := by
  rw [List.splitOn_cons_eq_if_modifyHead, if_pos (by simp), List.foldlM_cons, skips]
  rfl

/-- A loop that skips empty segments passes a run of separators. -/
theorem foldlM_splitOn_dropWhile (state : State) (path : List Symbol) :
    ((path.dropWhile (· == sep)).splitOn sep).foldlM step state =
      (path.splitOn sep).foldlM step state := by
  induction path with
  | nil => rfl
  | cons c path inductionHypothesis =>
    by_cases separates : c = sep
    · rw [separates, List.dropWhile_cons_of_pos (by simp), inductionHypothesis,
        foldlM_splitOn_sep skips]
    · rw [List.dropWhile_cons_of_neg (by simpa using separates)]

/-- A loop over the segments takes the text in front of the first separator and goes on there. -/
theorem foldlM_splitOn_append (state : State) {segment rest : List Symbol} (inner : sep ∉ segment)
    (separated : rest = [] ∨ rest.head? = some sep) :
    ((segment ++ rest).splitOn sep).foldlM step state =
      step state segment >>= (rest.splitOn sep).foldlM step := by
  cases rest with
  | nil =>
    have ends : (([] : List Symbol).splitOn sep).foldlM step = some := funext fun next => by
      rw [List.splitOn_nil, List.foldlM_cons, skips]
      rfl
    rw [List.append_nil, List.splitOn_eq_singleton inner, ends]
    rfl
  | cons c rest =>
    obtain rfl : c = sep := by simpa using separated
    have passes : ((c :: rest).splitOn c).foldlM step = (rest.splitOn c).foldlM step :=
      funext fun next => foldlM_splitOn_sep skips next rest
    rw [List.splitOn_append_cons_self_of_not_mem inner, List.foldlM_cons, passes]

end Reading

/-! ### Cutting at a mark -/

theorem takeWhile_mark {mark : Symbol} {front : List Symbol} (absent : mark ∉ front)
    (rest : List Symbol) : (front ++ mark :: rest).takeWhile (· != mark) = front := by
  rw [List.takeWhile_append_of_pos fun c member => by
    simpa using fun equal : c = mark => absent (equal ▸ member)]
  simp

theorem dropWhile_mark {mark : Symbol} {front : List Symbol} (absent : mark ∉ front)
    (rest : List Symbol) : (front ++ mark :: rest).dropWhile (· != mark) = mark :: rest := by
  rw [List.dropWhile_append_of_pos fun c member => by
    simpa using fun equal : c = mark => absent (equal ▸ member)]
  simp

theorem takeWhile_absent {mark : Symbol} {front : List Symbol} (absent : mark ∉ front) :
    front.takeWhile (· != mark) = front :=
  List.takeWhile_eq_self_iff.mpr fun c member => by
    simpa using fun equal : c = mark => absent (equal ▸ member)

/-- The segment in front is what stands before the first separator. -/
theorem takeWhile_separated {front rest : List Symbol} (absent : sep ∉ front)
    (separated : rest = [] ∨ rest.head? = some sep) :
    (front ++ rest).takeWhile (· != sep) = front := by
  cases rest with
  | nil => rw [List.append_nil, takeWhile_absent absent]
  | cons c rest =>
    obtain rfl : c = sep := by simpa using separated
    exact takeWhile_mark absent rest

theorem dropWhile_separated {front rest : List Symbol} (absent : sep ∉ front)
    (separated : rest = [] ∨ rest.head? = some sep) :
    (front ++ rest).dropWhile (· != sep) = rest := by
  cases rest with
  | nil => simpa using fun c member (equal : c = sep) => absent (equal ▸ member)
  | cons c rest =>
    obtain rfl : c = sep := by simpa using separated
    exact dropWhile_mark absent rest

omit [DecidableEq Symbol] in
theorem kept_of_mem {segment : List Symbol} {mark : Symbol} (inner : sep ∉ segment)
    (member : mark ∈ segment) (notDot : mark ≠ dot) : Kept sep dot segment where
  some := List.ne_nil_of_mem member
  inner := inner
  notHere := by rintro rfl; simp [notDot] at member
  notUp := by rintro rfl; simp [notDot] at member

/-- A spelled-out path that is cut before a mark and continued with the mark and a tail without
separators spells out kept segments again: the tail joins the segment it is cut in. -/
theorem flatMap_cut {segments : List (List Symbol)} (some : segments ≠ [])
    (kept : ∀ segment ∈ segments, Kept sep dot segment) {mark : Symbol} (notSep : mark ≠ sep)
    (notDot : mark ≠ dot) {tail : List Symbol} (inner : sep ∉ tail) :
    ∃ cut : List (List Symbol), (∀ segment ∈ cut, Kept sep dot segment) ∧ cut ≠ [] ∧
      cut.length ≤ segments.length ∧
      (segments.flatMap (sep :: ·)).takeWhile (· != mark) ++ mark :: tail =
        cut.flatMap (sep :: ·) := by
  have closes (front : List Symbol) (frontInner : sep ∉ front) :
      Kept sep dot (front ++ mark :: tail) :=
    kept_of_mem (by simp [frontInner, inner, Ne.symm notSep]) (by simp) notDot
  have passesSep (back : List Symbol) :
      (sep :: back).takeWhile (· != mark) = sep :: back.takeWhile (· != mark) := by
    simp [Ne.symm notSep]
  induction segments with
  | nil => exact absurd rfl some
  | cons segment segments inductionHypothesis =>
    have segmentInner := (kept segment List.mem_cons_self).inner
    by_cases marked : mark ∈ segment
    · -- the cut falls into this segment
      obtain ⟨front, rest, rfl, absent⟩ := List.eq_append_cons_of_mem marked
      refine ⟨[front ++ mark :: tail], ?_, by simp, by simp, ?_⟩
      · simpa using closes front fun member => segmentInner (List.mem_append_left _ member)
      · rw [List.flatMap_cons, List.cons_append, List.append_assoc, List.cons_append,
          passesSep, takeWhile_mark absent]
        simp
    · have passed (back : List Symbol) :
          (sep :: segment ++ back).takeWhile (· != mark) =
            sep :: segment ++ back.takeWhile (· != mark) := by
        rw [List.cons_append, passesSep,
          List.takeWhile_append_of_pos fun c member => by
            simpa using fun equal : c = mark => marked (equal ▸ member), List.cons_append]
      cases segments with
      | nil =>
        refine ⟨[segment ++ mark :: tail], ?_, by simp, by simp, ?_⟩
        · simpa using closes segment segmentInner
        · rw [List.flatMap_cons, passed]
          simp
      | cons next segments =>
        obtain ⟨cut, cutKept, cutSome, shorter, equal⟩ := inductionHypothesis (by simp)
          fun other member => kept other (List.mem_cons_of_mem _ member)
        refine ⟨segment :: cut, ?_, by simp, by simpa using shorter, ?_⟩
        · rintro other (_ | ⟨_, member⟩)
          · exact kept _ List.mem_cons_self
          · exact cutKept other member
        · rw [List.flatMap_cons, passed, List.append_assoc, equal, List.flatMap_cons]

/-- A normal path that is cut before a mark and continued with the mark and a tail without
separators is the path of a stack again, and not a deeper one than before, the root apart. -/
theorem path_cut {stack : List (List Symbol)} (kept : ∀ segment ∈ stack, Kept sep dot segment)
    {mark : Symbol} (notSep : mark ≠ sep) (notDot : mark ≠ dot) {tail : List Symbol}
    (inner : sep ∉ tail) :
    ∃ cut : List (List Symbol), (∀ segment ∈ cut, Kept sep dot segment) ∧
      cut.length ≤ max 1 stack.length ∧
      (path sep stack).takeWhile (· != mark) ++ mark :: tail = path sep cut := by
  by_cases root : stack = []
  · subst root
    refine ⟨[mark :: tail], ?_, by simp, ?_⟩
    · have markKept : Kept sep dot (mark :: tail) :=
        kept_of_mem (by simp [inner, Ne.symm notSep]) List.mem_cons_self notDot
      simpa using markKept
    · simp [path, spell, Ne.symm notSep]
  · obtain ⟨cut, cutKept, cutSome, shorter, equal⟩ := flatMap_cut
      (show stack.reverse ≠ [] by simpa using root)
      (fun segment member => kept segment (List.mem_reverse.mp member))
      notSep notDot inner
    refine ⟨cut.reverse, fun segment member => cutKept segment (List.mem_reverse.mp member), ?_, ?_⟩
    · simp only [List.length_reverse] at shorter ⊢
      exact shorter.trans (Nat.le_max_right _ _)
    · rw [path, if_neg root, spell_eq_flatMap, equal, path, if_neg (by simpa using cutSome),
        spell_eq_flatMap, List.reverse_reverse]

/-! ### Walks -/

/-- A walk keeps a stack of kept segments. -/
theorem kept_foldl_enter {segments stack : List (List Symbol)}
    (inner : ∀ segment ∈ segments, sep ∉ segment) (kept : ∀ segment ∈ stack, Kept sep dot segment) :
    ∀ segment ∈ segments.foldl (enter dot) stack, Kept sep dot segment := by
  induction segments generalizing stack with
  | nil => exact kept
  | cons segment segments inductionHypothesis =>
    obtain ⟨first, others⟩ := List.forall_mem_cons.mp inner
    exact inductionHypothesis others (kept_enter kept first)

theorem foldl_enter_of_kept {segments stack : List (List Symbol)}
    (kept : ∀ segment ∈ segments, Kept sep dot segment) :
    segments.foldl (enter dot) stack = segments.reverse ++ stack := by
  induction segments generalizing stack with
  | nil => rfl
  | cons segment segments inductionHypothesis =>
    obtain ⟨first, others⟩ := List.forall_mem_cons.mp kept
    rw [List.foldl_cons, enter_of_kept first, inductionHypothesis others, List.reverse_cons,
      List.append_assoc, List.singleton_append]

/-- The segments of what a stack of kept segments spells out, behind the empty one at the root. -/
theorem splitOn_spell {stack : List (List Symbol)}
    (kept : ∀ segment ∈ stack, Kept sep dot segment) :
    (spell sep stack).splitOn sep = [] :: stack.reverse := by
  rw [spell_eq_flatMap]
  exact splitOn_flatMap fun segment member => (kept segment (List.mem_reverse.mp member)).inner

/-- A walk over kept segments is spelled out behind the stack it starts from. -/
theorem path_foldl_enter_of_kept {stack : List (List Symbol)} {tail : List Symbol}
    (kept : ∀ segment ∈ tail.splitOn sep, Kept sep dot segment) :
    path sep ((tail.splitOn sep).foldl (enter dot) stack) = spell sep stack ++ sep :: tail := by
  have spelled : spell sep ((tail.splitOn sep).reverse ++ stack) =
      spell sep stack ++ sep :: tail := by
    rw [spell_eq_flatMap, List.reverse_append, List.reverse_reverse, List.flatMap_append,
      flatMap_splitOn, ← spell_eq_flatMap]
  rw [foldl_enter_of_kept kept, path_eq, spelled, if_neg (by simp)]

/-- Behind a separator in the path of a stack of kept segments stand kept segments, or the path
ends there. -/
theorem kept_of_path_eq {stack : List (List Symbol)}
    (kept : ∀ segment ∈ stack, Kept sep dot segment) {front back : List Symbol}
    (spelled : path sep stack = front ++ sep :: back) (some : back ≠ []) :
    ∀ segment ∈ back.splitOn sep, Kept sep dot segment := by
  have notRoot : stack ≠ [] := by
    rintro rfl
    have length := congrArg List.length spelled
    rw [path, if_pos rfl, List.length_append, List.length_singleton, List.length_cons] at length
    have := List.length_pos_iff.mpr some
    omega
  have split := congrArg (List.splitOn sep) spelled
  rw [path, if_neg notRoot, splitOn_spell kept, List.splitOn_append_cons_self] at split
  obtain ⟨first, rest, splitFront⟩ := List.exists_cons_of_ne_nil (List.splitOn_ne_nil sep front)
  rw [splitFront, List.cons_append, List.cons.injEq] at split
  exact fun segment member => kept segment
    (List.mem_reverse.mp (split.2 ▸ List.mem_append_right rest member))

/-- The walk over the path of a stack of kept segments leaves the stack. -/
theorem foldl_enter_path {stack : List (List Symbol)}
    (kept : ∀ segment ∈ stack, Kept sep dot segment) :
    ((path sep stack).splitOn sep).foldl (enter dot) [] = stack := by
  by_cases root : stack = []
  · subst root
    simp [path, List.splitOn_cons_eq_if_modifyHead, enter]
  · rw [path, if_neg root, splitOn_spell kept, List.foldl_cons, enter, if_pos (.inl rfl),
      foldl_enter_of_kept fun segment member => kept segment (List.mem_reverse.mp member),
      List.reverse_reverse, List.append_nil]

/-- A step from a stack and from the same stack without one of its segments. -/
theorem enter_beside (above below : List (List Symbol)) (missing segment : List Symbol) :
    enter dot (above ++ missing :: below) segment = [] ∧ enter dot (above ++ below) segment = [] ∨
      ∃ above' missing' below',
        enter dot (above ++ missing :: below) segment = above' ++ missing' :: below' ∧
          enter dot (above ++ below) segment = above' ++ below' := by
  unfold enter
  by_cases skipped : segment = [] ∨ segment = [dot]
  · rw [if_pos skipped, if_pos skipped]
    exact .inr ⟨above, missing, below, rfl, rfl⟩
  rw [if_neg skipped, if_neg skipped]
  by_cases up : segment = [dot, dot]
  · rw [if_pos up, if_pos up]
    cases above with
    | cons first above => exact .inr ⟨above, missing, below, rfl, rfl⟩
    | nil =>
      -- the missing segment is dropped, and now the one below it is missing
      cases below with
      | nil => exact .inl ⟨rfl, rfl⟩
      | cons next below => exact .inr ⟨[], next, below, rfl, rfl⟩
  · rw [if_neg up, if_neg up]
    exact .inr ⟨segment :: above, missing, below, rfl, rfl⟩

/-- Two walks over the same segments, from a stack and from the same stack without one of its
segments: they meet at the root, or a segment is missing in the end. -/
theorem foldl_enter_beside (segments above below : List (List Symbol)) (missing : List Symbol) :
    (∃ front back, segments = front ++ back ∧
        front.foldl (enter dot) (above ++ missing :: below) = [] ∧
        front.foldl (enter dot) (above ++ below) = []) ∨
      ∃ above' missing' below',
        segments.foldl (enter dot) (above ++ missing :: below) = above' ++ missing' :: below' ∧
          segments.foldl (enter dot) (above ++ below) = above' ++ below' := by
  induction segments generalizing above missing below with
  | nil => exact .inr ⟨above, missing, below, rfl, rfl⟩
  | cons segment segments inductionHypothesis =>
    rw [List.foldl_cons, List.foldl_cons]
    rcases enter_beside above below missing segment with
      ⟨root, otherRoot⟩ | ⟨above', missing', below', step, otherStep⟩
    · exact .inl ⟨[segment], segments, rfl, root, otherRoot⟩
    · rw [step, otherStep]
      rcases inductionHypothesis above' below' missing' with ⟨front, back, rfl, meet⟩ | apart
      · refine .inl ⟨segment :: front, back, rfl, ?_⟩
        rw [List.foldl_cons, List.foldl_cons, step, otherStep]
        exact meet
      · exact .inr apart

/-! ### What a walk does to any stack -/

/-- The part of a walk that does not depend on where it starts: how many segments it takes off the
stack it starts from, and what it leaves above them. -/
structure Trip (Symbol : Type) where
  rise : List (List Symbol)
  climb : Nat

omit [DecidableEq Symbol] in
/-- Where a trip leads from a stack. -/
def Trip.leads (trip : Trip Symbol) (stack : List (List Symbol)) : List (List Symbol) :=
  trip.rise ++ stack.drop trip.climb

variable (dot) in
/-- One more segment of a trip. -/
def Trip.enter (trip : Trip Symbol) (segment : List Symbol) : Trip Symbol :=
  if segment = [] ∨ segment = [dot] then trip
  else if segment = [dot, dot] then
    if trip.rise = [] then ⟨[], trip.climb + 1⟩ else ⟨trip.rise.tail, trip.climb⟩
  else ⟨segment :: trip.rise, trip.climb⟩

theorem Trip.leads_enter (trip : Trip Symbol) (segment : List Symbol)
    (stack : List (List Symbol)) :
    (trip.enter dot segment).leads stack = PathStack.enter dot (trip.leads stack) segment := by
  unfold Trip.enter PathStack.enter
  split
  · rfl
  split
  · split
    · rename_i fallen
      rw [Trip.leads, Trip.leads, fallen, List.nil_append, List.nil_append, List.tail_drop]
    · rename_i risen
      obtain ⟨top, below, rise⟩ := List.exists_cons_of_ne_nil risen
      rw [Trip.leads, Trip.leads, rise]
      rfl
  · rfl

variable (dot) in
/-- The trip of a walk. -/
def trip (segments : List (List Symbol)) : Trip Symbol := segments.foldl (Trip.enter dot) ⟨[], 0⟩

/-- A walk leads where its trip does. -/
theorem foldl_enter_eq_leads (segments stack : List (List Symbol)) :
    segments.foldl (enter dot) stack = (trip dot segments).leads stack := by
  have onward (trip : Trip Symbol) : segments.foldl (enter dot) (trip.leads stack) =
      (segments.foldl (Trip.enter dot) trip).leads stack := by
    induction segments generalizing trip with
    | nil => rfl
    | cons segment segments inductionHypothesis =>
      rw [List.foldl_cons, List.foldl_cons, ← Trip.leads_enter, inductionHypothesis]
  exact onward ⟨[], 0⟩

/-- Walks along the same segments meet exactly when their stacks are the same below what the walk
takes off. -/
theorem foldl_enter_eq_iff (segments stack other : List (List Symbol)) :
    segments.foldl (enter dot) stack = segments.foldl (enter dot) other ↔
      stack.drop (trip dot segments).climb = other.drop (trip dot segments).climb := by
  rw [foldl_enter_eq_leads, foldl_enter_eq_leads, Trip.leads, Trip.leads, List.append_right_inj]

/-! ### How deep a walk gets -/

/-- What the segments take in a path, each with a separator. -/
def cost (segments : List (List Symbol)) : Nat :=
  (segments.map fun segment => segment.length + 1).sum

omit [DecidableEq Symbol] in
@[simp] theorem cost_cons (segment : List Symbol) (segments : List (List Symbol)) :
    cost (segment :: segments) = segment.length + 1 + cost segments := rfl

omit [DecidableEq Symbol] in
@[simp] theorem cost_append (front back : List (List Symbol)) :
    cost (front ++ back) = cost front + cost back := by
  simp [cost]

theorem cost_splitOn (path : List Symbol) : cost (path.splitOn sep) = path.length + 1 := by
  induction path with
  | nil => rfl
  | cons c path inductionHypothesis =>
    rw [List.splitOn_cons_eq_if_modifyHead]
    split
    · rw [cost_cons, inductionHypothesis, List.length_nil, List.length_cons, Nat.zero_add,
        Nat.add_comm 1]
    · obtain ⟨head, tail, split⟩ := List.exists_cons_of_ne_nil (List.splitOn_ne_nil sep path)
      rw [split, cost_cons] at inductionHypothesis
      rw [split, List.modifyHead_cons, cost_cons, List.length_cons, List.length_cons]
      omega

/-- A step goes down by one level for a name and a separator. -/
theorem depth_down (segments stack : List (List Symbol)) :
    2 * (segments.foldl (enter dot) stack).length ≤ 2 * stack.length + cost segments := by
  induction segments generalizing stack with
  | nil => exact Nat.le_add_right _ _
  | cons segment segments inductionHypothesis =>
    have later := inductionHypothesis (enter dot stack segment)
    have step : 2 * (enter dot stack segment).length ≤ 2 * stack.length + (segment.length + 1) := by
      unfold enter
      split
      · exact Nat.le_add_right _ _
      rename_i named
      split
      · rw [List.length_tail]
        omega
      · have some := List.length_pos_iff.mpr (not_or.mp named).1
        rw [List.length_cons]
        omega
    rw [List.foldl_cons, cost_cons]
    omega

/-- A step goes up by one level for two dots and a separator. -/
theorem depth_up (segments stack : List (List Symbol)) :
    3 * stack.length ≤ 3 * (segments.foldl (enter dot) stack).length + cost segments := by
  induction segments generalizing stack with
  | nil => exact Nat.le_add_right _ _
  | cons segment segments inductionHypothesis =>
    have later := inductionHypothesis (enter dot stack segment)
    have step : 3 * stack.length ≤ 3 * (enter dot stack segment).length + (segment.length + 1) := by
      unfold enter
      split
      · exact Nat.le_add_right _ _
      split
      · rename_i up
        rw [List.length_tail, up, List.length_cons, List.length_singleton]
        omega
      · rw [List.length_cons]
        omega
    rw [List.foldl_cons, cost_cons]
    omega

/-- A walk spells out no more than it reads. -/
theorem length_spell_foldl_enter (segments stack : List (List Symbol)) :
    (spell sep (segments.foldl (enter dot) stack)).length ≤
      (spell sep stack).length + cost segments := by
  induction segments generalizing stack with
  | nil => exact Nat.le_add_right _ _
  | cons segment segments inductionHypothesis =>
    have later := inductionHypothesis (enter dot stack segment)
    have step : (spell sep (enter dot stack segment)).length ≤
        (spell sep stack).length + (segment.length + 1) := by
      unfold enter
      split
      · exact Nat.le_add_right _ _
      split
      · cases stack with
        | nil => exact Nat.zero_le _
        | cons top below =>
          rw [spell, List.tail_cons, List.length_append]
          omega
      · rw [spell, List.length_append, List.length_cons]
    rw [List.foldl_cons, cost_cons]
    omega

end Segments

end PathStack
