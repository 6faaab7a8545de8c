/-
This file follows `normalize_path` into its two fixed buffers: the text of the
normalised path with a NUL behind it, and the offsets at which its segments
start. Two dots cut the text at the last offset, and the test for too many
segments comes after the new offset has been written.

The buffers represent a stack of segments at every turn of the loop, so no
access falls outside of them, and the function computes what the model of the
normaliser computes. For a path from the root that fits its buffer this is the
path of the stack that its segments leave, unless the stack reaches the size of
the list of offsets on the way, and normalising once more changes nothing.
-/

import Nosgem.Buffers
import Nosgem.UrlParts

namespace Nosgem

open CText Buffers

/-! ### The source function -/

/-- The local variables of `normalize_path`, the indices into the path apart. -/
structure PathLocals where
  temp : Vector Byte pathSize
  out : Nat
  segStarts : Vector Nat maxSegments
  segCount : Nat

/-- The loop of `normalize_path` behind the scan of a segment. -/
def PathLocals.takeSegment (locals : PathLocals) (segment : Text) : Except Stop PathLocals :=
  if segment = [dot] then .ok locals
  else if segment = [dot, dot] then
    if locals.segCount > 0 then do
      let out ← fetch locals.segStarts (locals.segCount - 1)
      let temp ← put locals.temp out 0
      return { locals with temp, out, segCount := locals.segCount - 1 }
    else .ok locals
  else if locals.out + segment.length + 1 ≥ pathSize then .error .failed
  else do
    let temp ← put locals.temp locals.out slash
    let segStarts ← put locals.segStarts locals.segCount locals.out
    let temp ← copy temp (locals.out + 1) segment
    let temp ← put temp (locals.out + 1 + segment.length) 0
    if locals.segCount + 1 ≥ maxSegments then .error .failed
    else return ⟨temp, locals.out + 1 + segment.length, segStarts, locals.segCount + 1⟩

/-- The loop of `normalize_path` over the rest of the path: slashes are skipped, and the bytes up to
the next slash are a segment. -/
def normalizeLoop (path : Text) (locals : PathLocals) : Except Stop PathLocals :=
  let rest := path.dropWhile (· == slash)
  if _ : rest = [] then .ok locals
  else do
    let locals ← locals.takeSegment (rest.takeWhile (· != slash))
    normalizeLoop (rest.dropWhile (· != slash)) locals
termination_by path.length
decreasing_by exact PathStack.length_dropWhile_lt ‹_›

/-- The root in place of an empty path. -/
def PathLocals.orRoot (locals : PathLocals) : Except Stop PathLocals :=
  if locals.out = 0 then do
    let temp ← put locals.temp 0 slash
    let temp ← put temp 1 0
    return { locals with temp, out := 1 }
  else .ok locals

/-- `normalize_path`, with what its two buffers hold in the beginning. -/
def normalizePathIn (temp : Vector Byte pathSize) (segStarts : Vector Nat maxSegments)
    (path : Text) (maxLen : Nat) : Except Stop Text :=
  if maxLen = 0 then .error .failed
  else do
    let locals ← normalizeLoop path ⟨temp, 0, segStarts, 0⟩
    let locals ← locals.orRoot
    if locals.out + 1 > maxLen then .error .failed
    else copyOut locals.temp maxLen

/-! ### The buffers as a stack -/

/-- The buffers represent a stack of segments. -/
structure PathLocals.Holds (locals : PathLocals) (stack : List Text) : Prop where
  out : locals.out = (PathStack.spell slash stack).length
  temp : filled locals.temp locals.out = PathStack.spell slash stack
  ended : stack = [] ∨ filled locals.temp (locals.out + 1) = PathStack.spell slash stack ++ [0]
  segCount : locals.segCount = stack.length
  segStarts : filled locals.segStarts locals.segCount = (offsets stack).reverse
  nulFree : 0 ∉ PathStack.spell slash stack

variable {locals : PathLocals} {stack below : List Text} {segment top : Text}

/-- Nothing is in use in the beginning. -/
theorem holds_nil (temp : Vector Byte pathSize) (segStarts : Vector Nat maxSegments) :
    (⟨temp, 0, segStarts, 0⟩ : PathLocals).Holds [] :=
  ⟨rfl, rfl, .inl rfl, rfl, rfl, List.not_mem_nil⟩

/-- Two dots cut the text where the last segment starts. -/
theorem takeSegment_up (holds : locals.Holds (top :: below)) (fits : Fits (top :: below)) :
    ∃ next, locals.takeSegment [dot, dot] = .ok next ∧ next.Holds below := by
  have count : locals.segCount = below.length + 1 := holds.segCount
  have starts := holds.segStarts
  rw [offsets, List.reverse_cons] at starts
  have start : fetch locals.segStarts below.length =
      .ok (PathStack.spell slash below).length := by
    refine @fetch_eq _ _ locals.segStarts locals.segCount _ _ ?_
    rw [starts, List.getElem?_append_right (by simp)]
    simp
  have spelled : filled locals.temp (PathStack.spell slash below).length =
      PathStack.spell slash below := by
    have inside : (PathStack.spell slash below).length ≤ locals.out := by
      rw [holds.out, PathStack.spell, List.length_append]
      omega
    rw [← take_filled locals.temp inside, holds.temp, PathStack.spell, List.take_left]
  have bound : (PathStack.spell slash below).length < pathSize :=
    (@Fits.of_append [top] below fits).temp
  obtain ⟨temp, stored, ended⟩ := put_filled locals.temp bound 0
  rw [spelled] at ended
  refine ⟨⟨temp, (PathStack.spell slash below).length, locals.segStarts, below.length⟩, ?_, rfl,
    ?_, .inr ended, rfl, ?_, fun member => holds.nulFree ?_⟩
  · rw [PathLocals.takeSegment, if_neg (by decide), if_pos rfl, if_pos (by omega), count,
      Nat.add_sub_cancel, start, ok_bind, stored]
    rfl
  · show filled temp _ = _
    rw [← take_filled temp (Nat.le_succ _), ended, List.take_left]
  · show filled locals.segStarts below.length = _
    rw [← take_filled locals.segStarts (show below.length ≤ locals.segCount by omega), starts]
    simp
  · rw [PathStack.spell]
    exact List.mem_append_left _ member

/-- A segment that fits the text is put behind it, and its start behind the offsets, before the test
for too many segments. -/
theorem takeSegment_written (holds : locals.Holds stack) (few : locals.segCount < maxSegments)
    (nulFree : 0 ∉ segment) (notHere : segment ≠ [dot]) (notUp : segment ≠ [dot, dot])
    (room : locals.out + segment.length + 1 < pathSize) :
    ∃ next, next.Holds (segment :: stack) ∧ locals.takeSegment segment =
      if locals.segCount + 1 ≥ maxSegments then .error .failed else .ok next := by
  obtain ⟨first, stored, opened⟩ := put_filled locals.temp (show locals.out < pathSize by omega)
    slash
  obtain ⟨segStarts, noted, starts⟩ := put_filled locals.segStarts few locals.out
  obtain ⟨second, copied, spelled⟩ := copy_filled first
    (show locals.out + 1 + segment.length ≤ pathSize by omega)
  obtain ⟨temp, closed, ended⟩ := put_filled second
    (show locals.out + 1 + segment.length < pathSize by omega) 0
  have whole : filled second (locals.out + 1 + segment.length) =
      PathStack.spell slash (segment :: stack) := by
    rw [spelled, opened, holds.temp, PathStack.spell, List.append_assoc, List.singleton_append]
  rw [whole] at ended
  have length : locals.out + 1 + segment.length =
      (PathStack.spell slash (segment :: stack)).length := by
    rw [PathStack.spell, List.length_append, List.length_cons, ← holds.out]
    omega
  refine ⟨⟨temp, locals.out + 1 + segment.length, segStarts, locals.segCount + 1⟩,
    ⟨length, ?_, .inr ended, ?_, ?_, ?_⟩, ?_⟩
  · show filled temp _ = _
    rw [← take_filled temp (Nat.le_succ _), ended, length, List.take_left]
  · rw [List.length_cons, holds.segCount]
  · show filled segStarts (locals.segCount + 1) = _
    rw [starts, holds.segStarts, offsets, List.reverse_cons, holds.out]
  · rw [PathStack.spell, List.mem_append, List.mem_cons, not_or, not_or]
    exact ⟨holds.nulFree, by decide, nulFree⟩
  · rw [PathLocals.takeSegment, if_neg notHere, if_neg notUp, if_neg (by omega), stored, ok_bind,
      noted, ok_bind, copied, ok_bind, closed, ok_bind]
    rfl

/-- A segment that fits is taken. -/
theorem takeSegment_push (holds : locals.Holds stack) (nulFree : 0 ∉ segment)
    (notHere : segment ≠ [dot]) (notUp : segment ≠ [dot, dot]) (fits : Fits (segment :: stack)) :
    ∃ next, locals.takeSegment segment = .ok next ∧ next.Holds (segment :: stack) := by
  have room := fits.temp
  rw [PathStack.spell, List.length_append, List.length_cons, ← holds.out] at room
  have few := fits.segStarts
  rw [List.length_cons, ← holds.segCount] at few
  obtain ⟨next, held, taken⟩ :=
    takeSegment_written holds (by omega) nulFree notHere notUp (by omega)
  exact ⟨next, by rw [taken, if_neg (by omega)], held⟩

/-- A segment that does not fit is refused. -/
theorem takeSegment_full (holds : locals.Holds stack) (fits : Fits stack) (nulFree : 0 ∉ segment)
    (notHere : segment ≠ [dot]) (notUp : segment ≠ [dot, dot]) (full : ¬ Fits (segment :: stack)) :
    locals.takeSegment segment = .error .failed := by
  by_cases room : locals.out + segment.length + 1 < pathSize
  · have few := fits.segStarts
    rw [← holds.segCount] at few
    obtain ⟨next, _, taken⟩ := takeSegment_written holds few nulFree notHere notUp room
    have many : locals.segCount + 1 ≥ maxSegments := by
      by_contra few
      refine full ⟨?_, ?_⟩
      · rw [PathStack.spell, List.length_append, List.length_cons, ← holds.out]
        omega
      · rw [List.length_cons, ← holds.segCount]
        omega
    rw [taken, if_pos many]
  · rw [PathLocals.takeSegment, if_neg notHere, if_neg notUp, if_pos (not_lt.mp room)]

/-! ### The loop -/

/-- The outcome of a run over the buffers and the outcome of the same run over the text and the
offsets in use. -/
inductive Agree : Except Stop PathLocals → Option PathBuffer → Prop
  | done {locals : PathLocals} {stack : List Text} (holds : locals.Holds stack)
      (fits : Fits stack) : Agree (.ok locals) (some (.ofStack stack))
  | failed : Agree (.error .failed) none

theorem agree_takeSegment (holds : locals.Holds stack) (fits : Fits stack)
    (nonempty : segment ≠ []) (nulFree : 0 ∉ segment) :
    Agree (locals.takeSegment segment) (normalizeStep (.ofStack stack) segment) := by
  by_cases here : segment = [dot]
  · rw [here]
    exact .done holds fits
  by_cases up : segment = [dot, dot]
  · rw [up]
    cases stack with
    | nil =>
      rw [PathLocals.takeSegment, if_neg (by decide), if_pos rfl,
        if_neg (by rw [holds.segCount]; decide)]
      exact .done holds fits
    | cons top below =>
      obtain ⟨next, taken, cut⟩ := takeSegment_up holds fits
      rw [taken]
      rcases normalizeStep_ofStack fits [dot, dot] with ⟨fitsBelow, step⟩ | ⟨_, step⟩
      · rw [step]
        exact .done cut fitsBelow
      · cases step
  · have pushed : PathStack.enter dot stack segment = segment :: stack := by
      rw [PathStack.enter, if_neg (not_or.mpr ⟨nonempty, here⟩), if_neg up]
    rcases normalizeStep_ofStack fits segment with ⟨fitsNext, step⟩ | ⟨full, step⟩
    · rw [pushed] at fitsNext step
      obtain ⟨next, taken, put⟩ := takeSegment_push holds nulFree here up fitsNext
      rw [taken, step]
      exact .done put fitsNext
    · rw [takeSegment_full holds fits nulFree here up full, step]
      exact .failed

/-- The loop over the bytes of the path does what the loop over its segments does. -/
theorem agree_normalizeLoop (path : Text) (nulFree : 0 ∉ path) (holds : locals.Holds stack)
    (fits : Fits stack) : Agree (normalizeLoop path locals)
      ((path.splitOn slash).foldlM normalizeStep (.ofStack stack)) := by
  have skips (buf : PathBuffer) : normalizeStep buf [] = some buf := rfl
  induction length : path.length using Nat.strong_induction_on generalizing path locals stack with
  | _ _ inductionHypothesis =>
    rw [normalizeLoop, ← PathStack.foldlM_splitOn_dropWhile skips]
    by_cases ended : path.dropWhile (· == slash) = []
    · rw [dif_pos ended, ended]
      exact .done holds fits
    rw [dif_neg ended]
    have shorter := length ▸ PathStack.length_dropWhile_lt ended
    have notSlash := List.head?_dropWhile_not (· == slash) path
    have nulFreeRest : 0 ∉ path.dropWhile (· == slash) := fun member =>
      nulFree ((List.dropWhile_sublist _).subset member)
    generalize path.dropWhile (· == slash) = rest at *
    -- the rest of the path is a segment and what a slash leads
    have joined := List.takeWhile_append_dropWhile (p := (· != slash)) (l := rest)
    have inner : slash ∉ rest.takeWhile (· != slash) := fun member => by
      simpa using List.mem_takeWhile_imp member
    have separated := PathStack.separated_dropWhile slash rest
    have nonempty : rest.takeWhile (· != slash) ≠ [] := by
      cases rest with
      | nil => exact absurd rfl ended
      | cons c tail =>
        rw [List.takeWhile_cons_of_pos (by simpa using notSlash)]
        exact List.cons_ne_nil _ _
    rw [← joined, List.mem_append, not_or] at nulFreeRest
    generalize rest.takeWhile (· != slash) = segment at *
    generalize rest.dropWhile (· != slash) = after at *
    subst joined
    rw [PathStack.foldlM_splitOn_append skips _ inner separated]
    have step := agree_takeSegment holds fits nonempty nulFreeRest.1
    generalize locals.takeSegment segment = taken at step ⊢
    generalize normalizeStep (.ofStack stack) segment = stepped at step ⊢
    cases step with
    | done holds fits => exact inductionHypothesis _ shorter _ nulFreeRest.2 holds fits rfl
    | failed => exact .failed

/-! ### The function -/

/-- The text in use is copied out, and the root where there is none. -/
theorem copyOut_orRoot (holds : locals.Holds stack) (fits : Fits stack) :
    ∃ next, locals.orRoot = .ok next ∧ next.out = (PathStack.path slash stack).length ∧
      copyOut next.temp pathSize = .ok (PathStack.path slash stack) := by
  have short := fits.length_path
  by_cases root : stack = []
  · subst root
    have start : locals.out = 0 := holds.out
    obtain ⟨first, stored, opened⟩ := put_filled locals.temp (show 0 < pathSize by decide) slash
    obtain ⟨temp, closed, ended⟩ := put_filled first (show 0 + 1 < pathSize by decide) 0
    rw [opened] at ended
    refine ⟨{ locals with temp, out := 1 }, ?_, rfl, ?_⟩
    · rw [PathLocals.orRoot, if_pos start, stored, ok_bind, closed]
      rfl
    · exact copyOut_filled ended (by decide) short
  · have spelled : PathStack.path slash stack = PathStack.spell slash stack := if_neg root
    have some : locals.out ≠ 0 := by
      rw [holds.out, Ne, List.length_eq_zero_iff, PathStack.spell_eq_nil_iff]
      exact root
    have ended := holds.ended.resolve_left root
    rw [holds.out] at ended
    rw [spelled] at short ⊢
    exact ⟨locals, by rw [PathLocals.orRoot, if_neg some], holds.out,
      copyOut_filled ended holds.nulFree short⟩

/-- `normalize_path` makes no access outside of its buffers and computes what the model over the
text and the offsets in use computes, whatever the buffers held in the beginning. -/
theorem normalizePathIn_eq (temp : Vector Byte pathSize) (segStarts : Vector Nat maxSegments)
    {path : Text} (nulFree : 0 ∉ path) :
    normalizePathIn temp segStarts path pathSize =
      (normalizePath path pathSize).elim (.error .failed) .ok := by
  have run := agree_normalizeLoop path nulFree (holds_nil temp segStarts) fits_nil
  rw [normalizePathIn, if_neg (by decide)]
  generalize normalizeLoop path _ = ran at run ⊢
  generalize stepped : (path.splitOn slash).foldlM normalizeStep (.ofStack []) = left at run
  cases run with
  | @done locals stack holds fits =>
    obtain ⟨next, rooted, length, copied⟩ := copyOut_orRoot holds fits
    have short := fits.length_path
    rw [normalizePath_of_foldlM stepped fits]
    rw [ok_bind, rooted, ok_bind, length, if_neg (by omega), copied]
    rfl
  | failed =>
    have refused : normalizePath path pathSize = none := by
      rw [normalizePath, if_neg (by decide), show (⟨[], []⟩ : PathBuffer) = .ofStack [] from rfl,
        stepped]
    rw [refused]
    rfl

/-- For a path from the root that fits its buffer, `normalize_path` stays inside its two buffers. It
fails exactly when the stack of the segments it keeps reaches the size of the list of offsets at
some point, and otherwise returns the path of the stack that is left, which it returns unchanged
when it is called with it. -/
theorem normalizePathIn_rooted (temp : Vector Byte pathSize) (segStarts : Vector Nat maxSegments)
    {path : Text} (nulFree : 0 ∉ path) (rooted : path.head? = some slash)
    (short : path.length < pathSize) :
    normalizePathIn temp segStarts path pathSize ≠ .error .outside ∧
      (normalizePathIn temp segStarts path pathSize = .error .failed ↔
        ∃ front back, path.splitOn slash = front ++ back ∧
          maxSegments ≤ (front.foldl (PathStack.enter dot) []).length) ∧
      ∀ result, normalizePathIn temp segStarts path pathSize = .ok result →
        result = PathStack.path slash ((path.splitOn slash).foldl (PathStack.enter dot) []) ∧
          ∀ temp' segStarts', normalizePathIn temp' segStarts' result pathSize = .ok result := by
  have outcome := normalizePathIn_eq temp segStarts nulFree
  cases normalized : normalizePath path pathSize with
  | none =>
    rw [outcome, normalized]
    have deep := (normalizePath_rooted_eq_none_iff rooted short).mp normalized
    exact ⟨nofun, iff_of_true rfl deep, nofun⟩
  | some path' =>
    obtain ⟨shallow, equal⟩ := (normalizePath_rooted_iff rooted short).mp normalized
    have nulFree' : 0 ∉ path' := textRule_nulFree.normalizePath normalized nulFree
    have again := normalizePath_of_normalPath (normalPath_of_normalizePath normalized)
    rw [outcome, normalized]
    refine ⟨nofun, iff_of_false nofun ?_, ?_⟩
    · rintro ⟨front, back, split, reached⟩
      exact absurd (shallow front back split) (not_lt.mpr reached)
    · rintro result same
      obtain rfl : path' = result := Except.ok.inj same
      refine ⟨equal, fun temp' segStarts' => ?_⟩
      rw [normalizePathIn_eq temp' segStarts' nulFree', again]
      rfl

/-- A path with both dot segments, in buffers full of zeros. -/
theorem normalizePathIn_dots :
    normalizePathIn (.replicate _ 0) (.replicate _ 0) (text "/a/../b/./c") pathSize =
        .ok (text "/b/c") ∧
      ∀ temp segStarts, normalizePathIn temp segStarts (text "/b/c") pathSize =
        .ok (text "/b/c") := by
  have run : normalizePathIn (.replicate _ 0) (.replicate _ 0) (text "/a/../b/./c") pathSize =
      .ok (text "/b/c") := by
    rw [normalizePathIn_eq _ _ (by decide),
      show normalizePath (text "/a/../b/./c") pathSize = some (text "/b/c") by decide]
    rfl
  exact ⟨run,
    ((normalizePathIn_rooted _ _ (by decide) (by decide) (by decide)).2.2 _ run).2⟩

end Nosgem
