/-
This file models `url.c` and the serialiser of `main.c`: a URL is a host, a
port and a path, parsed from a text, resolved from a link against a base, and
printed back as the text the bookmarks keep. Strings are the bytes before the
terminating NUL; the fixed buffers of the source appear as the length checks it
makes. A failing call leaves its output buffer half-written in the source and
no caller reads it then, so a failure is `none` here.

The path normaliser is the heart of the file: the source keeps the normalised
path in one buffer and a list of offsets at which its segments start, and the
offsets are the representation of a stack of segments. Every path it returns is
normal, and a normal path is returned unchanged.
-/

import Nosgem.CText
import Nosgem.PathStack

namespace Nosgem

open CText

/-! ### The source functions -/

/-- `nos_url_t`. -/
structure NosUrl where
  host : Text
  port : Nat
  path : Text
  deriving DecidableEq, Repr

/-- `NOS_URL_SCHEME`. -/
def nosUrlScheme : Text := text "gemini://"

/-- `NOS_DEFAULT_PORT`. -/
def nosDefaultPort : Nat := 1965

/-- `sizeof(out->host)`. -/
def hostSize : Nat := 256

/-- `sizeof(out->path)`, also the size of the scratch buffers for paths. -/
def pathSize : Nat := 512

def slash : Byte := byte '/'

def colon : Byte := byte ':'

def dot : Byte := byte '.'

def question : Byte := byte '?'

/-- `str_ieq_n`: the first `n` bytes agree up to letter case and neither string ends in them. -/
def strIEqN : Text → Text → Nat → Bool
  | _, _, 0 => true
  | a :: as, b :: bs, n + 1 => toLower a == toLower b && strIEqN as bs n
  | _, _, _ => false

/-- `is_all_digits`. -/
def isAllDigits (s : Text) : Bool := s != [] && s.all isDigit

/-- The local state of `normalize_path`: `temp[0..out)` and `segStarts[0..segCount)`, the last
entry first. -/
structure PathBuffer where
  temp : Text
  segStarts : List Nat

/-- The size of `segStarts`. -/
def maxSegments : Nat := 128

/-- One turn of the loop in `normalize_path` with the segment it reads. The loop skips runs of
slashes, which is an empty segment here. -/
def normalizeStep (buf : PathBuffer) (segment : Text) : Option PathBuffer :=
  if segment = [] then some buf
  else if segment = [dot] then some buf
  else if segment = [dot, dot] then
    match buf.segStarts with
    | [] => some buf
    | start :: rest => some ⟨buf.temp.take start, rest⟩
  else if buf.temp.length + segment.length + 1 ≥ pathSize then none
  else
    let pushed : PathBuffer :=
      ⟨buf.temp ++ slash :: segment, buf.temp.length :: buf.segStarts⟩
    if pushed.segStarts.length ≥ maxSegments then none else some pushed

/-- `normalize_path`. -/
def normalizePath (path : Text) (maxLen : Nat) : Option Text :=
  if maxLen = 0 then none
  else
    match (path.splitOn slash).foldlM normalizeStep ⟨[], []⟩ with
    | none => none
    | some buf =>
      let temp := if buf.temp = [] then [slash] else buf.temp
      if temp.length + 1 > maxLen then none else some temp

/-- The loop of `nos_url_parse` over the digits of the port. -/
def scanPort (digits : Text) : Option Nat :=
  digits.foldlM (fun portVal d =>
    let portVal := portVal * 10 + (d.toNat - 48)
    if portVal > 65535 then none else some portVal) 0

/-- The text behind the scheme: the scheme may be missing, another one is refused. -/
def stripScheme (raw : Text) : Option Text :=
  if strIEqN raw nosUrlScheme nosUrlScheme.length then some (raw.drop nosUrlScheme.length)
  else if strstr raw (text "://") then none
  else some raw

/-- The host and port of `nos_url_parse`: `authority` is the text from `hostStart` to `hostEnd`,
`rest` what follows it. The digit check runs to the end of the string, not to `hostEnd`. -/
def parseAuthority (authority rest : Text) : Option (Text × Nat) :=
  let host := authority.takeWhile (· != colon)
  if host.length = 0 ∨ host.length ≥ hostSize then none
  else
    match authority.dropWhile (· != colon) with
    | [] => some (host, nosDefaultPort)
    | _ :: digits =>
      if isAllDigits (digits ++ rest) then
        match scanPort digits with
        | none => none
        | some portVal => if portVal = 0 then none else some (host, portVal)
      else none

/-- `nos_url_parse`. -/
def nosUrlParse (raw : Text) : Option NosUrl :=
  match stripScheme raw with
  | none => none
  | some p =>
    let authority := p.takeWhile (· != slash)
    let pathStart := p.dropWhile (· != slash)
    if authority = [] then none
    else
      match parseAuthority authority pathStart with
      | none => none
      | some (host, port) =>
        if pathStart.length ≥ pathSize then none
        else
          match normalizePath (if pathStart = [] then [slash] else pathStart) pathSize with
          | none => none
          | some path => some ⟨host, port, path⟩

/-- The directory part of a base path: up to and including its last slash, and the root where there
is none. -/
def directory (path : Text) : Text :=
  let dir := (path.reverse.dropWhile (· != slash)).reverse
  if dir = [] then [slash] else dir

/-- `nos_url_resolve`. -/
def nosUrlResolve (base : NosUrl) (link : Text) : Option NosUrl :=
  if link = [] then some base
  else if strIEqN link nosUrlScheme nosUrlScheme.length then nosUrlParse link
  else if strstr link (text "://") then none
  else if link.head? = some slash then
    if link.length ≥ pathSize then none
    else (normalizePath link pathSize).map fun path => { base with path }
  else if link.head? = some question then
    if base.path.length + link.length ≥ pathSize then none
    else some { base with path := base.path ++ link }
  else if (directory base.path).length ≥ pathSize then none
  else if (directory base.path).length + link.length ≥ pathSize then none
  else (normalizePath (directory base.path ++ link) pathSize).map fun path => { base with path }

/-- `make_current_url`: the text of a URL, empty when it does not fit the buffer. -/
def makeCurrentUrl (cur : NosUrl) (outMax : Nat) : Text :=
  if nosUrlScheme.length + cur.host.length + cur.path.length + 16 ≥ outMax then []
  else
    nosUrlScheme ++ cur.host ++
      (if cur.port ≠ nosDefaultPort then colon :: decimal cur.port else []) ++ cur.path

/-! ### The normaliser as a stack of segments -/

/-- The offsets at which the segments of a stack start in the text it spells out. -/
def offsets : List Text → List Nat
  | [] => []
  | _ :: below => (PathStack.spell slash below).length :: offsets below

/-- The local state of `normalize_path` that represents a stack of segments. -/
def PathBuffer.ofStack (stack : List Text) : PathBuffer :=
  ⟨PathStack.spell slash stack, offsets stack⟩

@[simp] theorem length_offsets (stack : List Text) : (offsets stack).length = stack.length := by
  induction stack with
  | nil => rfl
  | cons segment below inductionHypothesis => simp [offsets, inductionHypothesis]

/-- A stack the buffers of `normalize_path` have room for. -/
structure Fits (stack : List Text) : Prop where
  temp : (PathStack.spell slash stack).length < pathSize
  segStarts : stack.length < maxSegments

/-- A segment that `normalize_path` puts on its stack. -/
abbrev KeptSegment (segment : Text) : Prop := PathStack.Kept slash dot segment

/-- One turn of the loop is one step of the stack, and the turn fails where the step would leave
the buffers. -/
theorem normalizeStep_ofStack {stack : List Text} (fits : Fits stack) (segment : Text) :
    Fits (PathStack.enter dot stack segment) ∧
        normalizeStep (.ofStack stack) segment =
          some (.ofStack (PathStack.enter dot stack segment)) ∨
      ¬ Fits (segment :: stack) ∧ normalizeStep (.ofStack stack) segment = none := by
  unfold normalizeStep PathStack.enter
  by_cases skipped : segment = []
  · exact .inl (by simp [skipped, fits])
  by_cases here : segment = [dot]
  · exact .inl (by simp [here, fits])
  simp only [skipped, here, or_self, if_false]
  by_cases up : segment = [dot, dot]
  · -- the offset on top of the stack is the length of what stands below the segment
    left
    simp only [up, if_true]
    cases stack with
    | nil => exact ⟨fits, rfl⟩
    | cons top below =>
      have shorter : (PathStack.spell slash below).length < pathSize := by
        have := fits.temp
        simp only [PathStack.spell, List.length_append] at this
        omega
      refine ⟨⟨shorter, ?_⟩, ?_⟩
      · have := fits.segStarts
        simp only [List.length_cons] at this
        simp only [List.tail_cons]
        omega
      · simp [PathBuffer.ofStack, offsets, PathStack.spell]
  · simp only [up, if_false, PathBuffer.ofStack, List.length_cons, length_offsets]
    by_cases tempFull : (PathStack.spell slash stack).length + segment.length + 1 ≥ pathSize
    · right
      refine ⟨fun pushed => ?_, by rw [if_pos tempFull]⟩
      have := pushed.temp
      simp only [PathStack.spell, List.length_append, List.length_cons] at this
      omega
    · rw [if_neg tempFull]
      by_cases startsFull : stack.length + 1 ≥ maxSegments
      · right
        refine ⟨fun pushed => ?_, by rw [if_pos startsFull]⟩
        have := pushed.segStarts
        simp only [List.length_cons] at this
        omega
      · left
        rw [if_neg startsFull]
        refine ⟨⟨?_, by simpa using Nat.lt_of_not_ge startsFull⟩, rfl⟩
        simp only [PathStack.spell, List.length_append, List.length_cons]
        omega

/-- The loop of `normalize_path` leaves the state of a stack of kept segments that fits. -/
theorem foldlM_normalizeStep {segments : List Text} (inner : ∀ segment ∈ segments, slash ∉ segment)
    {stack : List Text} (kept : ∀ segment ∈ stack, KeptSegment segment) (fits : Fits stack)
    {buf : PathBuffer} (done : segments.foldlM normalizeStep (.ofStack stack) = some buf) :
    ∃ final, (∀ segment ∈ final, KeptSegment segment) ∧ Fits final ∧ buf = .ofStack final ∧
      final = segments.foldl (PathStack.enter dot) stack := by
  induction segments generalizing stack with
  | nil => exact ⟨stack, kept, fits, (Option.some.inj done).symm, rfl⟩
  | cons segment segments inductionHypothesis =>
    rw [List.foldlM_cons] at done
    rcases normalizeStep_ofStack fits segment with ⟨entered, step⟩ | ⟨_, step⟩
    · rw [step] at done
      exact inductionHypothesis (fun other member => inner other (List.mem_cons_of_mem _ member))
        (PathStack.kept_enter kept (inner segment List.mem_cons_self)) entered done
    · rw [step] at done
      cases done

/-- A path as `normalize_path` returns it: the path of a stack of kept segments that fits the
buffers. -/
def NormalPath (path : Text) : Prop :=
  ∃ stack : List Text, (∀ segment ∈ stack, KeptSegment segment) ∧ Fits stack ∧
    path = PathStack.path slash stack

theorem fits_nil : Fits [] := ⟨by decide, by decide⟩

theorem Fits.length_path {stack : List Text} (fits : Fits stack) :
    (PathStack.path slash stack).length < pathSize := by
  rw [PathStack.path]
  split
  · decide
  · exact fits.temp

theorem NormalPath.length_lt {path : Text} (normal : NormalPath path) : path.length < pathSize := by
  obtain ⟨stack, _, fits, rfl⟩ := normal
  exact fits.length_path

theorem NormalPath.head? {path : Text} (normal : NormalPath path) : path.head? = some slash := by
  obtain ⟨stack, _, _, rfl⟩ := normal
  exact PathStack.head?_path stack

/-- What `normalize_path` returns: the path of the stack that the segments of its argument leave. -/
theorem normalizePath_eq_some {path result : Text}
    (normalized : normalizePath path pathSize = some result) :
    ∃ stack, (∀ segment ∈ stack, KeptSegment segment) ∧ Fits stack ∧
      stack = (path.splitOn slash).foldl (PathStack.enter dot) [] ∧
      result = PathStack.path slash stack := by
  unfold normalizePath at normalized
  rw [if_neg (by decide)] at normalized
  split at normalized
  · cases normalized
  · rename_i buf done
    obtain ⟨stack, kept, fits, rfl, left⟩ := foldlM_normalizeStep
      (fun segment => PathStack.not_mem_of_mem_splitOn) (by simp) fits_nil done
    have temp : (if (PathBuffer.ofStack stack).temp = [] then [slash]
        else (PathBuffer.ofStack stack).temp) = PathStack.path slash stack :=
      PathStack.path_eq.symm
    simp only [temp] at normalized
    split at normalized
    · cases normalized
    · exact ⟨stack, kept, fits, left, (Option.some.inj normalized).symm⟩

/-- Every path `normalize_path` returns is normal. -/
theorem normalPath_of_normalizePath {path result : Text}
    (normalized : normalizePath path pathSize = some result) : NormalPath result := by
  obtain ⟨stack, kept, fits, _, equal⟩ := normalizePath_eq_some normalized
  exact ⟨stack, kept, fits, equal⟩

theorem length_spell_append (above below : List Text) :
    (PathStack.spell slash below).length ≤ (PathStack.spell slash (above ++ below)).length := by
  induction above with
  | nil => exact Nat.le_refl _
  | cons segment above inductionHypothesis =>
    simp only [List.cons_append, PathStack.spell, List.length_append]
    omega

theorem Fits.of_append {above below : List Text} (fits : Fits (above ++ below)) : Fits below where
  temp := Nat.lt_of_le_of_lt (length_spell_append above below) fits.temp
  segStarts := by
    have := fits.segStarts
    rw [List.length_append] at this
    omega

/-- Kept segments are pushed one after the other as long as all of them fit. -/
theorem foldlM_normalizeStep_of_kept {segments stack : List Text}
    (kept : ∀ segment ∈ segments, KeptSegment segment) (fits : Fits (segments.reverse ++ stack)) :
    segments.foldlM normalizeStep (.ofStack stack) =
      some (.ofStack (segments.reverse ++ stack)) := by
  induction segments generalizing stack with
  | nil => rfl
  | cons segment segments inductionHypothesis =>
    rw [List.reverse_cons, List.append_assoc, List.singleton_append] at fits ⊢
    rw [List.foldlM_cons]
    have fitsNext : Fits ([segment] ++ stack) := fits.of_append
    rcases normalizeStep_ofStack (Fits.of_append fitsNext) segment with
      ⟨_, step⟩ | ⟨full, _⟩
    · rw [step, PathStack.enter_of_kept (kept segment List.mem_cons_self)]
      exact inductionHypothesis
        (fun other member => kept other (List.mem_cons_of_mem _ member)) fits
    · exact absurd fits.of_append full

/-- The path of the stack that the loop leaves is copied out. -/
theorem normalizePath_of_foldlM {path : Text} {stack : List Text}
    (done : (path.splitOn slash).foldlM normalizeStep (.ofStack []) = some (.ofStack stack))
    (fits : Fits stack) : normalizePath path pathSize = some (PathStack.path slash stack) := by
  have short := fits.length_path
  have temp : (if (PathBuffer.ofStack stack).temp = [] then [slash]
      else (PathBuffer.ofStack stack).temp) = PathStack.path slash stack :=
    PathStack.path_eq.symm
  rw [normalizePath, if_neg (by decide),
    show (⟨[], []⟩ : PathBuffer) = .ofStack [] from rfl, done]
  dsimp only
  rw [temp, if_neg (by omega)]

/-- A normal path is returned unchanged. -/
theorem normalizePath_of_normalPath {path : Text} (normal : NormalPath path) :
    normalizePath path pathSize = some path := by
  obtain ⟨stack, kept, fits, rfl⟩ := normal
  have done : ((PathStack.path slash stack).splitOn slash).foldlM normalizeStep ⟨[], []⟩ =
      some (.ofStack stack) := by
    by_cases root : stack = []
    · subst root
      rfl
    · rw [PathStack.path, if_neg root, PathStack.spell_eq_flatMap,
        PathStack.splitOn_flatMap fun segment member =>
          (kept segment (List.mem_reverse.mp member)).inner]
      rw [List.foldlM_cons, normalizeStep, if_pos rfl]
      have pushed := foldlM_normalizeStep_of_kept
        (fun segment (member : segment ∈ stack.reverse) =>
          kept segment (List.mem_reverse.mp member))
        (show Fits (stack.reverse.reverse ++ []) by simpa using fits)
      simpa [PathBuffer.ofStack, PathStack.spell, offsets] using pushed
  exact normalizePath_of_foldlM done fits

/-- The loop fails in a turn that would put a segment on a full stack, and nowhere else. -/
theorem enter_of_normalizeStep_none {stack : List Text} {segment : Text}
    (failed : normalizeStep (.ofStack stack) segment = none) :
    PathStack.enter dot stack segment = segment :: stack := by
  unfold normalizeStep at failed
  unfold PathStack.enter
  by_cases skipped : segment = []
  · rw [if_pos skipped] at failed
    cases failed
  by_cases here : segment = [dot]
  · rw [if_neg skipped, if_pos here] at failed
    cases failed
  by_cases up : segment = [dot, dot]
  · rw [if_neg skipped, if_neg here, if_pos up] at failed
    cases stack with
    | nil => cases failed
    | cons top below => cases failed
  · rw [if_neg (not_or.mpr ⟨skipped, here⟩), if_neg up]

/-- The loop ends when the buffers have room for every stack of the walk. -/
theorem foldlM_normalizeStep_of_fits {segments stack : List Text}
    (fits : ∀ front back, segments = front ++ back →
      Fits (front.foldl (PathStack.enter dot) stack)) :
    segments.foldlM normalizeStep (.ofStack stack) =
      some (.ofStack (segments.foldl (PathStack.enter dot) stack)) := by
  induction segments generalizing stack with
  | nil => rfl
  | cons segment segments inductionHypothesis =>
    have entered : Fits (PathStack.enter dot stack segment) := fits [segment] segments rfl
    have start : Fits stack := fits [] _ rfl
    rw [List.foldlM_cons, List.foldl_cons]
    rcases normalizeStep_ofStack start segment with ⟨_, step⟩ | ⟨full, step⟩
    · rw [step]
      refine inductionHypothesis fun front back equal => ?_
      exact fits (segment :: front) back (by rw [equal, List.cons_append])
    · exact absurd (enter_of_normalizeStep_none step ▸ entered) full

/-- On the way through a path that is normalised no stack is too deep. -/
theorem few_of_normalizePath {path result : Text} {front back : List Text}
    (normalized : normalizePath path pathSize = some result)
    (split : path.splitOn slash = front ++ back) :
    (front.foldl (PathStack.enter dot) []).length < maxSegments := by
  unfold normalizePath at normalized
  rw [if_neg (by decide), split, List.foldlM_append] at normalized
  cases done : front.foldlM normalizeStep ⟨[], []⟩ with
  | none =>
    rw [done] at normalized
    cases normalized
  | some buf =>
    have inner : ∀ segment ∈ front, slash ∉ segment := fun segment member =>
      PathStack.not_mem_of_mem_splitOn (split ▸ List.mem_append_left back member)
    obtain ⟨final, _, fits, _, rfl⟩ := foldlM_normalizeStep inner (by simp) fits_nil done
    exact fits.segStarts

theorem eq_slash_cons {path : Text} (rooted : path.head? = some slash) :
    ∃ tail, path = slash :: tail := ⟨path.tail, (List.cons_head?_tail rooted).symm⟩

/-- On the way through a path from the root nothing longer than the path is spelled out. -/
theorem length_spell_of_rooted {path : Text} {front back : List Text}
    (rooted : path.head? = some slash) (short : path.length < pathSize)
    (split : path.splitOn slash = front ++ back) :
    (PathStack.spell slash (front.foldl (PathStack.enter dot) [])).length < pathSize := by
  -- the first segment is the empty one at the root
  obtain ⟨tail, rfl⟩ := eq_slash_cons rooted
  rw [List.splitOn_cons_eq_if_modifyHead, if_pos (by simp)] at split
  cases front with
  | nil => decide
  | cons first front =>
    rw [List.cons_append, List.cons.injEq] at split
    have spelled : (PathStack.spell slash (front.foldl (PathStack.enter dot) [])).length ≤
        (PathStack.spell slash []).length + PathStack.cost front :=
      PathStack.length_spell_foldl_enter front []
    have read : PathStack.cost (tail.splitOn slash) = tail.length + 1 :=
      PathStack.cost_splitOn tail
    rw [split.2, PathStack.cost_append] at read
    rw [List.length_cons] at short
    rw [← split.1, List.foldl_cons, PathStack.enter, if_pos (.inl rfl)]
    rw [PathStack.spell, List.length_nil] at spelled
    omega

/-- A path from the root that fits its buffer is normalised exactly when no stack of its walk is too
deep, and then to the path of the stack that the walk leaves. -/
theorem normalizePath_rooted_iff {path result : Text} (rooted : path.head? = some slash)
    (short : path.length < pathSize) :
    normalizePath path pathSize = some result ↔
      (∀ front back, path.splitOn slash = front ++ back →
        (front.foldl (PathStack.enter dot) []).length < maxSegments) ∧
      result = PathStack.path slash ((path.splitOn slash).foldl (PathStack.enter dot) []) := by
  constructor
  · intro normalized
    obtain ⟨stack, _, _, rfl, equal⟩ := normalizePath_eq_some normalized
    exact ⟨fun front back split => few_of_normalizePath normalized split, equal⟩
  · rintro ⟨few, rfl⟩
    have fits : ∀ front back, path.splitOn slash = front ++ back →
        Fits (front.foldl (PathStack.enter dot) []) := fun front back split =>
      ⟨length_spell_of_rooted rooted short split, few front back split⟩
    exact normalizePath_of_foldlM (foldlM_normalizeStep_of_fits fits)
      (fits _ [] (List.append_nil _).symm)

/-- A path from the root that fits its buffer is refused exactly when a stack of its walk is too
deep. -/
theorem normalizePath_rooted_eq_none_iff {path : Text} (rooted : path.head? = some slash)
    (short : path.length < pathSize) :
    normalizePath path pathSize = none ↔
      ∃ front back, path.splitOn slash = front ++ back ∧
        maxSegments ≤ (front.foldl (PathStack.enter dot) []).length := by
  constructor
  · intro refused
    by_contra shallow
    have accepted := (normalizePath_rooted_iff rooted short).mpr ⟨fun front back split =>
      not_le.mp fun reached => shallow ⟨front, back, split, reached⟩, rfl⟩
    rw [refused] at accepted
    cases accepted
  · rintro ⟨front, back, split, reached⟩
    refine Option.eq_none_iff_forall_ne_some.mpr fun result normalized => ?_
    exact absurd (few_of_normalizePath normalized split) (not_lt.mpr reached)

theorem normalizePath_eq_self_iff {path : Text} :
    normalizePath path pathSize = some path ↔ NormalPath path :=
  ⟨normalPath_of_normalizePath, normalizePath_of_normalPath⟩

/-! ### What the parser accepts -/

/-- A URL as `nos_url_parse` fills it. -/
structure NosUrl.WellFormed (url : NosUrl) : Prop where
  hostSome : url.host ≠ []
  hostShort : url.host.length < hostSize
  hostSlash : slash ∉ url.host
  hostColon : colon ∉ url.host
  portPositive : 0 < url.port
  portSmall : url.port ≤ 65535
  path : NormalPath url.path

theorem strIEqN_append (front rest : Text) : strIEqN (front ++ rest) front front.length = true := by
  induction front with
  | nil => simp [strIEqN]
  | cons c front inductionHypothesis => simp [strIEqN, inductionHypothesis]

theorem stripScheme_scheme (rest : Text) : stripScheme (nosUrlScheme ++ rest) = some rest := by
  rw [stripScheme, if_pos (strIEqN_append _ _), List.drop_left]

theorem foldlM_scanPort {digits : Text} {start value : Nat}
    (scanned : digits.foldlM (fun portVal d =>
      let portVal := portVal * 10 + (d.toNat - 48)
      if portVal > 65535 then none else some portVal) start = some value) (small : start ≤ 65535) :
    value ≤ 65535 ∧
      value = digits.foldl (fun value c => 10 * value + (c.toNat - 48)) start := by
  induction digits generalizing start with
  | nil => exact ⟨Option.some.inj scanned ▸ small, (Option.some.inj scanned).symm⟩
  | cons d digits inductionHypothesis =>
    rw [List.foldlM_cons] at scanned
    rw [List.foldl_cons, Nat.mul_comm 10]
    by_cases large : start * 10 + (d.toNat - 48) > 65535
    · simp [large] at scanned
    · simp only [large, if_false] at scanned
      exact inductionHypothesis scanned (by omega)

theorem scanPort_eq_some {digits : Text} {value : Nat} (scanned : scanPort digits = some value) :
    value ≤ 65535 ∧ value = decimalValue digits :=
  foldlM_scanPort scanned (by omega)

theorem noSlash_of_isAllDigits {s : Text} (allDigits : isAllDigits s) : slash ∉ s := by
  intro member
  rw [isAllDigits, Bool.and_eq_true, List.all_eq_true] at allDigits
  exact absurd (allDigits.2 slash member) (by decide)

/-- The number that digits denote is no smaller than what has been read of it. -/
theorem le_foldl_digits (digits : Text) (start : Nat) :
    start ≤ digits.foldl (fun value c => 10 * value + (c.toNat - 48)) start := by
  induction digits generalizing start with
  | nil => exact Nat.le_refl _
  | cons d digits inductionHypothesis =>
    exact Nat.le_trans (by omega) (inductionHypothesis (10 * start + (d.toNat - 48)))

/-- The digits of a small number are read to their end. -/
theorem scanPort_of_le {digits : Text} (small : decimalValue digits ≤ 65535) :
    scanPort digits = some (decimalValue digits) := by
  have scans (digits : Text) (start : Nat)
      (small : digits.foldl (fun value c => 10 * value + (c.toNat - 48)) start ≤ 65535) :
      digits.foldlM (fun portVal d =>
          let portVal := portVal * 10 + (d.toNat - 48)
          if portVal > 65535 then none else some portVal) start =
        some (digits.foldl (fun value c => 10 * value + (c.toNat - 48)) start) := by
    induction digits generalizing start with
    | nil => rfl
    | cons d digits inductionHypothesis =>
      rw [List.foldl_cons] at small ⊢
      have onward := le_foldl_digits digits (10 * start + (d.toNat - 48))
      have notLarge : ¬ 10 * start + (d.toNat - 48) > 65535 := by omega
      rw [List.foldlM_cons, Nat.mul_comm start]
      simp only [notLarge, if_false]
      exact inductionHypothesis _ small
  exact scans digits 0 small

/-- How an accepted authority reads: a host alone, or a host, a colon and the digits of a port that
run to the end of the URL. -/
theorem parseAuthority_eq_some {authority rest host : Text} {port : Nat}
    (parsed : parseAuthority authority rest = some (host, port)) :
    host ≠ [] ∧ host.length < hostSize ∧ colon ∉ host ∧ 0 < port ∧ port ≤ 65535 ∧
      (authority = host ∧ port = nosDefaultPort ∨
        ∃ digits, authority = host ++ colon :: digits ∧ isAllDigits (digits ++ rest) ∧
          port = decimalValue digits) := by
  have absent : colon ∉ authority.takeWhile (· != colon) := fun member => by
    simpa using List.mem_takeWhile_imp member
  have joined := List.takeWhile_append_dropWhile (p := (· != colon)) (l := authority)
  unfold parseAuthority at parsed
  dsimp only at parsed
  split at parsed
  · cases parsed
  rename_i bounds
  obtain ⟨some, short⟩ := not_or.mp bounds
  rw [List.length_eq_zero_iff] at some
  rw [ge_iff_le, not_le] at short
  split at parsed
  · rename_i ended
    obtain ⟨rfl, rfl⟩ := Prod.mk.inj (Option.some.inj parsed)
    rw [ended, List.append_nil] at joined
    exact ⟨some, short, absent, by decide, by decide, .inl ⟨joined.symm, rfl⟩⟩
  · rename_i c digits separated
    split at parsed
    · rename_i allDigits
      split at parsed
      · cases parsed
      rename_i portVal scanned
      split at parsed
      · cases parsed
      rename_i positive
      obtain ⟨rfl, rfl⟩ := Prod.mk.inj (Option.some.inj parsed)
      obtain ⟨small, value⟩ := scanPort_eq_some scanned
      have isColon : c = colon := by
        have := List.head?_dropWhile_not (· != colon) authority
        rw [separated] at this
        simpa using this
      rw [separated, isColon] at joined
      exact ⟨some, short, absent, Nat.pos_of_ne_zero positive, small,
        .inr ⟨digits, joined.symm, allDigits, value⟩⟩
    · cases parsed

/-- The stages of an accepting run of `nos_url_parse`. -/
theorem nosUrlParse_eq_some {raw : Text} {url : NosUrl} (parsed : nosUrlParse raw = some url) :
    ∃ authority pathStart, stripScheme raw = some (authority ++ pathStart) ∧ slash ∉ authority ∧
      (pathStart = [] ∨ pathStart.head? = some slash) ∧ pathStart.length < pathSize ∧
      parseAuthority authority pathStart = some (url.host, url.port) ∧
      normalizePath (if pathStart = [] then [slash] else pathStart) pathSize = some url.path := by
  unfold nosUrlParse at parsed
  split at parsed
  · cases parsed
  rename_i p stripped
  simp only at parsed
  split at parsed
  · cases parsed
  split at parsed
  · cases parsed
  rename_i host port authorityParsed
  split at parsed
  · cases parsed
  rename_i fits
  split at parsed
  · cases parsed
  rename_i path normalized
  cases Option.some.inj parsed
  refine ⟨p.takeWhile (· != slash), p.dropWhile (· != slash), ?_, ?_,
    PathStack.separated_dropWhile slash p, ?_, authorityParsed, normalized⟩
  · rw [stripped, List.takeWhile_append_dropWhile]
  · intro member
    simpa using List.mem_takeWhile_imp member
  · omega

/-- The stages of an accepting run on a text whose authority is known. -/
theorem nosUrlParse_parts {authority pathStart : Text} {url : NosUrl} (noSlash : slash ∉ authority)
    (separated : pathStart = [] ∨ pathStart.head? = some slash)
    (parsed : nosUrlParse (nosUrlScheme ++ (authority ++ pathStart)) = some url) :
    pathStart.length < pathSize ∧
      parseAuthority authority pathStart = some (url.host, url.port) ∧
      normalizePath (if pathStart = [] then [slash] else pathStart) pathSize = some url.path := by
  obtain ⟨front, back, stripped, noSlashFront, separatedBack, stages⟩ := nosUrlParse_eq_some parsed
  rw [stripScheme_scheme, Option.some.injEq] at stripped
  have sameFront := congrArg (List.takeWhile (· != slash)) stripped
  have sameBack := congrArg (List.dropWhile (· != slash)) stripped
  rw [PathStack.takeWhile_separated noSlash separated,
    PathStack.takeWhile_separated noSlashFront separatedBack] at sameFront
  rw [PathStack.dropWhile_separated noSlash separated,
    PathStack.dropWhile_separated noSlashFront separatedBack] at sameBack
  rwa [sameFront, sameBack]

theorem nosUrlParse_wellFormed {raw : Text} {url : NosUrl} (parsed : nosUrlParse raw = some url) :
    url.WellFormed := by
  obtain ⟨authority, pathStart, _, noSlash, _, _, authorityParsed, normalized⟩ :=
    nosUrlParse_eq_some parsed
  obtain ⟨some, short, noColon, positive, small, shape⟩ := parseAuthority_eq_some authorityParsed
  refine ⟨some, short, fun member => noSlash ?_, noColon, positive, small,
    normalPath_of_normalizePath normalized⟩
  rcases shape with ⟨rfl, _⟩ | ⟨digits, rfl, _⟩
  · exact member
  · exact List.mem_append_left _ member

theorem parseAuthority_host {host rest : Text} (some : host ≠ []) (short : host.length < hostSize)
    (noColon : colon ∉ host) : parseAuthority host rest = .some (host, nosDefaultPort) := by
  have taken : host.takeWhile (· != colon) = host := PathStack.takeWhile_absent noColon
  have dropped : host.dropWhile (· != colon) = [] := by
    simpa using fun c member (equal : c = colon) => noColon (equal ▸ member)
  simp only [parseAuthority, taken, dropped]
  rw [if_neg (not_or.mpr ⟨by simpa using some, not_le.mpr short⟩)]

theorem parseAuthority_port {host digits : Text} (some : host ≠ [])
    (short : host.length < hostSize) (noColon : colon ∉ host) (allDigits : isAllDigits digits)
    (positive : 0 < decimalValue digits) (small : decimalValue digits ≤ 65535) :
    parseAuthority (host ++ colon :: digits) [] = .some (host, decimalValue digits) := by
  simp only [parseAuthority, PathStack.takeWhile_mark noColon, PathStack.dropWhile_mark noColon,
    List.append_nil, allDigits, scanPort_of_le small, if_true]
  rw [if_neg (not_or.mpr ⟨by simpa using some, not_le.mpr short⟩), if_neg (by omega)]

/-- A URL text with an authority that is accepted is parsed into it and the normalised path. -/
theorem nosUrlParse_authority {authority pathStart host : Text} {port : Nat}
    (noSlash : slash ∉ authority) (separated : pathStart = [] ∨ pathStart.head? = some slash)
    (fits : pathStart.length < pathSize)
    (parsed : parseAuthority authority pathStart = some (host, port)) :
    nosUrlParse (nosUrlScheme ++ (authority ++ pathStart)) =
      (normalizePath (if pathStart = [] then [slash] else pathStart) pathSize).map
        fun path => ⟨host, port, path⟩ := by
  have some : authority ≠ [] := by
    rintro rfl
    cases parsed
  simp only [nosUrlParse, stripScheme_scheme, PathStack.takeWhile_separated noSlash separated,
    PathStack.dropWhile_separated noSlash separated, parsed, if_neg some]
  rw [if_neg (by omega)]
  cases normalizePath (if pathStart = [] then [slash] else pathStart) pathSize <;> rfl

/-- A URL text without a port is parsed into its host and its normalised path. -/
theorem nosUrlParse_scheme {host path : Text} (some : host ≠ []) (short : host.length < hostSize)
    (noSlash : slash ∉ host) (noColon : colon ∉ host) (rooted : path.head? = .some slash)
    (fits : path.length < pathSize) :
    nosUrlParse (nosUrlScheme ++ host ++ path) =
      (normalizePath path pathSize).map fun path => ⟨host, nosDefaultPort, path⟩ := by
  have noPath : path ≠ [] := fun empty => by
    rw [empty] at rooted
    cases rooted
  rw [List.append_assoc, nosUrlParse_authority noSlash (.inr rooted) fits
    (parseAuthority_host some short noColon), if_neg noPath]

/-- A URL text in which a path follows a port is refused, because the digit check of the port runs
into the path. -/
theorem nosUrlParse_port_path {host digits path : Text} (noSlash : slash ∉ host)
    (noColon : colon ∉ host) (digitsOnly : ∀ d ∈ digits, isDigit d)
    (rooted : path.head? = some slash) :
    nosUrlParse (nosUrlScheme ++ host ++ colon :: digits ++ path) = none := by
  obtain ⟨tail, rfl⟩ := eq_slash_cons rooted
  have noSlashAuthority : slash ∉ host ++ colon :: digits := by
    simp only [List.mem_append, List.mem_cons, not_or]
    exact ⟨noSlash, by decide, fun member => absurd (digitsOnly _ member) (by decide)⟩
  have notDigits : isAllDigits (digits ++ slash :: tail) = false := by
    simp [isAllDigits, show isDigit slash = false by decide]
  have refused : parseAuthority (host ++ colon :: digits) (slash :: tail) = none := by
    simp only [parseAuthority, PathStack.takeWhile_mark noColon, PathStack.dropWhile_mark noColon,
      notDigits]
    split <;> rfl
  have rebuilt : nosUrlScheme ++ host ++ colon :: digits ++ slash :: tail =
      nosUrlScheme ++ ((host ++ colon :: digits) ++ slash :: tail) := by simp
  rw [rebuilt]
  simp only [nosUrlParse, stripScheme_scheme, PathStack.takeWhile_mark noSlashAuthority,
    PathStack.dropWhile_mark noSlashAuthority, refused]
  split <;> rfl

/-! ### What resolving accepts -/

/-- The ways in which a link is resolved against a base. -/
theorem nosUrlResolve_eq_some {base next : NosUrl} {link : Text}
    (resolved : nosUrlResolve base link = some next) :
    link = [] ∧ next = base ∨
      strIEqN link nosUrlScheme nosUrlScheme.length ∧ nosUrlParse link = some next ∨
      link.head? = some question ∧ base.path.length + link.length < pathSize ∧
        next = { base with path := base.path ++ link } ∨
      ∃ target path, (target = link ∨ target = directory base.path ++ link) ∧
        normalizePath target pathSize = some path ∧ next = { base with path } := by
  have normalized {target : Text} (equal : (normalizePath target pathSize).map
      (fun path => { base with path }) = some next) :
      ∃ path, normalizePath target pathSize = some path ∧ next = { base with path } := by
    obtain ⟨path, found, rfl⟩ := Option.map_eq_some_iff.mp equal
    exact ⟨path, found, rfl⟩
  unfold nosUrlResolve at resolved
  split at resolved
  · rename_i empty
    exact .inl ⟨empty, (Option.some.inj resolved).symm⟩
  split at resolved
  · rename_i absolute
    exact .inr (.inl ⟨absolute, resolved⟩)
  split at resolved
  · cases resolved
  split at resolved
  · split at resolved
    · cases resolved
    · obtain ⟨path, found, equal⟩ := normalized resolved
      exact .inr (.inr (.inr ⟨link, path, .inl rfl, found, equal⟩))
  split at resolved
  · rename_i query
    split at resolved
    · cases resolved
    · rename_i fits
      exact .inr (.inr (.inl ⟨query, not_le.mp fits, (Option.some.inj resolved).symm⟩))
  split at resolved
  · cases resolved
  split at resolved
  · cases resolved
  · obtain ⟨path, found, equal⟩ := normalized resolved
    exact .inr (.inr (.inr ⟨_, path, .inr rfl, found, equal⟩))

end Nosgem
