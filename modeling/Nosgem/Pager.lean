/-
A pager writes line feeds to a screen, counts some of them and pauses whenever
it has counted as many as a page has lines. This file says when no stretch of
the screen without a pause has more line feeds than a page. A line feed that is
not counted must not be followed by a pause, and the line feeds of one write
must not cross the end of a page, because the pauses stand behind the write.
What is on the screen is of any type, with one element for the pause.
-/

import Mathlib.Algebra.Ring.Nat
import Mathlib.Data.List.Infix
import Mathlib.Tactic.Basic

namespace Pager

/-! ### Writes -/

/-- What is written at once: its line feeds, and how many of them the pager counts. -/
structure Write where
  feeds : Nat
  counted : Nat
  deriving DecidableEq, Repr

/-- The line feeds of some writes. -/
def feedsOf (writes : List Write) : Nat := (writes.map Write.feeds).sum

/-- The line feeds of some writes that are counted. -/
def countedOf (writes : List Write) : Nat := (writes.map Write.counted).sum

/-- The line feeds of some writes that are not counted. -/
def uncountedOf (writes : List Write) : Nat :=
  (writes.map fun write => write.feeds - write.counted).sum

@[simp] theorem feedsOf_nil : feedsOf [] = 0 := rfl

@[simp] theorem feedsOf_cons (write : Write) (writes : List Write) :
    feedsOf (write :: writes) = write.feeds + feedsOf writes := rfl

@[simp] theorem countedOf_nil : countedOf [] = 0 := rfl

@[simp] theorem countedOf_cons (write : Write) (writes : List Write) :
    countedOf (write :: writes) = write.counted + countedOf writes := rfl

@[simp] theorem uncountedOf_nil : uncountedOf [] = 0 := rfl

@[simp] theorem uncountedOf_cons (write : Write) (writes : List Write) :
    uncountedOf (write :: writes) = write.feeds - write.counted + uncountedOf writes := rfl

/-- Only line feeds that are written are counted. -/
def Honest (writes : List Write) : Prop := ∀ write ∈ writes, write.counted ≤ write.feeds

/-! ### Screens -/

section Screens

variable {Output : Type} (pause : Output) (lines : Output → Nat)

/-- The line feeds on a screen. -/
def feedsIn (screen : List Output) : Nat := (screen.map lines).sum

/-- Between two pauses and before the first one there are no more line feeds than a page has
lines. -/
def PagedBetween (page : Nat) (screen : List Output) : Prop :=
  ∀ stretch, stretch ++ [pause] <:+: screen → pause ∉ stretch → feedsIn lines stretch ≤ page

/-- Between two pauses, before the first one and behind the last one there are no more line feeds
than a page has lines. -/
def Paged (page : Nat) (screen : List Output) : Prop :=
  ∀ stretch, stretch <:+: screen → pause ∉ stretch → feedsIn lines stretch ≤ page

/-- The writes reach the screen when `count` line feeds have been counted since the last pause, and
`after` have been in the end. The pauses for a write stand behind it. -/
inductive Shows (page : Nat) : Nat → List Write → List Output → Nat → Prop where
  | nil (count : Nat) : Shows page count [] [] count
  | cons {count after : Nat} {write : Write} {writes : List Write} {shown screen : List Output}
      (noPause : pause ∉ shown) (written : feedsIn lines shown = write.feeds)
      (rest : Shows page ((count + write.counted) % page) writes screen after) :
      Shows page count (write :: writes)
        (shown ++ List.replicate ((count + write.counted) / page) pause ++ screen) after

variable {pause lines}

@[simp] theorem feedsIn_nil : feedsIn lines [] = 0 := rfl

@[simp] theorem feedsIn_cons (output : Output) (screen : List Output) :
    feedsIn lines (output :: screen) = lines output + feedsIn lines screen := rfl

@[simp] theorem feedsIn_append (front back : List Output) :
    feedsIn lines (front ++ back) = feedsIn lines front + feedsIn lines back := by
  simp [feedsIn]

theorem feedsIn_le_of_part {part screen : List Output} (inside : part <:+: screen) :
    feedsIn lines part ≤ feedsIn lines screen := by
  obtain ⟨front, back, rfl⟩ := inside
  rw [feedsIn_append, feedsIn_append]
  omega

/-- One write and its pauses. -/
theorem Shows.single {shown : List Output} (noPause : pause ∉ shown) {write : Write}
    (written : feedsIn lines shown = write.feeds) (page count : Nat) :
    Shows pause lines page count [write]
      (shown ++ List.replicate ((count + write.counted) / page) pause)
      ((count + write.counted) % page) := by
  have shows := Shows.cons noPause written (.nil ((count + write.counted) % page))
  rwa [List.append_nil] at shows

theorem Shows.append {page count middle after : Nat} {front back : List Write}
    {first second : List Output} (shows : Shows pause lines page count front first middle)
    (further : Shows pause lines page middle back second after) :
    Shows pause lines page count (front ++ back) (first ++ second) after := by
  induction shows with
  | nil => exact further
  | cons noPause written rest inductionHypothesis =>
    rw [List.append_assoc]
    exact .cons noPause written (inductionHypothesis further)

theorem Shows.after_lt {page count after : Nat} {writes : List Write} {screen : List Output}
    (shows : Shows pause lines page count writes screen after) (small : count < page) :
    after < page := by
  induction shows with
  | nil => exact small
  | cons _ _ _ inductionHypothesis =>
    exact inductionHypothesis (Nat.mod_lt _ (Nat.zero_lt_of_lt small))

/-- Before the page is full there is no pause. -/
theorem Shows.noPause {page count after : Nat} {writes : List Write} {screen : List Output}
    (shows : Shows pause lines page count writes screen after)
    (room : count + countedOf writes < page) : pause ∉ screen := by
  induction shows with
  | nil => exact List.not_mem_nil
  | @cons count after write writes shown screen free written rest inductionHypothesis =>
    rw [countedOf_cons] at room
    have open' : count + write.counted < page := by omega
    rw [Nat.mod_eq_of_lt open'] at inductionHypothesis
    rw [Nat.div_eq_of_lt open', List.replicate_zero, List.append_nil, List.mem_append, not_or]
    exact ⟨free, inductionHypothesis (by omega)⟩

/-- When the page gets full there is a first pause, and a page of line feeds in front of it. -/
theorem Shows.firstPause {page count after : Nat} {writes : List Write} {screen : List Output}
    (shows : Shows pause lines page count writes screen after) (honest : Honest writes)
    (small : count < page) (full : page ≤ count + countedOf writes) :
    ∃ front back, screen = front ++ pause :: back ∧ pause ∉ front ∧
      page ≤ count + feedsIn lines front := by
  induction shows with
  | nil => exact absurd full (not_le.mpr small)
  | @cons count after write writes shown screen free written rest inductionHypothesis =>
    obtain ⟨first, others⟩ := List.forall_mem_cons.mp honest
    rw [countedOf_cons] at full
    by_cases now : page ≤ count + write.counted
    · obtain ⟨more, pauses⟩ := Nat.exists_eq_succ_of_ne_zero
        (Nat.ne_of_gt (Nat.div_pos now (Nat.zero_lt_of_lt small)))
      refine ⟨shown, List.replicate more pause ++ screen, ?_, free, by omega⟩
      rw [pauses, List.replicate_succ, List.append_assoc, List.cons_append]
    · rw [Nat.mod_eq_of_lt (not_le.mp now)] at inductionHypothesis
      obtain ⟨front, back, rfl, freeFront, feeds⟩ :=
        inductionHypothesis others (not_le.mp now) (by omega)
      refine ⟨shown ++ front, back, ?_, ?_, ?_⟩
      · rw [Nat.div_eq_of_lt (not_le.mp now), List.replicate_zero, List.append_nil,
          List.append_assoc]
      · rw [List.mem_append, not_or]
        exact ⟨free, freeFront⟩
      · rw [feedsIn_append, written]
        omega

theorem paged_of_noPause {page : Nat} {screen : List Output} (noPause : pause ∉ screen) :
    Paged pause lines page screen ↔ feedsIn lines screen ≤ page :=
  ⟨fun paged => paged screen (List.infix_refl screen) noPause,
    fun few _ inside _ => Nat.le_trans (feedsIn_le_of_part inside) few⟩

/-- A pause cuts the screen in two. -/
theorem paged_pause {page : Nat} {front back : List Output} (noPause : pause ∉ front) :
    Paged pause lines page (front ++ pause :: back) ↔
      feedsIn lines front ≤ page ∧ Paged pause lines page back := by
  have behind : back <:+: front ++ pause :: back := ⟨front ++ [pause], [], by simp⟩
  constructor
  · intro paged
    refine ⟨paged front (List.prefix_append front _).isInfix noPause, fun stretch inside => ?_⟩
    exact paged stretch (inside.trans behind)
  · rintro ⟨few, paged⟩ stretch inside without
    have empty {part : List Output} (starts : part <+: pause :: back) (free : pause ∉ part) :
        part = [] := by
      rcases List.prefix_cons_iff.mp starts with rfl | ⟨rest, rfl, _⟩
      · rfl
      · exact absurd List.mem_cons_self free
    have inFront : stretch <:+: front → feedsIn lines stretch ≤ page := fun inside =>
      Nat.le_trans (feedsIn_le_of_part inside) few
    rcases List.infix_append_iff.mp inside with early | late | ⟨first, second, rfl, ends, starts⟩
    · exact inFront early
    · rcases List.infix_cons_iff.mp late with starts | later
      · rw [empty starts without]
        exact Nat.zero_le page
      · exact paged stretch later without
    · rw [List.mem_append, not_or] at without
      rw [empty starts without.2, List.append_nil] at inFront ⊢
      exact inFront ends.isInfix

theorem paged_replicate (page pauses : Nat) (screen : List Output) :
    Paged pause lines page (List.replicate pauses pause ++ screen) ↔
      Paged pause lines page screen := by
  induction pauses with
  | zero => rfl
  | succ pauses inductionHypothesis =>
    rw [List.replicate_succ, List.cons_append, ← inductionHypothesis,
      ← List.nil_append (pause :: _), paged_pause List.not_mem_nil]
    exact and_iff_right (Nat.zero_le page)

end Screens

/-! ### Stretches as they are written -/

/-- The stretches that the writes make fit a page: since the last pause `count` line feeds have been
counted and `opened` have been written. -/
def FitsFrom (page : Nat) : (count opened : Nat) → List Write → Prop
  | _, opened, [] => opened ≤ page
  | count, opened, write :: writes =>
    if page ≤ count + write.counted then
      opened + write.feeds ≤ page ∧ FitsFrom page ((count + write.counted) % page) 0 writes
    else FitsFrom page (count + write.counted) (opened + write.feeds) writes

section Stretches

variable {Output : Type} {pause : Output} {lines : Output → Nat}
  {page count after : Nat} {writes : List Write} {screen front : List Output}

theorem paged_iff_fitsFrom (shows : Shows pause lines page count writes screen after)
    (small : count < page) (noPause : pause ∉ front) :
    Paged pause lines page (front ++ screen) ↔
      FitsFrom page count (feedsIn lines front) writes := by
  induction shows generalizing front with
  | nil => rw [List.append_nil, FitsFrom, paged_of_noPause noPause]
  | @cons count after write writes shown screen free written rest inductionHypothesis =>
    have positive : 0 < page := Nat.zero_lt_of_lt small
    have open' : pause ∉ front ++ shown := by
      rw [List.mem_append, not_or]
      exact ⟨noPause, free⟩
    rw [FitsFrom, ← written, ← feedsIn_append]
    by_cases full : page ≤ count + write.counted
    · obtain ⟨more, pauses⟩ := Nat.exists_eq_succ_of_ne_zero
        (Nat.ne_of_gt (Nat.div_pos full positive))
      have next := @inductionHypothesis [] (Nat.mod_lt _ positive) List.not_mem_nil
      rw [List.nil_append, feedsIn_nil] at next
      rw [if_pos full, ← next, pauses, List.replicate_succ, List.append_assoc, List.cons_append,
        ← List.append_assoc, paged_pause open', paged_replicate]
    · rw [if_neg full, Nat.div_eq_of_lt (not_le.mp full), List.replicate_zero, List.append_nil,
        ← List.append_assoc]
      rw [Nat.mod_eq_of_lt (not_le.mp full)] at inductionHypothesis
      exact inductionHypothesis (not_le.mp full) open'

/-- Behind a line feed that was not counted there is no room for a pause. -/
theorem fitsFrom_uncounted (honest : Honest writes) {extra : Nat} (some : 0 < extra)
    (small : count < page) :
    FitsFrom page count (count + extra) writes ↔ count + extra + feedsOf writes ≤ page := by
  induction writes generalizing count extra with
  | nil => rfl
  | cons write writes inductionHypothesis =>
    obtain ⟨first, others⟩ := List.forall_mem_cons.mp honest
    rw [FitsFrom, feedsOf_cons]
    by_cases full : page ≤ count + write.counted
    · rw [if_pos full]
      exact iff_of_false (fun fits => by omega) (by omega)
    · have further := inductionHypothesis others
        (show 0 < extra + (write.feeds - write.counted) by omega) (not_le.mp full)
      rw [show count + write.counted + (extra + (write.feeds - write.counted)) =
        count + extra + write.feeds by omega] at further
      rw [if_neg full, further, Nat.add_assoc _ write.feeds]

end Stretches

/-! ### Pages that fit -/

/-- What it takes for writes to fit their pages, when `count` line feeds have been counted since the
last pause and `extra` have been written that are not counted. -/
@[mk_iff]
structure EvenFrom (page count extra : Nat) (writes : List Write) : Prop where
  started : 0 < extra → count + countedOf writes < page
  whole : ∀ front write back, writes = front ++ write :: back →
    (count + countedOf front) % page + write.counted ≤ page
  uncounted : ∀ front write back, writes = front ++ write :: back → write.counted < write.feeds →
    page * ((count + countedOf writes) / page) ≤ count + countedOf front
  rest : (count + countedOf writes) % page + extra + uncountedOf writes ≤ page

/-- Writes fit their pages: none crosses the end of a page, one with a line feed that is not counted
stands behind the last full page, and behind the last full page there is room for all of these. -/
structure EvenPages (page : Nat) (writes : List Write) : Prop where
  whole : ∀ front write back, writes = front ++ write :: back →
    countedOf front % page + write.counted ≤ page
  uncounted : ∀ front write back, writes = front ++ write :: back → write.counted < write.feeds →
    page * (countedOf writes / page) ≤ countedOf front
  rest : countedOf writes % page + uncountedOf writes ≤ page

theorem evenFrom_zero {page : Nat} {writes : List Write} :
    EvenFrom page 0 0 writes ↔ EvenPages page writes := by
  constructor
  · rintro ⟨_, whole, uncounted, rest⟩
    simp only [Nat.zero_add, Nat.add_zero] at whole uncounted rest
    exact ⟨whole, uncounted, rest⟩
  · rintro ⟨whole, uncounted, rest⟩
    refine ⟨fun some => absurd some (Nat.lt_irrefl 0), ?_, ?_, ?_⟩
    · simpa only [Nat.zero_add] using whole
    · simpa only [Nat.zero_add] using uncounted
    · simpa only [Nat.zero_add, Nat.add_zero] using rest

/-- What is said about every write and the writes before it is said about the first one, and about
the others behind it. -/
theorem forall_split_cons (holds : List Write → Write → Prop) (first : Write)
    (writes : List Write) :
    (∀ front write back, first :: writes = front ++ write :: back → holds front write) ↔
      holds [] first ∧
        ∀ front write back, writes = front ++ write :: back → holds (first :: front) write := by
  constructor
  · intro all
    refine ⟨all [] first writes rfl, fun front write back equal => ?_⟩
    exact all (first :: front) write back (by rw [equal, List.cons_append])
  · rintro ⟨head, others⟩ front write back equal
    cases front with
    | nil =>
      rw [List.nil_append, List.cons.injEq] at equal
      exact equal.1 ▸ head
    | cons other front =>
      rw [List.cons_append, List.cons.injEq] at equal
      exact equal.1 ▸ others front write back equal.2

/-- The last full page ends behind the first one exactly when there is a full page. -/
theorem full_pages_le_iff {page count total : Nat} (small : count < page) :
    page * (total / page) ≤ count ↔ total < page := by
  have positive : 0 < page := Nat.zero_lt_of_lt small
  constructor
  · intro early
    refine not_le.mp fun full => ?_
    have pages := Nat.mul_le_mul_left page (Nat.div_pos full positive)
    omega
  · intro less
    rw [Nat.div_eq_of_lt less, Nat.mul_zero]
    exact Nat.zero_le count

/-- The conditions for a first write and for the writes behind it. -/
theorem evenFrom_cons {page count extra : Nat} (small : count < page) (write : Write)
    (writes : List Write) :
    EvenFrom page count extra (write :: writes) ↔
      (0 < extra → count + write.counted + countedOf writes < page) ∧
      (count + write.counted ≤ page ∧ ∀ front other back, writes = front ++ other :: back →
        (count + write.counted + countedOf front) % page + other.counted ≤ page) ∧
      ((write.counted < write.feeds → count + write.counted + countedOf writes < page) ∧
        ∀ front other back, writes = front ++ other :: back → other.counted < other.feeds →
          page * ((count + write.counted + countedOf writes) / page) ≤
            count + write.counted + countedOf front) ∧
      (count + write.counted + countedOf writes) % page + extra +
        (write.feeds - write.counted + uncountedOf writes) ≤ page := by
  rw [evenFrom_iff,
    forall_split_cons fun front other => (count + countedOf front) % page + other.counted ≤ page,
    forall_split_cons fun front other => other.counted < other.feeds →
      page * ((count + countedOf (write :: writes)) / page) ≤ count + countedOf front]
  simp only [countedOf_cons, uncountedOf_cons, countedOf_nil, Nat.add_zero, ← Nat.add_assoc,
    Nat.mod_eq_of_lt small, full_pages_le_iff small]

/-- A write that does not fill the page. -/
theorem evenFrom_cons_open {page count extra : Nat} {write : Write} (writes : List Write)
    (open' : count + write.counted < page) :
    EvenFrom page count extra (write :: writes) ↔
      EvenFrom page (count + write.counted) (extra + (write.feeds - write.counted)) writes := by
  rw [evenFrom_cons (Nat.lt_of_le_of_lt (Nat.le_add_right _ _) open'), evenFrom_iff]
  constructor
  · rintro ⟨started, ⟨_, whole⟩, ⟨first, uncounted⟩, rest⟩
    exact ⟨fun some => by omega, whole, uncounted, by omega⟩
  · rintro ⟨started, whole, uncounted, rest⟩
    exact ⟨fun some => started (by omega), ⟨Nat.le_of_lt open', whole⟩,
      ⟨fun some => started (by omega), uncounted⟩, by omega⟩

/-- A write that fills the page. -/
theorem evenFrom_cons_full {page count extra : Nat} {write : Write} (writes : List Write)
    (honest : write.counted ≤ write.feeds) (small : count < page)
    (full : page ≤ count + write.counted) :
    EvenFrom page count extra (write :: writes) ↔
      count + extra + write.feeds ≤ page ∧
        EvenFrom page ((count + write.counted) % page) 0 writes := by
  rw [evenFrom_cons small, evenFrom_iff]
  by_cases exact' : count + write.counted = page
  · have step (more : Nat) : page * ((page + more) / page) = page * (more / page) + page := by
      rw [Nat.add_div_left _ (Nat.zero_lt_of_lt small), Nat.mul_succ]
    simp only [exact', Nat.mod_self, Nat.zero_add, Nat.add_mod_left, step]
    constructor
    · rintro ⟨started, ⟨_, whole⟩, ⟨first, uncounted⟩, rest⟩
      refine ⟨by omega, fun some => absurd some (Nat.lt_irrefl 0), whole, ?_, by omega⟩
      intro front other back equal some
      have later := uncounted front other back equal some
      omega
    · rintro ⟨fits, _, whole, uncounted, rest⟩
      refine ⟨fun some => by omega, ⟨Nat.le_refl page, whole⟩, ⟨fun some => by omega, ?_⟩, by omega⟩
      intro front other back equal some
      have later := uncounted front other back equal some
      omega
  · exact iff_of_false (fun even => by omega) fun even => by omega

/-- The stretches fit exactly when the writes fit their pages. -/
theorem fitsFrom_iff {page count extra : Nat} {writes : List Write} (honest : Honest writes)
    (small : count < page) :
    FitsFrom page count (count + extra) writes ↔ EvenFrom page count extra writes := by
  induction writes generalizing count extra with
  | nil =>
    rw [FitsFrom, evenFrom_iff]
    simp only [countedOf_nil, uncountedOf_nil, Nat.add_zero, Nat.mod_eq_of_lt small]
    exact ⟨fun fits => ⟨fun _ => small, by simp, by simp, fits⟩, fun even => even.2.2.2⟩
  | cons write writes inductionHypothesis =>
    obtain ⟨first, others⟩ := List.forall_mem_cons.mp honest
    rw [FitsFrom]
    by_cases full : page ≤ count + write.counted
    · rw [if_pos full, evenFrom_cons_full writes first small full]
      refine and_congr_right fun fits => ?_
      have exact' : count + write.counted = page := by omega
      rw [exact', Nat.mod_self]
      exact @inductionHypothesis 0 0 others (Nat.zero_lt_of_lt small)
    · have further := @inductionHypothesis _ (extra + (write.feeds - write.counted)) others
        (not_le.mp full)
      rw [if_neg full, evenFrom_cons_open writes (not_le.mp full), ← further,
        show count + write.counted + (extra + (write.feeds - write.counted)) =
          count + extra + write.feeds by omega]

section Pages

variable {Output : Type} {pause : Output} {lines : Output → Nat}
  {page after : Nat} {writes : List Write} {screen : List Output}

/-- A pager that starts on an empty screen never shows more than a page between two pauses exactly
when the writes fit their pages. -/
theorem paged_iff_evenPages (positive : 0 < page) (honest : Honest writes)
    (shows : Shows pause lines page 0 writes screen after) :
    Paged pause lines page screen ↔ EvenPages page writes := by
  have stretches := paged_iff_fitsFrom shows positive
    (show pause ∉ ([] : List Output) from List.not_mem_nil)
  rw [List.nil_append] at stretches
  rw [stretches, ← evenFrom_zero]
  exact @fitsFrom_iff page 0 0 writes honest positive

/-- Below a line feed that is not counted, the stretch before the first pause is too long, so there
must not be any. -/
theorem pagedBetween_below_iff (positive : 0 < page) (honest : Honest writes)
    (shows : Shows pause lines page 0 writes screen after) {above : Output}
    (noPause : above ≠ pause) (one : lines above = 1) :
    PagedBetween pause lines page (above :: screen) ↔ countedOf writes < page := by
  constructor
  · intro paged
    refine not_le.mp fun full => ?_
    obtain ⟨front, back, rfl, free, feeds⟩ :=
      shows.firstPause honest positive (by rwa [Nat.zero_add])
    have long := paged (above :: front) ⟨[], back, by simp⟩ (by simp [free, Ne.symm noPause])
    rw [feedsIn_cons, one] at long
    omega
  · intro room stretch inside _
    have free := shows.noPause (by rwa [Nat.zero_add])
    have member : pause ∈ above :: screen := inside.subset (by simp)
    rcases List.mem_cons.mp member with equal | later
    · exact absurd equal.symm noPause
    · exact absurd later free

/-- Below a line feed that is not counted this needs a page for all the writes. -/
theorem paged_below_iff (positive : 0 < page) (honest : Honest writes)
    (shows : Shows pause lines page 0 writes screen after) {above : Output}
    (noPause : above ≠ pause) (one : lines above = 1) :
    Paged pause lines page (above :: screen) ↔ 1 + feedsOf writes ≤ page := by
  have stretches := paged_iff_fitsFrom shows positive
    (show pause ∉ [above] by simpa using Ne.symm noPause)
  rw [List.singleton_append] at stretches
  rw [stretches, feedsIn_cons, one, feedsIn_nil]
  have uncounted := @fitsFrom_uncounted page 0 writes honest 1 Nat.one_pos positive
  rwa [Nat.zero_add] at uncounted

end Pages

end Pager
