/-
This file settles when a failing update leaves the trust store intact.
`update_known_hosts_file` copies the store to a temporary file, removes the
store and renames the copy. It checks two of these calls, the opening of the
copy and the renaming; in between, a byte that does not reach the copy is lost
without notice, a store that does not open is taken for an empty one, and once
the store has been removed a failing rename leaves nothing in its place. The
file says for which patterns of failures the update keeps what it reports.
-/

import Nosgem.Faults
import Nosgem.Records

namespace Nosgem

open CText Interaction

/-! ### The text of an update -/

/-- What an update should make of a line. -/
def replacedLine (hostport fp line : Text) : Text :=
  if holds hostport line then recordText hostport fp else line

/-- The lines of a store with the entries of a key replaced, or with the entry behind them. -/
def replacedLines (hostport fp : Text) (lines : List Text) : Text :=
  lines.flatMap (replacedLine hostport fp) ++
    if lines.any (holds hostport) then [] else recordText hostport fp

variable {hostport fp : Text}

theorem length_copyLine_le (line : Text) :
    (copyLine hostport fp line).length ≤ (replacedLine hostport fp line).length := by
  unfold copyLine replacedLine
  split
  · exact Nat.le_refl _
  · exact (List.takeWhile_sublist _).length_le

theorem length_copies_le (lines : List Text) :
    (lines.flatMap (copyLine hostport fp)).length ≤
      (lines.flatMap (replacedLine hostport fp)).length := by
  induction lines with
  | nil => exact Nat.le_refl _
  | cons line lines inductionHypothesis =>
    have first := @length_copyLine_le hostport fp line
    simp only [List.flatMap_cons, List.length_append]
    omega

theorem length_rewritten_le (lines : List Text) :
    (rewritten hostport fp lines).length ≤ (replacedLines hostport fp lines).length := by
  have copies := @length_copies_le hostport fp lines
  simp only [rewritten, replacedLines, List.length_append]
  omega

/-- A line is copied whole when it is replaced or has no NUL. -/
theorem copyLine_eq_iff (line : Text) : copyLine hostport fp line = replacedLine hostport fp line ↔
    (holds hostport line = false → 0 ∉ line) := by
  unfold copyLine replacedLine
  by_cases held : holds hostport line = true
  · simp [held]
  · rw [if_neg held, if_neg held, Bool.not_eq_true] at *
    refine ⟨fun same _ member => ?_, fun nulFree => cString_eq_self (nulFree held)⟩
    rw [← same] at member
    simpa using List.mem_takeWhile_imp member

/-- The text the loop copies is the updated store when no line is cut short at a NUL. -/
theorem rewritten_eq_iff (lines : List Text) :
    rewritten hostport fp lines = replacedLines hostport fp lines ↔
      ∀ line ∈ lines, holds hostport line = false → 0 ∉ line := by
  rw [rewritten, replacedLines, List.append_cancel_right_eq]
  induction lines with
  | nil => simp
  | cons line lines inductionHypothesis =>
    have first := @length_copyLine_le hostport fp line
    have copies := @length_copies_le hostport fp lines
    rw [List.flatMap_cons, List.flatMap_cons, List.forall_mem_cons, ← inductionHypothesis,
      ← @copyLine_eq_iff hostport fp line]
    constructor
    · intro same
      have lengths := congrArg List.length same
      rw [List.length_append, List.length_append] at lengths
      exact List.append_inj same (by omega)
    · rintro ⟨line, lines⟩
      rw [line, lines]

theorem length_record_le (lines : List Text) :
    (recordText hostport fp).length ≤ (replacedLines hostport fp lines).length := by
  rw [replacedLines, List.length_append]
  by_cases held : lines.any (holds hostport) = true
  · obtain ⟨line, member, isHeld⟩ := List.any_eq_true.mp held
    have inside := (List.sublist_flatten_of_mem
      (List.mem_map_of_mem (f := replacedLine hostport fp) member)).length_le
    rw [replacedLine, if_pos isHeld] at inside
    exact Nat.le_trans inside (Nat.le_add_right _ _)
  · rw [if_neg held]
    exact Nat.le_add_left _ _

/-- The updated store is the record alone when the store was nothing, or one entry for the key. -/
theorem replacedLines_eq_record_iff {lines : List Text} (some : ∀ line ∈ lines, line ≠ []) :
    replacedLines hostport fp lines = recordText hostport fp ↔
      lines.length ≤ 1 ∧ ∀ line ∈ lines, holds hostport line = true := by
  cases lines with
  | nil => simp [replacedLines]
  | cons line lines =>
    obtain ⟨someLine, someLines⟩ := List.forall_mem_cons.mp some
    by_cases held : holds hostport line = true
    · have shape : replacedLines hostport fp (line :: lines) =
          recordText hostport fp ++ lines.flatMap (replacedLine hostport fp) := by
        simp [replacedLines, replacedLine, held]
      rw [shape, List.append_right_eq_self, List.flatMap_eq_nil_iff]
      cases lines with
      | nil => simp [held]
      | cons next lines =>
        have left : replacedLine hostport fp next ≠ [] := by
          unfold replacedLine
          split
          · simp [recordText]
          · exact someLines next List.mem_cons_self
        exact iff_of_false (fun all => left (all next List.mem_cons_self))
          (fun short => by simp at short)
    · have shape : replacedLines hostport fp (line :: lines) =
          line ++ replacedLines hostport fp lines := by
        simp [replacedLines, replacedLine, held]
      rw [shape]
      refine iff_of_false (fun same => ?_) fun all => held (all.2 line List.mem_cons_self)
      have lengths := congrArg List.length same
      have rest := @length_record_le hostport fp lines
      have first := List.length_pos_iff.mpr someLine
      rw [List.length_append] at lengths
      omega

/-! ### The runs of an update -/

/-- How an update ends, from a state: the copy has not been opened, or it has been written from what
was read of the store, and the calls that put it in the place of the store have had some answers. -/
inductive UpdateEnds (start : Faulty) (hostport fp : Text) :
    List (Event Answer) → Int → Faulty → Prop where
  | unopened (input : Option Text) :
      UpdateEnds start hostport fp
        [⟨.fopenRead .knownHosts, input⟩, ⟨.fopenWrite .knownHostsTmp .write, false⟩] (-1) start
  | moved (input : Option Text) (read : input = none ∨ input = start.disk .knownHosts)
      (writes : List (Event Answer))
      (puts : ∀ event ∈ writes, ∃ output, event.op = .fputs .knownHostsTmp output)
      (written : Faulty) (closed removed renamed : Bool)
      (wrote : Wrote .knownHostsTmp (rewritten hostport fp (storePieces input))
        (start.opened .knownHostsTmp .write) written)
      (present : removed = true → (written.disk .knownHosts).isSome)
      (free : renamed = true → (written.disk .knownHostsTmp).isSome ∧
        (removed = true ∨ written.disk .knownHosts = none))
      (after : Faulty) (lost : after.lost = written.lost)
      (stored : after.disk .knownHosts =
        if renamed then written.disk .knownHostsTmp
        else if removed then none else written.disk .knownHosts) :
      UpdateEnds start hostport fp
        (⟨.fopenRead .knownHosts, input⟩ :: ⟨.fopenWrite .knownHostsTmp .write, true⟩ ::
          (writes ++ [⟨.fclose .knownHostsTmp, closed⟩, ⟨.remove .knownHosts, removed⟩,
            ⟨.rename .knownHostsTmp .knownHosts, renamed⟩]))
        (if renamed then 0 else -1) after

/-- The copying loop writes the copies of its lines. -/
theorem wrote_copyKnownHosts {lines : List Text} {replaced result : Bool} {start after : Faulty}
    {trace : List (Event Answer)}
    (run : Steps faultEnv start (copyKnownHosts hostport fp lines replaced) trace after
      (.ret result)) :
    result = (replaced || lines.any (holds hostport)) ∧
      Wrote .knownHostsTmp (lines.flatMap (copyLine hostport fp)) start after ∧
      ∀ event ∈ trace, ∃ output, event.op = .fputs .knownHostsTmp output := by
  induction lines generalizing replaced start trace with
  | nil =>
    obtain ⟨rfl, rfl, equal⟩ := run.of_ret
    cases equal
    exact ⟨by simp, .refl _ _, by simp⟩
  | cons line lines inductionHypothesis =>
    rw [copyKnownHosts_cons] at run
    obtain ⟨written, middle, tail, answered, rest, rfl⟩ := run.perform_ret
    obtain ⟨same, wrote, puts⟩ := inductionHypothesis rest
    exact ⟨by simp [same, Bool.or_assoc], (wrote_fputs answered).trans wrote,
      List.forall_mem_cons.mpr ⟨⟨_, rfl⟩, puts⟩⟩

/-- The last three calls of an update. -/
theorem moved_of_steps {written after : Faulty} {trace : List (Event Answer)} {rc : Int}
    (run : Steps faultEnv written (invoke (.fclose .knownHostsTmp) >>= fun _ =>
      invoke (.remove .knownHosts) >>= fun _ =>
        invoke (.rename .knownHostsTmp .knownHosts) >>= fun renamed =>
          if (!renamed) = true then return (-1 : Int) else return 0) trace after (.ret rc)) :
    ∃ closed removed renamed shut, trace = [⟨.fclose .knownHostsTmp, closed⟩,
        ⟨.remove .knownHosts, removed⟩, ⟨.rename .knownHostsTmp .knownHosts, renamed⟩] ∧
      Wrote .knownHostsTmp [] written shut ∧ rc = (if renamed then 0 else -1) ∧
      (removed = true → (shut.disk .knownHosts).isSome) ∧
      (renamed = true → (shut.disk .knownHostsTmp).isSome ∧
        (removed = true ∨ shut.disk .knownHosts = none)) ∧
      after.lost = shut.lost ∧ after.disk .knownHosts =
        if renamed then shut.disk .knownHostsTmp
        else if removed then none else shut.disk .knownHosts := by
  obtain ⟨closed, shut, _, wrote, removing, rfl⟩ := run.perform_ret
  obtain ⟨removed, cleared, _, ⟨present, isCleared⟩, moving, rfl⟩ := removing.perform_ret
  obtain ⟨renamed, moved, _, ⟨free, isMoved⟩, last, rfl⟩ := moving.perform_ret
  cases renamed with
  | false =>
    obtain ⟨rfl, rfl, equal⟩ := last.of_ret
    cases equal
    obtain rfl : after = cleared := isMoved
    refine ⟨closed, removed, false, shut, rfl, wrote_fclose wrote, rfl, present, by simp, ?_, ?_⟩
    · cases removed <;> rw [isCleared] <;> rfl
    · cases removed <;> simp [isCleared]
  | true =>
    obtain ⟨rfl, rfl, equal⟩ := last.of_ret
    cases equal
    obtain ⟨source, target⟩ := free rfl
    refine ⟨closed, removed, true, shut, rfl, wrote_fclose wrote, rfl, present, fun _ => ?_, ?_, ?_⟩
    · cases removed with
      | false => exact ⟨by simpa [isCleared] using source, .inr (by simpa [isCleared] using target)⟩
      | true => exact ⟨by simpa [isCleared] using source, .inl rfl⟩
    · cases removed <;> rw [isMoved, isCleared] <;> rfl
    · cases removed <;> simp [isMoved, isCleared]

/-- Every run of `update_known_hosts_file` ends so. -/
theorem updateEnds_of_steps {start after : Faulty} {trace : List (Event Answer)} {rc : Int}
    (run : Steps faultEnv start (updateKnownHostsFile hostport fp) trace after (.ret rc)) :
    UpdateEnds start hostport fp trace rc after := by
  unfold updateKnownHostsFile at run
  obtain ⟨input, found, _, ⟨read, isFound⟩, opening, rfl⟩ := run.perform_ret
  obtain rfl : start = found := isFound.symm
  obtain ⟨opened, ready, _, isReady, copying, rfl⟩ := opening.perform_ret
  cases opened with
  | false =>
    obtain ⟨rfl, rfl, equal⟩ := copying.of_ret
    cases equal
    obtain rfl : start = after := isReady.symm
    exact .unopened input
  | true =>
    obtain rfl : start.opened .knownHostsTmp .write = ready := isReady.symm
    rw [if_neg (by simp)] at copying
    obtain ⟨replaced, front, back, copied, copy, rest, rfl⟩ := copying.bind_ret
    obtain ⟨isReplaced, wrote, puts⟩ := wrote_copyKnownHosts copy
    rw [Bool.false_or] at isReplaced
    cases replaced with
    | true =>
      rw [if_neg (by simp)] at rest
      obtain ⟨closed, removed, renamed, shut, rfl, shutting, rfl, present, free, lost, stored⟩ :=
        moved_of_steps rest
      refine .moved input read front puts shut closed removed renamed ?_ present free after lost
        stored
      rw [rewritten, ← isReplaced, if_pos rfl]
      exact wrote.trans shutting
    | false =>
      rw [if_pos (by simp)] at rest
      obtain ⟨put, recorded, _, answered, last, rfl⟩ := rest.perform_ret
      obtain ⟨closed, removed, renamed, shut, rfl, shutting, rfl, present, free, lost, stored⟩ :=
        moved_of_steps last
      have wrotes : ∀ event ∈ front ++ [⟨.fputs .knownHostsTmp (recordText hostport fp), put⟩],
          ∃ output, event.op = .fputs .knownHostsTmp output := by
        intro event member
        rcases List.mem_append.mp member with copied | recorded
        · exact puts event copied
        · exact ⟨_, by rw [List.mem_singleton.mp recorded]⟩
      have ends := @UpdateEnds.moved start hostport fp input read _ wrotes shut closed removed
        renamed ?_ present free after lost stored
      · simpa using ends
      · rw [rewritten, ← isReplaced, if_neg (by simp)]
        simpa using (wrote.trans (wrote_fputs answered)).trans shutting

/-! ### Failing updates -/

/-- An update did what its result says: after -1 the store has its previous text, and after 0 the
text with the entries of the key replaced. -/
def Reported (start after : Faulty) (hostport fp : Text) (rc : Int) : Prop :=
  (rc = -1 → after.disk .knownHosts = start.disk .knownHosts) ∧
    (rc = 0 → after.disk .knownHosts =
      some (replacedLines hostport fp (storePieces (start.disk .knownHosts))))

/-- The failures of a run spare the store: neither the removing nor the renaming took place; or the
renaming did, no byte was lost, and either the store was read and no line that is kept has a NUL,
or there was nothing in it to lose but one entry for the key. -/
def Spared (start after : Faulty) (hostport : Text) (trace : List (Event Answer)) : Prop :=
  (⟨.remove .knownHosts, true⟩ ∉ trace ∧ ⟨.rename .knownHostsTmp .knownHosts, true⟩ ∉ trace) ∨
    (⟨.rename .knownHostsTmp .knownHosts, true⟩ ∈ trace ∧ after.lost = start.lost ∧
      ((⟨.fopenRead .knownHosts, start.disk .knownHosts⟩ ∈ trace ∧
          ∀ line ∈ storePieces (start.disk .knownHosts), holds hostport line = false → 0 ∉ line) ∨
        ((storePieces (start.disk .knownHosts)).length ≤ 1 ∧
          ∀ line ∈ storePieces (start.disk .knownHosts), holds hostport line = true)))

theorem ne_nil_of_mem_storePieces {store : Option Text} {line : Text}
    (member : line ∈ storePieces store) : line ≠ [] := by
  have front : storePieces store = pieces lineSize (store.getD []) := by
    cases store <;> rfl
  obtain ⟨lines, rest, -, complete, -, -, cut⟩ := pieces_cut lineSize_room (store.getD [])
  rw [front, cut, List.mem_append] at member
  rcases member with inLines | last
  · exact (complete line inLines).ne_nil lineSize_room
  · split at last
    · cases last
    · rename_i left
      exact List.mem_singleton.mp last ▸ left

/-- The copy is the updated store when no byte got lost and the lines were read. -/
theorem content_eq_iff {start written : Faulty} {input : Option Text}
    (read : input = none ∨ input = start.disk .knownHosts)
    (wrote : Wrote .knownHostsTmp (rewritten hostport fp (storePieces input))
      (start.opened .knownHostsTmp .write) written) :
    written.content .knownHostsTmp =
        replacedLines hostport fp (storePieces (start.disk .knownHosts)) ↔
      written.lost = start.lost ∧
        ((start.disk .knownHosts = input ∧
          ∀ line ∈ storePieces (start.disk .knownHosts), holds hostport line = false → 0 ∉ line) ∨
        ((storePieces (start.disk .knownHosts)).length ≤ 1 ∧
          ∀ line ∈ storePieces (start.disk .knownHosts), holds hostport line = true)) := by
  have empty : (start.opened .knownHostsTmp .write).content .knownHostsTmp = [] :=
    start.content_put_self .knownHostsTmp []
  have lost : (start.opened .knownHostsTmp .write).lost = start.lost := rfl
  have size := wrote.size
  have whole := wrote.whole
  have ledger := wrote.ledger
  rw [empty, lost] at size
  rw [empty, lost, List.nil_append] at whole
  rw [lost] at ledger
  -- nothing the loop copies is longer than the updated store
  have most : (rewritten hostport fp (storePieces input)).length ≤
      (replacedLines hostport fp (storePieces (start.disk .knownHosts))).length := by
    rcases read with rfl | rfl
    · exact length_record_le _
    · exact length_rewritten_le _
  have only := @replacedLines_eq_record_iff hostport fp (storePieces (start.disk .knownHosts))
    fun _ => ne_nil_of_mem_storePieces
  have copied := @rewritten_eq_iff hostport fp (storePieces (start.disk .knownHosts))
  constructor
  · intro same
    have kept : written.lost = start.lost := by
      rw [same] at size
      rw [List.length_nil] at size
      omega
    refine ⟨kept, ?_⟩
    rw [whole kept] at same
    rcases read with rfl | rfl
    · exact .inr (only.mp same.symm)
    · exact .inl ⟨rfl, copied.mp same⟩
  · rintro ⟨kept, ⟨rfl, nulFree⟩ | trivialStore⟩
    · rw [whole kept]
      exact copied.mpr nulFree
    · rw [whole kept]
      rcases read with rfl | rfl
      · exact (only.mpr trivialStore).symm
      · exact copied.mpr fun line member other => by
          rw [trivialStore.2 line member] at other
          cases other

/-- The answers of the calls that put the copy in the place of the store, among the events of an
update. -/
theorem mem_moved {input : Option Text} {writes : List (Event Answer)}
    (puts : ∀ event ∈ writes, ∃ output, event.op = .fputs .knownHostsTmp output)
    (closed removed renamed : Bool) (event : Event Answer)
    (other : ∀ output, event.op ≠ .fputs .knownHostsTmp output) :
    event ∈ (⟨.fopenRead .knownHosts, input⟩ :: ⟨.fopenWrite .knownHostsTmp .write, true⟩ ::
        (writes ++ [⟨.fclose .knownHostsTmp, closed⟩, ⟨.remove .knownHosts, removed⟩,
          ⟨.rename .knownHostsTmp .knownHosts, renamed⟩]) : List (Event Answer)) ↔
      event = ⟨.fopenRead .knownHosts, input⟩ ∨
      event = ⟨.fopenWrite .knownHostsTmp .write, true⟩ ∨
      event = ⟨.fclose .knownHostsTmp, closed⟩ ∨ event = ⟨.remove .knownHosts, removed⟩ ∨
      event = ⟨.rename .knownHostsTmp .knownHosts, renamed⟩ := by
  have silent : event ∉ writes := fun member => by
    obtain ⟨output, same⟩ := puts event member
    exact other output same
  simp only [List.mem_cons, List.mem_append, List.not_mem_nil, silent, or_false, false_or]

/-- A run of `update_known_hosts_file` in which any calls on files may fail does what its result
says exactly when its failures spare the store. -/
theorem updateKnownHostsFile_reported_iff (hostport fp : Text) (start after : Faulty)
    (trace : List (Event Answer)) (rc : Int)
    (run : Steps faultEnv start (updateKnownHostsFile hostport fp) trace after (.ret rc)) :
    Reported start after hostport fp rc ↔ Spared start after hostport trace := by
  cases updateEnds_of_steps run with
  | unopened input => exact iff_of_true ⟨fun _ => rfl, by simp⟩ (.inl ⟨by simp, by simp⟩)
  | moved input read writes puts written closed removed renamed wrote present free _ lost stored =>
    have kept := (wrote.frame .knownHosts (by decide)).trans
      (start.disk_opened_of_ne (show Path.knownHosts ≠ .knownHostsTmp by decide) .write)
    have copied := content_eq_iff read wrote
    rw [kept] at present free stored
    rw [Reported, Spared, mem_moved puts closed removed renamed _ (by simp),
      mem_moved puts closed removed renamed _ (by simp),
      mem_moved puts closed removed renamed _ (by simp), lost]
    simp only [Event.mk.injEq, reduceCtorEq, false_and, false_or, or_false, true_and, heq_eq_eq]
    cases renamed with
    | true =>
      obtain ⟨copy, source⟩ := Option.isSome_iff_exists.mp (free rfl).1
      have content : written.content .knownHostsTmp = copy := by rw [Faulty.content, source]; rfl
      rw [if_pos rfl, source] at stored
      rw [content] at copied
      simpa [stored] using copied
    | false =>
      rw [if_neg (by simp)] at stored
      cases removed with
      | true =>
        obtain ⟨content, isSome⟩ := Option.isSome_iff_exists.mp (present rfl)
        simp [stored, isSome]
      | false => simp [stored]

/-- An update in which nothing reaches the copy, and the store can neither be removed nor replaced:
the result is -1, and the store is what it was. -/
theorem updateKnownHostsFile_reported_failing :
    let store := text "a:1 SHA256 0\n"
    let start : Faulty := ⟨fun path => if path = .knownHosts then some store else none, 0, 0⟩
    ∃ trace after,
      Steps faultEnv start (updateKnownHostsFile (text "a:1") (text "1")) trace after (.ret (-1)) ∧
      after.lost = 13 ∧ after.disk .knownHosts = some store ∧
      Reported start after (text "a:1") (text "1") (-1) := by
  intro store start
  let ready := start.opened .knownHostsTmp .write
  let record := copyLine (text "a:1") (text "1") store
  let written := ready.write .knownHostsTmp record []
  let shut := written.close .knownHostsTmp (written.content .knownHostsTmp)
  have one : storePieces (some store) = [store] := by decide
  have held : holds (text "a:1") store = true := by decide
  have failing : faultEnv ready (.fputs .knownHostsTmp record) false written :=
    ⟨[], List.nil_prefix, by simp, rfl⟩
  have copying : Steps faultEnv ready
      (copyKnownHosts (text "a:1") (text "1") (storePieces (some store)) false)
      [⟨.fputs .knownHostsTmp record, false⟩] written (.ret true) := by
    rw [one, copyKnownHosts_cons, held]
    exact .perform_step failing (.refl _ _)
  have opening : faultEnv start (.fopenWrite .knownHostsTmp .write) true ready := rfl
  have keeping : faultEnv shut (.remove .knownHosts) false shut := ⟨by simp, rfl⟩
  have staying : faultEnv shut (.rename .knownHostsTmp .knownHosts) false shut := ⟨by simp, rfl⟩
  have run : Steps faultEnv start (updateKnownHostsFile (text "a:1") (text "1"))
      (⟨.fopenRead .knownHosts, some store⟩ :: ⟨.fopenWrite .knownHostsTmp .write, true⟩ ::
        ([⟨.fputs .knownHostsTmp record, false⟩] ++ [⟨.fclose .knownHostsTmp, true⟩,
          ⟨.remove .knownHosts, false⟩, ⟨.rename .knownHostsTmp .knownHosts, false⟩])) shut
      (.ret (-1)) := by
    unfold updateKnownHostsFile
    refine .perform_step ⟨.inr rfl, rfl⟩ (.perform_step opening ?_)
    rw [if_neg (by simp)]
    refine copying.bind ?_
    rw [if_neg (by simp)]
    exact .perform_step (faultEnv_fclose written _) (.perform_step keeping
      (.perform_step staying (.refl _ _)))
  exact ⟨_, shut, run, by decide, rfl, (updateKnownHostsFile_reported_iff _ _ start shut _ (-1)
    run).mpr (.inl ⟨by simp, by simp⟩)⟩

/-- A failing rename leaves no store behind. -/
theorem updateKnownHostsFile_rename_fails :
    let store := text "a:1 SHA256 0\n"
    ∃ trace after,
      Steps faultEnv ⟨fun path => if path = .knownHosts then some store else none, 0, 0⟩
        (updateKnownHostsFile (text "a:1") (text "1")) trace after (.ret (-1)) ∧
      after.disk .knownHosts = none := by
  intro store
  let start : Faulty := ⟨fun path => if path = .knownHosts then some store else none, 0, 0⟩
  let ready := start.opened .knownHostsTmp .write
  let record := copyLine (text "a:1") (text "1") store
  let written := ready.write .knownHostsTmp record record
  let shut := written.close .knownHostsTmp (written.content .knownHostsTmp)
  let after := shut.put .knownHosts none
  have one : storePieces (some store) = [store] := by decide
  have held : holds (text "a:1") store = true := by decide
  have copying : Steps faultEnv ready
      (copyKnownHosts (text "a:1") (text "1") (storePieces (some store)) false)
      [⟨.fputs .knownHostsTmp record, true⟩] written (.ret true) := by
    rw [one, copyKnownHosts_cons, held]
    exact .perform_step (faultEnv_fputs ready _ record) (.refl _ _)
  have opening : faultEnv start (.fopenWrite .knownHostsTmp .write) true ready := rfl
  have removing : faultEnv shut (.remove .knownHosts) true after := ⟨fun _ => rfl, rfl⟩
  have staying : faultEnv after (.rename .knownHostsTmp .knownHosts) false after := ⟨by simp, rfl⟩
  refine ⟨⟨.fopenRead .knownHosts, some store⟩ :: ⟨.fopenWrite .knownHostsTmp .write, true⟩ ::
      ([⟨.fputs .knownHostsTmp record, true⟩] ++ [⟨.fclose .knownHostsTmp, true⟩,
        ⟨.remove .knownHosts, true⟩, ⟨.rename .knownHostsTmp .knownHosts, false⟩]),
    after, ?_, shut.disk_put_self .knownHosts none⟩
  unfold updateKnownHostsFile
  refine .perform_step ⟨.inr rfl, rfl⟩ (.perform_step opening ?_)
  rw [if_neg (by simp)]
  refine copying.bind ?_
  rw [if_neg (by simp)]
  exact .perform_step (faultEnv_fclose written _) (.perform_step removing
    (.perform_step staying (.refl _ _)))

end Nosgem
