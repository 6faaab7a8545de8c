/-
This file settles whether a first use is trusted only when it was recorded. The
first-use path appends the record of the host and returns 0 whatever the write
and the close of the file answer. What is in the store afterwards is a start of
the record behind the old text, and the next check of the host passes without a
question exactly when that start has all three words of the record: when no byte
got lost but, at most, the newline at the end.
-/

import Nosgem.Faults
import Nosgem.Footprint
import Nosgem.StoreAppend
import Nosgem.TrustStore

namespace Nosgem

open CText Interaction

/-! ### A silent check -/

/-- A check passes without a question exactly when the store carries the fingerprint. -/
theorem silent_iff_carries (host : Text) (port : Nat) (fp : Text) (errMax : Nat) (desk : Desk) :
    Returns fileEnv (checkKnownHost host port fp errMax)
        (fun done after => done.1 = 0 ∧ after = desk) desk ↔
      Carries (desk.disk .knownHosts) (hostportText host port) fp := by
  have ends := ends_checkKnownHost host port fp errMax desk
  constructor
  · intro returns
    obtain ⟨done, trace, after, run, zero, same⟩ := returns.complete
    subst same
    have ended := ends.post_of_steps run
    rw [zero] at ended
    cases ended with
    | known carries => exact carries
    | accepted answer _ _ _ asked _ => simp at asked
  · intro carries
    refine ((finishes_checkKnownHost ⟨0⟩ fp host port errMax).meets fileEnv_answers ends).mono ?_
    intro done after ended
    generalize done.1 = rc at ended
    cases ended with
    | known _ => exact ⟨rfl, rfl⟩
    | unsupported known found other =>
      obtain ⟨first, isFirst, algorithm, -⟩ := carries
      obtain rfl := Option.some.inj (found.symm.trans isFirst)
      exact absurd algorithm other
    | refused _ absent _ => exact absurd carries absent
    | accepted _ absent _ _ _ _ => exact absurd carries absent

/-! ### What a failing append leaves -/

variable {hostport fp : Text}

/-- A start of a record is one piece. -/
theorem pieces_start (writable : Writable hostport fp) {kept : Text}
    (leads : kept <+: recordText hostport fp) (some : kept ≠ []) :
    pieces lineSize kept = [kept] := by
  have record := writable.complete
  have recordSize := record.short
  rw [recordText_eq, List.prefix_concat_iff] at leads
  rcases leads with rfl | leads
  · rw [← recordText_eq]
    simpa [pieces_nil] using pieces_append lineSize_room record []
  · -- the start has no LF and leaves room for one
    refine pieces_short lineSize_room some (fun member => writable.noLf (leads.subset member)) ?_
    have shorter := leads.length_le
    rw [recordText_eq, List.length_append] at recordSize
    omega

/-- A start of a record that is read as an entry for it lacks at most the newline. -/
theorem length_le_of_entryOf (writable : Writable hostport fp) {kept : Text} {entry : KnownHost}
    (leads : kept <+: recordText hostport fp) (read : entryOf kept = some entry)
    (host : fold entry.hostport = fold hostport) (algo : fold entry.algo = fold (text "SHA256"))
    (print : fold entry.fp = fold fp) : (recordBody hostport fp).length ≤ kept.length := by
  rw [entryOf_eq fun member => nulFree_recordText writable (leads.subset member)] at read
  split at read
  · cases read
  rw [recordText_eq, List.prefix_concat_iff] at leads
  rcases leads with rfl | leads
  · rw [List.length_append]
    exact Nat.le_add_right _ _
  · have inks := ink_of_scanKnownHost read
    have hostSize := congrArg List.length host
    have algoSize := congrArg List.length algo
    have printSize := congrArg List.length print
    have word : (text "SHA256").length = 6 := by decide
    rw [length_fold, length_fold] at hostSize algoSize printSize
    rw [eq_recordBody_of_ink writable leads (by rw [ink_recordBody writable]; omega)]

/-- A start of a record behind newline-terminated lines carries the record when it has all of its
words. -/
theorem carries_start_iff (writable : Writable hostport fp) (noComment : hostport.head? ≠ some hash)
    {store : Option Text} (terminated : Terminated (store.getD []))
    (absent : lookup store hostport = none) {kept : Text}
    (leads : kept <+: recordText hostport fp) :
    Carries (some (store.getD [] ++ kept)) hostport fp ↔
      (recordText hostport fp).length ≤ kept.length + 1 := by
  have joined := entries_append terminated kept
  have single := pieces_start writable leads
  rw [recordText_eq, List.length_append, List.length_singleton, Nat.add_le_add_iff_right]
  constructor
  · intro carries
    obtain ⟨entry, found, algo, print⟩ := (carries_iff _ _ _).mp carries
    have host : fold entry.hostport = fold hostport :=
      (strIEq_iff _ _).mp (by simpa using List.find?_some found)
    have member := List.mem_of_find?_eq_some found
    rw [joined, List.mem_append] at member
    have inKept := member.resolve_left fun old => not_key_of_absent absent old host
    obtain ⟨line, inPieces, read⟩ := List.mem_filterMap.mp inKept
    have some : kept ≠ [] := by
      rintro rfl
      cases inPieces
    rw [single some, List.mem_singleton] at inPieces
    exact length_le_of_entryOf writable leads (inPieces ▸ read) host algo print
  · intro long
    have some : kept ≠ [] := by
      rintro rfl
      simp [recordBody, writable.keySome] at long
    obtain ⟨ending, white, shape⟩ : ∃ ending, (∀ c ∈ ending, isSpace c) ∧
        kept = recordBody hostport fp ++ ending := by
      rw [recordText_eq, List.prefix_concat_iff] at leads
      rcases leads with rfl | leads
      · exact ⟨[lf], by decide, rfl⟩
      · have whole := leads.eq_of_length (Nat.le_antisymm leads.length_le long)
        exact ⟨[], by simp, by rw [whole, List.append_nil]⟩
    have entry := @Writable.entryOf hostport fp writable [] ending (by simp) white
    rw [List.nil_append, List.nil_append, ← shape, if_neg noComment] at entry
    rw [single some, List.filterMap_cons_some entry, List.filterMap_nil] at joined
    exact (recorded_of_entries joined absent rfl rfl rfl (by simp)).1

theorem promptTrust_stays (hostport fp : Text) (state : Faulty) :
    Meets faultEnv (fun _ _ => True) (promptTrust hostport fp) (fun _ after => after = state)
      state := by
  refine ⟨trivial, ?_⟩
  rintro _ _ rfl
  refine ⟨trivial, ?_⟩
  rintro _ _ rfl
  refine ⟨trivial, ?_⟩
  rintro _ _ rfl
  refine ⟨trivial, ?_⟩
  rintro line _ rfl
  cases line <;> rfl

/-- What the first-use path leaves when it returns 0: a start of the record behind the old text, and
the rest counted as lost. -/
theorem append_of_steps (host : Text) (port : Nat) (fp : Text) (errMax : Nat)
    (start after : Faulty)
    (absent : lookup (start.disk .knownHosts) (hostportText host port) = none)
    (trace : List (Event Answer)) (err : Text)
    (run : Steps faultEnv start (checkKnownHost host port fp errMax) trace after (.ret (0, err))) :
    ∃ kept, kept <+: recordText (hostportText host port) fp ∧
      after.disk .knownHosts = some (start.content .knownHosts ++ kept) ∧
      after.lost + kept.length =
        start.lost + (recordText (hostportText host port) fp).length := by
  unfold checkKnownHost at run
  obtain ⟨input, found, _, ⟨read, isFound⟩, deciding, rfl⟩ := run.perform_ret
  obtain rfl : start = found := isFound.symm
  have search : lookup input (hostportText host port) = none := by
    rcases read with rfl | rfl
    · rfl
    · exact absent
  rw [findKnownHost_storePieces, search] at deciding
  obtain ⟨trusted, _, _, prompted, prompt, opening, rfl⟩ := deciding.bind_ret
  obtain rfl := (promptTrust_stays _ fp start).post_of_steps prompt
  cases trusted with
  | false =>
    obtain ⟨-, -, equal⟩ := opening.of_ret
    cases equal
  | true =>
    rw [if_neg (by simp)] at opening
    obtain ⟨opened, ready, _, isReady, writing, rfl⟩ := opening.perform_ret
    cases opened with
    | false =>
      obtain ⟨-, -, equal⟩ := writing.of_ret
      cases equal
    | true =>
      obtain rfl : prompted.opened .knownHosts .append = ready := isReady.symm
      rw [if_neg (by simp)] at writing
      obtain ⟨put, written, _, answered, closing, rfl⟩ := writing.perform_ret
      obtain ⟨closed, shut, _, shutting, last, rfl⟩ := closing.perform_ret
      obtain ⟨-, rfl, -⟩ := last.of_ret
      exact appended answered shutting

/-! ### Trust on first use -/

/-- A first use that returns 0, whatever fails, is recorded so that the next check passes without a
question exactly when at most one byte of the record got lost. -/
theorem checkKnownHost_first_iff (peer : Peer) (fp : Text) (print : HexPrint fp) (errMax : Nat)
    (start after : Faulty) (terminated : Terminated ((start.disk .knownHosts).getD []))
    (absent : lookup (start.disk .knownHosts) peer.hostport = none)
    (trace : List (Event Answer)) (err : Text)
    (run : Steps faultEnv start (checkKnownHost peer.host peer.port fp errMax) trace after
      (.ret (0, err))) :
    Returns fileEnv (checkKnownHost peer.host peer.port fp errMax)
        (fun done later => done.1 = 0 ∧ later = ⟨after.disk, []⟩) ⟨after.disk, []⟩ ↔
      after.lost ≤ start.lost + 1 := by
  obtain ⟨kept, leads, stored, ledger⟩ :=
    append_of_steps peer.host peer.port fp errMax start after absent trace err run
  have carries := carries_start_iff (peer.writable print) peer.noHash terminated absent leads
  have silent := silent_iff_carries peer.host peer.port fp errMax ⟨after.disk, []⟩
  rw [show (⟨after.disk, []⟩ : Desk).disk .knownHosts = _ from stored] at silent
  refine (silent.trans carries).trans ?_
  have size : (recordText peer.hostport fp).length =
      (recordText (hostportText peer.host peer.port) fp).length := rfl
  omega

/-- A first use of a host with an approving answer, of whose record only a start reaches the
store. -/
theorem checkKnownHost_keeps {fp kept : Text} (leads : kept <+: recordText (text "h:1965") fp) :
    ∃ trace after, Steps faultEnv ⟨fun _ => none, 0, 0⟩ (checkKnownHost (text "h") 1965 fp 128)
        trace after (.ret (0, [])) ∧
      after.disk .knownHosts = some kept ∧
      after.lost + kept.length = (recordText (text "h:1965") fp).length := by
  let start : Faulty := ⟨fun _ => none, 0, 0⟩
  let ready := start.opened .knownHosts .append
  let written := ready.write .knownHosts (recordText (text "h:1965") fp) kept
  let after := written.close .knownHosts (written.content .knownHosts)
  obtain ⟨asking, prompt⟩ : ∃ trace,
      Steps faultEnv start (promptTrust (text "h:1965") fp) trace start (.ret true) :=
    ⟨[⟨.print (text "TLS fingerprint for " ++ text "h:1965" ++ text ":\n"), ()⟩,
        ⟨.print (text "SHA256 " ++ fp ++ text "\n"), ()⟩,
        ⟨.print (text "Trust and save? (y/N): "), ()⟩,
        ⟨.fgetsStdin 16, some ⟨text "y\n", by decide, by decide, by decide⟩⟩],
      .perform_step rfl (.perform_step rfl (.perform_step rfl (.perform_step rfl (.refl _ _))))⟩
  have opening : faultEnv start (.fopenWrite .knownHosts .append) true ready := rfl
  have writing : faultEnv ready (.fputs .knownHosts (recordText (text "h:1965") fp)) false
    written := ⟨kept, leads, by simp, rfl⟩
  have key : hostportText (text "h") 1965 = text "h:1965" := by decide
  refine ⟨⟨.fopenRead .knownHosts, none⟩ :: (asking ++ [⟨.fopenWrite .knownHosts .append, true⟩,
    ⟨.fputs .knownHosts (recordText (text "h:1965") fp), false⟩, ⟨.fclose .knownHosts, true⟩]),
    after, ?_, ?_, ?_⟩
  · unfold checkKnownHost
    rw [key]
    refine .perform_step ⟨.inl rfl, rfl⟩ (prompt.bind ?_)
    rw [if_neg (by simp)]
    exact .perform_step opening (.perform_step writing
      (.perform_step (faultEnv_fclose written _) (.refl _ _)))
  · show some _ = some kept
    rw [Faulty.content_write, Faulty.content_append]
    rfl
  · have lost := ready.lost_write .knownHosts (recordText (text "h:1965") fp) kept
    have later := written.lost_close .knownHosts (written.content .knownHosts)
    have none : ready.lost = 0 := rfl
    have size := leads.length_le
    show after.lost + _ = _
    have same : after.lost = written.lost + 0 := by rw [later, Nat.sub_self]
    rw [same, show written.lost = _ from lost]
    omega

/-- A first use that loses only the newline of its record. -/
theorem checkKnownHost_first_newline :
    let fp := List.replicate 64 (byte '0')
    ∃ trace after, Steps faultEnv ⟨fun _ => none, 0, 0⟩ (checkKnownHost (text "h") 1965 fp 128)
        trace after (.ret (0, [])) ∧
      Returns fileEnv (checkKnownHost (text "h") 1965 fp 128)
        (fun done later => done.1 = 0 ∧ later = ⟨after.disk, []⟩) ⟨after.disk, []⟩ := by
  intro fp
  have leads : recordBody (text "h:1965") fp <+: recordText (text "h:1965") fp :=
    ⟨[lf], (recordText_eq _ _).symm⟩
  obtain ⟨trace, after, run, -, ledger⟩ := checkKnownHost_keeps leads
  rw [recordText_eq, List.length_append, List.length_singleton] at ledger
  exact ⟨trace, after, run, (checkKnownHost_first_iff ⟨text "h", 1965, by decide, by decide,
    by decide⟩ fp ⟨by decide, by decide⟩ 128 ⟨fun _ => none, 0, 0⟩ after (.inl rfl) rfl trace []
    run).mpr (by show after.lost ≤ 0 + 1; omega)⟩

/-- On a full disk the first use is trusted and nothing is recorded. -/
theorem checkKnownHost_first_full :
    let fp := List.replicate 64 (byte '0')
    ∃ trace after, Steps faultEnv ⟨fun _ => none, 0, 0⟩ (checkKnownHost (text "h") 1965 fp 128)
        trace after (.ret (0, [])) ∧
      ¬ Returns fileEnv (checkKnownHost (text "h") 1965 fp 128)
        (fun done later => done.1 = 0 ∧ later = ⟨after.disk, []⟩) ⟨after.disk, []⟩ := by
  intro fp
  obtain ⟨trace, after, run, stored, -⟩ := @checkKnownHost_keeps fp [] List.nil_prefix
  refine ⟨trace, after, run, fun silent => ?_⟩
  obtain ⟨known, found, -⟩ := (silent_iff_carries _ _ _ _ _).mp silent
  rw [show (⟨after.disk, []⟩ : Desk).disk .knownHosts = some [] from stored] at found
  cases found

end Nosgem
