/-
This file proves that the trust store refines a finite map. The map is the
purpose of the store, stated without files: a key is trusted with the print it
was last approved with, a matching print passes silently, and every other print
asks. The store is a text that a reader loop parses, an append extends and a
copy through a temporary file rewrites; the representation invariant is that the
text is the records of some entries with distinct keys, and every run of
`check_known_host` keeps it while the map takes the step of the abstract model.
-/

import Nosgem.Footprint
import Nosgem.Records
import Mathlib.Data.List.Nodup

namespace Nosgem

open CText Interaction

/-! ### Trust on first use -/

section TrustMap

variable {Key Print : Type} [DecidableEq Key]

/-- One check of a key and a print, with the answers it took from the user and its result. -/
inductive TrustStep (approves : Option Text → Bool) (trusted : Key → Option Print) (key : Key)
    (print : Print) : List (Option Text) → Int → (Key → Option Print) → Prop where
  | known (recorded : trusted key = some print) :
      TrustStep approves trusted key print [] 0 trusted
  | approved (answer : Option Text) (other : trusted key ≠ some print)
      (yes : approves answer = true) :
      TrustStep approves trusted key print [answer] 0 (Function.update trusted key (some print))
  | refused (answer : Option Text) (other : trusted key ≠ some print)
      (no : approves answer = false) :
      TrustStep approves trusted key print [answer] (-1) trusted

/-- A check that asks and returns 0 has been approved. -/
theorem TrustStep.approves_of_zero {approves : Option Text → Bool}
    {trusted next : Key → Option Print}
    {key : Key} {print : Print} {asked : List (Option Text)} {rc : Int}
    (step : TrustStep approves trusted key print asked rc next) {answer : Option Text}
    (asks : asked = [answer]) (zero : rc = 0) : approves answer = true := by
  cases step with
  | known => cases asks
  | approved other new yes => exact List.singleton_inj.mp asks ▸ yes
  | refused => cases zero

end TrustMap

/-! ### Peers and records -/

/-- A host and a port as a connection has them: the host is printable and free of blanks, does not
start like a comment, and the key fits its buffer. -/
structure Peer where
  host : Text
  port : Nat
  printable : ∀ c ∈ host, 33 ≤ c ∧ c ≤ 126
  noComment : host.head? ≠ some hash
  fits : (hostportText host port).length ≤ 255

def Peer.hostport (peer : Peer) : Text := hostportText peer.host peer.port

/-- Keys are compared up to letter case. -/
def Peer.key (peer : Peer) : Text := fold peer.hostport

/-- An entry the browser has written. -/
structure TrustRecord where
  peer : Peer
  digest : Digest

def TrustRecord.key (record : TrustRecord) : Text := record.peer.key

def TrustRecord.fp (record : TrustRecord) : Text := fingerprintText record.digest

def TrustRecord.text (record : TrustRecord) : Text := recordText record.peer.hostport record.fp

def TrustRecord.entry (record : TrustRecord) : KnownHost :=
  ⟨record.peer.hostport, CText.text "SHA256", record.fp⟩

theorem Peer.solid (peer : Peer) : Solid peer.host := fun c member =>
  isSpace_of_lt (UInt8.lt_of_lt_of_le (by decide) (peer.printable c member).1)

theorem Peer.nulFree (peer : Peer) : 0 ∉ peer.host := fun member =>
  absurd (peer.printable 0 member).1 (by decide)

theorem Peer.noHash (peer : Peer) : peer.hostport.head? ≠ some hash :=
  noHash_hostportText peer.noComment peer.port

theorem Peer.writable (peer : Peer) {fp : Text} (print : HexPrint fp) :
    Writable peer.hostport fp :=
  print.writable (solid_hostportText peer.solid _) (by simp [Peer.hostport, hostportText])
    peer.fits (nulFree_hostportText peer.nulFree _)

theorem TrustRecord.writable (record : TrustRecord) : Writable record.peer.hostport record.fp :=
  record.peer.writable (hexPrint_fingerprintText record.digest)

theorem TrustRecord.complete (record : TrustRecord) : Complete lineSize record.text :=
  record.writable.complete

theorem TrustRecord.entryOf_text (record : TrustRecord) :
    entryOf record.text = some record.entry := by
  rw [TrustRecord.text, record.writable.entryOf_recordText, if_neg record.peer.noHash]
  rfl

/-! ### The representation -/

/-- The text of a store is the records of a list of entries. -/
def Spells (store : Option Text) (records : List TrustRecord) : Prop :=
  store.getD [] = records.flatMap TrustRecord.text

theorem Spells.storePieces {store : Option Text} {records : List TrustRecord}
    (spells : Spells store records) : storePieces store = records.map TrustRecord.text := by
  have front : Nosgem.storePieces store = pieces lineSize (store.getD []) := by
    cases store <;> rfl
  rw [front, spells, List.flatMap]
  refine pieces_flatten lineSize_room fun line member => ?_
  obtain ⟨record, -, rfl⟩ := List.mem_map.mp member
  exact record.complete

theorem Spells.entries {store : Option Text} {records : List TrustRecord}
    (spells : Spells store records) : entries store = records.map TrustRecord.entry := by
  rw [Nosgem.entries, spells.storePieces, List.filterMap_map]
  exact (List.filterMap_congr fun record _ => record.entryOf_text).trans
    (congrFun List.filterMap_eq_map records)

/-- The store parses back to a map: its entries are SHA-256 entries, one for each key of the map,
with the fingerprint the map has for the key. -/
structure ParsesTo (store : Option Text) (trusted : Text → Option Text) : Prop where
  oneEach : ((entries store).map fun known => fold known.hostport).Nodup
  algorithm : ∀ known ∈ entries store, known.algo = text "SHA256"
  exact : ∀ key fp, trusted key = some fp ↔
    ∃ known ∈ entries store, fold known.hostport = key ∧ known.fp = fp

/-- The representation invariant: records with distinct keys, which are the map. -/
structure Represents (store : Option Text) (trusted : Text → Option Text) : Prop where
  spelled : ∃ records, Spells store records ∧ (records.map TrustRecord.key).Nodup ∧
    ∀ key fp, trusted key = some fp ↔ ∃ record ∈ records, record.key = key ∧ record.fp = fp

theorem Represents.parsesTo {store : Option Text} {trusted : Text → Option Text}
    (represents : Represents store trusted) : ParsesTo store trusted := by
  obtain ⟨records, spells, distinct, exact⟩ := represents.spelled
  refine ⟨?_, ?_, fun key fp => ?_⟩
  · rw [spells.entries, List.map_map]
    exact distinct
  · rw [spells.entries]
    intro known member
    obtain ⟨record, -, rfl⟩ := List.mem_map.mp member
    rfl
  · simp only [exact, spells.entries, List.mem_map, exists_exists_and_eq_and]
    rfl

/-- The empty map is a missing store. -/
theorem represents_none : Represents none fun _ => none :=
  ⟨[], rfl, List.nodup_nil, by simp⟩

theorem holds_text (hostport : Text) (record : TrustRecord) :
    holds hostport record.text = true ↔ record.key = fold hostport := by
  simp only [holds, record.entryOf_text, Option.any_some, strIEq_iff]
  rfl

theorem Spells.lookup_isSome {store : Option Text} {records : List TrustRecord}
    (spells : Spells store records) (hostport : Text) :
    (lookup store hostport).isSome ↔ ∃ record ∈ records, record.key = fold hostport := by
  simp only [isSome_lookup, spells.storePieces, List.any_eq_true, List.mem_map,
    exists_exists_and_eq_and, holds_text]

/-- The store carries a fingerprint exactly for the keys the map trusts with it. -/
theorem Represents.carries_iff {store : Option Text} {trusted : Text → Option Text}
    (represents : Represents store trusted) (hostport : Text) (digest : Digest) :
    Carries store hostport (fingerprintText digest) ↔
      trusted (fold hostport) = some (fingerprintText digest) := by
  obtain ⟨records, spells, -, exact⟩ := represents.spelled
  have found {known : KnownHost} (first : lookup store hostport = some known) :
      ∃ record ∈ records, record.key = fold hostport ∧ record.entry = known := by
    have member := List.mem_of_find?_eq_some first
    have same := List.find?_some first
    rw [spells.entries] at member
    obtain ⟨record, inRecords, rfl⟩ := List.mem_map.mp member
    exact ⟨record, inRecords, (strIEq_iff _ _).mp same, rfl⟩
  rw [Nosgem.carries_iff, exact]
  constructor
  · rintro ⟨known, first, -, agrees⟩
    obtain ⟨record, member, key, rfl⟩ := found first
    exact ⟨record, member, key, fold_fingerprintText_injective agrees⟩
  · rintro ⟨record, member, key, print⟩
    obtain ⟨known, first⟩ := Option.isSome_iff_exists.mp
      ((spells.lookup_isSome hostport).mpr ⟨record, member, key⟩)
    obtain ⟨other, memberOther, keyOther, rfl⟩ := found first
    -- both records are for the key, so the map gives both the same fingerprint
    have agree : some other.fp = some (fingerprintText digest) :=
      ((exact _ _).mpr ⟨other, memberOther, keyOther, rfl⟩).symm.trans
        ((exact _ _).mpr ⟨record, member, key, print⟩)
    exact ⟨_, first, rfl, congrArg fold (Option.some.inj agree)⟩

theorem TrustRecord.nulFree (record : TrustRecord) : 0 ∉ record.text := by
  rw [TrustRecord.text, recordText_eq, List.mem_append, not_or]
  exact ⟨record.writable.nulFree, by decide⟩

/-- The record that stands for another one after an approval. -/
def TrustRecord.approve (new record : TrustRecord) : TrustRecord :=
  if record.key = new.key then new else record

theorem TrustRecord.key_approve (new record : TrustRecord) :
    (new.approve record).key = record.key := by
  unfold TrustRecord.approve
  split
  · rename_i same
    exact same.symm
  · rfl

/-- What the copying loop puts out for a record. -/
theorem copyLine_text (new record : TrustRecord) :
    copyLine new.peer.hostport new.fp record.text = (new.approve record).text := by
  unfold copyLine TrustRecord.approve
  by_cases same : record.key = new.key
  · rw [if_pos ((holds_text _ _).mpr same), if_pos same]
    rfl
  · rw [if_neg (mt (holds_text _ _).mp same), if_neg same, cString_eq_self record.nulFree]

/-- The text of the store after an approval. -/
theorem Spells.storeAfter {store : Option Text} {records : List TrustRecord}
    (spells : Spells store records) (new : TrustRecord) :
    Spells (some (storeAfter store new.peer.hostport new.fp))
      (if ∃ record ∈ records, record.key = new.key then records.map new.approve
        else records ++ [new]) := by
  have known : (lookup store new.peer.hostport).isSome ↔
      ∃ record ∈ records, record.key = new.key := spells.lookup_isSome new.peer.hostport
  unfold Nosgem.storeAfter Spells
  cases found : lookup store new.peer.hostport with
  | none =>
    rw [found] at known
    rw [if_neg fun present => by simpa using known.mpr present, List.flatMap_append, ← spells]
    simp [TrustRecord.text]
  | some first =>
    rw [found] at known
    rw [if_pos (known.mp rfl), Option.getD_some, spells.storePieces]
    have replaced : (records.map TrustRecord.text).any (holds new.peer.hostport) = true := by
      rw [← spells.storePieces, ← isSome_lookup, found]
      rfl
    simp only [rewritten, replaced, if_true, List.append_nil, List.flatMap_map, copyLine_text]

/-- An approval is the update of the map. -/
theorem Represents.approve {store : Option Text} {trusted : Text → Option Text}
    (represents : Represents store trusted) (new : TrustRecord) :
    Represents (some (storeAfter store new.peer.hostport new.fp))
      (Function.update trusted new.key (some new.fp)) := by
  obtain ⟨records, spells, distinct, exact⟩ := represents.spelled
  have spelled := spells.storeAfter new
  split at spelled
  · rename_i present
    refine ⟨records.map new.approve, spelled, ?_, fun key fp => ?_⟩
    · rw [List.map_map]
      exact (List.map_congr_left fun record _ => new.key_approve record) ▸ distinct
    · simp only [List.mem_map, exists_exists_and_eq_and, new.key_approve]
      by_cases same : key = new.key
      · subst same
        rw [Function.update_self]
        constructor
        · intro equal
          obtain ⟨record, member, key⟩ := present
          exact ⟨record, member, key, by
            rw [TrustRecord.approve, if_pos key]
            exact Option.some.inj equal⟩
        · rintro ⟨record, member, key, print⟩
          rw [TrustRecord.approve, if_pos key] at print
          rw [print]
      · rw [Function.update_of_ne same, exact]
        refine exists_congr fun record => and_congr_right fun _ => and_congr_right fun isKey => ?_
        rw [TrustRecord.approve, if_neg (isKey ▸ same)]
  · rename_i absent
    have fresh (record : TrustRecord) (member : record ∈ records) : record.key ≠ new.key :=
      fun same => absent ⟨record, member, same⟩
    refine ⟨records ++ [new], spelled, ?_, fun key fp => ?_⟩
    · rw [List.map_append, List.nodup_append]
      refine ⟨distinct, List.nodup_singleton _, ?_⟩
      intro old oldMember key keyMember
      obtain ⟨record, member, rfl⟩ := List.mem_map.mp oldMember
      rw [List.map_singleton, List.mem_singleton] at keyMember
      exact keyMember ▸ fresh record member
    · simp only [List.mem_append, List.mem_singleton, or_and_right, exists_or, exists_eq_left]
      by_cases same : key = new.key
      · subst same
        rw [Function.update_self]
        constructor
        · exact fun equal => .inr ⟨rfl, Option.some.inj equal⟩
        · rintro (⟨record, member, key, -⟩ | ⟨-, print⟩)
          · exact absurd key (fresh record member)
          · rw [print]
      · rw [Function.update_of_ne same, exact]
        constructor
        · exact .inl
        · rintro (recorded | ⟨key, -⟩)
          · exact recorded
          · exact absurd key.symm same

/-! ### Runs -/

/-- One finished call of `check_known_host`: its arguments, the answers it took, its result, and the
store after it. -/
structure Checked where
  peer : Peer
  digest : Digest
  asked : List (Option Text)
  rc : Int
  store : Option Text

/-- Sequences of calls of `check_known_host` in which no call of the standard library fails. -/
inductive Checks : Desk → List Checked → Desk → Prop where
  | nil (desk : Desk) : Checks desk [] desk
  | cons {desk middle final : Desk} {history : List Checked} {trace : List (Event Answer)}
      (call : Checked) (errMax : Nat) (err : Text)
      (run : Steps fileEnv desk (checkKnownHost call.peer.host call.peer.port
        (fingerprintText call.digest) errMax) trace middle (.ret (call.rc, err)))
      (asked : middle.asked = desk.asked ++ call.asked)
      (store : middle.disk .knownHosts = call.store)
      (rest : Checks middle history final) : Checks desk (call :: history) final

/-- The abstract model follows a sequence of calls: each call is a step of the map, and after it the
store parses back to the map. -/
inductive Follows (approves : Option Text → Bool) :
    (Text → Option Text) → List Checked → (Text → Option Text) → Prop where
  | nil (trusted : Text → Option Text) : Follows approves trusted [] trusted
  | cons {trusted next final : Text → Option Text} {history : List Checked} (call : Checked)
      (step : TrustStep approves trusted call.peer.key (fingerprintText call.digest) call.asked
        call.rc next)
      (parses : ParsesTo call.store next) (rest : Follows approves next history final) :
      Follows approves trusted (call :: history) final

/-- An answer that starts with y or Y. -/
def startsWithY (answer : Option Text) : Bool := answer.any saysYes

/-- An answer that starts with a small y. -/
def startsWithSmallY (answer : Option Text) : Bool :=
  answer.any fun line => line.head? == some (byte 'y')

/-- One call takes one step of the map and keeps the representation. -/
theorem Represents.step {desk after : Desk} {trusted : Text → Option Text}
    (represents : Represents (desk.disk .knownHosts) trusted) {peer : Peer} {digest : Digest}
    {rc : Int} (ends : CheckEnds desk peer.hostport (fingerprintText digest) rc after) :
    ∃ asked next, after.asked = desk.asked ++ asked ∧
      TrustStep startsWithY trusted peer.key (fingerprintText digest) asked
        rc next ∧
      Represents (after.disk .knownHosts) next := by
  have carries := represents.carries_iff peer.hostport digest
  cases ends with
  | known recorded =>
    exact ⟨[], trusted, by simp, .known (carries.mp recorded), represents⟩
  | unsupported known found other =>
    -- every entry of a represented store is a SHA-256 entry
    have algorithm := represents.parsesTo.algorithm known (List.mem_of_find?_eq_some found)
    exact absurd (by rw [algorithm, strIEq_iff]) other
  | refused answer absent no =>
    exact ⟨[answer], trusted, rfl, .refused answer (mt carries.mpr absent) no, represents⟩
  | accepted answer absent yes after asked stored =>
    refine ⟨[answer], _, asked, .approved answer (mt carries.mpr absent) yes, ?_⟩
    rw [stored]
    exact represents.approve ⟨peer, digest⟩

theorem Checks.follows {desk final : Desk} {history : List Checked}
    (checks : Checks desk history final) {trusted : Text → Option Text}
    (represents : Represents (desk.disk .knownHosts) trusted) :
    ∃ last, Follows startsWithY trusted history last := by
  induction checks generalizing trusted with
  | nil => exact ⟨trusted, .nil trusted⟩
  | cons call errMax err run asked store rest inductionHypothesis =>
    obtain ⟨answers, next, askedNext, step, kept⟩ := represents.step
      ((ends_checkKnownHost _ _ _ errMax _).post_of_steps run)
    rw [asked, List.append_cancel_left_eq] at askedNext
    subst askedNext
    obtain ⟨last, follows⟩ := inductionHypothesis kept
    exact ⟨last, .cons call step (store ▸ kept.parsesTo) follows⟩

/-- From a missing store, every sequence of checks is followed by the map. -/
theorem checks_follow (desk final : Desk) (missing : desk.disk .knownHosts = none)
    (history : List Checked) (checks : Checks desk history final) :
    ∃ last, Follows startsWithY (fun _ => none) history last :=
  checks.follows (missing ▸ represents_none)

/-- A first check that the user answers with a capital Y. -/
def capitalCheck : Checked where
  peer := ⟨text "h", 1965, by decide, by decide, by decide⟩
  digest := .replicate 32 0
  asked := [some [89, lf]]
  rc := 0
  store := some (recordText (hostportText (text "h") 1965) (fingerprintText (.replicate 32 0)))

theorem checks_capitalCheck : ∃ final, Checks ⟨fun _ => none, []⟩ [capitalCheck] final := by
  obtain ⟨_, final, run, asked, store⟩ := checkKnownHost_approval (text "h") (.replicate 32 0)
    ⟨[89, lf], by decide, by decide, by decide⟩ rfl
  exact ⟨final, .cons capitalCheck 128 [] run asked store (.nil final)⟩

/-- A check of a certificate that the store carries asks nothing. -/
theorem checkKnownHost_matches (host : Text) (port : Nat) (fp : Text) (errMax : Nat) {desk : Desk}
    (carries : Carries (desk.disk .knownHosts) (hostportText host port) fp) :
    ∃ trace err, Steps fileEnv desk (checkKnownHost host port fp errMax) trace desk
      (.ret (0, err)) := by
  obtain ⟨⟨rc, err⟩, trace, after, run, ended⟩ :=
    ((finishes_checkKnownHost ⟨0⟩ fp host port errMax).meets fileEnv_answers
      (ends_checkKnownHost host port fp errMax desk)).complete
  cases ended with
  | known _ => exact ⟨trace, err, run⟩
  | unsupported known found other =>
    obtain ⟨first, isFirst, algorithm, -⟩ := carries
    obtain rfl := Option.some.inj (found.symm.trans isFirst)
    exact absurd algorithm other
  | refused _ absent _ => exact absurd carries absent
  | accepted _ absent _ _ _ _ => exact absurd carries absent

section Changed

variable {host fp : Text} {port errMax : Nat} {desk : Desk} {known : KnownHost}

/-- About a certificate that has changed the user is asked. -/
theorem checkKnownHost_asks
    (found : lookup (desk.disk .knownHosts) (hostportText host port) = some known)
    (algorithm : strIEq known.algo (text "SHA256")) (differs : ¬ strIEq known.fp fp)
    (line : FgetsLine 16) :
    ∃ trace, Steps fileEnv desk (checkKnownHost host port fp errMax) trace
      (desk.ask (some line.bytes))
      (if !saysYes line.bytes then return (-1, tofuErr errMax "certificate changed")
      else updateKnownHostsFile (hostportText host port) fp >>= fun updated =>
        if updated ≠ 0 then return (-1, tofuErr errMax "failed to update known_hosts")
        else return (0, [])) := by
  obtain ⟨front, prompt⟩ := promptTrust_answers (hostportText host port) fp desk line
  refine ⟨⟨.fopenRead .knownHosts, desk.disk .knownHosts⟩ ::
    ⟨.print (text "WARNING: certificate fingerprint has changed for " ++ hostportText host port ++
      text "\n"), ()⟩ :: (front ++ []), ?_⟩
  unfold checkKnownHost
  refine .perform_step ⟨rfl, rfl⟩ ?_
  rw [findKnownHost_storePieces, found]
  dsimp only
  rw [if_neg (by simpa using algorithm), if_neg differs]
  exact .perform_step rfl (prompt.bind (.refl _ _))

theorem checkKnownHost_refuses
    (found : lookup (desk.disk .knownHosts) (hostportText host port) = some known)
    (algorithm : strIEq known.algo (text "SHA256")) (differs : ¬ strIEq known.fp fp)
    (line : FgetsLine 16) (no : saysYes line.bytes = false) :
    ∃ trace err, Steps fileEnv desk (checkKnownHost host port fp errMax) trace
      (desk.ask (some line.bytes)) (.ret (-1, err)) := by
  obtain ⟨trace, asks⟩ := @checkKnownHost_asks _ _ _ errMax _ _ found algorithm differs line
  rw [no] at asks
  exact ⟨trace, _, asks⟩

theorem checkKnownHost_replaces
    (found : lookup (desk.disk .knownHosts) (hostportText host port) = some known)
    (algorithm : strIEq known.algo (text "SHA256")) (differs : ¬ strIEq known.fp fp)
    (line : FgetsLine 16) (yes : saysYes line.bytes = true) :
    ∃ trace after err, Steps fileEnv desk (checkKnownHost host port fp errMax) trace after
        (.ret (0, err)) ∧
      after.asked = desk.asked ++ [some line.bytes] ∧
      after.disk .knownHosts = some (rewritten (hostportText host port) fp
        (storePieces (desk.disk .knownHosts))) := by
  obtain ⟨trace, asks⟩ := @checkKnownHost_asks _ _ _ errMax _ _ found algorithm differs line
  rw [yes] at asks
  obtain ⟨rc, back, after, update, rfl, asked, stored⟩ :=
    ((finishes_updateKnownHostsFile ⟨0⟩ (hostportText host port) fp).meets fileEnv_answers
      (ends_updateKnownHostsFile (hostportText host port) fp (desk.ask (some line.bytes)))).complete
  exact ⟨_, after, [], asks.append (update.bind (.refl _ _)), asked, stored⟩

end Changed

/-- Four checks of one host: its first use, the same certificate again, and another one, which the
user refuses first and then accepts. -/
def fourChecks : List Checked :=
  [capitalCheck, { capitalCheck with asked := [] },
    { capitalCheck with digest := .replicate 32 1, asked := [some (text "n\n")], rc := -1 },
    { capitalCheck with
      digest := .replicate 32 1
      asked := [some (text "y\n")]
      store := some (recordText (hostportText (text "h") 1965)
        (fingerprintText (.replicate 32 1))) }]

theorem checks_fourChecks : ∃ final, Checks ⟨fun _ => none, []⟩ fourChecks final := by
  obtain ⟨_, first, opens, asked, store⟩ := checkKnownHost_approval (text "h") (.replicate 32 0)
    ⟨[89, lf], by decide, by decide, by decide⟩ rfl
  let entry : KnownHost := ⟨hostportText (text "h") 1965, text "SHA256",
    fingerprintText (.replicate 32 0)⟩
  have found : lookup (first.disk .knownHosts) (hostportText (text "h") 1965) = some entry := by
    rw [store]
    decide
  have differs : ¬ strIEq entry.fp (fingerprintText (.replicate 32 1)) := by decide
  obtain ⟨_, _, matches'⟩ := checkKnownHost_matches (text "h") 1965
    (fingerprintText (.replicate 32 0)) 128 ⟨entry, found, by decide, by decide⟩
  obtain ⟨_, _, refuses⟩ := @checkKnownHost_refuses _ _ _ 128 _ _ found (by decide) differs
    ⟨text "n\n", by decide, by decide, by decide⟩ (by decide)
  obtain ⟨_, last, _, replaces, asked', stored⟩ := @checkKnownHost_replaces _ _ _ 128
    (first.ask (some (text "n\n"))) _ found (by decide) differs
    ⟨text "y\n", by decide, by decide, by decide⟩ (by decide)
  refine ⟨last, .cons _ 128 _ opens asked store (.cons _ 128 _ matches' (List.append_nil _).symm
    store (.cons _ 128 _ refuses rfl store (.cons _ 128 _ replaces asked' ?_ (.nil last))))⟩
  rw [stored, Desk.disk_ask, store]
  decide +kernel

theorem checks_follow_fourChecks :
    ∃ last, Follows startsWithY (fun _ => none) fourChecks last := by
  obtain ⟨final, checks⟩ := checks_fourChecks
  exact checks_follow ⟨fun _ => none, []⟩ final rfl fourChecks checks

/-- A capital Y is an approval too, so no map that only takes a small y for one follows the calls.
-/
theorem checks_not_follow_smallY :
    (∃ final, Checks ⟨fun _ => none, []⟩ [capitalCheck] final) ∧
      ¬ ∃ last, Follows startsWithSmallY (fun _ => none) [capitalCheck] last := by
  refine ⟨checks_capitalCheck, ?_⟩
  rintro ⟨last, follows⟩
  cases follows with
  | cons call step parses rest => exact absurd (step.approves_of_zero rfl rfl) (by decide)

end Nosgem
