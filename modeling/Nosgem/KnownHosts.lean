/-
This file reads `known_hosts.txt` as data: the entries its lines hold, and the
first entry for a key. The two loops of `tofu.c` over the file are written
separately; both are shown here to see the same entries, the lookup loop by
searching them and the copying loop by replacing the pieces that hold one for
the key.
-/

import Nosgem.Files
import Nosgem.Tofu

namespace Nosgem

open CText Interaction

/-! ### Keys -/

/-- Two texts are equal for `str_ieq` when they fold to the same text. -/
theorem strIEq_iff (a b : Text) : strIEq a b = true ↔ fold a = fold b := by
  induction a generalizing b with
  | nil => cases b <;> simp [strIEq]
  | cons c rest inductionHypothesis =>
    cases b with
    | nil => simp [strIEq]
    | cons d other => simp [strIEq, inductionHypothesis]

/-! ### Entries -/

/-- The entry a line of the store holds: a line that is empty or a comment, or that has fewer than
three words, holds none. -/
def entryOf (line : Text) : Option KnownHost :=
  if rstripNewline line = [] ∨ (rstripNewline line).head? = some hash then none
  else scanKnownHost (rstripNewline line)

/-- The entries of a store in the order of its lines. -/
def entries (store : Option Text) : List KnownHost := (storePieces store).filterMap entryOf

/-- The first entry of a store for a key. -/
def lookup (store : Option Text) (hostport : Text) : Option KnownHost :=
  (entries store).find? fun known => strIEq known.hostport hostport

/-- The lookup loop finds the first entry for the key. -/
theorem findKnownHost_eq (hostport : Text) (lines : List Text) :
    findKnownHost hostport lines =
      (lines.filterMap entryOf).find? fun known => strIEq known.hostport hostport := by
  induction lines with
  | nil => rfl
  | cons line rest inductionHypothesis =>
    unfold findKnownHost
    rw [List.filterMap_cons]
    by_cases skipped : rstripNewline line = [] ∨ (rstripNewline line).head? = some hash
    · simp only [entryOf, skipped, if_true]
      exact inductionHypothesis
    · simp only [entryOf, skipped, if_false]
      cases scanned : scanKnownHost (rstripNewline line) with
      | none => exact inductionHypothesis
      | some known =>
        rw [List.find?_cons]
        cases same : strIEq known.hostport hostport
        · simpa [same] using inductionHypothesis
        · simp [same]

theorem findKnownHost_storePieces (hostport : Text) (store : Option Text) :
    findKnownHost hostport (storePieces store) = lookup store hostport :=
  findKnownHost_eq hostport _

/-- The first entry of a store for a key carries a SHA-256 fingerprint. -/
def Carries (store : Option Text) (hostport fp : Text) : Prop :=
  ∃ known, lookup store hostport = some known ∧ strIEq known.algo (text "SHA256") ∧
    strIEq known.fp fp

theorem carries_iff (store : Option Text) (hostport fp : Text) :
    Carries store hostport fp ↔ ∃ known, lookup store hostport = some known ∧
      fold known.algo = fold (text "SHA256") ∧ fold known.fp = fold fp := by
  simp only [Carries, strIEq_iff]

/-! ### Writing -/

/-- A line holds an entry for a key. -/
def holds (hostport line : Text) : Bool :=
  (entryOf line).any fun known => strIEq known.hostport hostport

/-- What the copying loop puts out for a line. -/
def copyLine (hostport fp line : Text) : Text :=
  if holds hostport line then recordText hostport fp else cString line

/-- The text the copying loop and the record behind it make of the lines of a store. -/
def rewritten (hostport fp : Text) (lines : List Text) : Text :=
  lines.flatMap (copyLine hostport fp) ++
    if lines.any (holds hostport) then [] else recordText hostport fp

/-- The store after the fingerprint of a key has been accepted: the record is appended for a new
key, and for a known key the file is rewritten. -/
def storeAfter (store : Option Text) (hostport fp : Text) : Text :=
  match lookup store hostport with
  | none => store.getD [] ++ recordText hostport fp
  | some _ => rewritten hostport fp (storePieces store)

/-- One turn of the copying loop. -/
theorem copyKnownHosts_cons (hostport fp line : Text) (rest : List Text) (replaced : Bool) :
    copyKnownHosts hostport fp (line :: rest) replaced =
      (invoke (.fputs .knownHostsTmp (copyLine hostport fp line)) >>= fun _ =>
        copyKnownHosts hostport fp rest (replaced || holds hostport line)) := by
  rw [copyKnownHosts, copyLine]
  by_cases skipped : rstripNewline line = [] ∨ (rstripNewline line).head? = some hash
  · have absent : holds hostport line = false := by simp [holds, entryOf, skipped]
    simp [skipped, absent]
  · have entry : entryOf line = scanKnownHost (rstripNewline line) := by simp [entryOf, skipped]
    rw [if_neg skipped, holds, entry]
    cases scanKnownHost (rstripNewline line) with
    | none => simp
    | some known => by_cases same : strIEq known.hostport hostport <;> simp [same]

/-! ### The runs of the check -/

variable {desk : Desk} {hostport fp : Text}

/-- The runs in which no call of the standard library fails. -/
abbrev Ends {Result : Type} (prog : Io Result) (post : Result → Desk → Prop) (desk : Desk) : Prop :=
  Meets fileEnv (fun _ _ => True) prog post desk

theorem ends_perform {Result : Type} {op : Op} {rest : Answer op → Io Result}
    {post : Result → Desk → Prop}
    (tail : ∀ answer after, fileEnv desk op answer after → Ends (rest answer) post after) :
    Ends (invoke op >>= rest) post desk := ⟨trivial, tail⟩

theorem ends_promptTrust (hostport fp : Text) (desk : Desk) :
    Ends (promptTrust hostport fp)
      (fun trusted after => ∃ answer, after = desk.ask answer ∧ trusted = answer.any saysYes)
      desk := by
  unfold promptTrust
  refine ends_perform ?_
  rintro _ _ rfl
  refine ends_perform ?_
  rintro _ _ rfl
  refine ends_perform ?_
  rintro _ _ rfl
  refine ends_perform ?_
  rintro line _ rfl
  cases line with
  | none => exact ⟨none, rfl, rfl⟩
  | some line => exact ⟨some line.bytes, rfl, rfl⟩

theorem ends_copyKnownHosts (hostport fp : Text) (lines : List Text) (replaced : Bool)
    (front : Text) (desk : Desk) :
    Ends (copyKnownHosts hostport fp lines replaced)
      (fun result after => result = (replaced || lines.any (holds hostport)) ∧
        after = desk.put .knownHostsTmp (some (front ++ lines.flatMap (copyLine hostport fp))))
      (desk.put .knownHostsTmp (some front)) := by
  induction lines generalizing replaced front with
  | nil => exact ⟨by simp, by simp⟩
  | cons line rest inductionHypothesis =>
    rw [copyKnownHosts_cons]
    refine ends_perform ?_
    rintro _ _ ⟨-, rfl⟩
    have more : (desk.put .knownHostsTmp (some front)).put .knownHostsTmp
        (some ((desk.put .knownHostsTmp (some front)).content .knownHostsTmp ++
          copyLine hostport fp line)) =
        desk.put .knownHostsTmp (some (front ++ copyLine hostport fp line)) := by
      simp [Desk.put, Desk.content]
    rw [more]
    refine (inductionHypothesis _ _).mono ?_
    rintro _ _ ⟨rfl, rfl⟩
    simp [Bool.or_assoc]

/-- `update_known_hosts_file` leaves the rewritten store in its place. -/
theorem ends_updateKnownHostsFile (hostport fp : Text) (desk : Desk) :
    Ends (updateKnownHostsFile hostport fp)
      (fun rc after => rc = 0 ∧ after.asked = desk.asked ∧
        after.disk .knownHosts =
          some (rewritten hostport fp (storePieces (desk.disk .knownHosts)))) desk := by
  unfold updateKnownHostsFile
  refine ends_perform ?_
  rintro input start ⟨rfl, same⟩
  subst same
  refine ends_perform ?_
  rintro opened _ ⟨rfl, rfl⟩
  rw [if_neg (by simp)]
  refine (ends_copyKnownHosts hostport fp _ false [] start).bind ?_
  rintro replaced _ ⟨rfl, rfl⟩
  have finish (content : Text) : Ends (invoke (.fclose .knownHostsTmp) >>= fun _ =>
      invoke (.remove .knownHosts) >>= fun _ =>
        invoke (.rename .knownHostsTmp .knownHosts) >>= fun renamed =>
          if (!renamed) = true then return (-1 : Int) else return 0)
      (fun rc after => rc = 0 ∧ after.asked = start.asked ∧
        after.disk .knownHosts = some content) (start.put .knownHostsTmp (some content)) := by
    refine ends_perform ?_
    rintro _ _ ⟨-, rfl⟩
    refine ends_perform ?_
    rintro _ _ ⟨-, rfl⟩
    refine ends_perform ?_
    rintro renamed _ ⟨done, rfl⟩
    have moved : renamed = true := by simp [done]
    simp [moved]
  cases replaced : (storePieces (start.disk .knownHosts)).any (holds hostport) with
  | true => simpa [rewritten, replaced] using finish _
  | false =>
    simp only [Bool.or_self, Bool.not_false, if_true]
    refine ends_perform ?_
    rintro _ _ ⟨-, rfl⟩
    simpa [rewritten, replaced, Desk.put, Desk.content] using finish _

/-- How a check of a key and a fingerprint ends, from a desk: silently, because the store carries
the fingerprint; with an entry of another algorithm; or after a prompt, refused or accepted. -/
inductive CheckEnds (desk : Desk) (hostport fp : Text) : Int → Desk → Prop where
  | known (carries : Carries (desk.disk .knownHosts) hostport fp) :
      CheckEnds desk hostport fp 0 desk
  | unsupported (known : KnownHost)
      (found : lookup (desk.disk .knownHosts) hostport = some known)
      (other : ¬ strIEq known.algo (text "SHA256")) : CheckEnds desk hostport fp (-1) desk
  | refused (answer : Option Text) (absent : ¬ Carries (desk.disk .knownHosts) hostport fp)
      (no : answer.any saysYes = false) : CheckEnds desk hostport fp (-1) (desk.ask answer)
  | accepted (answer : Option Text) (absent : ¬ Carries (desk.disk .knownHosts) hostport fp)
      (yes : answer.any saysYes = true) (after : Desk)
      (asked : after.asked = desk.asked ++ [answer])
      (stored : after.disk .knownHosts =
        some (storeAfter (desk.disk .knownHosts) hostport fp)) :
      CheckEnds desk hostport fp 0 after

/-- Every run of `check_known_host` in which no call of the standard library fails ends so. -/
theorem ends_checkKnownHost (host : Text) (port : Nat) (fp : Text) (errMax : Nat) (desk : Desk) :
    Ends (checkKnownHost host port fp errMax)
      (fun done after => CheckEnds desk (hostportText host port) fp done.1 after) desk := by
  unfold checkKnownHost
  refine ends_perform ?_
  rintro store start ⟨rfl, same⟩
  subst same
  rw [findKnownHost_storePieces]
  cases found : lookup (start.disk .knownHosts) (hostportText host port) with
  | some known =>
    dsimp only
    split
    · rename_i other
      exact .unsupported known found (by simpa using other)
    rename_i algorithm
    split
    · rename_i agrees
      exact .known ⟨known, found, by simpa using algorithm, agrees⟩
    rename_i differs
    have absent : ¬ Carries (start.disk .knownHosts) (hostportText host port) fp := by
      rintro ⟨other, foundOther, -, agrees⟩
      obtain rfl := Option.some.inj (found.symm.trans foundOther)
      exact differs agrees
    refine ends_perform ?_
    rintro _ start rfl
    refine (ends_promptTrust _ fp start).bind ?_
    rintro _ _ ⟨answer, rfl, rfl⟩
    split
    · rename_i no
      exact .refused answer absent (by simpa using no)
    rename_i yes
    refine (ends_updateKnownHostsFile _ fp (start.ask answer)).bind ?_
    rintro _ after ⟨rfl, asked, stored⟩
    rw [if_neg (by simp)]
    exact .accepted answer absent (by simpa using yes) after asked
      (by simp [stored, storeAfter, found])
  | none =>
    dsimp only
    have absent : ¬ Carries (start.disk .knownHosts) (hostportText host port) fp := by
      rintro ⟨other, foundOther, -⟩
      rw [found] at foundOther
      cases foundOther
    refine (ends_promptTrust _ fp start).bind ?_
    rintro _ _ ⟨answer, rfl, rfl⟩
    split
    · rename_i no
      exact .refused answer absent (by simpa using no)
    rename_i yes
    refine ends_perform ?_
    rintro _ _ ⟨rfl, rfl⟩
    rw [if_neg (by simp)]
    refine ends_perform ?_
    rintro _ _ ⟨-, rfl⟩
    refine ends_perform ?_
    rintro _ _ ⟨-, rfl⟩
    exact .accepted answer absent (by simpa using yes) _ rfl
      (by simp [storeAfter, found, Desk.content])

theorem promptTrust_answers (hostport fp : Text) (desk : Desk) (line : FgetsLine 16) :
    ∃ trace, Steps fileEnv desk (promptTrust hostport fp) trace (desk.ask (some line.bytes))
      (.ret (saysYes line.bytes)) :=
  ⟨[⟨.print (text "TLS fingerprint for " ++ hostport ++ text ":\n"), ()⟩,
    ⟨.print (text "SHA256 " ++ fp ++ text "\n"), ()⟩,
    ⟨.print (text "Trust and save? (y/N): "), ()⟩, ⟨.fgetsStdin 16, some line⟩],
    .call rfl (.call rfl (.call rfl (.call rfl (.refl _ _))))⟩

/-- A check of a key without an entry that the user approves appends its record. -/
theorem checkKnownHost_accepts (host : Text) (port : Nat) (fp : Text) (errMax : Nat) (desk : Desk)
    (line : FgetsLine 16) (yes : saysYes line.bytes = true)
    (absent : lookup (desk.disk .knownHosts) (hostportText host port) = none) :
    ∃ trace after, Steps fileEnv desk (checkKnownHost host port fp errMax) trace after
        (.ret (0, [])) ∧
      after.asked = desk.asked ++ [some line.bytes] ∧
      after.disk .knownHosts =
        some (desk.content .knownHosts ++ recordText (hostportText host port) fp) := by
  let record := recordText (hostportText host port) fp
  let opened := (desk.ask (some line.bytes)).put .knownHosts (some (desk.content .knownHosts))
  have same : opened.content .knownHosts = desk.content .knownHosts := by
    rw [Desk.content, Desk.disk_put_self, Option.getD_some]
  obtain ⟨front, prompt⟩ := promptTrust_answers (hostportText host port) fp desk line
  rw [yes] at prompt
  refine ⟨⟨.fopenRead .knownHosts, desk.disk .knownHosts⟩ :: (front ++
    [⟨.fopenWrite .knownHosts .append, true⟩, ⟨.fputs .knownHosts record, true⟩,
      ⟨.fclose .knownHosts, true⟩]),
    opened.put .knownHosts (some (opened.content .knownHosts ++ record)), ?_, rfl,
    by rw [Desk.disk_put_self, same]⟩
  unfold checkKnownHost
  refine .perform_step ⟨rfl, rfl⟩ ?_
  rw [findKnownHost_storePieces, absent]
  exact prompt.bind (.perform_step ⟨rfl, rfl⟩ (.perform_step ⟨rfl, rfl⟩
    (.perform_step ⟨rfl, rfl⟩ (.refl _ _))))

/-- A first check of a host that the user approves writes its record to an empty disk. -/
theorem checkKnownHost_approval (host : Text) (digest : Digest) (line : FgetsLine 16)
    (yes : saysYes line.bytes = true) :
    ∃ trace after, Steps fileEnv ⟨fun _ => none, []⟩
        (checkKnownHost host 1965 (fingerprintText digest) 128) trace after (.ret (0, [])) ∧
      after.asked = [some line.bytes] ∧
      after.disk .knownHosts =
        some (recordText (hostportText host 1965) (fingerprintText digest)) :=
  checkKnownHost_accepts host 1965 (fingerprintText digest) 128 ⟨fun _ => none, []⟩ line yes rfl

end Nosgem
