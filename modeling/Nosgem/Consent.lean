/-
This file proves that the browser changes a file only at the user's wish. In
every run of the main loop, whatever the servers, the disk and the library do,
a call that changes the trust store comes from a check in which the certificate
of the connection just opened was fetched, its fingerprint was shown to the
user next to the host and port of that connection, and the user answered y; and
what is then written is the record of that host, port and fingerprint or a
piece of the store as it was read in the same check. The bookmarks change only
when the user has entered a label for one, and the home page never.

The proof runs the browser against its own history, so the condition on a call
can speak about the calls before it.
-/

import Nosgem.Bookmarks
import Nosgem.Histories
import Nosgem.MainLoop

namespace Nosgem

open CText Interaction

/-! ### Approvals -/

/-- The files that an operation changes. -/
def changes : Op → List Path
  | .fopenWrite path _ | .fputs path _ | .fclose path | .remove path => [path]
  | .rename source target => [source, target]
  | _ => []

/-- What `check_known_host` calls between the fingerprint and the trust question. -/
def LookOp : Op → Prop
  | .fopenRead .knownHosts | .print _ => True
  | _ => False

/-- What is called to record an approved certificate. -/
def RecordOp : Op → Prop
  | .fopenRead .knownHosts | .fopenWrite .knownHosts .append | .fputs .knownHosts _
  | .fclose .knownHosts | .fopenWrite .knownHostsTmp .write | .fputs .knownHostsTmp _
  | .fclose .knownHostsTmp | .remove .knownHosts | .rename .knownHostsTmp .knownHosts => True
  | _ => False

/-- The trust question for a key and a fingerprint, and the line that answered it. -/
def trustAsked (hostport fp : Text) (line : FgetsLine 16) : List (Event Answer) :=
  [⟨.print (text "TLS fingerprint for " ++ hostport ++ text ":\n"), ()⟩,
    ⟨.print (text "SHA256 " ++ fp ++ text "\n"), ()⟩,
    ⟨.print (text "Trust and save? (y/N): "), ()⟩, ⟨.fgetsStdin 16, some line⟩]

/-- A history in which the user approved a certificate: a connection was opened, its certificate was
fetched and fingerprinted, the store was looked at, and the trust question was answered with y. -/
structure Approval where
  fuel : Nat
  host : Text
  port : Nat
  tls : NosTlsCtx
  ssl : WolfSsl
  der : Text
  digest : Digest
  line : FgetsLine 16
  before : List (Event Answer)
  connecting : List (Event Answer)
  looking : List (Event Answer)
  connected : Steps anyEnv () (nosTlsConnect fuel host port) connecting () (.ret (0, tls))
  secured : tls.ssl = some ssl
  looked : ∀ event ∈ looking, LookOp event.op
  yes : saysYes line.bytes

/-- The key that the user was asked about. -/
def Approval.hostport (approval : Approval) : Text := hostportText approval.host approval.port

/-- The fingerprint that the user was shown. -/
def Approval.fp (approval : Approval) : Text := fingerprintText approval.digest

/-- The history up to the answer. -/
def Approval.history (approval : Approval) : List (Event Answer) :=
  approval.before ++ (approval.connecting ++
    (⟨.peerCertificate approval.ssl, some approval.der⟩ ::
      ⟨.sha256 approval.der, some approval.digest⟩ ::
        (approval.looking ++ trustAsked approval.hostport approval.fp approval.line)))

/-- What an approval allows, with the calls made since: to record the approved key and fingerprint,
and to copy pieces of the store as it was read since. -/
structure Approval.Allows (approval : Approval) (since : List (Event Answer)) (op : Op) : Prop where
  recording : ∀ event ∈ since, RecordOp event.op
  records : RecordOp op
  written : ∀ path output, op = .fputs path output →
    output = recordText approval.hostport approval.fp ∨
      ∃ store, ⟨.fopenRead .knownHosts, store⟩ ∈ since ∧
        ∃ line ∈ storePieces store, output = cString line

/-- The question for the label of a bookmark, and the line that answered it. -/
def labelAsked (line : FgetsLine 128) : List (Event Answer) :=
  [⟨.print (text "Label (optional): "), ()⟩, ⟨.fgetsStdin 128, some line⟩]

/-- The calls that write a bookmark. -/
def BookmarkOp (url label : Text) : Op → Prop
  | .fopenWrite .bookmarks .append | .fclose .bookmarks => True
  | .fputs .bookmarks output => output = bookmarkLine url label ++ [lf]
  | _ => False

/-- A call in a history at the user's wish: it changes no file, or the trust store after an
approval, or the bookmarks after a label was entered. -/
def Consented (history : List (Event Answer)) (op : Op) : Prop :=
  changes op = [] ∨
    (∃ (approval : Approval) (since : List (Event Answer)), history = approval.history ++ since ∧
      approval.Allows since op) ∨
    ∃ (before since : List (Event Answer)) (url : NosUrl) (line : FgetsLine 128),
      history = before ++ (labelAsked line ++ since) ∧
        ∀ called, called = op ∨ called ∈ since.map Event.op →
          BookmarkOp (makeCurrentUrl url urlbufSize) (rstripNewline line.bytes) called

/-- The runs of the browser's functions from a history on, with calls at the user's wish only. -/
abbrev Wished {Result : Type} (prog : Io Result) (post : Result → List (Event Answer) → Prop)
    (history : List (Event Answer)) : Prop :=
  Meets historyEnv Consented prog post history

/-- A program that changes no file only adds one of its runs to the history. -/
theorem wished_unchanging {Result : Type} {prog : Io Result} {kind : Op → Prop}
    {history : List (Event Answer)} (calls : Calls kind prog)
    (unchanging : ∀ op, kind op → changes op = []) :
    Wished prog (fun value after => ∃ trace, after = history ++ trace ∧
      (∀ event ∈ trace, kind event.op) ∧ Steps anyEnv () prog trace () (.ret value)) history :=
  calls.meets_history fun _ op _ isKind => .inl (unchanging op isKind)

/-- A call that changes no file and the rest of a sequence. -/
theorem wished_perform {Result : Type} {op : Op} {rest : Answer op → Io Result}
    {post : Result → List (Event Answer) → Prop} {history : List (Event Answer)}
    (unchanging : changes op = [])
    (tail : ∀ answer, Wished (rest answer) post (history ++ [⟨op, answer⟩])) :
    Wished (invoke op >>= rest) post history :=
  ⟨.inl unchanging, fun answer _ added => added ▸ tail answer⟩

/-! ### The check of a certificate -/

theorem wished_promptTrust (hostport fp : Text) (history : List (Event Answer)) :
    Wished (promptTrust hostport fp) (fun trusted after => trusted = true →
      ∃ line, saysYes line.bytes ∧ after = history ++ trustAsked hostport fp line) history := by
  unfold promptTrust
  refine wished_perform rfl fun _ => wished_perform rfl fun _ => wished_perform rfl fun _ =>
    wished_perform rfl fun line => ?_
  cases line with
  | none => exact fun refused => by cases refused
  | some line =>
    refine fun yes => ⟨line, yes, ?_⟩
    simp only [List.append_assoc, List.cons_append, List.nil_append, trustAsked]

/-- The calls that write the record of a key and a fingerprint, or one of the lines read. -/
def WritesRecord (hostport fp : Text) (lines : List Text) (op : Op) : Prop :=
  RecordOp op ∧ ∀ path output, op = .fputs path output →
    output = recordText hostport fp ∨ ∃ line ∈ lines, output = cString line

theorem writesRecord_silent {hostport fp : Text} {lines : List Text} {op : Op}
    (records : RecordOp op) (silent : ∀ path output, op ≠ .fputs path output) :
    WritesRecord hostport fp lines op :=
  ⟨records, fun path output puts => absurd puts (silent path output)⟩

theorem writesRecord_puts {hostport fp output : Text} {lines : List Text} {path : Path}
    (records : RecordOp (.fputs path output))
    (written : output = recordText hostport fp ∨ ∃ line ∈ lines, output = cString line) :
    WritesRecord hostport fp lines (.fputs path output) :=
  ⟨records, fun _ _ puts => by cases puts; exact written⟩

theorem calls_copyKnownHosts (hostport fp : Text) (all lines : List Text)
    (within : ∀ line ∈ lines, line ∈ all) (replaced : Bool) :
    Calls (WritesRecord hostport fp all) (copyKnownHosts hostport fp lines replaced) := by
  induction lines generalizing replaced with
  | nil => trivial
  | cons line rest inductionHypothesis =>
    have later := inductionHypothesis fun other member =>
      within other (List.mem_cons_of_mem _ member)
    have copied : WritesRecord hostport fp all (.fputs .knownHostsTmp (cString line)) :=
      writesRecord_puts trivial (.inr ⟨line, within line List.mem_cons_self, rfl⟩)
    unfold copyKnownHosts
    dsimp only
    split
    · exact .perform copied fun _ => later _
    · split
      · split
        · exact .perform (writesRecord_puts trivial (.inl rfl)) fun _ => later _
        · exact .perform copied fun _ => later _
      · exact .perform copied fun _ => later _

/-- After an approval its calls are at the user's wish, where the lines were read since. -/
theorem wished_records {Result : Type} {prog : Io Result} (approval : Approval)
    {since : List (Event Answer)} {lines : List Text}
    (recording : ∀ event ∈ since, RecordOp event.op)
    (read : ∀ line ∈ lines, ∃ store, ⟨.fopenRead .knownHosts, store⟩ ∈ since ∧
      line ∈ storePieces store)
    (calls : Calls (WritesRecord approval.hostport approval.fp lines) prog) :
    Wished prog (fun _ _ => True) (approval.history ++ since) := by
  refine (calls.meets_history fun trace op writes isWrite => .inr (.inl ?_)).mono
    fun _ _ _ => trivial
  refine ⟨approval, since ++ trace, List.append_assoc _ _ _, ?_, isWrite.1, ?_⟩
  · intro event member
    rcases List.mem_append.mp member with old | new
    · exact recording event old
    · exact (writes event new).1
  · intro path output puts
    refine (isWrite.2 path output puts).imp_right ?_
    rintro ⟨line, member, copied⟩
    obtain ⟨store, opened, within⟩ := read line member
    exact ⟨store, List.mem_append_left _ opened, line, within, copied⟩

theorem wished_updateKnownHostsFile (approval : Approval) :
    Wished (updateKnownHostsFile approval.hostport approval.fp) (fun _ _ => True)
      approval.history := by
  unfold updateKnownHostsFile
  refine wished_perform rfl fun store => wished_records approval ?_
    (fun line member => ⟨store, List.mem_singleton.mpr rfl, member⟩) ?_
  · intro event member
    rw [List.mem_singleton.mp member]
    trivial
  have silent {op : Op} (records : RecordOp op) (silent : ∀ path output, op ≠ .fputs path output) :
      WritesRecord approval.hostport approval.fp (storePieces store) op :=
    writesRecord_silent records silent
  have finish : Calls (WritesRecord approval.hostport approval.fp (storePieces store))
      (invoke (.fclose .knownHostsTmp) >>= fun _ => invoke (.remove .knownHosts) >>= fun _ =>
        invoke (.rename .knownHostsTmp .knownHosts) >>= fun renamed =>
          if (!renamed) = true then return (-1 : Int) else return 0) := by
    refine .perform (silent trivial (by simp)) fun _ => .perform (silent trivial (by simp)) fun _ =>
      .perform (silent trivial (by simp)) fun renamed => ?_
    split <;> trivial
  refine .perform (silent trivial (by simp)) fun opened => ?_
  split
  · trivial
  refine (calls_copyKnownHosts _ _ _ _ (fun _ => id) false).bind fun replaced => ?_
  split
  · exact .perform (writesRecord_puts trivial (.inl rfl)) fun _ => finish
  · exact finish

/-- The lookup, the question and the record, after a certificate was fingerprinted. -/
theorem wished_checkKnownHost {history : List (Event Answer)} {host : Text} {port errMax : Nat}
    {digest : Digest}
    (approve : ∀ looking line, (∀ event ∈ looking, LookOp event.op) → saysYes line.bytes →
      ∃ approval : Approval, approval.hostport = hostportText host port ∧
        approval.fp = fingerprintText digest ∧ approval.history = history ++ (looking ++
          trustAsked (hostportText host port) (fingerprintText digest) line)) :
    Wished (checkKnownHost host port (fingerprintText digest) errMax) (fun _ _ => True)
      history := by
  -- what is asked after the lookup, and what a yes leads to
  have asks {rest : Bool → Io (Int × Text)} (looking : List (Event Answer))
      (looked : ∀ event ∈ looking, LookOp event.op)
      (refused : ∀ after, Wished (rest false) (fun _ _ => True) after)
      (approved : ∀ approval : Approval, approval.hostport = hostportText host port →
        approval.fp = fingerprintText digest →
          Wished (rest true) (fun _ _ => True) approval.history) :
      Wished (promptTrust (hostportText host port) (fingerprintText digest) >>= rest)
        (fun _ _ => True) (history ++ looking) := by
    refine (wished_promptTrust _ _ _).bind fun trusted after answered => ?_
    cases trusted with
    | false => exact refused after
    | true =>
      obtain ⟨line, yes, rfl⟩ := answered rfl
      obtain ⟨approval, key, print, same⟩ := approve looking line looked yes
      rw [List.append_assoc, ← same]
      exact approved approval key print
  unfold checkKnownHost
  refine wished_perform rfl fun store => ?_
  split
  · split
    · trivial
    split
    · trivial
    refine wished_perform rfl fun _ => ?_
    rw [List.append_assoc]
    refine asks _ ?_ (fun _ => trivial) fun approval key print => ?_
    · intro event member
      rcases List.mem_append.mp member with first | second
      · rw [List.mem_singleton.mp first]
        trivial
      · rw [List.mem_singleton.mp second]
        trivial
    · rw [← key, ← print]
      refine (wished_updateKnownHostsFile approval).bind fun updated _ _ => ?_
      split <;> trivial
  · refine asks _ ?_ (fun _ => trivial) fun approval key print => ?_
    · intro event member
      rw [List.mem_singleton.mp member]
      trivial
    · rw [← key, ← print, ← List.append_nil approval.history]
      refine wished_records approval (List.forall_mem_nil _) (List.forall_mem_nil _) ?_
      refine .perform (writesRecord_silent trivial (by simp)) fun opened => ?_
      split
      · trivial
      exact .perform (writesRecord_puts trivial (.inl rfl)) fun _ =>
        .perform (writesRecord_silent trivial (by simp)) fun _ => trivial

theorem wished_computePeerFingerprint (ssl : WolfSsl) (history : List (Event Answer)) :
    Wished (computePeerFingerprint ssl) (fun fingerprint after => ∀ fp, fingerprint = some fp →
      ∃ der digest, fp = fingerprintText digest ∧
        after = history ++ [⟨.peerCertificate ssl, some der⟩, ⟨.sha256 der, some digest⟩])
      history := by
  unfold computePeerFingerprint
  refine wished_perform rfl fun certificate => ?_
  cases certificate with
  | none => exact fun fp missing => by cases missing
  | some der =>
    refine wished_perform rfl fun digest => ?_
    cases digest with
    | none => exact fun fp missing => by cases missing
    | some digest =>
      refine fun fp equal => ⟨der, digest, (Option.some_inj.mp equal).symm, ?_⟩
      rw [List.append_assoc, List.singleton_append]

theorem wished_nosTofuCheck {fuel : Nat} {host : Text} {port errMax : Nat} {tls : NosTlsCtx}
    {before connecting : List (Event Answer)}
    (connected : Steps anyEnv () (nosTlsConnect fuel host port) connecting () (.ret (0, tls))) :
    Wished (nosTofuCheck tls.ssl host port errMax) (fun _ _ => True) (before ++ connecting) := by
  cases secured : tls.ssl with
  | none => trivial
  | some ssl =>
    unfold nosTofuCheck
    refine (wished_computePeerFingerprint ssl _).bind fun fingerprint after printed => ?_
    cases fingerprint with
    | none => trivial
    | some fp =>
      obtain ⟨der, digest, rfl, rfl⟩ := printed fp rfl
      refine Meets.bind (wished_checkKnownHost fun looking line looked yes => ?_)
        fun checked _ _ => ?_
      · refine ⟨⟨fuel, host, port, tls, ssl, der, digest, line, before, connecting, looking,
          connected, secured, looked, yes⟩, rfl, rfl, ?_⟩
        simp only [Approval.history, Approval.hostport, Approval.fp, List.append_assoc,
          List.cons_append, List.nil_append]
      · dsimp only
        split <;> trivial

/-! ### The main loop -/

theorem wished_exchange {User : Type} (fuel : Nat) (cb : BodyCb User) (st : StreamState User)
    (history : List (Event Answer)) : Wished (exchange fuel cb st) (fun _ _ => True) history := by
  have closing {op : Op} (closes : CloseOp op) : changes op = [] := by
    cases op <;> first | rfl | exact closes.elim
  unfold exchange
  refine (wished_unchanging (calls_nosTlsConnect fuel _ _) fun op connects => ?_).bind ?_
  · cases op <;> first | rfl | exact connects.elim
  rintro ⟨rc, tls⟩ _ ⟨connecting, rfl, -, connected⟩
  dsimp only
  split
  · trivial
  rename_i zero
  obtain rfl : rc = 0 := not_not.mp zero
  refine (wished_nosTofuCheck connected).bind fun checked after _ => ?_
  obtain ⟨trusted, terr⟩ := checked
  dsimp only
  split
  · exact ((wished_unchanging (calls_nosTlsClose tls) fun _ => closing).mono
      fun _ _ _ => trivial).bind fun _ _ _ => trivial
  · refine (wished_unchanging (session_converse fuel cb tls st).calls fun op member => ?_).mono
      fun _ _ _ => trivial
    rcases member with (talks | asks) | closes
    · cases op <;> first | rfl | exact talks.elim
    · cases op <;> first | rfl | exact asks.elim
    · exact closing closes

theorem wished_addBookmark (st : MainState) (history : List (Event Answer)) :
    Wished (addBookmark st) (fun _ _ => True) history := by
  have tells (message : Text) (history : List (Event Answer)) :
      Wished (invoke (.print message)) (fun _ _ => True) history :=
    ⟨.inl rfl, fun _ _ _ => trivial⟩
  unfold addBookmark
  dsimp only
  split
  · exact tells _ _
  refine wished_perform rfl fun _ => wished_perform rfl fun line => ?_
  cases line with
  | none => exact tells _ _
  | some line =>
    have asked : history ++ [⟨.print (text "Label (optional): "), ()⟩] ++
        [⟨.fgetsStdin 128, some line⟩] = history ++ labelAsked line := List.append_assoc _ _ _
    have adds : Calls (BookmarkOp (makeCurrentUrl st.current urlbufSize)
        (rstripNewline line.bytes)) (nosBookmarksAdd (makeCurrentUrl st.current urlbufSize)
          (rstripNewline line.bytes)) := by
      unfold nosBookmarksAdd
      split
      · trivial
      refine .perform trivial fun opened => ?_
      split
      · trivial
      exact .perform rfl fun _ => .perform trivial fun _ => trivial
    rw [asked]
    show Wished (nosBookmarksAdd (makeCurrentUrl st.current urlbufSize)
      (rstripNewline line.bytes) >>= _) _ _
    refine Meets.bind (adds.meets_history fun trace op writes isWrite => .inr (.inr ?_))
      fun rc after _ => ?_
    · refine ⟨history, trace, st.current, line, List.append_assoc _ _ _, ?_⟩
      rintro called (rfl | member)
      · exact isWrite
      · obtain ⟨event, within, rfl⟩ := List.mem_map.mp member
        exact writes event within
    · split
      · exact tells _ _
      · exact tells _ _

theorem wished_upheld : Upheld historyEnv Consented (fun _ => True) where
  pages := by
    intro history op _ page
    refine ⟨.inl ?_, fun _ _ _ => trivial⟩
    cases op <;> first | rfl | exact page.elim
  exchanges := fun fuel st history _ => wished_exchange fuel bodyCb st history
  bookmarks := fun st history _ => wished_addBookmark st history

/-- In every run of the main loop, against every environment, every call that changes a file is made
at the user's wish. -/
theorem mainLoop_consented {State : Type} {env : Env Answer State} {fuel pageLines : Nat}
    {home : NosUrl} {state final : State} {trace : List (Event Answer)} {op : Op}
    {next : Answer op → Io Unit}
    (run : Steps env state (mainLoop fuel pageLines home) trace final (.call op next)) :
    Consented trace op :=
  (wished_upheld.mainLoop home trivial).allowed_of_run run

/-- A fetch of a page whose host is unknown, up to the record of its certificate. -/
theorem fetchAndRender_records {fuel : Nat} (url : NosUrl) (digest : Digest) (pageLines : Nat) :
    ∃ next, Steps anyEnv () (fetchAndRender (fuel + 1) url pageLines)
      ((firstUse url.host url.port digest).take 22) ()
      (.call (.fputs .knownHosts (recordText (hostportText url.host url.port)
        (fingerprintText digest))) next) := by
  have asked (cb : BodyCb NosBodyState) (user : NosBodyState) :
      ∃ next, Steps anyEnv () (exchange (fuel + 1) cb (.initial url user))
        ((firstUse url.host url.port digest).take 22) ()
        (.call (.fputs .knownHosts (recordText (hostportText url.host url.port)
          (fingerprintText digest))) next) := by
    refine ⟨?_, ?_⟩
    rotate_left
    · iterate 22 refine .any ?_
      exact .refl _ _
  let lines := if pageLines = 0 then 24 else pageLines
  obtain ⟨next, run⟩ := asked bodyCb (.start lines)
  have requested : ∃ next, Steps anyEnv () (nosGeminiRequestStream (fuel + 1) url bodyCb
      (.start lines)) ((firstUse url.host url.port digest).take 22) ()
      (.call (.fputs .knownHosts (recordText (hostportText url.host url.port)
        (fingerprintText digest))) next) := ⟨_, run.bind_left _⟩
  obtain ⟨next, requested⟩ := requested
  exact ⟨_, requested.bind_left _⟩

/-- What is written was asked for: the bookmark, and the record of a certificate on whose question y
was entered. -/
theorem mainLoop_consented_writes :
    (∃ trace output next, Steps anyEnv () (mainLoop 1 24 homeUrl) trace ()
        (.call (.fputs .bookmarks output) next) ∧ Consented trace (.fputs .bookmarks output)) ∧
      ∃ trace output next, Steps anyEnv () (mainLoop 1 24 ⟨text "h", 1965, [slash]⟩) trace ()
        (.call (.fputs .knownHosts output) next) ∧
        trustAsked (hostportText (text "h") 1965) (fingerprintText (.replicate 32 0))
          ⟨[121, lf], by decide, by decide, by decide⟩ <:+: trace ∧
        Consented trace (.fputs .knownHosts output) := by
  constructor
  · obtain ⟨trace, output, next, run⟩ :=
      @turn_bookmark Unit anyEnv () () (fun _ _ _ => trivial) trivial
    have looped : Steps anyEnv () (mainLoop 1 24 homeUrl) trace ()
      (.call (.fputs .bookmarks output) _) := run.bind_left _
    exact ⟨trace, output, _, looped, mainLoop_consented looped⟩
  · obtain ⟨next, fetch⟩ := @fetchAndRender_records 0 ⟨text "h", 1965, [slash]⟩ (.replicate 32 0) 24
    have shown : ∃ trace next, Steps anyEnv () (display 1 24 (.initial ⟨text "h", 1965, [slash]⟩))
        (trace ++ (firstUse (text "h") 1965 (.replicate 32 0)).take 22) ()
        (.call (.fputs .knownHosts (recordText (hostportText (text "h") 1965)
          (fingerprintText (.replicate 32 0)))) next) :=
      ⟨[⟨.print _, ()⟩], _, .any (fetch.bind_left _)⟩
    obtain ⟨trace, next, shown⟩ := shown
    have looped : Steps anyEnv () (mainLoop 1 24 ⟨text "h", 1965, [slash]⟩) _ ()
      (.call (.fputs .knownHosts _) _) := (shown.bind_left _).bind_left _
    exact ⟨_, _, _, looped, ⟨trace ++ (firstUse (text "h") 1965 (.replicate 32 0)).take 17,
      [⟨.fopenWrite .knownHosts .append, true⟩], by simp [firstUse, trustAsked]⟩,
      mainLoop_consented looped⟩

end Nosgem
