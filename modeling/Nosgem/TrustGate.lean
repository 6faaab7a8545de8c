/-
This file proves the gate of the trust store: in every run of the request loop,
a request is written, a response byte read or a body chunk handed on only on a
connection for which the certificate check has returned 0, for the host and
port the connection was opened to; and the check returns 0 only if the first
entry of the store for that host and port carries the fingerprint of the peer's
certificate, or the user answered the trust prompt of that very check with y.

The runs are those against every server and every user. The disk keeps what the
browser's own file operations left on it, and what these leave is left open.
-/

import Nosgem.Files
import Nosgem.Footprint
import Nosgem.KnownHosts

namespace Nosgem

open CText Interaction

/-! ### Why the check accepts -/

/-- The trust prompt was answered with y in a run. -/
def Answered (trace : List (Event Answer)) : Prop :=
  ∃ line : FgetsLine 16, ⟨.fgetsStdin 16, some line⟩ ∈ trace ∧ saysYes line.bytes

/-- The reasons for which a check of a connection accepts the certificate of the peer. -/
structure Accepted (store : Option Text) (ssl : WolfSsl) (hostport : Text)
    (checked : List (Event Answer)) : Prop where
  reason : ∃ der digest, ⟨.peerCertificate ssl, some der⟩ ∈ checked ∧
    ⟨.sha256 der, some digest⟩ ∈ checked ∧
      (Carries store hostport (fingerprintText digest) ∨ Answered checked)

theorem Answered.of_sublist {front back : List (Event Answer)} (answered : Answered front)
    (within : ∀ event ∈ front, event ∈ back) : Answered back := by
  obtain ⟨line, member, yes⟩ := answered
  exact ⟨line, within _ member, yes⟩

theorem answered_of_promptTrust {State : Type} {env : Env Answer State} {state final : State}
    {hostport fp : Text} {trace : List (Event Answer)}
    (run : Steps env state (promptTrust hostport fp) trace final (.ret true)) :
    Answered trace := by
  unfold promptTrust at run
  obtain ⟨_, _, _, _, named, rfl⟩ := run.perform_ret
  obtain ⟨_, _, _, _, shown, rfl⟩ := named.perform_ret
  obtain ⟨_, _, _, _, asked, rfl⟩ := shown.perform_ret
  obtain ⟨line, _, _, _, read, rfl⟩ := asked.perform_ret
  cases line with
  | none => cases read.of_ret.2.2
  | some line =>
    have yes : true = saysYes line.bytes := by
      injection read.of_ret.2.2
    exact ⟨line, by simp, yes.symm⟩

/-- `check_known_host` returns 0 only for an entry that carries the fingerprint or after a yes. -/
theorem checkKnownHost_zero {disk final : Disk} {host fp : Text} {port errMax : Nat}
    {trace : List (Event Answer)} {err : Text}
    (run : Steps diskEnv disk (checkKnownHost host port fp errMax) trace final (.ret (0, err))) :
    Carries (disk .knownHosts) (hostportText host port) fp ∨ Answered trace := by
  unfold checkKnownHost at run
  obtain ⟨store, after, tail, ⟨truthful, rfl⟩, rest, rfl⟩ := run.perform_ret
  clear run
  rw [findKnownHost_storePieces] at rest
  have prompted {left : Bool → Io (Int × Text)} {start : Disk} {trace : List (Event Answer)}
      (run : Steps diskEnv start (promptTrust (hostportText host port) fp >>= left) trace final
        (.ret (0, err)))
      (refused : ∃ message, left false = .ret (-1, message)) : Answered trace := by
    obtain ⟨trusted, front, back, middle, head, rest, rfl⟩ := run.bind_ret
    cases trusted with
    | false =>
      obtain ⟨message, equal⟩ := refused
      rw [equal] at rest
      cases rest.of_ret.2.2
    | true => exact (answered_of_promptTrust head).of_sublist fun _ => List.mem_append_left _
  cases found : lookup store (hostportText host port) with
  | none =>
    simp only [found] at rest
    exact .inr ((prompted rest ⟨_, rfl⟩).of_sublist fun _ => List.mem_cons_of_mem _)
  | some known =>
    simp only [found] at rest
    split at rest
    · cases rest.of_ret.2.2
    rename_i algorithm
    split at rest
    · rename_i same
      obtain ⟨content, equal⟩ : ∃ content, store = some content := by
        cases store with
        | none => cases found
        | some content => exact ⟨content, rfl⟩
      have held : after .knownHosts = store := (truthful content equal).trans equal.symm
      rw [← held] at found
      exact .inl ⟨known, found, by simpa using algorithm, same⟩
    · obtain ⟨_, _, _, _, asked, rfl⟩ := rest.perform_ret
      exact .inr ((prompted asked ⟨_, rfl⟩).of_sublist fun _ member =>
        List.mem_cons_of_mem _ (List.mem_cons_of_mem _ member))

/-- `compute_peer_fingerprint` fingerprints the certificate of the peer and leaves the disk alone.
-/
theorem computePeerFingerprint_some {disk final : Disk} {ssl : WolfSsl} {fp : Text}
    {trace : List (Event Answer)}
    (run : Steps diskEnv disk (computePeerFingerprint ssl) trace final (.ret (some fp))) :
    final = disk ∧ ∃ der digest, ⟨.peerCertificate ssl, some der⟩ ∈ trace ∧
      ⟨.sha256 der, some digest⟩ ∈ trace ∧ fp = fingerprintText digest := by
  unfold computePeerFingerprint at run
  obtain ⟨certificate, _, _, rfl, certified, rfl⟩ := run.perform_ret
  cases certificate with
  | none => cases certified.of_ret.2.2
  | some der =>
    obtain ⟨digest, _, _, rfl, hashed, rfl⟩ := certified.perform_ret
    cases digest with
    | none => cases hashed.of_ret.2.2
    | some digest =>
      obtain ⟨rfl, rfl, equal⟩ := hashed.of_ret
      cases equal
      exact ⟨rfl, der, digest, by simp, by simp, rfl⟩

/-- `nos_tofu_check` returns 0 only for a reason. -/
theorem nosTofuCheck_zero {disk final : Disk} {ssl : Option WolfSsl} {host : Text}
    {port errMax : Nat} {trace : List (Event Answer)} {err : Text}
    (run : Steps diskEnv disk (nosTofuCheck ssl host port errMax) trace final (.ret (0, err))) :
    ∃ conn, ssl = some conn ∧
      Accepted (disk .knownHosts) conn (hostportText host port) trace := by
  cases ssl with
  | none => cases run.of_ret.2.2
  | some conn =>
    refine ⟨conn, rfl, ?_⟩
    unfold nosTofuCheck at run
    obtain ⟨fingerprint, front, back, middle, head, rest, rfl⟩ := run.bind_ret
    cases fingerprint with
    | none => cases rest.of_ret.2.2
    | some fingerprint =>
      obtain ⟨rfl, der, digest, certificate, hashed, rfl⟩ := computePeerFingerprint_some head
      obtain ⟨⟨rc, message⟩, checked, last, after, check, finish, rfl⟩ := rest.bind_ret
      dsimp only at finish
      split at finish
      · cases finish.of_ret.2.2
      rename_i zero
      obtain rfl : rc = 0 := not_not.mp zero
      refine ⟨der, digest, List.mem_append_left _ certificate, List.mem_append_left _ hashed, ?_⟩
      refine (checkKnownHost_zero check).imp id fun answered => ?_
      exact answered.of_sublist fun _ member =>
        List.mem_append_right _ (List.mem_append_left _ member)

/-! ### Where a body chunk comes from -/

variable {User : Type}

/-- A chunk handed to the callback is what the last call read from the connection. -/
def ReadLast (conn : Option WolfSsl) (chunk : Text) (trace : List (Event Answer)) : Prop :=
  ∃ front nonempty fits,
    trace = front ++ [⟨.sslRead conn 512, .data chunk nonempty fits⟩]

theorem ReadLast.append {conn : Option WolfSsl} {chunk : Text} {back : List (Event Answer)}
    (read : ReadLast conn chunk back) (front : List (Event Answer)) :
    ReadLast conn chunk (front ++ back) := by
  obtain ⟨middle, nonempty, fits, rfl⟩ := read
  exact ⟨front ++ middle, nonempty, fits, (List.append_assoc _ _ _).symm⟩

theorem readLast_readBody {State : Type} {env : Env Answer State} {state final : State}
    {fuel : Nat} {cb : User → Text → Int × User} {conn : Option WolfSsl} {user : User}
    {chunk : Text}
    {trace : List (Event Answer)} {next : Unit → Io (Bool × Nat × User)}
    (run : Steps env state (readBody fuel cb conn user) trace final
      (.call (.callback chunk) next)) :
    ReadLast conn chunk trace := by
  obtain ⟨_, _, front, _, _, _, _, turn, rfl⟩ := run.loop_call
  refine ReadLast.append ?_ front
  rcases turn.perform_call with ⟨equal, _⟩ | ⟨answer, _, tail, _, rest, rfl⟩
  · cases equal
  cases answer with
  | failed => cases rest.of_ret.2.2
  | data bytes nonempty fits =>
    rcases rest.perform_call with ⟨equal, rfl⟩ | ⟨_, _, _, _, after, _⟩
    · cases equal
      exact ⟨[], nonempty, fits, rfl⟩
    · dsimp only at after
      split at after <;> cases after.of_ret.2.2

/-- After the close of an exit nothing is handed to the callback. -/
theorem exit_calls_nothing {State Result : Type} {env : Env Answer State} {state final : State}
    {tls : NosTlsCtx} {rest : NosTlsCtx → Io Result} {chunk : Text} {trace : List (Event Answer)}
    {next : Unit → Io Result} (tail : ∀ after, ∃ value, rest after = .ret value)
    (run : Steps env state (nosTlsClose tls >>= rest) trace final (.call (.callback chunk) next)) :
    False :=
  (calls_exit tls tail).of_steps run

theorem readLast_respond {State : Type} {env : Env Answer State} {state final : State}
    {fuel : Nat} {cb : BodyCb User} {tls : NosTlsCtx} {st : StreamState User} {chunk : Text}
    {trace : List (Event Answer)}
    {next : Unit → Io (StreamState User ⊕ (Int × StreamState User))}
    (run : Steps env state (respond fuel cb tls st) trace final (.call (.callback chunk) next)) :
    ReadLast tls.ssl chunk trace := by
  unfold respond at run
  split at run
  · rcases run.bind_call with ⟨_, reading⟩ | ⟨done, _, _, _, _, rest, _⟩
    · exact readLast_readBody reading
    · dsimp only at rest
      split at rest
      · exact (exit_calls_nothing (fun _ => ⟨_, rfl⟩) rest).elim
      · exact (exit_calls_nothing (fun _ => ⟨_, rfl⟩) rest).elim
  split at run
  · have asks {op : Op} (holds : AskOp op) : Calls AskOp (invoke op) := calls_perform.mpr holds
    obtain ⟨_, _, _, _, _, asked, _⟩ := run.past (asks trivial) id
    obtain ⟨line, _, _, _, _, rest, _⟩ := asked.past (asks trivial) id
    split at rest
    · exact (exit_calls_nothing (fun _ => ⟨_, rfl⟩) rest).elim
    · refine (exit_calls_nothing (fun _ => ?_) rest).elim
      split <;> exact ⟨_, rfl⟩
  split at run
  · split at run
    · exact (exit_calls_nothing (fun _ => ⟨_, rfl⟩) run).elim
    · refine (exit_calls_nothing (fun _ => ?_) run).elim
      split <;> exact ⟨_, rfl⟩
  split at run
  · exact (exit_calls_nothing (fun _ => ⟨_, rfl⟩) run).elim
  split at run
  · exact (exit_calls_nothing (fun _ => ⟨_, rfl⟩) run).elim
  · exact (exit_calls_nothing (fun _ => ⟨_, rfl⟩) run).elim

theorem readLast_converse {State : Type} {env : Env Answer State} {state final : State}
    {fuel : Nat} {cb : BodyCb User} {tls : NosTlsCtx} {st : StreamState User} {chunk : Text}
    {trace : List (Event Answer)}
    {next : Unit → Io (StreamState User ⊕ (Int × StreamState User))}
    (run : Steps env state (converse fuel cb tls st) trace final (.call (.callback chunk) next)) :
    ReadLast tls.ssl chunk trace := by
  unfold converse at run
  split at run
  · exact (exit_calls_nothing (fun _ => ⟨_, rfl⟩) run).elim
  rcases run.perform_call with ⟨equal, _⟩ | ⟨written, _, tail, _, rest, rfl⟩
  · cases equal
  split at rest
  · exact (exit_calls_nothing (fun _ => ⟨_, rfl⟩) rest).elim
  obtain ⟨header, front, back, _, _, read, rfl⟩ :=
    rest.past (calls_readHeaderLine tls.ssl _) nofun
  split at read
  · dsimp only at read
    split at read
    · exact (exit_calls_nothing (fun _ => ⟨_, rfl⟩) read).elim
    · exact ((readLast_respond read).append front).append [_]
  · exact (exit_calls_nothing (fun _ => ⟨_, rfl⟩) read).elim

/-! ### Every run of the request loop -/

/-- What has happened before a call that moves bytes in a run of the request loop: some turns of the
loop, then a successful connect to the host and port of the current URL, then an accepting check of
that connection for that host and port; since then the run has only talked over that connection and
asked the user, and the call is about that connection. -/
def Gated (fuel : Nat) (cb : BodyCb User) (url : NosUrl) (user : User) (disk : Disk)
    (trace : List (Event Answer)) (op : Op) : Prop :=
  ∃ here visited before connected checked since start opened trusted tls conn err,
    trace = before ++ connected ++ checked ++ since ∧
    Iterates diskEnv (exchange fuel cb) (.initial url user) disk visited before here start ∧
    Steps diskEnv start (nosTlsConnect fuel here.current.host here.current.port) connected opened
      (.ret (0, tls)) ∧
    tls.ssl = some conn ∧
    Steps diskEnv opened (nosTofuCheck (some conn) here.current.host here.current.port 128) checked
      trusted (.ret (0, err)) ∧
    Accepted (opened .knownHosts) conn (hostportText here.current.host here.current.port) checked ∧
    (∀ event ∈ since, OpenOp (some conn) event.op) ∧
    TalkOp (some conn) op ∧
    ∀ chunk, op = .callback chunk → ReadLast (some conn) chunk since

/-- The gate of one turn of the request loop. -/
theorem exchange_gate {fuel : Nat} {cb : BodyCb User} {st : StreamState User} {disk final : Disk}
    {trace : List (Event Answer)} {op : Op}
    {next : Answer op → Io (StreamState User ⊕ (Int × StreamState User))}
    (run : Steps diskEnv disk (exchange fuel cb st) trace final (.call op next))
    (talks : AnyTalkOp op) :
    ∃ connected checked since opened trusted tls conn err,
      trace = connected ++ checked ++ since ∧
      Steps diskEnv disk (nosTlsConnect fuel st.current.host st.current.port) connected opened
        (.ret (0, tls)) ∧
      tls.ssl = some conn ∧
      Steps diskEnv opened (nosTofuCheck (some conn) st.current.host st.current.port 128) checked
        trusted (.ret (0, err)) ∧
      Accepted (opened .knownHosts) conn (hostportText st.current.host st.current.port) checked ∧
      (∀ event ∈ since, OpenOp (some conn) event.op) ∧
      TalkOp (some conn) op ∧
      ∀ chunk, op = .callback chunk → ReadLast (some conn) chunk since := by
  unfold exchange at run
  obtain ⟨⟨rc, tls⟩, connected, later, opened, connect, rest, rfl⟩ :=
    run.past (calls_nosTlsConnect fuel _ _) (fun connects => by cases op <;> contradiction)
  dsimp only at rest
  split at rest
  · cases rest.of_ret.2.2
  rename_i zero
  obtain rfl : rc = 0 := not_not.mp zero
  have calls : ∃ kind, Calls kind (nosTofuCheck tls.ssl st.current.host st.current.port 128) ∧
      ¬ kind op := by
    cases tls.ssl with
    | none => exact ⟨fun _ => False, trivial, id⟩
    | some conn =>
      exact ⟨TofuOp conn, calls_nosTofuCheck conn _ _ _,
        fun checks => by cases op <;> contradiction⟩
  obtain ⟨kind, calls, other⟩ := calls
  obtain ⟨⟨accepted, err⟩, checked, since, trusted, check, body, rfl⟩ := rest.past calls other
  split at body
  · exact absurd talks ((calls_exit tls fun _ => ⟨_, rfl⟩).of_steps body).not_talk
  rename_i zero
  obtain rfl : accepted = 0 := not_not.mp zero
  obtain ⟨conn, isOpen, reason⟩ := nosTofuCheck_zero check
  have session := session_converse fuel cb tls st
  have stays : ∀ event ∈ since, OpenOp (some conn) event.op := fun event member => by
    rw [← isOpen]
    exact (session.calls.of_mem body event member).resolve_right
      (session.staged.of_steps body talks event member)
  have talksHere : TalkOp (some conn) op := by
    rw [← isOpen]
    rcases session.calls.of_steps body with (talksHere | asks) | closes
    · exact talksHere
    · cases op <;> contradiction
    · exact absurd talks closes.not_talk
  refine ⟨connected, checked, since, opened, trusted, tls, conn, err,
    (List.append_assoc _ _ _).symm,
    connect, isOpen, isOpen ▸ check, reason, stays, talksHere, ?_⟩
  rintro chunk rfl
  exact isOpen ▸ readLast_converse body

/-- Every call that moves bytes is gated, and the check that gates it accepts for a reason: so does
every check of every connection. -/
theorem nosGeminiRequestStream_gated (fuel : Nat) (cb : BodyCb User) (url : NosUrl) (user : User)
    (disk : Disk) :
    (∀ trace final op next, Steps diskEnv disk (nosGeminiRequestStream fuel url cb user) trace final
        (.call op next) → AnyTalkOp op → Gated fuel cb url user disk trace op) ∧
      ∀ ssl host port errMax trace start final err,
        Steps diskEnv start (nosTofuCheck ssl host port errMax) trace final (.ret (0, err)) →
          ∃ conn, ssl = some conn ∧
            Accepted (start .knownHosts) conn (hostportText host port) trace := by
  refine ⟨fun trace final op next run talks => ?_, fun _ _ _ _ _ _ _ _ => nosTofuCheck_zero⟩
  obtain ⟨here, visited, before, turn, start, inner, iterates, body, rfl⟩ := run.loop_call
  obtain ⟨connected, checked, since, opened, trusted, tls, conn, err, rfl, connect, isOpen, check,
    reason, stays, talksHere, chunks⟩ := exchange_gate body talks
  refine ⟨here, visited, before, connected, checked, since, start, opened, trusted, tls, conn, err,
    ?_, iterates, connect, isOpen, check, reason, stays, talksHere, chunks⟩
  simp only [List.append_assoc]

/-- The events of a turn against an unknown host on an empty disk, up to its request: the connect
succeeds and the user answers the prompt with y. -/
def firstUse (host : Text) (port : Nat) (digest : Digest) : List (Event Answer) :=
  [⟨.dnsResolve host true, (0 : Int)⟩, ⟨.dnsIsQueryPending, false⟩,
    ⟨.dnsResolve host false, (0 : Int)⟩, ⟨.getSocket, some ⟨0⟩⟩, ⟨.setRecvBuffer ⟨0⟩, false⟩,
    ⟨.connectNonBlocking ⟨0⟩ (port % 65536), false⟩, ⟨.drivePackets, ()⟩,
    ⟨.isConnectComplete ⟨0⟩, true⟩, ⟨.clientMethod, true⟩, ⟨.ctxNew, some ⟨0⟩⟩,
    ⟨.ctxSetup ⟨0⟩, ()⟩, ⟨.sslNew ⟨0⟩, some ⟨0⟩⟩, ⟨.sslSetup ⟨0⟩ host, ()⟩,
    ⟨.sslConnect ⟨0⟩, true⟩, ⟨.peerCertificate ⟨0⟩, some [1]⟩, ⟨.sha256 [1], some digest⟩,
    ⟨.fopenRead .knownHosts, none⟩,
    ⟨.print (text "TLS fingerprint for " ++ hostportText host port ++ text ":\n"), ()⟩,
    ⟨.print (text "SHA256 " ++ fingerprintText digest ++ text "\n"), ()⟩,
    ⟨.print (text "Trust and save? (y/N): "), ()⟩,
    ⟨.fgetsStdin 16, some ⟨[121, lf], by decide, by decide, by decide⟩⟩,
    ⟨.fopenWrite .knownHosts .append, true⟩,
    ⟨.fputs .knownHosts (recordText (hostportText host port) (fingerprintText digest)), true⟩,
    ⟨.fclose .knownHosts, true⟩]

/-- A turn against an unknown host, with a request that fits its buffer, gets as far as the
request. -/
theorem exchange_firstUse (cb : BodyCb User) (st : StreamState User) (digest : Digest)
    (fits : ¬ st.current.host.length + st.current.path.length + 12 ≥ requestSize) :
    ∃ final next, Steps diskEnv (fun _ => none) (exchange 1 cb st)
      (firstUse st.current.host st.current.port digest) final
      (.call (.sslWrite (some ⟨0⟩) (requestText st.current)) next) := by
  refine ⟨fun _ => none, ?_, ?_⟩
  rotate_left
  · iterate 24 refine .call (show diskEnv _ _ _ fun _ => none by
      first | exact rfl | exact ⟨nofun, rfl⟩ | exact trivial) ?_
    change Steps diskEnv _ (converse 1 cb ⟨some ⟨0⟩, some ⟨0⟩, some ⟨0⟩⟩ st) [] _ _
    rw [converse, if_neg fits]
    exact .refl _ _

/-- The first turn of the request loop against an unknown host. -/
theorem nosGeminiRequestStream_firstUse (cb : BodyCb User) (url : NosUrl) (user : User)
    (digest : Digest) (fits : ¬ url.host.length + url.path.length + 12 ≥ requestSize) :
    ∃ final next, Steps diskEnv (fun _ => none) (nosGeminiRequestStream 1 url cb user)
      (firstUse url.host url.port digest) final
      (.call (.sslWrite (some ⟨0⟩) (requestText url)) next) := by
  obtain ⟨final, next, run⟩ := exchange_firstUse cb (.initial url user) digest fits
  exact ⟨final, _, run.bind_left _⟩

theorem nosGeminiRequestStream_gated_firstUse :
    ∃ final next, Steps diskEnv (fun _ => none)
        (nosGeminiRequestStream 1 ⟨text "h", 1965, [slash]⟩ (fun _ _ _ => (0, ())) ())
        (firstUse (text "h") 1965 (.replicate 32 0)) final
        (.call (.sslWrite (some ⟨0⟩) (requestText ⟨text "h", 1965, [slash]⟩)) next) ∧
      Gated 1 (fun _ _ _ => (0, ())) ⟨text "h", 1965, [slash]⟩ () (fun _ => none)
        (firstUse (text "h") 1965 (.replicate 32 0))
        (.sslWrite (some ⟨0⟩) (requestText ⟨text "h", 1965, [slash]⟩)) := by
  obtain ⟨final, next, run⟩ := nosGeminiRequestStream_firstUse (fun _ _ _ => (0, ()))
    ⟨text "h", 1965, [slash]⟩ () (.replicate 32 0) (by decide)
  exact ⟨final, next, run,
    (nosGeminiRequestStream_gated 1 _ _ () _).1 _ final _ next run trivial⟩

end Nosgem
