/-
This file says which operations the functions on an open connection call,
whatever they are answered: the certificate check works on files, the screen
and the keyboard and looks at one certificate; the header and body readers only
read from one connection and hand chunks to the callback; the close only gives
objects back. Statements about what a run of the request loop can have done up
to some moment follow from these footprints without going through the functions
again.
-/

import Nosgem.Gemini

namespace Nosgem

open CText Interaction

/-! ### The connect -/

/-- The operations of name resolution, of the TCP connect and of the handshake, and the ones that
end a connection. -/
def ConnectOp : Op → Prop
  | .dnsResolve _ _ | .dnsIsQueryPending | .drivePackets | .getSocket | .setRecvBuffer _
  | .connectNonBlocking _ _ | .isConnectComplete _ | .isClosed _ | .connectTimedOut | .clientMethod
  | .ctxNew | .ctxSetup _ | .sslNew _ | .sslSetup _ _ | .sslConnect _ | .sslDiagnose _
  | .sslShutdown _ | .sslFree _ | .ctxFree _ | .socketClose _ | .freeSocket _ => True
  | _ => False

/-- The operations of name resolution, of waiting for the TCP connect and of the handshake, and the
ones that end a connection: everything a connect does but to get a socket and connect it. -/
def WaitOp : Op → Prop
  | .dnsResolve _ _ | .dnsIsQueryPending | .drivePackets | .isConnectComplete _ | .isClosed _
  | .connectTimedOut | .clientMethod | .ctxNew | .ctxSetup _ | .sslNew _ | .sslSetup _ _
  | .sslConnect _ | .sslDiagnose _ | .sslShutdown _ | .sslFree _ | .ctxFree _ | .socketClose _
  | .freeSocket _ => True
  | _ => False

theorem WaitOp.connectOp {op : Op} (waits : WaitOp op) : ConnectOp op := by
  cases op <;> trivial

theorem calls_nosDnsResolve (fuel : Nat) (host : Text) :
    Calls WaitOp (nosDnsResolve fuel host) := by
  unfold nosDnsResolve
  refine .perform trivial fun started => ?_
  split
  · trivial
  have polls : Calls WaitOp (awaitDns fuel) := by
    refine Calls.loop (fun _ => .perform trivial fun pending => ?_) fuel _
    split
    · exact .perform trivial fun _ => trivial
    · trivial
  refine polls.bind fun _ => .perform trivial fun resolved => ?_
  split <;> trivial

theorem calls_awaitConnect (fuel : Nat) (sock : TcpSocket) :
    Calls WaitOp (awaitConnect fuel sock) := by
  refine Calls.loop (fun _ => .perform trivial fun _ => .perform trivial fun complete => ?_) fuel _
  split
  · trivial
  refine .perform trivial fun closed => ?_
  split
  · trivial
  refine .perform trivial fun late => ?_
  split <;> trivial

/-- The operations of the handshake, and the ones that end a connection. -/
def HandshakeOp : Op → Prop
  | .clientMethod | .ctxNew | .ctxSetup _ | .sslNew _ | .sslSetup _ _ | .sslConnect _
  | .sslDiagnose _ | .sslShutdown _ | .sslFree _ | .ctxFree _ | .socketClose _ | .freeSocket _ =>
    True
  | _ => False

theorem HandshakeOp.waitOp {op : Op} (shakes : HandshakeOp op) : WaitOp op := by
  cases op <;> trivial

theorem finishes_failTcp (sock : TcpSocket) (c : NosTlsCtx) :
    Finishes HandshakeOp (failTcp sock c) :=
  .perform trivial fun _ => .perform trivial fun _ => trivial

theorem finishes_failCtx (ctx : WolfCtx) (sock : TcpSocket) (c : NosTlsCtx) :
    Finishes HandshakeOp (failCtx ctx sock c) := .perform trivial fun _ => finishes_failTcp sock _

theorem finishes_failSsl (ssl : WolfSsl) (ctx : WolfCtx) (sock : TcpSocket) (c : NosTlsCtx) :
    Finishes HandshakeOp (failSsl ssl ctx sock c) :=
  .perform trivial fun _ => finishes_failCtx ctx sock _

theorem finishes_handshake (sock : TcpSocket) (host : Text) :
    Finishes HandshakeOp (handshake sock host) := by
  unfold handshake
  refine .perform trivial fun method => ?_
  split
  · exact finishes_failTcp sock _
  refine .perform trivial fun ctx => ?_
  split
  · refine .perform trivial fun _ => .perform trivial fun ssl => ?_
    split
    · refine .perform trivial fun _ => .perform trivial fun shaken => ?_
      split
      · exact .perform trivial fun _ => finishes_failSsl _ _ sock _
      · trivial
    · exact finishes_failCtx _ sock _
  · exact finishes_failTcp sock _

theorem calls_nosTlsConnect (fuel : Nat) (host : Text) (port : Nat) :
    Calls ConnectOp (nosTlsConnect fuel host port) := by
  unfold nosTlsConnect
  have waits (op : Op) (isWait : WaitOp op) : ConnectOp op := isWait.connectOp
  refine ((calls_nosDnsResolve fuel host).mono waits).bind fun resolved => ?_
  split
  · trivial
  refine .perform trivial fun sock => ?_
  split
  · refine .perform trivial fun unset => ?_
    split
    · exact .perform trivial fun _ => trivial
    refine .perform trivial fun unconnected => ?_
    split
    · exact .perform trivial fun _ => trivial
    refine ((calls_awaitConnect fuel _).mono waits).bind fun connected => ?_
    split
    · exact .perform trivial fun _ => .perform trivial fun _ => trivial
    · exact (finishes_handshake _ host).calls.mono fun _ shakes => shakes.waitOp.connectOp
  · trivial

/-! ### The certificate check -/

/-- The operations on files, the screen and the keyboard, and on the certificate of one
connection. -/
def TofuOp (ssl : WolfSsl) : Op → Prop
  | .peerCertificate other => other = ssl
  | .sha256 _ | .fgetsStdin _ | .print _ | .fopenRead _ | .fopenWrite _ _ | .fputs _ _ | .fclose _
  | .remove _ | .rename _ _ => True
  | _ => False

variable (ssl : WolfSsl) (hostport fp : Text)

theorem finishes_computePeerFingerprint : Finishes (TofuOp ssl) (computePeerFingerprint ssl) := by
  unfold computePeerFingerprint
  refine .perform rfl fun certificate => ?_
  cases certificate with
  | none => trivial
  | some der =>
    refine .perform trivial fun digest => ?_
    cases digest <;> trivial

theorem finishes_promptTrust : Finishes (TofuOp ssl) (promptTrust hostport fp) := by
  unfold promptTrust
  refine .perform trivial fun _ => .perform trivial fun _ => .perform trivial fun _ =>
    .perform trivial fun line => ?_
  cases line <;> trivial

theorem finishes_copyKnownHosts (lines : List Text) (replaced : Bool) :
    Finishes (TofuOp ssl) (copyKnownHosts hostport fp lines replaced) := by
  induction lines generalizing replaced with
  | nil => trivial
  | cons line rest inductionHypothesis =>
    have put (output : Text) (next : Bool) : Finishes (TofuOp ssl)
        (invoke (.fputs .knownHostsTmp output) >>= fun _ => copyKnownHosts hostport fp rest next) :=
      .perform trivial fun _ => inductionHypothesis next
    unfold copyKnownHosts
    dsimp only
    split
    · exact put _ _
    · split
      · split
        · exact put _ _
        · exact put _ _
      · exact put _ _

theorem finishes_updateKnownHostsFile :
    Finishes (TofuOp ssl) (updateKnownHostsFile hostport fp) := by
  unfold updateKnownHostsFile
  refine .perform trivial fun input => .perform trivial fun opened => ?_
  split
  · trivial
  · refine (finishes_copyKnownHosts ssl hostport fp _ _).bind fun replaced => ?_
    have finish : Finishes (TofuOp ssl)
        (invoke (.fclose .knownHostsTmp) >>= fun _ => invoke (.remove .knownHosts) >>= fun _ =>
          invoke (.rename .knownHostsTmp .knownHosts) >>= fun renamed =>
            if (!renamed) = true then return (-1 : Int) else return 0) := by
      refine .perform trivial fun _ => .perform trivial fun _ => .perform trivial fun renamed => ?_
      cases renamed <;> trivial
    split
    · exact .perform trivial fun _ => finish
    · exact finish

theorem finishes_checkKnownHost (host : Text) (port errMax : Nat) :
    Finishes (TofuOp ssl) (checkKnownHost host port fp errMax) := by
  unfold checkKnownHost
  refine .perform trivial fun store => ?_
  split
  · split
    · trivial
    split
    · trivial
    refine .perform trivial fun _ => (finishes_promptTrust ssl _ fp).bind fun trusted => ?_
    split
    · trivial
    refine (finishes_updateKnownHostsFile ssl _ fp).bind fun updated => ?_
    split <;> trivial
  · refine (finishes_promptTrust ssl _ fp).bind fun trusted => ?_
    split
    · trivial
    refine .perform trivial fun opened => ?_
    split
    · trivial
    · exact .perform trivial fun _ => .perform trivial fun _ => trivial

theorem finishes_nosTofuCheck (host : Text) (port errMax : Nat) :
    Finishes (TofuOp ssl) (nosTofuCheck (some ssl) host port errMax) := by
  unfold nosTofuCheck
  refine (finishes_computePeerFingerprint ssl).bind fun fingerprint => ?_
  cases fingerprint with
  | none => trivial
  | some fingerprint =>
    refine (finishes_checkKnownHost ssl fingerprint host port errMax).bind fun checked => ?_
    dsimp only
    split <;> trivial

theorem calls_nosTofuCheck (host : Text) (port errMax : Nat) :
    Calls (TofuOp ssl) (nosTofuCheck (some ssl) host port errMax) :=
  (finishes_nosTofuCheck ssl host port errMax).calls

/-! ### The readers and the close -/

/-- The operations that move bytes of one connection: a write, a read, a chunk handed on. -/
def TalkOp (ssl : Option WolfSsl) : Op → Prop
  | .sslWrite other _ => other = ssl
  | .sslRead other _ => other = ssl
  | .callback _ => True
  | _ => False

/-- The operations that take a reply from one connection and ask the user. -/
def ReplyOp (ssl : Option WolfSsl) : Op → Prop
  | .sslRead other _ => other = ssl
  | .callback _ | .print _ | .fgetsStdin _ => True
  | _ => False

/-- The operations that end a connection. -/
def CloseOp : Op → Prop
  | .sslShutdown _ | .sslFree _ | .ctxFree _ | .socketClose _ | .freeSocket _ => True
  | _ => False

theorem finishes_readHeaderBytes (conn : Option WolfSsl) (room : Nat) (buf : Text) (prev : Byte) :
    Finishes (· = .sslRead conn 1) (readHeaderBytes conn room buf prev) := by
  induction room generalizing buf prev with
  | zero => trivial
  | succ room inductionHypothesis =>
    unfold readHeaderBytes
    refine .perform rfl fun answer => ?_
    cases answer with
    | failed => trivial
    | data bytes nonempty fits =>
      dsimp only
      split
      · trivial
      · exact inductionHypothesis _ _

theorem finishes_readHeaderLine (conn : Option WolfSsl) (maxLen : Nat) :
    Finishes (· = .sslRead conn 1) (readHeaderLine conn maxLen) := by
  unfold readHeaderLine
  split
  · trivial
  · exact finishes_readHeaderBytes conn _ _ _

theorem calls_readHeaderLine (conn : Option WolfSsl) (maxLen : Nat) :
    Calls (· = .sslRead conn 1) (readHeaderLine conn maxLen) :=
  (finishes_readHeaderLine conn maxLen).calls

theorem talks_readHeaderLine (conn : Option WolfSsl) (maxLen : Nat) :
    Calls (TalkOp conn) (readHeaderLine conn maxLen) :=
  (calls_readHeaderLine conn maxLen).mono fun op equal => by
    subst equal
    rfl

theorem calls_readBody {User : Type} (fuel : Nat) (cb : User → Text → Int × User)
    (conn : Option WolfSsl) (user : User) :
    Calls (fun op => TalkOp conn op ∧ ReplyOp conn op) (readBody fuel cb conn user) := by
  refine Calls.loop (fun state => ?_) fuel _
  refine .perform ⟨rfl, rfl⟩ fun answer => ?_
  cases answer with
  | failed => trivial
  | data bytes nonempty fits =>
    refine .perform ⟨trivial, trivial⟩ fun _ => ?_
    dsimp only
    split <;> trivial

theorem finishes_nosTlsClose (tls : NosTlsCtx) : Finishes CloseOp (nosTlsClose tls) := by
  obtain ⟨ctx, ssl, tcpSock⟩ := tls
  cases ctx <;> cases ssl <;> cases tcpSock <;>
    simp [nosTlsClose, CloseOp]

theorem calls_nosTlsClose (tls : NosTlsCtx) : Calls CloseOp (nosTlsClose tls) :=
  (finishes_nosTlsClose tls).calls

/-! ### A turn of the request loop on an open connection -/

/-- The screen and the keyboard. -/
def AskOp : Op → Prop
  | .print _ | .fgetsStdin _ => True
  | _ => False

/-- The operations that move bytes of any connection. -/
def AnyTalkOp : Op → Prop
  | .sslWrite _ _ | .sslRead _ _ | .callback _ => True
  | _ => False

theorem CloseOp.not_talk {op : Op} (closes : CloseOp op) : ¬ AnyTalkOp op := by
  cases op <;> first | exact id | exact closes.elim

/-- Before the close a turn talks over its connection and asks the user. -/
def OpenOp (conn : Option WolfSsl) (op : Op) : Prop := TalkOp conn op ∨ AskOp op

theorem OpenOp.not_close {conn : Option WolfSsl} {op : Op} (isOpen : OpenOp conn op) :
    ¬ CloseOp op := by
  cases op <;> first | exact id | (rcases isOpen with talks | asks <;> contradiction)

theorem ReplyOp.isOpen {conn : Option WolfSsl} {op : Op} (replies : ReplyOp conn op) :
    OpenOp conn op := by
  cases op <;> first | exact .inl replies | exact .inr replies

/-- A program that works on an open connection and then only closes. -/
structure Session {Result : Type} (works : Op → Prop) (prog : Io Result) : Prop where
  calls : Calls (fun op => works op ∨ CloseOp op) prog
  staged : Staged AnyTalkOp CloseOp prog

variable {User Result : Type} {works : Op → Prop}

theorem Session.mono {wider : Op → Prop} {prog : Io Result} (session : Session works prog)
    (implies : ∀ op, works op → wider op) : Session wider prog where
  calls := session.calls.mono fun op => .imp_left (implies op)
  staged := session.staged

theorem Session.bind {First : Type} {prog : Io First} {rest : First → Io Result}
    (opens : ∀ op, works op → ¬ CloseOp op) (head : Calls works prog)
    (tail : ∀ value, Session works (rest value)) : Session works (prog >>= rest) where
  calls := (head.mono fun _ => .inl).bind fun value => (tail value).calls
  staged := .bind (head.mono opens) fun value => (tail value).staged

/-- An exit of the request loop: the close, and then a value. -/
theorem finishes_exit (tls : NosTlsCtx) {rest : NosTlsCtx → Io Result}
    (tail : ∀ after, ∃ value, rest after = .ret value) :
    Finishes CloseOp (nosTlsClose tls >>= rest) :=
  (finishes_nosTlsClose tls).bind fun after => by
    obtain ⟨value, equal⟩ := tail after
    rw [equal]
    trivial

theorem calls_exit (tls : NosTlsCtx) {rest : NosTlsCtx → Io Result}
    (tail : ∀ after, ∃ value, rest after = .ret value) :
    Calls CloseOp (nosTlsClose tls >>= rest) := (finishes_exit tls tail).calls

theorem session_exit (tls : NosTlsCtx) {rest : NosTlsCtx → Io Result}
    (tail : ∀ after, ∃ value, rest after = .ret value) :
    Session works (nosTlsClose tls >>= rest) where
  calls := (calls_exit tls tail).mono fun _ => .inr
  staged := ((calls_exit tls tail).mono fun _ => CloseOp.not_talk).staged

theorem session_respond (fuel : Nat) (cb : BodyCb User) (tls : NosTlsCtx) (st : StreamState User) :
    Session (ReplyOp tls.ssl) (respond fuel cb tls st) := by
  have opens (op : Op) (replies : ReplyOp tls.ssl op) : ¬ CloseOp op := replies.isOpen.not_close
  unfold respond
  split
  · refine .bind opens ((calls_readBody fuel (cb st.resp) tls.ssl st.user).mono fun _ => And.right)
      fun done => ?_
    dsimp only
    split
    · exact session_exit tls fun _ => ⟨_, rfl⟩
    · exact session_exit tls fun _ => ⟨_, rfl⟩
  split
  · refine .bind opens (calls_perform.mpr trivial) fun _ =>
      .bind opens (calls_perform.mpr trivial) fun line => ?_
    split
    · exact session_exit tls fun _ => ⟨_, rfl⟩
    · refine session_exit tls fun _ => ?_
      split <;> exact ⟨_, rfl⟩
  split
  · split
    · exact session_exit tls fun _ => ⟨_, rfl⟩
    · refine session_exit tls fun _ => ?_
      split <;> exact ⟨_, rfl⟩
  split
  · exact session_exit tls fun _ => ⟨_, rfl⟩
  split
  · exact session_exit tls fun _ => ⟨_, rfl⟩
  · exact session_exit tls fun _ => ⟨_, rfl⟩

/-- Without a 2x status the user is asked at most, and the connection closed. -/
theorem calls_respond_other {fuel : Nat} {cb : BodyCb User} {tls : NosTlsCtx}
    {st : StreamState User} (other : ¬ (20 ≤ st.resp.status ∧ st.resp.status < 30)) :
    Calls (fun op => AskOp op ∨ CloseOp op) (respond fuel cb tls st) := by
  have exit {rest : NosTlsCtx → Io (StreamState User ⊕ (Int × StreamState User))}
      (tail : ∀ after, ∃ value, rest after = .ret value) :
      Calls (fun op => AskOp op ∨ CloseOp op) (nosTlsClose tls >>= rest) :=
    (calls_exit tls tail).mono fun _ => .inr
  unfold respond
  rw [if_neg other]
  split
  · refine .perform (.inl trivial) fun _ => .perform (.inl trivial) fun line => ?_
    split
    · exact exit fun _ => ⟨_, rfl⟩
    · refine exit fun _ => ?_
      split <;> exact ⟨_, rfl⟩
  split
  · split
    · exact exit fun _ => ⟨_, rfl⟩
    · refine exit fun _ => ?_
      split <;> exact ⟨_, rfl⟩
  split
  · exact exit fun _ => ⟨_, rfl⟩
  split
  · exact exit fun _ => ⟨_, rfl⟩
  · exact exit fun _ => ⟨_, rfl⟩

/-- A turn of the request loop talks over its own connection, and not after its close. -/
theorem session_converse (fuel : Nat) (cb : BodyCb User) (tls : NosTlsCtx) (st : StreamState User) :
    Session (OpenOp tls.ssl) (converse fuel cb tls st) := by
  have opens (op : Op) (isOpen : OpenOp tls.ssl op) : ¬ CloseOp op := isOpen.not_close
  unfold converse
  split
  · exact session_exit tls fun _ => ⟨_, rfl⟩
  refine .bind opens (calls_perform.mpr (.inl rfl)) fun written => ?_
  split
  · exact session_exit tls fun _ => ⟨_, rfl⟩
  refine .bind opens ((talks_readHeaderLine tls.ssl _).mono fun _ => .inl) fun header => ?_
  split
  · dsimp only
    split
    · exact session_exit tls fun _ => ⟨_, rfl⟩
    · exact (session_respond fuel cb tls _).mono fun _ => ReplyOp.isOpen
  · exact session_exit tls fun _ => ⟨_, rfl⟩

end Nosgem
