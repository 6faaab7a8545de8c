/-
This file proves that the request loop balances its connection resources: in
every run, whatever the connects, the certificate check, the reads and writes,
the server's statuses, the callback and the user do, the loop holds no TCP
socket and no wolfSSL object when it starts a connect and when it returns, and
in between it only works on and only releases objects it holds.

The invariant of a turn of the loop is small: before the connect nothing is
held, after a successful connect exactly the three objects of the connection
context, and every exit goes through one close.
-/

import Nosgem.Footprint
import Nosgem.Ledger

namespace Nosgem

open CText Interaction

/-! ### The objects of a connection -/

/-- The objects the request loop acquires and has to release. -/
inductive Resource where
  | socket (sock : TcpSocket)
  | ctx (ctx : WolfCtx)
  | ssl (ssl : WolfSsl)
  deriving DecidableEq, Repr

/-- Which calls acquire, release and use them. A NULL answer acquires nothing, and a call on a NULL
object uses nothing. -/
def resources : Accounts Answer Resource where
  acquired
    | .getSocket, sock => sock.map .socket
    | .ctxNew, ctx => ctx.map .ctx
    | .sslNew _, ssl => ssl.map .ssl
    | _, _ => none
  released
    | .freeSocket sock => some (.socket sock)
    | .ctxFree ctx => some (.ctx ctx)
    | .sslFree ssl => some (.ssl ssl)
    | _ => none
  used
    | .setRecvBuffer sock | .connectNonBlocking sock _ | .isConnectComplete sock | .isClosed sock
    | .socketClose sock => [.socket sock]
    | .ctxSetup ctx | .sslNew ctx => [.ctx ctx]
    | .sslSetup ssl _ | .sslConnect ssl | .sslDiagnose ssl | .sslShutdown ssl
    | .peerCertificate ssl => [.ssl ssl]
    | .sslWrite ssl _ | .sslRead ssl _ => (ssl.map .ssl).toList
    | _ => []

/-- The wolfSSL calls that send or receive through the TCP socket of the connection. -/
def overSocket : Op → Bool
  | .sslConnect _ | .sslShutdown _ | .sslWrite _ _ | .sslRead _ _ => true
  | _ => false

/-- The first call of `nos_tls_connect`. -/
def startsConnect : Op → Bool
  | .dnsResolve _ sendReq => sendReq
  | _ => false

/-- A call that respects the ledger: it uses and releases held objects only, goes over a held
socket, and starts a connect only when nothing is held. -/
structure Balanced (held : List Resource) (op : Op) : Prop where
  permitted : resources.Permitted held op
  socket : overSocket op → ∃ sock, .socket sock ∈ held
  connects : startsConnect op → held = []

/-- The objects of an open connection. -/
def NosTlsCtx.Open (tls : NosTlsCtx) (held : List Resource) : Prop :=
  ∃ ctx ssl sock, tls = ⟨some ctx, some ssl, some sock⟩ ∧ held = [.ssl ssl, .ctx ctx, .socket sock]

theorem balanced_iff {held : List Resource} {op : Op} :
    Balanced held op ↔ (∀ object ∈ resources.used op, object ∈ held) ∧
      (∀ object, resources.released op = some object → object ∈ held) ∧
      (overSocket op → ∃ sock, .socket sock ∈ held) ∧ (startsConnect op → held = []) :=
  ⟨fun balanced => ⟨balanced.permitted.used, balanced.permitted.released, balanced.socket,
      balanced.connects⟩,
    fun ⟨used, released, socket, connects⟩ => ⟨⟨used, released⟩, socket, connects⟩⟩

/-- The runs of the browser's functions against any environment that hands out objects which are
not held, with the calls the ledger allows. -/
abbrev Keeps {Result : Type} (prog : Io Result) (post : Result → List Resource → Prop)
    (held : List Resource) : Prop :=
  Meets resources.ledger Balanced prog post held

/-! ### Connecting -/

theorem keeps_nosDnsResolve (fuel : Nat) (host : Text) :
    Keeps (nosDnsResolve fuel host) (fun _ after => after = []) [] := by
  have polls : Calls (fun op => op = .dnsIsQueryPending ∨ op = .drivePackets) (awaitDns fuel) := by
    refine Calls.loop (fun _ => .perform (.inl rfl) fun pending => ?_) fuel _
    split
    · exact .perform (.inr rfl) fun _ => trivial
    · trivial
  unfold nosDnsResolve
  refine meets_quiet ⟨fun _ => rfl, rfl⟩ (by simp [balanced_iff, resources, overSocket])
    fun rc => ?_
  split
  · rfl
  refine (polls.quiet ?_ ?_).bind ?_
  · rintro op (rfl | rfl) <;> exact ⟨fun _ => rfl, rfl⟩
  · rintro op (rfl | rfl) <;> simp [balanced_iff, resources, overSocket, startsConnect]
  rintro _ after rfl
  refine meets_quiet ⟨fun _ => rfl, rfl⟩ (by simp [balanced_iff, resources, overSocket])
    fun rc => ?_
  split <;> rfl

theorem keeps_awaitConnect (fuel : Nat) (sock : TcpSocket) :
    Keeps (awaitConnect fuel sock) (fun _ after => after = [.socket sock]) [.socket sock] := by
  have polls : Calls (fun op => op = .drivePackets ∨ op = .connectTimedOut ∨
      op = .isConnectComplete sock ∨ op = .isClosed sock) (awaitConnect fuel sock) := by
    refine Calls.loop (fun _ => ?_) fuel _
    refine .perform (by simp) fun _ => .perform (by simp) fun complete => ?_
    split
    · trivial
    refine .perform (by simp) fun closed => ?_
    split
    · trivial
    refine .perform (by simp) fun late => ?_
    split <;> trivial
  refine polls.quiet ?_ ?_
  · rintro op (rfl | rfl | rfl | rfl) <;> exact ⟨fun _ => rfl, rfl⟩
  · rintro op (rfl | rfl | rfl | rfl) <;>
      simp [balanced_iff, resources, overSocket, startsConnect]

/-- `close` and `freeSocket`, on the way out of a failed connect. -/
theorem keeps_failTcp (sock : TcpSocket) (c : NosTlsCtx) :
    Keeps (failTcp sock c) (fun done after => done.1 = -1 ∧ after = []) [.socket sock] := by
  unfold failTcp
  refine meets_quiet ⟨fun _ => rfl, rfl⟩
    (by simp [balanced_iff, resources, overSocket, startsConnect]) fun _ => ?_
  refine meets_release (.socket sock) rfl (fun _ => rfl)
    (by simp [balanced_iff, resources, overSocket, startsConnect]) fun _ => ?_
  exact ⟨rfl, by simp⟩

theorem keeps_failCtx (ctx : WolfCtx) (sock : TcpSocket) (c : NosTlsCtx) :
    Keeps (failCtx ctx sock c) (fun done after => done.1 = -1 ∧ after = [])
      [.ctx ctx, .socket sock] := by
  unfold failCtx
  refine meets_release (.ctx ctx) rfl (fun _ => rfl)
    (by simp [balanced_iff, resources, overSocket, startsConnect]) fun _ => ?_
  rw [List.erase_cons_head]
  exact keeps_failTcp sock _

theorem keeps_failSsl (ssl : WolfSsl) (ctx : WolfCtx) (sock : TcpSocket) (c : NosTlsCtx) :
    Keeps (failSsl ssl ctx sock c) (fun done after => done.1 = -1 ∧ after = [])
      [.ssl ssl, .ctx ctx, .socket sock] := by
  unfold failSsl
  refine meets_release (.ssl ssl) rfl (fun _ => rfl)
    (by simp [balanced_iff, resources, overSocket, startsConnect]) fun _ => ?_
  rw [List.erase_cons_head]
  exact keeps_failCtx ctx sock _

/-- What `nos_tls_connect` leaves: an open connection, or nothing. -/
def ConnectDone (done : Int × NosTlsCtx) (held : List Resource) : Prop :=
  done.1 = 0 ∧ done.2.Open held ∨ done.1 = -1 ∧ held = []

theorem keeps_handshake (sock : TcpSocket) (host : Text) :
    Keeps (handshake sock host) ConnectDone [.socket sock] := by
  unfold handshake
  refine meets_quiet ⟨fun _ => rfl, rfl⟩
    (by simp [balanced_iff, resources, overSocket, startsConnect]) fun method => ?_
  split
  · exact (keeps_failTcp sock _).mono fun _ _ => .inr
  refine meets_acquire rfl (by simp [balanced_iff, resources, overSocket, startsConnect]) ?_ ?_
  · intro ctx refused
    obtain rfl : ctx = none := by simpa [resources] using refused
    exact (keeps_failTcp sock _).mono fun _ _ => .inr
  intro ctx object handed _
  obtain ⟨ctx, rfl, rfl⟩ : ∃ some, ctx = .some some ∧ Resource.ctx some = object := by
    simpa [resources] using handed
  refine meets_quiet ⟨fun _ => rfl, rfl⟩
    (by simp [balanced_iff, resources, overSocket, startsConnect]) fun _ => ?_
  refine meets_acquire rfl (by simp [balanced_iff, resources, overSocket, startsConnect]) ?_ ?_
  · intro ssl refused
    obtain rfl : ssl = none := by simpa [resources] using refused
    exact (keeps_failCtx ctx sock _).mono fun _ _ => .inr
  intro ssl object handed _
  obtain ⟨ssl, rfl, rfl⟩ : ∃ some, ssl = .some some ∧ Resource.ssl some = object := by
    simpa [resources] using handed
  refine meets_quiet ⟨fun _ => rfl, rfl⟩
    (by simp [balanced_iff, resources, overSocket, startsConnect]) fun _ => ?_
  refine meets_quiet ⟨fun _ => rfl, rfl⟩
    (by simp [balanced_iff, resources, overSocket, startsConnect]) fun shaken => ?_
  split
  · refine meets_quiet ⟨fun _ => rfl, rfl⟩
      (by simp [balanced_iff, resources, overSocket, startsConnect]) fun _ => ?_
    exact (keeps_failSsl ssl ctx sock _).mono fun _ _ => .inr
  · exact .inl ⟨rfl, ctx, ssl, sock, rfl, rfl⟩

theorem keeps_nosTlsConnect (fuel : Nat) (host : Text) (port : Nat) :
    Keeps (nosTlsConnect fuel host port) ConnectDone [] := by
  unfold nosTlsConnect
  refine (keeps_nosDnsResolve fuel host).bind ?_
  rintro resolved after rfl
  split
  · exact .inr ⟨rfl, rfl⟩
  refine meets_acquire rfl (by simp [balanced_iff, resources, overSocket, startsConnect]) ?_ ?_
  · intro sock refused
    obtain rfl : sock = none := by simpa [resources] using refused
    exact .inr ⟨rfl, rfl⟩
  intro sock object handed _
  obtain ⟨sock, rfl, rfl⟩ : ∃ some, sock = .some some ∧ Resource.socket some = object := by
    simpa [resources] using handed
  have release : Keeps (invoke (.freeSocket sock) >>= fun _ => return (-1, NosTlsCtx.zero))
      ConnectDone [.socket sock] :=
    meets_release (.socket sock) rfl (fun _ => rfl)
      (by simp [balanced_iff, resources, overSocket, startsConnect]) fun _ => .inr ⟨rfl, by simp⟩
  refine meets_quiet ⟨fun _ => rfl, rfl⟩
    (by simp [balanced_iff, resources, overSocket, startsConnect]) fun unset => ?_
  split
  · exact release
  refine meets_quiet ⟨fun _ => rfl, rfl⟩
    (by simp [balanced_iff, resources, overSocket, startsConnect]) fun unconnected => ?_
  split
  · exact release
  refine (keeps_awaitConnect fuel sock).bind ?_
  rintro connected after rfl
  split
  · exact meets_quiet ⟨fun _ => rfl, rfl⟩
      (by simp [balanced_iff, resources, overSocket, startsConnect]) fun _ => release
  · exact keeps_handshake sock host

/-! ### Talking and closing -/

/-- `nos_tls_close` releases the three objects of an open connection. -/
theorem keeps_nosTlsClose {tls : NosTlsCtx} {held : List Resource} (isOpen : tls.Open held) :
    Keeps (nosTlsClose tls) (fun _ after => after = []) held := by
  obtain ⟨ctx, ssl, sock, rfl, rfl⟩ := isOpen
  unfold nosTlsClose
  refine meets_quiet ⟨fun _ => rfl, rfl⟩
    (by simp [balanced_iff, resources, overSocket, startsConnect]) fun _ => ?_
  refine meets_release (.ssl ssl) rfl (fun _ => rfl)
    (by simp [balanced_iff, resources, overSocket, startsConnect]) fun _ => ?_
  rw [List.erase_cons_head]
  refine meets_release (.ctx ctx) rfl (fun _ => rfl)
    (by simp [balanced_iff, resources, overSocket, startsConnect]) fun _ => ?_
  rw [List.erase_cons_head]
  refine meets_quiet ⟨fun _ => rfl, rfl⟩
    (by simp [balanced_iff, resources, overSocket, startsConnect]) fun _ => ?_
  refine meets_release (.socket sock) rfl (fun _ => rfl)
    (by simp [balanced_iff, resources, overSocket, startsConnect]) fun _ => ?_
  rw [List.erase_cons_head]
  exact rfl

/-- Between connect and close the objects of the connection stay held. -/
theorem keeps_of_calls {Result : Type} {prog : Io Result} {tls : NosTlsCtx}
    {held : List Resource} (isOpen : tls.Open held) (calls : Calls (TalkOp tls.ssl) prog) :
    Keeps prog (fun _ after => after = held) held := by
  obtain ⟨ctx, ssl, sock, rfl, rfl⟩ := isOpen
  refine calls.quiet (fun op member => ?_) (fun op member => ?_)
  · cases op <;> first | exact ⟨fun _ => rfl, rfl⟩ | exact member.elim
  · cases op <;> first
      | exact member.elim
      | (cases member; simp [balanced_iff, resources, overSocket, startsConnect])

theorem keeps_nosTofuCheck {tls : NosTlsCtx} {held : List Resource} (isOpen : tls.Open held)
    (host : Text) (port errMax : Nat) :
    Keeps (nosTofuCheck tls.ssl host port errMax) (fun _ after => after = held) held := by
  obtain ⟨ctx, ssl, sock, rfl, rfl⟩ := isOpen
  refine (calls_nosTofuCheck ssl host port errMax).quiet (fun op member => ?_)
    (fun op member => ?_)
  · cases op <;> first | exact ⟨fun _ => rfl, rfl⟩ | exact member.elim
  · cases op <;> first
      | exact member.elim
      | (cases member; simp [balanced_iff, resources, overSocket, startsConnect])

variable {User : Type} {tls : NosTlsCtx} {held : List Resource}

/-- An exit of the request loop: the connection is closed and a value is returned. -/
theorem keeps_exit {Result : Type} (isOpen : tls.Open held) (value : Result) :
    Keeps (nosTlsClose tls >>= fun _ => return value) (fun _ after => after = []) held :=
  (keeps_nosTlsClose isOpen).bind fun _ _ closed => closed

theorem keeps_respond (isOpen : tls.Open held) (fuel : Nat) (cb : BodyCb User)
    (st : StreamState User) : Keeps (respond fuel cb tls st) (fun _ after => after = []) held := by
  unfold respond
  split
  · refine (keeps_of_calls isOpen
      ((calls_readBody fuel (cb st.resp) tls.ssl st.user).mono fun _ => And.left)).bind ?_
    rintro ⟨aborted, total, user⟩ after rfl
    dsimp only
    split
    · exact keeps_exit isOpen _
    · exact keeps_exit isOpen _
  split
  · refine meets_quiet ⟨fun _ => rfl, rfl⟩
      (by simp [balanced_iff, resources, overSocket, startsConnect]) fun _ => ?_
    refine meets_quiet ⟨fun _ => rfl, rfl⟩
      (by simp [balanced_iff, resources, overSocket, startsConnect]) fun line => ?_
    split
    · exact keeps_exit isOpen _
    · refine (keeps_nosTlsClose isOpen).bind ?_
      rintro _ after rfl
      split <;> rfl
  split
  · split
    · exact keeps_exit isOpen _
    · refine (keeps_nosTlsClose isOpen).bind ?_
      rintro _ after rfl
      split <;> rfl
  split
  · exact keeps_exit isOpen _
  split
  · exact keeps_exit isOpen _
  · exact keeps_exit isOpen _

theorem keeps_converse (isOpen : tls.Open held) (fuel : Nat) (cb : BodyCb User)
    (st : StreamState User) : Keeps (converse fuel cb tls st) (fun _ after => after = []) held := by
  unfold converse
  split
  · exact keeps_exit isOpen _
  have writes : Calls (TalkOp tls.ssl) (invoke (.sslWrite tls.ssl (requestText st.current))) :=
    calls_perform.mpr rfl
  refine (keeps_of_calls isOpen writes).bind ?_
  rintro written after rfl
  split
  · exact keeps_exit isOpen _
  refine (keeps_of_calls isOpen (talks_readHeaderLine tls.ssl _)).bind ?_
  rintro header after rfl
  split
  · dsimp only
    split
    · exact keeps_exit isOpen _
    · exact keeps_respond isOpen fuel cb _
  · exact keeps_exit isOpen _

/-- One turn of the request loop starts and ends with an empty ledger. -/
theorem keeps_exchange (fuel : Nat) (cb : BodyCb User) (st : StreamState User) :
    Keeps (exchange fuel cb st) (fun _ after => after = []) [] := by
  unfold exchange
  refine (keeps_nosTlsConnect fuel _ _).bind ?_
  rintro ⟨rc, tls⟩ held (⟨rfl, isOpen⟩ | ⟨rfl, rfl⟩)
  · dsimp only
    rw [if_neg (by decide)]
    refine (keeps_nosTofuCheck isOpen _ _ _).bind ?_
    rintro ⟨trusted, terr⟩ after rfl
    dsimp only
    split
    · exact keeps_exit isOpen _
    · exact keeps_converse isOpen fuel cb st
  · rfl

/-! ### Every run of the request loop -/

/-- In every run of `nos_gemini_request_stream`, every call uses and releases held objects only and
goes over a held socket, every connect starts with an empty ledger, and so does the return. -/
theorem nosGeminiRequestStream_balanced (fuel : Nat) (url : NosUrl) (cb : BodyCb User) (user : User)
    (trace : List (Event Answer)) (left : Io (Int × StreamState User))
    (run : Steps resources.ledger [] (nosGeminiRequestStream fuel url cb user) trace held left) :
    (∀ op next, left = .call op next → Balanced held op) ∧
      ∀ result, left = .ret result → held = [] := by
  have keeps : Keeps (nosGeminiRequestStream fuel url cb user) (fun _ after => after = []) [] := by
    refine meets_loop (fun _ after => after = []) (fun here after empty => ?_) fuel rfl
    subst empty
    refine (keeps_exchange fuel cb here).mono fun next after empty => ?_
    cases next <;> exact empty
  refine ⟨?_, ?_⟩
  · rintro op next rfl
    exact keeps.allowed_of_steps run
  · rintro result rfl
    exact keeps.post_of_steps run

/-- A run whose connect gets a socket and a context and is then refused by `wolfSSL_new`. -/
def refusedConnect : List (Event Answer) :=
  [⟨.dnsResolve [] true, (0 : Int)⟩, ⟨.dnsIsQueryPending, false⟩, ⟨.dnsResolve [] false, (0 : Int)⟩,
    ⟨.getSocket, some ⟨0⟩⟩, ⟨.setRecvBuffer ⟨0⟩, false⟩, ⟨.connectNonBlocking ⟨0⟩ 1965, false⟩,
    ⟨.drivePackets, ()⟩, ⟨.isConnectComplete ⟨0⟩, true⟩, ⟨.clientMethod, true⟩,
    ⟨.ctxNew, some ⟨0⟩⟩, ⟨.ctxSetup ⟨0⟩, ()⟩, ⟨.sslNew ⟨0⟩, none⟩, ⟨.ctxFree ⟨0⟩, ()⟩,
    ⟨.socketClose ⟨0⟩, ()⟩, ⟨.freeSocket ⟨0⟩, ()⟩]

theorem nosGeminiRequestStream_balanced_refused :
    ∃ held result, Steps resources.ledger [] (nosGeminiRequestStream 1 ⟨[], 1965, []⟩
        (fun _ _ _ => (0, ())) ()) refusedConnect held (.ret result) ∧ held = [] := by
  have run : ∃ held result, Steps resources.ledger [] (nosGeminiRequestStream 1 ⟨[], 1965, []⟩
      (fun _ _ _ => (0, ())) ()) refusedConnect held (.ret result) := by
    refine ⟨?_, ?_, ?_⟩
    rotate_left 2
    · repeat refine .call ⟨by decide, rfl⟩ ?_
      exact .refl _ _
  obtain ⟨held, result, run⟩ := run
  exact ⟨held, result, run, (nosGeminiRequestStream_balanced 1 _ _ _ _ _ run).2 result rfl⟩

end Nosgem
