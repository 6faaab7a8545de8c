/-
This file gives runs of the request loop that statements about it are tried on:
a connect that succeeds, a certificate that is known, a header line that is
read byte by byte, a redirect, and a body in one chunk.
-/

import Nosgem.KnownHosts
import Nosgem.Turns

namespace Nosgem

open CText Interaction

/-! ### Runs of the request loop -/

/-- The connection of a turn whose connect succeeded. -/
def openTls : NosTlsCtx := ⟨some ⟨0⟩, some ⟨0⟩, some ⟨0⟩⟩

/-- The events of a connect that succeeds. -/
def connecting (host : Text) (port : Nat) : List (Event Answer) :=
  [⟨.dnsResolve host true, (0 : Int)⟩, ⟨.dnsIsQueryPending, false⟩,
    ⟨.dnsResolve host false, (0 : Int)⟩, ⟨.getSocket, some ⟨0⟩⟩, ⟨.setRecvBuffer ⟨0⟩, false⟩,
    ⟨.connectNonBlocking ⟨0⟩ (port % 65536), false⟩, ⟨.drivePackets, ()⟩,
    ⟨.isConnectComplete ⟨0⟩, true⟩, ⟨.clientMethod, true⟩, ⟨.ctxNew, some ⟨0⟩⟩,
    ⟨.ctxSetup ⟨0⟩, ()⟩, ⟨.sslNew ⟨0⟩, some ⟨0⟩⟩, ⟨.sslSetup ⟨0⟩ host, ()⟩,
    ⟨.sslConnect ⟨0⟩, true⟩]

theorem nosTlsConnect_run (fuel : Nat) (host : Text) (port : Nat) :
    Steps anyEnv () (nosTlsConnect (fuel + 1) host port) (connecting host port) ()
      (.ret (0, openTls)) := by
  iterate 14 refine .any ?_
  exact .refl _ _

theorem connecting_quiet (host : Text) (port : Nat) :
    ∀ event ∈ connecting host port, ¬ IsReply event.op :=
  ((calls_nosTlsConnect 1 host port).mono fun _ => ConnectOp.not_reply).of_mem
    (nosTlsConnect_run 0 host port)

/-- The events of the close of that connection. -/
def closing : List (Event Answer) :=
  [⟨.sslShutdown ⟨0⟩, ()⟩, ⟨.sslFree ⟨0⟩, ()⟩, ⟨.ctxFree ⟨0⟩, ()⟩, ⟨.socketClose ⟨0⟩, ()⟩,
    ⟨.freeSocket ⟨0⟩, ()⟩]

theorem nosTlsClose_run : Steps anyEnv () (nosTlsClose openTls) closing () (.ret .zero) :=
  .any (.any (.any (.any (.any (.refl _ _)))))

/-- The events of a check against a store. -/
def checking (store : Option Text) (digest : Digest) : List (Event Answer) :=
  [⟨.peerCertificate ⟨0⟩, some [1]⟩, ⟨.sha256 [1], some digest⟩, ⟨.fopenRead .knownHosts, store⟩]

/-- A host whose certificate is the one in the store is trusted. -/
theorem nosTofuCheck_run {host hostport : Text} {port : Nat} {store : Option Text} {digest : Digest}
    (known : findKnownHost (hostportText host port) (storePieces store) =
      some ⟨hostport, text "SHA256", fingerprintText digest⟩) :
    Steps anyEnv () (nosTofuCheck (some ⟨0⟩) host port 128) (checking store digest) ()
      (.ret (0, [])) := by
  have check : Steps anyEnv () (checkKnownHost host port (fingerprintText digest) 128)
      [⟨.fopenRead .knownHosts, store⟩] () (.ret (0, [])) := by
    refine .any ?_
    rw [known]
    dsimp only
    rw [if_neg (by decide), if_pos ((strIEq_iff _ _).mpr rfl)]
    exact .refl _ _
  exact .any (.any (check.bind_left _))

/-- A line that ends in its first CR LF, after the byte `prev`. -/
def isHeaderLine : (prev : Byte) → Text → Bool
  | _, [] => false
  | prev, c :: rest => if prev = cr ∧ c = lf then rest.isEmpty else isHeaderLine c rest

theorem readHeaderBytes_run (conn : Option WolfSsl) (buf : Text) {room : Nat} {line : Text}
    {prev : Byte}
    (isLine : isHeaderLine prev line) (fits : line.length ≤ room) :
    ∃ trace, chunksIn trace = [] ∧
      Steps anyEnv () (readHeaderBytes conn room buf prev) trace ()
        (.ret (some (buf ++ line))) := by
  induction line generalizing room buf prev with
  | nil => cases isLine
  | cons c rest inductionHypothesis =>
    cases room with
    | zero => cases fits
    | succ room =>
      rw [isHeaderLine] at isLine
      by_cases ends : prev = cr ∧ c = lf
      · rw [if_pos ends, List.isEmpty_iff] at isLine
        subst isLine
        refine ⟨[⟨.sslRead conn 1, .data [c] (List.cons_ne_nil _ _) (Nat.le_refl _)⟩], rfl, .any ?_⟩
        dsimp only
        rw [if_pos (show prev = cr ∧ [c].head _ = lf from ends)]
        exact .refl _ _
      · rw [if_neg ends] at isLine
        obtain ⟨trace, none, run⟩ := inductionHypothesis (buf ++ [c]) isLine
          (Nat.le_of_succ_le_succ fits)
        refine ⟨⟨.sslRead conn 1, .data [c] (List.cons_ne_nil _ _) (Nat.le_refl _)⟩ :: trace, none,
          .any ?_⟩
        dsimp only
        rw [if_neg (show ¬ (prev = cr ∧ [c].head _ = lf) from ends)]
        rwa [List.append_assoc] at run

/-- A turn of the request loop against a known host comes to its response. -/
theorem exchange_opens {User : Type} (fuel : Nat) (cb : BodyCb User) (st : StreamState User)
    {store : Option Text} {hostport : Text} {digest : Digest}
    (known : findKnownHost (hostportText st.current.host st.current.port) (storePieces store) =
      some ⟨hostport, text "SHA256", fingerprintText digest⟩)
    (fits : ¬ st.current.host.length + st.current.path.length + 12 ≥ requestSize) :
    ∃ trace, (∀ event ∈ trace, ¬ IsReply event.op) ∧
      Steps anyEnv () (exchange (fuel + 1) cb st) trace ()
        (readHeaderLine openTls.ssl nosGeminiMaxHeader >>=
          answerHeader (fuel + 1) cb openTls st) := by
  have connect := nosTlsConnect_run fuel st.current.host st.current.port
  have quiet := connecting_quiet st.current.host st.current.port
  have check := nosTofuCheck_run known
  have checkQuiet := ((calls_nosTofuCheck ⟨0⟩ _ _ _).mono fun _ => TofuOp.not_reply).of_mem check
  have talk : Steps anyEnv () (converse (fuel + 1) cb openTls st)
      [⟨.sslWrite openTls.ssl (requestText st.current), (1 : Int)⟩] ()
      (readHeaderLine openTls.ssl nosGeminiMaxHeader >>=
        answerHeader (fuel + 1) cb openTls st) := by
    rw [converse_eq, if_neg fits]
    refine .any ?_
    rw [if_neg (show ¬ (1 : Int) ≤ 0 by decide)]
    exact .refl _ _
  refine ⟨connecting st.current.host st.current.port ++ (checking store digest ++
    [⟨.sslWrite openTls.ssl (requestText st.current), (1 : Int)⟩]), fun event member => ?_,
    connect.bind ?_⟩
  · rcases List.mem_append.mp member with first | later
    · exact quiet event first
    rcases List.mem_append.mp later with second | last
    · exact checkQuiet event second
    · rw [List.mem_singleton.mp last]
      exact id
  dsimp only
  rw [if_neg (show ¬ (0 : Int) ≠ 0 by decide)]
  refine check.bind ?_
  dsimp only
  rw [if_neg (show ¬ (0 : Int) ≠ 0 by decide)]
  exact talk

/-- A turn of the request loop against a known host reads the header line of the response. -/
theorem exchange_run {User : Type} (fuel : Nat) (cb : BodyCb User) (st : StreamState User)
    (header : Text) {store : Option Text} {hostport : Text} {digest : Digest} {resp : NosGeminiResp}
    (known : findKnownHost (hostportText st.current.host st.current.port) (storePieces store) =
      some ⟨hostport, text "SHA256", fingerprintText digest⟩)
    (fits : ¬ st.current.host.length + st.current.path.length + 12 ≥ requestSize)
    (isLine : isHeaderLine 0 header) (short : header.length ≤ nosGeminiMaxHeader - 1)
    (parsed : parseHeader header st.resp nosGeminiMaxHeader = (0, resp)) :
    ∃ trace, chunksIn trace = [] ∧
      Steps anyEnv () (exchange (fuel + 1) cb st) trace ()
        (respond (fuel + 1) cb openTls { st with resp }) := by
  obtain ⟨opening, quiet, opens⟩ := exchange_opens fuel cb st known fits
  obtain ⟨reading, noHeader, read⟩ :=
    readHeaderBytes_run openTls.ssl [] isLine short
  have answers : answerHeader (fuel + 1) cb openTls st (some header) =
      respond (fuel + 1) cb openTls { st with resp } := by
    rw [answerHeader, parsed]
    rfl
  refine ⟨opening ++ reading, ?_, opens.append (answers ▸ read.bind_left _)⟩
  rw [chunksIn_append, (opening_of_quiet quiet).chunksIn, List.nil_append]
  exact noHeader

/-- A redirect that resolves goes on with another turn. -/
theorem respond_redirect {User : Type} (fuel : Nat) (cb : BodyCb User) (st : StreamState User)
    {next : NosUrl} (redirects : 30 ≤ st.resp.status ∧ st.resp.status < 40)
    (few : ¬ st.redirects ≥ nosGeminiMaxRedirects)
    (resolved : nosUrlResolve st.current st.resp.metaText = some next) :
    ∃ trace, chunksIn trace = [] ∧
      Steps anyEnv () (respond fuel cb openTls st) trace ()
        (.ret (.inl { st with redirects := st.redirects + 1, current := next })) := by
  refine ⟨closing ++ [], rfl, ?_⟩
  unfold respond
  rw [if_neg (by omega), if_neg (by omega), if_pos redirects, if_neg few]
  refine nosTlsClose_run.bind ?_
  dsimp only
  rw [resolved]
  exact .refl _ _

/-- A body in one chunk is handed to the callback, whatever the next read fails with. -/
theorem respond_body {User : Type} (fuel : Nat) (cb : BodyCb User) (st : StreamState User)
    (reason : ReadFailure) {user : User} {document : Text}
    (success : 20 ≤ st.resp.status ∧ st.resp.status < 30)
    (nonempty : document ≠ []) (short : document.length ≤ 512)
    (took : cb st.resp st.user document = (0, user)) :
    ∃ trace done, chunksIn trace = [document] ∧ readsIn trace = [none, some reason] ∧
      done.resp = st.resp ∧ done.user = user ∧
      Steps anyEnv () (respond (fuel + 2) cb openTls st) trace () (.ret (.inr (0, done))) := by
  obtain ⟨reading, chunks, reads, body⟩ : ∃ reading, chunksIn reading = [document] ∧
      readsIn reading = [none, some reason] ∧
      Steps anyEnv () (readBody (fuel + 2) (cb st.resp) openTls.ssl st.user) reading ()
        (.ret (false, (0 + document.length) % uintRange, user)) := by
    refine ⟨[⟨.sslRead openTls.ssl 512, .data document nonempty short⟩, ⟨.callback document, ()⟩,
      ⟨.sslRead openTls.ssl 512, .failed reason⟩], rfl, rfl, .any (.any ?_)⟩
    dsimp only
    rw [took]
    exact .any (.refl _ _)
  refine ⟨reading ++ closing,
    { st with user, bodyLen := (0 + document.length) % uintRange }, ?_, ?_, rfl, rfl, ?_⟩
  · rw [chunksIn_append, chunks]
    rfl
  · rw [readsIn_append, reads]
    rfl
  · unfold respond
    rw [if_pos success]
    refine body.bind ?_
    dsimp only
    rw [if_neg (show ¬ false = true by decide)]
    exact nosTlsClose_run.bind_left _

/-! ### A known host -/

/-- The store in which the certificate of the server is known. -/
def knownStore : Text :=
  recordText (hostportText (text "h") 1965) (fingerprintText (.replicate 32 0))

theorem findKnownHost_knownStore :
    findKnownHost (hostportText (text "h") 1965) (storePieces (some knownStore)) =
      some ⟨hostportText (text "h") 1965, text "SHA256", fingerprintText (.replicate 32 0)⟩ := by
  decide

/-- A page of the host whose certificate is known. -/
def plainUrl : NosUrl := ⟨text "h", 1965, text "/"⟩

/-- A callback that takes every chunk. -/
def takeAll : BodyCb Unit := fun _ _ _ => (0, ())

end Nosgem
