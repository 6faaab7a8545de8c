/-
This file models `gemini.c`: reading and parsing the response header, encoding
an input line as a query, and the request loop, which connects, checks the
certificate, sends the request, reads the response and then returns or goes on
with the URL of a redirect or of an answered prompt.

One turn of the request loop is `exchange`; its state is the locals and the
out-parameters of the source function at the head of the loop. The body
callback is a function of its user data. Lengths that the source keeps in an
`unsigned int` of the 16-bit target are taken modulo `2 ^ 16` where they can
leave its range.

The buffered form of a request is a callback that copies the chunks into the
caller's buffer; its writes are checked, and one outside of the buffer is kept
as such.
-/

import Nosgem.Buffers
import Nosgem.Url
import Nosgem.Tls
import Nosgem.Tofu

namespace Nosgem

open CText Interaction

/-! ### Results -/

/-- `nos_gemini_resp_t`. -/
structure NosGeminiResp where
  status : Nat
  metaText : Text
  deriving DecidableEq, Repr

/-- `nos_gemini_err_t`. -/
structure NosGeminiErr where
  code : Int
  tlsErr : Int
  redirectLimit : Nat
  msg : Text
  deriving DecidableEq, Repr

/-- `set_err`: `strncpy` into `msg[128]`. -/
def setErr (err : NosGeminiErr) (code tlsErr : Int) (msg : Text) : NosGeminiErr :=
  { err with code, tlsErr, redirectLimit := 0, msg := msg.take 127 }

/-! ### The response header -/

/-- `NOS_GEMINI_MAX_HEADER`, also the size of `resp->meta`. -/
def nosGeminiMaxHeader : Nat := 1024

/-- The loop of `read_header_line` with room for `room` more bytes. -/
def readHeaderBytes (ssl : Option WolfSsl) : (room : Nat) → (buf : Text) → (prev : Byte) →
    Io (Option Text)
  | 0, _, _ => return none
  | room + 1, buf, prev => do
    match ← invoke (.sslRead ssl 1) with
    | .failed _ => return none
    | .data bytes nonempty _ =>
      let c := bytes.head nonempty
      if prev = cr ∧ c = lf then return some (buf ++ [c])
      readHeaderBytes ssl room (buf ++ [c]) c

/-- `read_header_line`: the bytes in the buffer, nothing where it returns -1. -/
def readHeaderLine (ssl : Option WolfSsl) (maxLen : Nat) : Io (Option Text) :=
  if maxLen = 0 then return none else readHeaderBytes ssl (maxLen - 1) [] 0

/-- The rest of a header line up to its CR LF. -/
def takeMeta : Text → Text
  | [] => []
  | c :: rest => if c = cr ∧ rest.head? = some lf then [] else c :: takeMeta rest

/-- `parse_header`: the result and the response it fills. -/
def parseHeader (line : Text) (resp : NosGeminiResp) (metaMax : Nat) : Int × NosGeminiResp :=
  match (cString line).dropWhile isBlank with
  | tens :: ones :: rest =>
    if isDigit tens ∧ isDigit ones then
      let resp := { resp with status := (tens.toNat - 48) * 10 + (ones.toNat - 48) }
      let metaText := takeMeta (rest.dropWhile isBlank)
      if metaText.length ≥ metaMax then (-1, resp) else (0, { resp with metaText })
    else (-1, resp)
  | _ => (-1, resp)

/-! ### Queries -/

/-- `is_unreserved`. -/
def isUnreserved (c : Byte) : Bool :=
  (byte 'A' ≤ c && c ≤ byte 'Z') || (byte 'a' ≤ c && c ≤ byte 'z') || isDigit c ||
    c == byte '-' || c == byte '.' || c == byte '_' || c == byte '~'

/-- The loop of `url_encode_query` with the bytes put out so far. -/
def encodeQueryBytes (outMax : Nat) : Text → (out : Text) → Option Text
  | [], out => some out
  | c :: rest, out =>
    if isUnreserved c then
      if out.length + 1 ≥ outMax then none else encodeQueryBytes outMax rest (out ++ [c])
    else if out.length + 3 ≥ outMax then none
    else
      encodeQueryBytes outMax rest
        (out ++ [byte '%', hexDigit (c.toNat / 16), hexDigit (c.toNat % 16)])

/-- `url_encode_query`. -/
def urlEncodeQuery (query : Text) (outMax : Nat) : Option Text :=
  if outMax = 0 then none else encodeQueryBytes outMax query []

/-- `apply_query`. -/
def applyQuery (base : NosUrl) (query : Text) : Option NosUrl :=
  match urlEncodeQuery query pathSize with
  | none => none
  | some encoded =>
    let newPath := base.path.takeWhile (· != question)
    if newPath.length + 1 + encoded.length ≥ pathSize then none
    else some { base with path := newPath ++ question :: encoded }

/-! ### The request loop -/

/-- `NOS_GEMINI_MAX_REDIRECTS`. -/
def nosGeminiMaxRedirects : Nat := 5

/-- `nos_gemini_body_cb`: what the callback returns, and its user data after the call. The user data
may point to the response the request fills, so the callback is given that, too. -/
abbrev BodyCb (User : Type) := NosGeminiResp → User → Text → Int × User

/-- The locals and out-parameters of `nos_gemini_request_stream` at the head of its loop. -/
structure StreamState (User : Type) where
  current : NosUrl
  redirects : Nat
  resp : NosGeminiResp
  bodyLen : Nat
  err : NosGeminiErr
  user : User
  deriving DecidableEq, Repr

variable {User : Type}

/-- `set_err(err, -1, 0, msg); return -1;`. -/
def StreamState.fail (st : StreamState User) (msg : Text) :
    StreamState User ⊕ (Int × StreamState User) :=
  .inr (-1, { st with err := setErr st.err (-1) 0 msg })

/-- The request line: `sprintf(request, "gemini://%s%s\r\n", host, path)`. -/
def requestText (url : NosUrl) : Text := nosUrlScheme ++ url.host ++ url.path ++ [cr, lf]

/-- The size of the request buffer. -/
def requestSize : Nat := 768

/-- The range of `unsigned int` on the 16-bit target. -/
def uintRange : Nat := 65536

/-- One turn of the body loop. -/
def readChunk (cb : User → Text → Int × User) (ssl : Option WolfSsl) :
    Nat × User → Io ((Nat × User) ⊕ (Bool × Nat × User)) := fun (total, user) => do
  match ← invoke (.sslRead ssl 512) with
  | .failed _ => return .inr (false, total, user)
  | .data bytes _ _ =>
    invoke (.callback bytes)
    let (rc, user) := cb user bytes
    if rc ≠ 0 then return .inr (true, total, user)
    return .inl ((total + bytes.length) % uintRange, user)

/-- The body loop: whether the callback aborted, the total it was handed, and its user data. -/
def readBody (fuel : Nat) (cb : User → Text → Int × User) (ssl : Option WolfSsl) (user : User) :
    Io (Bool × Nat × User) :=
  loop (readChunk cb ssl) fuel (0, user)

/-- The branches of the request loop on the status of a parsed header. -/
def respond (fuel : Nat) (cb : BodyCb User) (tls : NosTlsCtx) (st : StreamState User) :
    Io (StreamState User ⊕ (Int × StreamState User)) := do
  if 20 ≤ st.resp.status ∧ st.resp.status < 30 then
    let (aborted, total, user) ← readBody fuel (cb st.resp) tls.ssl st.user
    if aborted then
      let _ ← nosTlsClose tls
      return { st with user }.fail (text "body callback aborted")
    let _ ← nosTlsClose tls
    return .inr (0, { st with user, bodyLen := total })
  if 10 ≤ st.resp.status ∧ st.resp.status < 20 then
    invoke (.print ((if st.resp.metaText ≠ [] then st.resp.metaText else text "Input:") ++
      text " "))
    match ← invoke (.fgetsStdin 256) with
    | none =>
      let _ ← nosTlsClose tls
      return st.fail (text "input aborted")
    | some line =>
      let line := rstripNewline line.bytes
      let _ ← nosTlsClose tls
      match applyQuery st.current line with
      | none => return st.fail (text "query encoding failed")
      | some next => return .inl { st with current := next }
  if 30 ≤ st.resp.status ∧ st.resp.status < 40 then
    if st.redirects ≥ nosGeminiMaxRedirects then
      let _ ← nosTlsClose tls
      -- the flag is set first and `set_err` clears it again
      return { st with
        redirects := st.redirects + 1
        err := { st.err with redirectLimit := 1 } }.fail
        (text "redirect limit exceeded")
    let st := { st with redirects := st.redirects + 1 }
    let _ ← nosTlsClose tls
    match nosUrlResolve st.current st.resp.metaText with
    | none => return st.fail (text "redirect resolve failed")
    | some next => return .inl { st with current := next }
  if 40 ≤ st.resp.status ∧ st.resp.status < 60 then
    let _ ← nosTlsClose tls
    return .inr (0, { st with bodyLen := 0 })
  if 60 ≤ st.resp.status ∧ st.resp.status < 70 then
    let _ ← nosTlsClose tls
    return .inr (0, { st with bodyLen := 0 })
  let _ ← nosTlsClose tls
  return .inr (0, st)

/-- The part of a turn of the request loop on an open and trusted connection. -/
def converse (fuel : Nat) (cb : BodyCb User) (tls : NosTlsCtx) (st : StreamState User) :
    Io (StreamState User ⊕ (Int × StreamState User)) := do
  if st.current.host.length + st.current.path.length + 12 ≥ requestSize then
    let _ ← nosTlsClose tls
    return st.fail (text "request too long")
  if (← invoke (.sslWrite tls.ssl (requestText st.current))) ≤ 0 then
    let _ ← nosTlsClose tls
    return st.fail (text "TLS write failed")
  let some header ← readHeaderLine tls.ssl nosGeminiMaxHeader
    | do
      let _ ← nosTlsClose tls
      return st.fail (text "header read failed")
  let (parsed, resp) := parseHeader header st.resp nosGeminiMaxHeader
  let st := { st with resp }
  if parsed ≠ 0 then
    let _ ← nosTlsClose tls
    return st.fail (text "header parse failed")
  respond fuel cb tls st

/-- One turn of the loop of `nos_gemini_request_stream`: it continues with a new state, or returns.
-/
def exchange (fuel : Nat) (cb : BodyCb User) (st : StreamState User) :
    Io (StreamState User ⊕ (Int × StreamState User)) := do
  let (rc, tls) ← nosTlsConnect fuel st.current.host st.current.port
  if rc ≠ 0 then
    return .inr (-1, { st with err := setErr st.err (-1) rc (text "TLS connect failed") })
  let (trusted, terr) ← nosTofuCheck tls.ssl st.current.host st.current.port 128
  if trusted ≠ 0 then
    let _ ← nosTlsClose tls
    return st.fail (if terr ≠ [] then terr else text "untrusted certificate")
  converse fuel cb tls st

/-- The state of `nos_gemini_request_stream` before its loop. -/
def StreamState.initial (url : NosUrl) (user : User) : StreamState User where
  current := url
  redirects := 0
  resp := ⟨0, []⟩
  bodyLen := 0
  err := ⟨0, 0, 0, []⟩
  user := user

/-- `nos_gemini_request_stream`, its loops unrolled `fuel` times: the result and the state it leaves
in the out-parameters. -/
def nosGeminiRequestStream (fuel : Nat) (url : NosUrl) (cb : BodyCb User) (user : User) :
    Io (Int × StreamState User) :=
  loop (exchange fuel cb) fuel (.initial url user)

/-! ### The buffered request -/

/-- `nos_buf_writer_t`; its field `max` is the size of the buffer. -/
structure NosBufWriter (max : Nat) where
  buf : Except Buffers.Stop (Vector Byte max)
  total : Nat

/-- `buffer_writer_cb`; the pointers it tests are never NULL. -/
def bufferWriterCb {max : Nat} (w : NosBufWriter max) (chunk : Text) : Int × NosBufWriter max :=
  if (w.total + chunk.length) % uintRange > max then (-1, w)
  else
    (0, {
      buf := w.buf >>= fun cells => Buffers.copy cells w.total chunk
      total := (w.total + chunk.length) % uintRange })

/-- The out-parameters of `nos_gemini_request`; the buffer may be NULL. -/
structure NosGeminiOut (max : Nat) where
  resp : NosGeminiResp
  bodyBuf : Option (Except Buffers.Stop (Vector Byte max))
  bodyLen : Nat
  err : NosGeminiErr

/-- `nos_gemini_request`, with `max` for `body_max`. -/
def nosGeminiRequest {max : Nat} (fuel : Nat) (url : NosUrl) (out : NosGeminiOut max) :
    Io (Int × NosGeminiOut max) :=
  match out.bodyBuf with
  | none => return (-1, { out with err := setErr out.err (-1) 0 (text "invalid body buffer") })
  | some buf => do
    if max = 0 then
      return (-1, { out with err := setErr out.err (-1) 0 (text "invalid body buffer") })
    let (rc, done) ← nosGeminiRequestStream fuel url (fun _ => bufferWriterCb) ⟨buf, 0⟩
    let out : NosGeminiOut max := ⟨done.resp, some done.user.buf, done.bodyLen, done.err⟩
    if rc ≠ 0 then return (-1, out)
    return (0, { out with bodyLen := done.user.total })

end Nosgem
