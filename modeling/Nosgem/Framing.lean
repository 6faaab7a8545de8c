/-
This file settles how a response is cut into its header and its body. The
server's answer is a stream of bytes, and a read takes some of the next ones,
as many as it likes up to the size asked for, and fails when the stream is
exhausted. Once the request loop starts to read, it returns whatever the reads
deliver: it takes the header up to the first CR LF, which has to end within the
first 1023 bytes, and on a 2x status it hands everything behind it to the
callback, in order and in chunks that fit its buffer.
-/

import Nosgem.Exchanges
import Nosgem.RequestSplit

namespace Nosgem

open CText Interaction

/-! ### The server's stream -/

/-- The bytes of the stream that are not read yet, and the chunks handed to the callback. -/
structure Wire where
  unread : Text
  delivered : List Text

/-- A read delivers the next bytes of the stream and fails at its end; the chunks handed to the
callback are kept, and nothing else matters. -/
def wireEnv : Env Answer Wire := fun wire op answer after =>
  match op, answer with
  | .sslRead _ _, .data bytes _ _ =>
    wire.unread = bytes ++ after.unread ∧ after.delivered = wire.delivered
  | .sslRead _ _, .failed _ => wire.unread = [] ∧ after = wire
  | .callback chunk, _ => after = { wire with delivered := wire.delivered ++ [chunk] }
  | _, _ => after = wire

/-- A read has an answer. -/
theorem wireEnv_reads (wire : Wire) (conn : Option WolfSsl) {size : Nat} (room : 0 < size) :
    ∃ answer after, wireEnv wire (.sslRead conn size) answer after := by
  obtain ⟨unread, delivered⟩ := wire
  cases unread with
  | nil => exact ⟨.failed .closeNotify, ⟨[], delivered⟩, rfl, rfl⟩
  | cons c unread =>
    exact ⟨.data [c] (List.cons_ne_nil _ _) room, ⟨unread, delivered⟩, rfl, rfl⟩

/-- Nothing else changes the wire. -/
theorem wireEnv_iff {wire after : Wire} {op : Op} {answer : Answer op} (other : ¬ IsReply op) :
    wireEnv wire op answer after ↔ after = wire := by
  cases op <;> first | exact Iff.rfl | exact absurd trivial other

theorem returns_nosTlsClose (tls : NosTlsCtx) (wire : Wire) :
    Returns wireEnv (nosTlsClose tls) (fun _ after => after = wire) wire := by
  obtain ⟨ctx, ssl, tcpSock⟩ := tls
  cases ctx <;> cases ssl <;> cases tcpSock <;>
    simp [nosTlsClose, Interaction.perform, Returns, wireEnv, pure_eq]

/-! ### The header line -/

/-- The header line at the front of a stream, with room for `room` bytes and behind the byte `prev`,
and the rest of the stream. -/
def cutHeader : (room : Nat) → (prev : Byte) → Text → Option (Text × Text)
  | 0, _, _ => none
  | _ + 1, _, [] => none
  | room + 1, prev, c :: rest =>
    if prev = cr ∧ c = lf then some ([c], rest)
    else (cutHeader room c rest).map fun (line, rest) => (c :: line, rest)

/-- A line that ends in the first CR LF of the stream is cut off, if there is room for it. -/
theorem cutHeader_of_unsplit {front : Text} {room : Nat} {prev : Byte}
    (first : Unsplit (prev :: front ++ [cr])) (fits : front.length + 2 ≤ room) (body : Text) :
    cutHeader room prev (front ++ cr :: lf :: body) = some (front ++ [cr, lf], body) := by
  induction front generalizing room prev with
  | nil =>
    obtain ⟨room, rfl⟩ : ∃ less, room = less + 2 := ⟨room - 2, by simp at fits; omega⟩
    rw [List.nil_append, cutHeader, if_neg fun ends => absurd ends.2 (by decide), cutHeader,
      if_pos ⟨rfl, rfl⟩]
    rfl
  | cons c front inductionHypothesis =>
    obtain ⟨room, rfl⟩ : ∃ less, room = less + 1 := ⟨room - 1, by simp at fits; omega⟩
    rw [List.cons_append, List.cons_append, unsplit_cons] at first
    rw [List.cons_append, cutHeader, if_neg (first.1 c rfl),
      inductionHypothesis first.2 (by simpa using fits)]
    rfl

/-- Without a CR LF in the room there is no header line. -/
theorem cutHeader_eq_none {room : Nat} {prev : Byte} {stream : Text}
    (unsplit : Unsplit (prev :: stream.take room)) : cutHeader room prev stream = none := by
  induction stream generalizing room prev with
  | nil => cases room <;> rfl
  | cons c stream inductionHypothesis =>
    cases room with
    | zero => rfl
    | succ room =>
      rw [List.take_succ_cons, unsplit_cons] at unsplit
      rw [cutHeader, if_neg (unsplit.1 c rfl), inductionHypothesis unsplit.2]
      rfl

/-- The header reader returns the header line of the stream, however the reads go. -/
theorem returns_readHeaderBytes (conn : Option WolfSsl) (room : Nat) (buf : Text) (prev : Byte)
    (wire : Wire) :
    Returns wireEnv (readHeaderBytes conn room buf prev)
      (fun header after => after.delivered = wire.delivered ∧
        match cutHeader room prev wire.unread with
        | some (line, rest) => header = some (buf ++ line) ∧ after.unread = rest
        | none => header = none) wire := by
  induction room generalizing buf prev wire with
  | zero => exact ⟨rfl, rfl⟩
  | succ room inductionHypothesis =>
    refine .perform (wireEnv_reads wire conn Nat.one_pos) fun answer after answered => ?_
    cases answer with
    | failed =>
      obtain ⟨ended, rfl⟩ := answered
      refine ⟨rfl, ?_⟩
      rw [ended, cutHeader]
    | data bytes nonempty fits =>
      obtain ⟨unread, delivered⟩ := answered
      obtain ⟨c, rfl⟩ : ∃ c, bytes = [c] := by
        obtain ⟨c, rest, rfl⟩ := List.exists_cons_of_ne_nil nonempty
        obtain rfl : rest = [] := List.length_eq_zero_iff.mp (by simpa using fits)
        exact ⟨c, rfl⟩
      rw [unread, List.singleton_append, cutHeader]
      by_cases ends : prev = cr ∧ c = lf
      · dsimp only
        rw [if_pos ends, if_pos (show prev = cr ∧ [c].head _ = lf from ends)]
        exact ⟨delivered, rfl, rfl⟩
      · dsimp only
        rw [if_neg ends, if_neg (show ¬ (prev = cr ∧ [c].head _ = lf) from ends)]
        refine (inductionHypothesis (buf ++ [c]) c after).mono fun header last read => ?_
        refine ⟨read.1.trans delivered, ?_⟩
        cases cut : cutHeader room c after.unread with
        | none => simpa [cut] using read.2
        | some result => simpa [cut] using read.2

/-! ### The body -/

/-- The body loop hands the rest of the stream to a callback that takes every chunk. -/
theorem returns_readBody {User : Type} {take : User → Text → Int × User}
    (takes : ∀ user chunk, (take user chunk).1 = 0) (conn : Option WolfSsl) {fuel : Nat}
    {wire : Wire} (enough : wire.unread.length < fuel) (here : Nat × User) :
    Returns wireEnv (loop (readChunk take conn) fuel here)
      (fun result after => result.1 = false ∧ ∃ chunks,
        after.delivered = wire.delivered ++ chunks ∧ chunks.flatten = wire.unread ∧
        ∀ chunk ∈ chunks, 1 ≤ chunk.length ∧ chunk.length ≤ 512) wire := by
  induction fuel generalizing wire here with
  | zero => cases enough
  | succ fuel inductionHypothesis =>
    refine .perform (wireEnv_reads wire conn (by decide)) fun answer after answered => ?_
    cases answer with
    | failed =>
      obtain ⟨ended, rfl⟩ := answered
      exact ⟨rfl, [], by simp, by simp [ended], by simp⟩
    | data bytes nonempty fits =>
      obtain ⟨unread, delivered⟩ := answered
      refine .perform ⟨(), _, rfl⟩ fun _ handed equal => ?_
      obtain rfl : handed = { after with delivered := after.delivered ++ [bytes] } := equal
      have taken := takes here.2 bytes
      have positive := List.length_pos_iff.mpr nonempty
      dsimp only
      rw [if_neg (not_not.mpr taken)]
      have shorter : after.unread.length < fuel := by
        rw [unread, List.length_append] at enough
        omega
      have rest :=
        @inductionHypothesis { after with delivered := after.delivered ++ [bytes] } shorter
      refine (rest _).mono fun result last read => ?_
      obtain ⟨complete, chunks, rest, flat, sizes⟩ := read
      refine ⟨complete, bytes :: chunks, ?_, ?_, ?_⟩
      · rw [rest, delivered, List.append_assoc, List.singleton_append]
      · rw [List.flatten_cons, flat, unread]
      · rintro chunk (_ | ⟨_, later⟩)
        · exact ⟨positive, fits⟩
        · exact sizes chunk later

/-! ### The header of a 2x response -/

/-- What stands in front of the CR LF of a 2x response, cut at the first NUL: blanks, the digit 2, a
second digit, blanks, and META, which does not start with a blank. -/
structure SuccessHeader (front : Text) (second : Byte) (metaText : Text) : Prop where
  shape : ∃ leading middle, cString front = leading ++ byte '2' :: second :: (middle ++ metaText) ∧
    (∀ c ∈ leading, isBlank c) ∧ ∀ c ∈ middle, isBlank c
  digit : isDigit second
  noBlank : ∀ c ∈ metaText.head?, isBlank c = false

theorem takeMeta_append {metaText tail : Text} (unsplit : Unsplit metaText)
    (ends : tail = [] ∨ tail = [cr, lf]) : takeMeta (metaText ++ tail) = metaText := by
  induction metaText with
  | nil => rcases ends with rfl | rfl <;> rfl
  | cons c metaText inductionHypothesis =>
    rw [unsplit_cons] at unsplit
    have goesOn : ¬ (c = cr ∧ (metaText ++ tail).head? = some lf) := by
      rintro ⟨isCr, isLf⟩
      cases metaText with
      | nil => rcases ends with rfl | rfl <;> cases isLf
      | cons next rest => exact unsplit.1 next rfl ⟨isCr, Option.some.inj isLf⟩
    rw [List.cons_append, takeMeta, if_neg goesOn, inductionHypothesis unsplit.2]

/-- Blanks are skipped in front of something that does not start with one. -/
theorem dropWhile_blanks {blanks rest : Text} (leading : ∀ c ∈ blanks, isBlank c)
    (stops : ∀ c ∈ rest.head?, isBlank c = false) : (blanks ++ rest).dropWhile isBlank = rest := by
  rw [List.dropWhile_append_of_pos leading]
  cases rest with
  | nil => rfl
  | cons c rest => exact List.dropWhile_cons_of_neg (by simp [stops c rfl])

theorem isBlank_of_isDigit {c : Byte} (digit : isDigit c) : isBlank c = false := by
  simp only [isDigit, isBlank, Bool.and_eq_true, decide_eq_true_eq, UInt8.le_iff_toNat_le] at *
  by_contra blank
  simp only [Bool.not_eq_false, Bool.or_eq_true, beq_iff_eq] at blank
  rcases blank with rfl | rfl
  · exact absurd digit (by decide)
  · exact absurd digit (by decide)

/-- A header line is taken apart into its two digits and its META. -/
theorem parseHeader_parts {line leading middle metaText tail : Text} {tens ones : Byte}
    (string : cString line = leading ++ tens :: ones :: (middle ++ (metaText ++ tail)))
    (leadingBlank : ∀ c ∈ leading, isBlank c) (digits : isDigit tens ∧ isDigit ones)
    (middleBlank : ∀ c ∈ middle, isBlank c) (noBlank : ∀ c ∈ metaText.head?, isBlank c = false)
    (unsplit : Unsplit metaText) (ends : tail = [] ∨ tail = [cr, lf]) {metaMax : Nat}
    (short : metaText.length < metaMax) (resp : NosGeminiResp) :
    parseHeader line resp metaMax =
      (0, ⟨(tens.toNat - 48) * 10 + (ones.toNat - 48), metaText⟩) := by
  have stops : ∀ c ∈ (metaText ++ tail).head?, isBlank c = false := by
    intro c head
    cases metaText with
    | nil =>
      rcases ends with rfl | rfl
      · cases head
      · cases head
        rfl
    | cons d rest => exact noBlank c head
  rw [parseHeader, string, dropWhile_blanks leadingBlank fun c head => by
    cases head
    exact isBlank_of_isDigit digits.1]
  dsimp only
  rw [if_pos digits, dropWhile_blanks middleBlank stops, takeMeta_append unsplit ends,
    if_neg (not_le.mpr short)]

theorem parseHeader_success {front metaText : Text} {second : Byte}
    (header : SuccessHeader front second metaText) (first : Unsplit (front ++ [cr]))
    (fits : front.length < nosGeminiMaxHeader) (resp : NosGeminiResp) :
    parseHeader (front ++ [cr, lf]) resp nosGeminiMaxHeader =
      (0, ⟨20 + (second.toNat - 48), metaText⟩) := by
  obtain ⟨leading, middle, shape, leadingBlank, middleBlank⟩ := header.shape
  have part : metaText <:+: front := by
    refine List.IsInfix.trans ⟨leading ++ byte '2' :: second :: middle, [], ?_⟩
      (List.takeWhile_prefix (· ≠ 0)).isInfix
    rw [show front.takeWhile (· ≠ 0) = cString front from rfl, shape]
    simp
  have unsplit : Unsplit metaText := first.part (part.trans (List.prefix_append _ _).isInfix)
  generalize tailEqual : (if 0 ∈ front then ([] : Text) else cString [cr, lf]) = tail
  have ends : tail = [] ∨ tail = [cr, lf] := by
    rw [← tailEqual]
    split
    · exact .inl rfl
    · exact .inr rfl
  have line : cString (front ++ [cr, lf]) =
      leading ++ byte '2' :: second :: (middle ++ (metaText ++ tail)) := by
    rw [cString_append, tailEqual, shape]
    simp
  exact parseHeader_parts line leadingBlank ⟨by decide, header.digit⟩ middleBlank header.noBlank
    unsplit ends (Nat.lt_of_le_of_lt part.length_le fits) resp

/-! ### Reading the response -/

section Responses

variable {User : Type} {fuel : Nat} {cb : BodyCb User} {tls : NosTlsCtx} {st : StreamState User}
  {wire : Wire}

/-- A 2x response hands the rest of the stream to the callback. -/
theorem returns_respond (takes : ∀ resp user chunk, (cb resp user chunk).1 = 0)
    (success : 20 ≤ st.resp.status ∧ st.resp.status < 30) (enough : wire.unread.length < fuel) :
    Returns wireEnv (respond fuel cb tls st)
      (fun value after => ∃ done chunks, value = .inr (0, done) ∧ done.resp = st.resp ∧
        after.delivered = wire.delivered ++ chunks ∧ chunks.flatten = wire.unread ∧
        ∀ chunk ∈ chunks, 1 ≤ chunk.length ∧ chunk.length ≤ 512) wire := by
  unfold respond
  rw [if_pos success]
  have body := returns_readBody (takes st.resp) tls.ssl enough (0, st.user)
  refine body.bind fun result after read => ?_
  obtain ⟨aborted, total, user⟩ := result
  obtain ⟨complete, chunks, delivered⟩ := read
  obtain rfl : aborted = false := complete
  refine (returns_nosTlsClose tls after).bind fun _ last closed => ?_
  obtain rfl := closed
  exact ⟨_, chunks, rfl, rfl, delivered⟩

/-- A header line that does not end in time fails, and nothing is handed on. -/
theorem returns_unframed (unsplit : Unsplit (wire.unread.take 1023)) :
    Returns wireEnv (readHeaderLine tls.ssl nosGeminiMaxHeader >>= answerHeader fuel cb tls st)
      (fun value after => (∃ done, value = .inr (-1, done)) ∧ after.delivered = wire.delivered)
      wire := by
  refine (returns_readHeaderBytes tls.ssl 1023 [] 0 wire).bind fun header after read => ?_
  rw [cutHeader_eq_none (unsplit.cons (by decide))] at read
  obtain ⟨delivered, rfl⟩ := read
  refine (returns_nosTlsClose tls after).bind fun _ last closed => ?_
  obtain rfl := closed
  exact ⟨⟨_, rfl⟩, delivered⟩

theorem returns_framed (takes : ∀ resp user chunk, (cb resp user chunk).1 = 0)
    {front body metaText : Text} {second : Byte} (stream : wire.unread = front ++ cr :: lf :: body)
    (first : Unsplit (front ++ [cr])) (bound : front.length + 2 ≤ 1023)
    (header : SuccessHeader front second metaText) (enough : body.length < fuel) :
    Returns wireEnv (readHeaderLine tls.ssl nosGeminiMaxHeader >>= answerHeader fuel cb tls st)
      (fun value after => ∃ done chunks, value = .inr (0, done) ∧
        done.resp = ⟨20 + (second.toNat - 48), metaText⟩ ∧
        after.delivered = wire.delivered ++ chunks ∧ chunks.flatten = body ∧
        ∀ chunk ∈ chunks, 1 ≤ chunk.length ∧ chunk.length ≤ 512) wire := by
  refine (returns_readHeaderBytes tls.ssl 1023 [] 0 wire).bind fun line after read => ?_
  rw [stream, cutHeader_of_unsplit (first.cons (by decide)) bound] at read
  obtain ⟨delivered, rfl, rfl⟩ := read
  have short : front.length < nosGeminiMaxHeader := by
    unfold nosGeminiMaxHeader
    omega
  have ninth : second.toNat ≤ 57 := by
    have digit := header.digit
    simp only [isDigit, Bool.and_eq_true, decide_eq_true_eq, UInt8.le_iff_toNat_le] at digit
    exact digit.2
  unfold answerHeader
  dsimp only [List.nil_append]
  rw [parseHeader_success header first short]
  dsimp only
  rw [if_neg (show ¬ (0 : Int) ≠ 0 by decide), ← delivered]
  exact returns_respond takes ⟨Nat.le_add_right _ _, by dsimp only; omega⟩ enough

end Responses

/-! ### Framing -/

/-- Nothing has been read yet when the request loop is about to read for the first time, so it
stands in its first turn, and what is left of the turn is the response. -/
theorem response_of_firstRead {User : Type} {fuel : Nat} {cb : BodyCb User} {st : StreamState User}
    {stream : Text} {trace : List (Event Answer)} {wire : Wire} {conn : Option WolfSsl} {size : Nat}
    {rest : StreamState User ⊕ (Int × StreamState User) → Io (Int × StreamState User)}
    {next : ReadResult size → Io (Int × StreamState User)}
    (ends : ∀ result, rest (.inr result) = .ret result)
    (run : Steps wireEnv ⟨stream, []⟩ (exchange fuel cb st >>= rest) trace wire
      (.call (.sslRead conn size) next))
    (firstRead : ∀ event ∈ trace, ¬ IsRead event.op) :
    wire = ⟨stream, []⟩ ∧ ∃ tls : NosTlsCtx, .call (.sslRead conn size) next =
      (readHeaderLine tls.ssl nosGeminiMaxHeader >>= answerHeader fuel cb tls st) >>= rest := by
  rcases run.bind_cases with ⟨inner, head, equal⟩ | ⟨value, front, back, middle, head, tail, rfl⟩
  · cases inner with
    | ret value =>
      cases value with
      | inl between =>
        obtain ⟨event, member, reads⟩ := exchange_next_reads head
        exact absurd reads (firstRead event member)
      | inr result =>
        rw [show (Prog.ret (.inr result) >>= rest) = .ret result from ends result] at equal
        cases equal
    | cut => cases equal
    | call op inner =>
      cases equal
      obtain ⟨quiet, tls, same⟩ := exchange_firstRead head firstRead
      exact ⟨head.stays quiet fun _ _ _ _ other => (wireEnv_iff other).mp, tls,
        congrArg (· >>= rest) same⟩
  · cases value with
    | inl between =>
      obtain ⟨event, member, reads⟩ := exchange_next_reads head
      exact absurd reads (firstRead event (List.mem_append_left _ member))
    | inr result =>
      rw [ends] at tail
      cases tail.of_ret.2.2

/-- Once the request loop is about to read for the first time, it returns however the server's
stream is cut into reads, for a callback that takes every chunk. If the first CR LF of the stream
ends within its first 1023 bytes and ends a header with a 2x status, it returns 0 with the status
and META of the header and hands the rest of the stream to the callback, in chunks of 1 to 512
bytes; and if no CR LF ends within these bytes, it returns -1 and hands nothing on. -/
theorem nosGeminiRequestStream_framed {User : Type} {fuel : Nat} {url : NosUrl} {cb : BodyCb User}
    {user : User} {stream : Text} {trace : List (Event Answer)} {wire : Wire}
    {conn : Option WolfSsl} {size : Nat} {next : ReadResult size → Io (Int × StreamState User)}
    (takes : ∀ resp user chunk, (cb resp user chunk).1 = 0) (enough : stream.length ≤ fuel)
    (run : Steps wireEnv ⟨stream, []⟩ (nosGeminiRequestStream fuel url cb user) trace wire
      (.call (.sslRead conn size) next))
    (firstRead : ∀ event ∈ trace, ¬ IsRead event.op) :
    (∀ front body second metaText, stream = front ++ cr :: lf :: body → Unsplit (front ++ [cr]) →
        front.length + 2 ≤ 1023 → SuccessHeader front second metaText →
        Returns wireEnv (.call (.sslRead conn size) next)
          (fun result after => result.1 = 0 ∧
            result.2.resp = ⟨20 + (second.toNat - 48), metaText⟩ ∧
            after.delivered.flatten = body ∧
            ∀ chunk ∈ after.delivered, 1 ≤ chunk.length ∧ chunk.length ≤ 512) wire) ∧
      (Unsplit (stream.take 1023) →
        Returns wireEnv (.call (.sslRead conn size) next)
          (fun result after => result.1 = -1 ∧ after.delivered = []) wire) := by
  cases fuel with
  | zero => cases run.of_cut.2.2
  | succ fuel =>
    obtain ⟨rfl, tls, same⟩ := response_of_firstRead (fun _ => rfl) run firstRead
    rw [same]
    refine ⟨fun front body second metaText cut first bound header => ?_, fun unsplit => ?_⟩
    · have short : body.length < fuel + 1 := by
        rw [cut] at enough
        simp only [List.length_append, List.length_cons] at enough
        omega
      refine (returns_framed takes cut first bound header short).bind fun value after read => ?_
      obtain ⟨done, chunks, rfl, resp, delivered, flat, sizes⟩ := read
      rw [List.nil_append] at delivered
      exact ⟨rfl, resp, delivered ▸ flat, delivered ▸ sizes⟩
    · refine (returns_unframed unsplit).bind fun value after read => ?_
      obtain ⟨⟨done, rfl⟩, delivered⟩ := read
      exact ⟨rfl, delivered⟩

/-- A response with a 2x status and the body `ok`. -/
def plainStream : Text := text "20 text/plain" ++ cr :: lf :: text "ok"

theorem nosGeminiRequestStream_framed_plain :
    ∃ trace wire conn next,
      Steps wireEnv ⟨plainStream, []⟩ (nosGeminiRequestStream 20 plainUrl takeAll ()) trace wire
        (.call (.sslRead conn 1) next) ∧
      Returns wireEnv (.call (.sslRead conn 1) next)
        (fun result after => result.1 = 0 ∧ result.2.resp = ⟨20, text "text/plain"⟩ ∧
          after.delivered.flatten = text "ok" ∧
          ∀ chunk ∈ after.delivered, 1 ≤ chunk.length ∧ chunk.length ≤ 512) wire := by
  obtain ⟨trace, quiet, opens⟩ := exchange_opens 19 takeAll (.initial plainUrl ())
    findKnownHost_knownStore (by decide)
  have stays (event : Event Answer) (member : event ∈ trace) :
      wireEnv ⟨plainStream, []⟩ event.op event.answer ⟨plainStream, []⟩ :=
    (wireEnv_iff (quiet event member)).mpr rfl
  have reaches : Steps wireEnv ⟨plainStream, []⟩ (nosGeminiRequestStream 20 plainUrl takeAll ())
      trace ⟨plainStream, []⟩ _ := (opens.of_any stays).bind_left _
  have header : SuccessHeader (text "20 text/plain") (byte '0') (text "text/plain") :=
    ⟨⟨[], [32], by decide, by simp, by decide⟩, by decide, fun c head => by cases head; rfl⟩
  have enough : plainStream.length ≤ 20 := by decide
  have framed := nosGeminiRequestStream_framed (fun _ _ _ => rfl) enough reaches
    fun event member reads => quiet event member reads.isReply
  exact ⟨_, _, _, _, reaches,
    framed.1 (text "20 text/plain") (text "ok") _ _ rfl (by decide) (by decide) header⟩

end Nosgem
