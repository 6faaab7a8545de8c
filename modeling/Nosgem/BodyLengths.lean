/-
This file settles what becomes of the length of a body. The body loop and the
callback that fills the caller's buffer both count bytes in an `unsigned int`
of 16 bits. The length that the request loop reports is the number of bytes
modulo `2 ^ 16`, so it is right for the bodies below that. The callback adds the
length of a chunk before it compares with the size of the buffer, so a chunk
that starts inside a buffer of nearly 64 KB and ends at or behind `2 ^ 16`
passes the test and is written outside of it; every other body that is too long
is refused.
-/

import Nosgem.Exchanges

namespace Nosgem

open CText Interaction

/-! ### A server that sends a body -/

/-- The chunks of the body that are left are delivered by reads of the size of the body loop; any
other call may have any answer. -/
def bodyEnv : Env Answer (List Text) := fun left op answer after =>
  match op, answer with
  | .sslRead _ size, .data bytes _ _ => if size = 512 then left = bytes :: after else after = left
  | .sslRead _ size, .failed _ => if size = 512 then left = [] ∧ after = [] else after = left
  | _, _ => after = left

/-- Nothing before the body takes anything of it. -/
theorem bodyEnv_opening {trace : List (Event Answer)} (opening : Opening trace)
    (left : List Text) :
    ∀ event ∈ trace, bodyEnv left event.op event.answer left := by
  rintro ⟨op, answer⟩ member
  have reads := opening _ member
  cases op with
  | sslRead conn size =>
    obtain ⟨_, equal⟩ := reads trivial
    obtain ⟨-, rfl⟩ := Op.sslRead.inj equal
    cases answer with
    | data bytes nonempty fits => exact rfl
    | failed reason => exact rfl
  | callback chunk =>
    obtain ⟨_, equal⟩ := reads trivial
    cases equal
  | _ => exact rfl

/-- A callback that takes every chunk is handed all of them. -/
theorem readBody_bodyEnv {User : Type} {take : User → Text → Int × User} (conn : Option WolfSsl)
    {chunks : List Text} (sizes : ∀ chunk ∈ chunks, chunk ≠ [] ∧ chunk.length ≤ 512) (total : Nat)
    {user after : User} (taken : deliver take user chunks = (0, after)) {fuel : Nat}
    (enough : chunks.length < fuel) :
    ∃ trace total', chunksIn trace = chunks ∧
      Steps bodyEnv chunks (loop (readChunk take conn) fuel (total, user)) trace []
        (.ret (false, total', after)) := by
  obtain ⟨fuel, rfl⟩ : ∃ less, fuel = less + 1 := ⟨fuel - 1, by omega⟩
  induction chunks generalizing total user fuel with
  | nil =>
    obtain rfl : user = after := congrArg Prod.snd taken
    exact ⟨[⟨.sslRead conn 512, .failed .closeNotify⟩], total, rfl,
      .call (show bodyEnv [] _ _ _ from ⟨rfl, rfl⟩) (.refl _ _)⟩
  | cons chunk chunks inductionHypothesis =>
    obtain ⟨nonempty, fits⟩ := sizes chunk List.mem_cons_self
    rw [deliver] at taken
    split at taken
    · rename_i aborts
      exact absurd (congrArg Prod.fst taken) aborts
    rename_i takes
    obtain ⟨less, rfl⟩ : ∃ less, fuel = less + 1 := ⟨fuel - 1, by simp at enough; omega⟩
    obtain ⟨trace, total', handed, rest⟩ := inductionHypothesis
      (fun other member => sizes other (List.mem_cons_of_mem _ member))
      ((total + chunk.length) % uintRange) taken less (by simpa using enough)
    refine ⟨⟨.sslRead conn 512, .data chunk nonempty fits⟩ :: ⟨.callback chunk, ()⟩ :: trace,
      total', ?_, .call (show bodyEnv _ _ _ chunks from rfl)
        (.call (show bodyEnv chunks (.callback chunk) () chunks from rfl) ?_)⟩
    · rw [← handed]
      rfl
    · dsimp only
      rw [if_neg takes]
      exact rest

/-- A page of the known host is answered with a 2x header and the body. -/
theorem request_bodyEnv {User : Type} (cb : BodyCb User) {user after : User} {chunks : List Text}
    (sizes : ∀ chunk ∈ chunks, chunk ≠ [] ∧ chunk.length ≤ 512)
    (taken : deliver (cb ⟨20, text "text/plain"⟩) user chunks = (0, after)) :
    ∃ trace done, chunksIn trace = chunks ∧ done.resp = ⟨20, text "text/plain"⟩ ∧
      done.user = after ∧
      Steps bodyEnv chunks (nosGeminiRequestStream (chunks.length + 1) plainUrl cb user) trace []
        (.ret (0, done)) := by
  let st : StreamState User := .initial plainUrl user
  let answered : StreamState User := { st with resp := ⟨20, text "text/plain"⟩ }
  have isLine : isHeaderLine 0 (text "20 text/plain" ++ [cr, lf]) := by decide
  have small : (text "20 text/plain" ++ [cr, lf]).length ≤ nosGeminiMaxHeader - 1 := by decide
  obtain ⟨opening, quiet, opens⟩ := exchange_opens chunks.length cb st findKnownHost_knownStore
    (show ¬ plainUrl.host.length + plainUrl.path.length + 12 ≥ requestSize by decide)
  obtain ⟨reading, noHeader, read⟩ := readHeaderBytes_run openTls.ssl [] isLine small
  have reads := (finishes_readHeaderBytes openTls.ssl _ [] 0).calls.of_mem read
  have quietClose := ((calls_nosTlsClose openTls).mono fun _ => CloseOp.not_reply).of_mem
    nosTlsClose_run
  obtain ⟨body, total, handed, bodyRead⟩ :=
    readBody_bodyEnv openTls.ssl sizes 0 taken (Nat.lt_succ_self _)
  -- the calls before and behind the body leave it alone
  have connects := opens.of_any (bodyEnv_opening (opening_of_quiet quiet) chunks)
  have header := read.of_any (bodyEnv_opening (opening_of_reads reads) chunks)
  have closes := nosTlsClose_run.of_any (bodyEnv_opening (opening_of_quiet quietClose) [])
  have responds : Steps bodyEnv chunks (respond (chunks.length + 1) cb openTls answered)
      (body ++ closing) []
      (.ret (.inr (0, { answered with user := after, bodyLen := total }))) := by
    unfold respond
    rw [if_pos (show 20 ≤ 20 ∧ 20 < 30 by decide)]
    exact bodyRead.bind (closes.bind_left _)
  have answers : answerHeader (chunks.length + 1) cb openTls st
      (some ([] ++ (text "20 text/plain" ++ [cr, lf]))) =
        respond (chunks.length + 1) cb openTls answered := rfl
  have turn : Steps bodyEnv chunks (exchange (chunks.length + 1) cb st) _ []
      (.ret (.inr (0, { answered with user := after, bodyLen := total }))) :=
    connects.append (header.bind (answers ▸ responds))
  refine ⟨opening ++ (reading ++ (body ++ closing)),
    { answered with user := after, bodyLen := total }, ?_, rfl, rfl, ?_⟩
  · rw [chunksIn_append, chunksIn_append, chunksIn_append, (opening_of_quiet quiet).chunksIn,
      noHeader, handed, (opening_of_quiet quietClose).chunksIn]
    simp
  · exact turn.bind_left _

/-! ### The length that is reported -/

section Lengths

variable {User State : Type} {env : Env Answer State} {state final : State} {fuel : Nat}
  {cb : BodyCb User} {st : StreamState User} {trace : List (Event Answer)}

/-- A turn that returns 0 with a 2x response reports what it has counted. -/
theorem exchange_bodyLen {done : StreamState User}
    (success : 20 ≤ done.resp.status ∧ done.resp.status < 30)
    (run : Steps env state (exchange fuel cb st) trace final (.ret (.inr (0, done)))) :
    done.bodyLen = (chunksIn trace).flatten.length % uintRange := by
  rcases exchange_ret run with ⟨_, equal⟩ | ⟨_, _, _, _, _, _, _, responded, rfl, opening⟩
  · cases equal
  obtain ⟨_, sameResp, ends⟩ := respond_ret responded
  rw [sameResp] at success
  rw [if_pos success] at ends
  obtain ⟨aborted, total, body, closing, _, bodyRead, rfl, closes, zero, bodyLen⟩ := ends
  obtain rfl : aborted = false := by
    cases aborted with
    | false => rfl
    | true => cases zero
  have noChunk := (opening_of_quiet fun event member => (closes event member).not_reply).chunksIn
  rw [bodyLen rfl, (readBody_deliver bodyRead).2 rfl, chunksIn_append, chunksIn_append,
    opening.chunksIn, noChunk, List.nil_append, List.append_nil]

theorem nosGeminiRequestStream_bodyLen {url : NosUrl} {user : User} {done : StreamState User}
    (run : Steps env state (nosGeminiRequestStream fuel url cb user) trace final
      (.ret (0, done)))
    (success : 20 ≤ done.resp.status ∧ done.resp.status < 30) :
    done.bodyLen = (chunksIn trace).flatten.length % uintRange := by
  obtain ⟨here, visited, front, back, middle, iterates, turn, rfl⟩ := run.loop_ret
  rw [chunksIn_append, (opening_of_iterates iterates).chunksIn, List.nil_append]
  exact exchange_bodyLen success turn

/-- A request that returns 0 with a 2x response reports the number of bytes that were handed to the
callback exactly when it is below `2 ^ 16`. -/
theorem nosGeminiRequestStream_bodyLen_iff {url : NosUrl} {user : User} {done : StreamState User}
    (run : Steps env state (nosGeminiRequestStream fuel url cb user) trace final
      (.ret (0, done)))
    (success : 20 ≤ done.resp.status ∧ done.resp.status < 30) :
    done.bodyLen = (chunksIn trace).flatten.length ↔ (chunksIn trace).flatten.length < 65536 := by
  rw [nosGeminiRequestStream_bodyLen run success, uintRange]
  omega

end Lengths

theorem bodyLen_short :
    ∃ trace done, Steps bodyEnv [text "ok"] (nosGeminiRequestStream 2 plainUrl takeAll ()) trace []
        (.ret (0, done)) ∧
      done.bodyLen = (chunksIn trace).flatten.length ∧ chunksIn trace = [text "ok"] := by
  obtain ⟨trace, done, handed, resp, -, run⟩ := request_bodyEnv takeAll
    (show ∀ chunk ∈ [text "ok"], chunk ≠ [] ∧ chunk.length ≤ 512 by decide)
    (show deliver (takeAll _) () [text "ok"] = (0, ()) from rfl)
  refine ⟨trace, done, run, (nosGeminiRequestStream_bodyLen_iff run ?_).mpr ?_, handed⟩
  · rw [resp]
    decide
  · rw [handed]
    decide

/-- A body of 64 KB in full chunks. -/
def wholeRange : List Text := List.replicate 128 (List.replicate 512 0)

theorem length_wholeRange : wholeRange.flatten.length = 65536 := by
  rw [wholeRange, List.length_flatten, List.map_replicate, List.sum_replicate_nat,
    List.length_replicate]

theorem sizes_wholeRange : ∀ chunk ∈ wholeRange, chunk ≠ [] ∧ chunk.length ≤ 512 := by
  intro chunk member
  rw [List.eq_of_mem_replicate member, List.length_replicate, ne_eq, List.replicate_eq_nil_iff]
  decide

theorem deliver_takeAll (resp : NosGeminiResp) (chunks : List Text) :
    deliver (takeAll resp) () chunks = (0, ()) := by
  induction chunks with
  | nil => rfl
  | cons chunk chunks inductionHypothesis =>
    rw [deliver, if_neg (show ¬ (takeAll resp () chunk).1 ≠ 0 from not_not.mpr rfl)]
    exact inductionHypothesis

/-- A body of 64 KB is reported as an empty one. -/
theorem bodyLen_wraps :
    ∃ trace done, Steps bodyEnv wholeRange
        (nosGeminiRequestStream (wholeRange.length + 1) plainUrl takeAll ()) trace []
        (.ret (0, done)) ∧
      (20 ≤ done.resp.status ∧ done.resp.status < 30) ∧
      (chunksIn trace).flatten.length = 65536 ∧ done.bodyLen = 0 := by
  obtain ⟨trace, done, handed, resp, -, run⟩ :=
    request_bodyEnv takeAll sizes_wholeRange (deliver_takeAll _ _)
  have success : 20 ≤ done.resp.status ∧ done.resp.status < 30 := by
    rw [resp]
    decide
  have length := nosGeminiRequestStream_bodyLen run success
  rw [handed, length_wholeRange] at length
  exact ⟨trace, done, run, success, by rw [handed, length_wholeRange], length⟩

/-! ### The caller's buffer -/

section Buffer

variable {max : Nat} {w : NosBufWriter max} {done chunk : Text} {chunks : List Text}

/-- The writer has put a text at the front of the buffer. -/
structure NosBufWriter.Holds (w : NosBufWriter max) (done : Text) : Prop where
  cells : ∃ cells, w.buf = .ok cells ∧ Buffers.filled cells done.length = done
  total : w.total = done.length
  fits : done.length ≤ max

theorem holds_empty (cells : Vector Byte max) : NosBufWriter.Holds ⟨.ok cells, 0⟩ [] :=
  ⟨⟨cells, rfl, rfl⟩, rfl, Nat.zero_le _⟩

/-- A chunk that fits is put behind the text. -/
theorem bufferWriterCb_fits (holds : w.Holds done) (range : max < uintRange)
    (room : done.length + chunk.length ≤ max) :
    ∃ next, bufferWriterCb w chunk = (0, next) ∧ next.Holds (done ++ chunk) := by
  obtain ⟨cells, stored, content⟩ := holds.cells
  obtain ⟨next, copied, longer⟩ := Buffers.copy_filled cells room
  have sum : (done.length + chunk.length) % uintRange = done.length + chunk.length :=
    Nat.mod_eq_of_lt (by omega)
  refine ⟨⟨.ok next, done.length + chunk.length⟩, ?_, ⟨next, rfl, ?_⟩, ?_, ?_⟩
  · rw [bufferWriterCb, holds.total, sum, if_neg (by omega), stored, Buffers.ok_bind, copied]
  · rw [List.length_append, longer, content]
  · rw [List.length_append]
  · rw [List.length_append]
    exact room

/-- A chunk that does not fit is refused, if the sum stays in the range of its type. -/
theorem bufferWriterCb_refuses (holds : w.Holds done) (beyond : max < done.length + chunk.length)
    (below : done.length + chunk.length < uintRange) : bufferWriterCb w chunk = (-1, w) := by
  rw [bufferWriterCb, holds.total, Nat.mod_eq_of_lt below, if_pos beyond]

/-- A sum that leaves the range passes the test, and the chunk is written outside. -/
theorem bufferWriterCb_wraps (holds : w.Holds done) (range : max < uintRange)
    (short : chunk.length ≤ 512) (high : uintRange ≤ done.length + chunk.length) :
    ∃ total, bufferWriterCb w chunk = (0, ⟨.error .outside, total⟩) := by
  have fits := holds.fits
  obtain ⟨cells, stored, -⟩ := holds.cells
  have small : (done.length + chunk.length) % uintRange ≤ max := by
    rw [uintRange] at range high ⊢
    omega
  refine ⟨(done.length + chunk.length) % uintRange, ?_⟩
  rw [bufferWriterCb, holds.total, if_neg (not_lt.mpr small), stored, Buffers.ok_bind,
    Buffers.copy_outside cells fits (by omega)]

/-- What was written outside stays written. -/
theorem deliver_outside (outside : w.buf = .error .outside) :
    (deliver bufferWriterCb w chunks).2.buf = .error .outside := by
  induction chunks generalizing w with
  | nil => exact outside
  | cons chunk chunks inductionHypothesis =>
    have kept : (bufferWriterCb w chunk).2.buf = .error .outside := by
      unfold bufferWriterCb
      split
      · exact outside
      · dsimp only
        rw [outside]
        rfl
    rw [deliver]
    split
    · exact kept
    · exact inductionHypothesis kept

/-- Every chunk that starts inside the buffer ends below `2 ^ 16`, with `done` bytes in front of
them. -/
def EndsBelow (max done : Nat) (chunks : List Text) : Prop :=
  ∀ front chunk back, chunks = front ++ chunk :: back → done + front.flatten.length ≤ max →
    done + front.flatten.length + chunk.length < uintRange

theorem endsBelow_cons {done : Nat} (inside : done ≤ max) :
    EndsBelow max done (chunk :: chunks) ↔
      done + chunk.length < uintRange ∧ EndsBelow max (done + chunk.length) chunks := by
  constructor
  · refine fun below => ⟨below [] chunk chunks rfl inside, fun front other back split room => ?_⟩
    have later := below (chunk :: front) other back (by rw [split, List.cons_append])
    rw [List.flatten_cons, List.length_append, ← Nat.add_assoc] at later
    exact later room
  · rintro ⟨first, later⟩ front other back split room
    cases front with
    | nil =>
      obtain ⟨rfl, -⟩ := List.cons.inj split
      exact first
    | cons _ front =>
      obtain ⟨rfl, rest⟩ := List.cons.inj split
      rw [List.flatten_cons, List.length_append, ← Nat.add_assoc] at room ⊢
      exact later front other back rest room

/-- In a buffer that is shorter than the range by the size of a chunk every chunk does. -/
theorem endsBelow_of_room (room : max + 512 < uintRange) (total : Nat)
    (sizes : ∀ chunk ∈ chunks, chunk.length ≤ 512) : EndsBelow max total chunks := by
  intro front chunk back split starts
  have short := sizes chunk (by simp [split])
  omega

theorem endsBelow_of_length {total : Nat} (below : total + chunks.flatten.length < uintRange) :
    EndsBelow max total chunks := by
  intro front chunk back split starts
  rw [split, List.flatten_append, List.length_append, List.flatten_cons, List.length_append]
    at below
  omega

/-- What the writer makes of a body: when every chunk that starts inside the buffer ends below
`2 ^ 16`, the body is in the buffer if it fits, and is refused if not; otherwise something is
written outside. -/
theorem deliver_bufferWriterCb (holds : w.Holds done) (range : max < uintRange)
    (sizes : ∀ chunk ∈ chunks, chunk.length ≤ 512) :
    (EndsBelow max done.length chunks →
      if done.length + chunks.flatten.length ≤ max then
        ∃ next, deliver bufferWriterCb w chunks = (0, next) ∧ next.Holds (done ++ chunks.flatten)
      else ∃ next front, deliver bufferWriterCb w chunks = (-1, next) ∧ next.Holds front) ∧
    (¬ EndsBelow max done.length chunks →
      (deliver bufferWriterCb w chunks).2.buf = .error .outside) := by
  induction chunks generalizing w done with
  | nil =>
    refine ⟨fun _ => ?_, fun wraps => absurd (fun front chunk back split => ?_) wraps⟩
    · rw [if_pos (by simpa using holds.fits)]
      exact ⟨w, rfl, by simpa using holds⟩
    · simp at split
  | cons chunk chunks inductionHypothesis =>
    have short := sizes chunk List.mem_cons_self
    rw [endsBelow_cons holds.fits]
    by_cases high : uintRange ≤ done.length + chunk.length
    · obtain ⟨total, passes⟩ := bufferWriterCb_wraps holds range short high
      refine ⟨fun below => absurd below.1 (not_lt.mpr high), fun _ => ?_⟩
      rw [deliver, passes]
      exact deliver_outside rfl
    rw [not_le] at high
    by_cases room : done.length + chunk.length ≤ max
    · obtain ⟨next, takes, longer⟩ := bufferWriterCb_fits holds range room
      obtain ⟨below, wraps⟩ := inductionHypothesis longer
        fun other member => sizes other (List.mem_cons_of_mem _ member)
      rw [deliver, takes, if_neg (not_not.mpr rfl)]
      rw [List.length_append] at below wraps
      rw [List.flatten_cons, List.length_append, ← Nat.add_assoc, ← List.append_assoc]
      exact ⟨fun both => below both.2, fun other => wraps fun later => other ⟨high, later⟩⟩
    · have refuses := bufferWriterCb_refuses holds (not_le.mp room) high
      have longer : ¬ done.length + (chunk :: chunks).flatten.length ≤ max := by
        rw [List.flatten_cons, List.length_append]
        omega
      rw [deliver, refuses, if_pos (show (-1 : Int) ≠ 0 by decide), if_neg longer]
      refine ⟨fun _ => ⟨w, done, rfl, holds⟩, fun other => absurd ⟨high, ?_⟩ other⟩
      intro front other back split inside
      omega

/-- Chunks that fill the buffer to less than a chunk below `2 ^ 16` are taken, and so is the one
behind them that is written outside. -/
theorem deliver_wraps (cells : Vector Byte max) (range : max < uintRange)
    (sizes : ∀ other ∈ chunks ++ [chunk], other.length ≤ 512) (fits : chunks.flatten.length ≤ max)
    (high : uintRange ≤ chunks.flatten.length + chunk.length) :
    ∃ total, deliver bufferWriterCb ⟨.ok cells, 0⟩ (chunks ++ [chunk]) =
      (0, ⟨.error .outside, total⟩) := by
  obtain ⟨fills, -⟩ := deliver_bufferWriterCb (holds_empty cells) range fun other member =>
    sizes other (List.mem_append_left _ member)
  rw [List.length_nil, Nat.zero_add, if_pos fits] at fills
  obtain ⟨w, filled, holds⟩ := fills (endsBelow_of_length (by omega))
  obtain ⟨total, last⟩ := bufferWriterCb_wraps holds range (sizes chunk (by simp)) high
  refine ⟨total, ?_⟩
  rw [deliver_append filled, deliver, last]
  rfl

end Buffer

/-! ### The body a request reads -/

section Bodies

variable {User : Type} {fuel : Nat} {chunks after : List Text} {trace : List (Event Answer)}

/-- The chunks that the body loop has read. -/
def bodyReads (trace : List (Event Answer)) : List Text :=
  trace.filterMap fun
    | ⟨.sslRead _ size, .data bytes _ _⟩ => if size = 512 then some bytes else none
    | _ => none

/-- The body loop was told that nothing more comes. -/
def BodyEnds (trace : List (Event Answer)) : Prop :=
  ∃ conn reason, (⟨.sslRead conn 512, .failed reason⟩ : Event Answer) ∈ trace

theorem bodyReads_append (front back : List (Event Answer)) :
    bodyReads (front ++ back) = bodyReads front ++ bodyReads back := List.filterMap_append

theorem bodyReads_opening (opening : Opening trace) : bodyReads trace = [] := by
  rw [bodyReads, List.filterMap_eq_nil_iff]
  rintro ⟨op, answer⟩ member
  have reads := opening _ member
  cases op with
  | sslRead conn size =>
    obtain ⟨_, equal⟩ := reads trivial
    obtain ⟨-, rfl⟩ := Op.sslRead.inj equal
    cases answer <;> rfl
  | _ => rfl

theorem bodyReads_of_answer {op : Op} {answer : Answer op}
    (answered : bodyEnv chunks op answer after) :
    chunks = bodyReads [⟨op, answer⟩] ++ after ∧ (BodyEnds [⟨op, answer⟩] → chunks = []) := by
  have silent (same : after = chunks) (none : bodyReads [⟨op, answer⟩] = [])
      (goesOn : ¬ BodyEnds [⟨op, answer⟩]) :
      chunks = bodyReads [⟨op, answer⟩] ++ after ∧ (BodyEnds [⟨op, answer⟩] → chunks = []) :=
    ⟨by rw [none, same, List.nil_append], fun ends => absurd ends goesOn⟩
  cases op with
  | sslRead conn size =>
    by_cases reads : size = 512
    · subst reads
      cases answer with
      | data bytes nonempty fits =>
        refine ⟨answered, fun ⟨_, _, member⟩ => ?_⟩
        cases List.mem_singleton.mp member
      | failed reason =>
        obtain ⟨none, rfl⟩ : chunks = [] ∧ after = [] := answered
        exact ⟨none, fun _ => none⟩
    · have other : ¬ BodyEnds [⟨.sslRead conn size, answer⟩] := fun ⟨_, _, member⟩ => by
        cases List.mem_singleton.mp member
        exact reads rfl
      cases answer with
      | data bytes nonempty fits =>
        exact silent ((if_neg reads).mp answered)
          (List.filterMap_cons_none (if_neg reads)) other
      | failed reason => exact silent ((if_neg reads).mp answered) rfl other
  | _ => exact silent answered rfl fun ⟨_, _, member⟩ => by cases List.mem_singleton.mp member

/-- A run has read what is missing from the chunks, and all of them if it was told so. -/
theorem bodyReads_of_steps {Result : Type} {prog left : Io Result}
    (run : Steps bodyEnv chunks prog trace after left) :
    chunks = bodyReads trace ++ after ∧ (BodyEnds trace → after = []) := by
  induction run with
  | refl => exact ⟨rfl, fun ⟨_, _, member⟩ => absurd member List.not_mem_nil⟩
  | @call chunks middle after op next answer trace rest answered _ inductionHypothesis =>
    obtain ⟨reads, ends⟩ := inductionHypothesis
    obtain ⟨read, ended⟩ := bodyReads_of_answer answered
    rw [← List.singleton_append, bodyReads_append, List.append_assoc, ← reads]
    refine ⟨read, fun ⟨conn, reason, member⟩ => ?_⟩
    rcases List.mem_append.mp member with here | later
    · rw [ended ⟨conn, reason, here⟩] at read
      have none : middle = [] := (List.append_eq_nil_iff.mp read.symm).2
      rw [none] at reads
      exact (List.append_eq_nil_iff.mp reads.symm).2
    · exact ends ⟨conn, reason, later⟩

/-- The body loop hands every chunk it reads to the callback, and reads until the end unless the
callback aborts. -/
theorem readChunk_reads {State : Type} {env : Env Answer State} {state final : State}
    {take : User → Text → Int × User} {conn : Option WolfSsl} {here : Nat × User}
    {value : (Nat × User) ⊕ (Bool × Nat × User)}
    (run : Steps env state (readChunk take conn here) trace final (.ret value)) :
    bodyReads trace = chunksIn trace ∧
      ∀ total user, value = .inr (false, total, user) → BodyEnds trace := by
  obtain ⟨answer, _, _, _, answered, rfl⟩ := run.perform_ret
  cases answer with
  | failed reason =>
    obtain ⟨rfl, _, _⟩ := answered.of_ret
    exact ⟨rfl, fun _ _ _ => ⟨conn, reason, List.mem_singleton_self _⟩⟩
  | data bytes nonempty fits =>
    obtain ⟨_, _, _, _, handed, rfl⟩ := answered.perform_ret
    dsimp only at handed
    split at handed
    · obtain ⟨rfl, _, equal⟩ := handed.of_ret
      cases equal
      exact ⟨rfl, nofun⟩
    · obtain ⟨rfl, _, equal⟩ := handed.of_ret
      cases equal
      exact ⟨rfl, nofun⟩

theorem bodyReads_of_iterates {State : Type} {env : Env Answer State} {state final : State}
    {take : User → Text → Int × User} {conn : Option WolfSsl} {start here : Nat × User}
    {visited : List (Nat × User)}
    (iterates : Iterates env (readChunk take conn) start state visited trace here final) :
    bodyReads trace = chunksIn trace := by
  induction iterates with
  | refl => rfl
  | step iteration _ inductionHypothesis =>
    rw [bodyReads_append, chunksIn_append, (readChunk_reads iteration).1, inductionHypothesis]

theorem readBody_reads {State : Type} {env : Env Answer State} {state final : State}
    {take : User → Text → Int × User} {conn : Option WolfSsl} {user done : User} {aborted : Bool}
    {total : Nat}
    (run : Steps env state (readBody fuel take conn user) trace final
      (.ret (aborted, total, done))) :
    bodyReads trace = chunksIn trace ∧ (aborted = false → BodyEnds trace) := by
  obtain ⟨here, visited, front, back, middle, iterates, last, rfl⟩ := run.loop_ret
  obtain ⟨reads, ends⟩ := readChunk_reads last
  refine ⟨by rw [bodyReads_append, chunksIn_append, bodyReads_of_iterates iterates, reads],
    fun complete => ?_⟩
  obtain ⟨conn, reason, member⟩ := ends total done (by rw [complete])
  exact ⟨conn, reason, List.mem_append_right _ member⟩

/-- A request with a 2x response has delivered the chunks of the body to the callback, up to one at
which it aborts. -/
theorem nosGeminiRequestStream_delivers {cb : BodyCb User} {url : NosUrl} {user : User} {rc : Int}
    {done : StreamState User}
    (run : Steps bodyEnv chunks (nosGeminiRequestStream fuel url cb user) trace after
      (.ret (rc, done)))
    (success : 20 ≤ done.resp.status ∧ done.resp.status < 30) :
    ∃ last, deliver (cb done.resp) user chunks = (last, done.user) ∧
      rc = (if last = 0 then 0 else -1) ∧
      (last = 0 → done.bodyLen = chunks.flatten.length % uintRange) := by
  obtain ⟨split, complete⟩ := bodyReads_of_steps run
  obtain ⟨here, visited, front, back, middle, iterates, turn, rfl⟩ := run.loop_ret
  have same : here.user = user := user_of_iterates iterates
  have notYet := status_of_iterates iterates (show ¬ (20 ≤ 0 ∧ 0 < 30) by omega)
  rcases exchange_ret turn with
    ⟨_, equal⟩ | ⟨_, _, resp, opened, _, _, _, responded, rfl, opening⟩
  · cases equal
    exact absurd success notYet
  obtain ⟨_, sameResp, ends⟩ := respond_ret responded
  rw [sameResp] at success ⊢
  rw [if_pos success] at ends
  obtain ⟨aborted, total, body, closing, _, bodyRead, rfl, closes, code, bodyLen⟩ := ends
  obtain ⟨⟨last, delivered, aborts⟩, counted⟩ := readBody_deliver bodyRead
  obtain ⟨handed, ended⟩ := readBody_reads bodyRead
  have quiet := opening_of_quiet fun event member => (closes event member).not_reply
  rw [bodyReads_append, bodyReads_append, bodyReads_append,
    bodyReads_opening (opening_of_iterates iterates), bodyReads_opening opening,
    bodyReads_opening quiet, List.append_nil, List.nil_append, List.nil_append, handed] at split
  rw [← same, split]
  cases aborted with
  | true =>
    have stops : last ≠ 0 := aborts.mp rfl
    refine ⟨last, ?_, by rw [code, if_neg stops, if_pos rfl], fun zero => absurd zero stops⟩
    rw [deliver_append_of_abort (by rw [delivered]; exact stops), delivered]
  | false =>
    obtain rfl : last = 0 := not_not.mp (mt aborts.mpr Bool.false_ne_true)
    obtain ⟨conn, reason, member⟩ := ended rfl
    have nothing := complete ⟨conn, reason, by simp [member]⟩
    rw [nothing, List.append_nil]
    exact ⟨0, delivered, by rw [code]; rfl, fun _ => (bodyLen rfl).trans (counted rfl)⟩

end Bodies

/-! ### The buffered request -/

/-- What a buffered request does with a body: nothing is written outside of the buffer, it returns 0
exactly when the body fits, with the body in the buffer and its length, and -1 otherwise. -/
structure Buffered (max : Nat) (chunks : List Text) (rc : Int) (out : NosGeminiOut max) :
    Prop where
  inside : out.bodyBuf ≠ some (.error .outside)
  zero : rc = 0 ↔ chunks.flatten.length ≤ max
  body : rc = 0 → ∃ cells, out.bodyBuf = some (.ok cells) ∧
    Buffers.filled cells chunks.flatten.length = chunks.flatten ∧
    out.bodyLen = chunks.flatten.length
  failed : rc ≠ 0 → rc = -1

section Request

variable {max fuel : Nat} {url : NosUrl} {start out : NosGeminiOut max} {cells : Vector Byte max}
  {chunks after : List Text} {trace : List (Event Answer)} {rc : Int}

/-- A buffered request with a 2x response has put the chunks of the body through the writer. -/
theorem nosGeminiRequest_delivers (positive : 0 < max) (buffer : start.bodyBuf = some (.ok cells))
    (run : Steps bodyEnv chunks (nosGeminiRequest fuel url start) trace after (.ret (rc, out)))
    (success : 20 ≤ out.resp.status ∧ out.resp.status < 30) :
    ∃ last w, deliver bufferWriterCb ⟨.ok cells, 0⟩ chunks = (last, w) ∧
      out.bodyBuf = some w.buf ∧ rc = (if last = 0 then 0 else -1) ∧
      (last = 0 → out.bodyLen = w.total) := by
  unfold nosGeminiRequest at run
  rw [buffer] at run
  dsimp only at run
  rw [if_neg (Nat.ne_of_gt positive)] at run
  obtain ⟨⟨code, done⟩, _, _, _, requested, rest, _⟩ := run.bind_ret
  have ends : rc = (if code = 0 then 0 else -1) ∧ out.resp = done.resp ∧
      out.bodyBuf = some done.user.buf ∧ (code = 0 → out.bodyLen = done.user.total) := by
    dsimp only at rest
    split at rest
    · rename_i failed
      cases rest.of_ret.2.2
      exact ⟨(if_neg failed).symm, rfl, rfl, fun zero => absurd zero failed⟩
    · rename_i complete
      cases rest.of_ret.2.2
      exact ⟨(if_pos (not_not.mp complete)).symm, rfl, rfl, fun _ => rfl⟩
  obtain ⟨result, resp, stored, total⟩ := ends
  rw [resp] at success
  obtain ⟨last, delivered, returned, -⟩ := nosGeminiRequestStream_delivers requested success
  refine ⟨last, done.user, delivered, stored, ?_, fun zero => total ?_⟩
  · rw [result, returned]
    by_cases zero : last = 0
    · rw [if_pos zero, if_pos rfl]
    · rw [if_neg zero, if_neg (show (-1 : Int) ≠ 0 by decide)]
  · rw [returned, if_pos zero]

/-- A buffered request stays inside of the buffer and reports the body right exactly when every
chunk that starts inside of the buffer ends below `2 ^ 16`. -/
theorem nosGeminiRequest_buffered_iff (positive : 0 < max) (range : max < 65536)
    (sizes : ∀ chunk ∈ chunks, 1 ≤ chunk.length ∧ chunk.length ≤ 512)
    (buffer : start.bodyBuf = some (.ok cells))
    (run : Steps bodyEnv chunks (nosGeminiRequest fuel url start) trace after (.ret (rc, out)))
    (success : 20 ≤ out.resp.status ∧ out.resp.status < 30) :
    Buffered max chunks rc out ↔ EndsBelow max 0 chunks := by
  obtain ⟨last, w, delivered, stored, result, total⟩ :=
    nosGeminiRequest_delivers positive buffer run success
  obtain ⟨below, wraps⟩ := deliver_bufferWriterCb (holds_empty cells) range fun chunk member =>
    (sizes chunk member).2
  rw [List.length_nil, Nat.zero_add, delivered] at below
  rw [delivered] at wraps
  constructor
  · intro buffered
    by_contra beyond
    exact buffered.inside (by rw [stored, wraps beyond])
  · intro ends
    replace below := below ends
    split at below
    · rename_i fits
      obtain ⟨next, equal, holds⟩ := below
      obtain ⟨rfl, rfl⟩ := Prod.mk.inj equal
      obtain ⟨content, kept, filled⟩ := holds.cells
      have zero : rc = 0 := by rw [result, if_pos rfl]
      refine ⟨?_, iff_of_true zero fits, fun _ => ⟨content, ?_, filled, ?_⟩,
        fun other => absurd zero other⟩
      · rw [stored, kept]
        simp
      · rw [stored, kept]
      · rw [total rfl, holds.total]
        rfl
    · rename_i tooLong
      obtain ⟨next, front, equal, holds⟩ := below
      obtain ⟨rfl, rfl⟩ := Prod.mk.inj equal
      obtain ⟨content, kept, -⟩ := holds.cells
      have failed : rc = -1 := by rw [result, if_neg (by decide)]
      have other : rc ≠ 0 := by
        rw [failed]
        decide
      refine ⟨?_, iff_of_false other tooLong, fun zero => absurd zero other, fun _ => failed⟩
      rw [stored, kept]
      simp

/-- A body that the writer takes is fetched in a run. -/
theorem nosGeminiRequest_bodyEnv {w : NosBufWriter max} (positive : 0 < max)
    (buffer : start.bodyBuf = some (.ok cells))
    (sizes : ∀ chunk ∈ chunks, 1 ≤ chunk.length ∧ chunk.length ≤ 512)
    (taken : deliver bufferWriterCb ⟨.ok cells, 0⟩ chunks = (0, w)) :
    ∃ trace out, Steps bodyEnv chunks (nosGeminiRequest (chunks.length + 1) plainUrl start) trace []
        (.ret (0, out)) ∧
      out.resp.status = 20 ∧ out.bodyBuf = some w.buf := by
  obtain ⟨trace, done, -, resp, user, run⟩ := request_bodyEnv (fun _ => bufferWriterCb)
    (fun chunk member => ⟨List.length_pos_iff.mp (sizes chunk member).1, (sizes chunk member).2⟩)
    taken
  refine ⟨trace, ⟨done.resp, some done.user.buf, done.user.total, done.err⟩, ?_, by rw [resp],
    by rw [user]⟩
  unfold nosGeminiRequest
  rw [buffer]
  dsimp only
  rw [if_neg (Nat.ne_of_gt positive)]
  exact run.bind_left _

end Request

/-- The out-parameters of a request with a zeroed buffer. -/
def zeroedOut (max : Nat) : NosGeminiOut max :=
  ⟨⟨0, []⟩, some (.ok (Vector.replicate max 0)), 0, ⟨0, 0, 0, []⟩⟩

theorem buffered_short :
    ∃ trace out, Steps bodyEnv [text "ok"] (nosGeminiRequest 2 plainUrl (zeroedOut 4)) trace []
        (.ret (0, out)) ∧
      Buffered 4 [text "ok"] 0 out := by
  have sizes : ∀ chunk ∈ [text "ok"], 1 ≤ chunk.length ∧ chunk.length ≤ 512 := by decide
  obtain ⟨trace, out, run, status, -⟩ := nosGeminiRequest_bodyEnv (by decide)
    (show (zeroedOut 4).bodyBuf = some (.ok (Vector.replicate 4 0)) from rfl) sizes rfl
  have below : EndsBelow 4 0 [text "ok"] := endsBelow_of_room (by decide) 0 (by decide)
  exact ⟨trace, out, run, (nosGeminiRequest_buffered_iff (by decide) (by decide) sizes rfl run
    (by rw [status]; decide)).mpr below⟩

/-- A body of 64 KB is written outside of a buffer of 65535 bytes, and 0 is returned. -/
theorem buffered_wraps :
    ∃ trace out, Steps bodyEnv wholeRange
        (nosGeminiRequest (wholeRange.length + 1) plainUrl (zeroedOut 65535)) trace []
        (.ret (0, out)) ∧
      (20 ≤ out.resp.status ∧ out.resp.status < 30) ∧
      (∀ chunk ∈ wholeRange, 1 ≤ chunk.length ∧ chunk.length ≤ 512) ∧
      out.bodyBuf = some (.error .outside) := by
  have sizes (chunk : Text) (member : chunk ∈ wholeRange) :
      1 ≤ chunk.length ∧ chunk.length ≤ 512 :=
    ⟨List.length_pos_iff.mpr (sizes_wholeRange chunk member).1, (sizes_wholeRange chunk member).2⟩
  have split : wholeRange = List.replicate 127 (List.replicate 512 0) ++ [List.replicate 512 0] :=
    List.replicate_succ'
  have length : (List.replicate 127 (List.replicate 512 (0 : Byte))).flatten.length = 65024 := by
    rw [List.length_flatten, List.map_replicate, List.sum_replicate_nat, List.length_replicate]
  obtain ⟨total, taken⟩ := deliver_wraps (Vector.replicate 65535 0) (by decide)
    (by rw [← split]; exact fun chunk member => (sizes chunk member).2)
    (by rw [length]; omega) (by rw [length, List.length_replicate, uintRange])
  obtain ⟨trace, out, run, status, stored⟩ := nosGeminiRequest_bodyEnv (by decide)
    (show (zeroedOut 65535).bodyBuf = some (.ok (Vector.replicate 65535 0)) from rfl) sizes
    (split ▸ taken)
  exact ⟨trace, out, run, by rw [status]; decide, sizes, stored⟩

end Nosgem
