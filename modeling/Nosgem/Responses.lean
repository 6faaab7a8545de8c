/-
This file says where a turn of the request loop reads its response. Before it
does, it connects, checks the certificate and writes the request, and none of
this reads from the connection or hands anything to the callback; so a run of a
turn either has not come to its response, or is in the part that reads it and
answers it.
-/

import Nosgem.Footprint

namespace Nosgem

open CText Interaction

/-! ### Reads -/

/-- A read of a connection. -/
def IsRead : Op → Prop
  | .sslRead _ _ => True
  | _ => False

/-- A read of a connection, or a chunk handed on. -/
def IsReply : Op → Prop
  | .sslRead _ _ | .callback _ => True
  | _ => False

theorem IsRead.isReply {op : Op} (reads : IsRead op) : IsReply op := by
  cases op <;> first | exact reads.elim | trivial

theorem ConnectOp.not_reply {op : Op} (connects : ConnectOp op) : ¬ IsReply op := by
  cases op <;> first | exact id | exact connects.elim

theorem TofuOp.not_reply {ssl : WolfSsl} {op : Op} (checks : TofuOp ssl op) : ¬ IsReply op := by
  cases op <;> first | exact id | exact checks.elim

theorem CloseOp.not_reply {op : Op} (closes : CloseOp op) : ¬ IsReply op := by
  cases op <;> first | exact id | exact closes.elim

theorem AskOp.not_reply {op : Op} (asks : AskOp op) : ¬ IsReply op := by
  cases op <;> first | exact id | exact asks.elim

/-- The reads of a run: nothing for one that delivered bytes, and the reason of one that failed. -/
def readsIn (trace : List (Event Answer)) : List (Option ReadFailure) :=
  trace.filterMap fun event =>
    match event with
    | ⟨.sslRead _ _, .data _ _ _⟩ => some none
    | ⟨.sslRead _ _, .failed reason⟩ => some (some reason)
    | _ => none

@[simp] theorem readsIn_append (front back : List (Event Answer)) :
    readsIn (front ++ back) = readsIn front ++ readsIn back := List.filterMap_append

theorem readsIn_quiet {trace : List (Event Answer)} (quiet : ∀ event ∈ trace, ¬ IsReply event.op) :
    readsIn trace = [] := by
  rw [readsIn, List.filterMap_eq_nil_iff]
  rintro ⟨op, answer⟩ member
  have other := quiet _ member
  cases op <;> first | rfl | exact absurd trivial other

/-! ### Where a turn reads -/

section Responses

variable {User State : Type} {env : Env Answer State} {state final : State} {fuel : Nat}
  {cb : BodyCb User} {st : StreamState User} {trace : List (Event Answer)}

/-- A turn that is not reading its response: it is about to do something else, it is cut, or it has
failed and kept what it knows. -/
def NotReading (st : StreamState User) (left : Io (StreamState User ⊕ (Int × StreamState User))) :
    Prop :=
  (∃ op next, left = .call op next ∧ ¬ IsReply op) ∨ left = .cut ∨
    ∃ err, left = .ret (.inr (-1, { st with err }))

/-- What a turn does with the header line it has read, or could not read. -/
def answerHeader (fuel : Nat) (cb : BodyCb User) (tls : NosTlsCtx) (st : StreamState User) :
    Option Text → Io (StreamState User ⊕ (Int × StreamState User))
  | none => do
    let _ ← nosTlsClose tls
    return st.fail (text "header read failed")
  | some header => do
    let (parsed, resp) := parseHeader header st.resp nosGeminiMaxHeader
    let st := { st with resp }
    if parsed ≠ 0 then
      let _ ← nosTlsClose tls
      return st.fail (text "header parse failed")
    respond fuel cb tls st

/-- A turn on an open connection writes its request and answers the header line of its response. -/
theorem converse_eq (tls : NosTlsCtx) :
    converse fuel cb tls st =
      if st.current.host.length + st.current.path.length + 12 ≥ requestSize then
        nosTlsClose tls >>= fun _ => return st.fail (text "request too long")
      else invoke (.sslWrite tls.ssl (requestText st.current)) >>= fun written =>
        if written ≤ 0 then nosTlsClose tls >>= fun _ => return st.fail (text "TLS write failed")
        else readHeaderLine tls.ssl nosGeminiMaxHeader >>= answerHeader fuel cb tls st := by
  unfold converse
  refine if_congr Iff.rfl rfl (congrArg _ (funext fun written => ?_))
  refine if_congr Iff.rfl rfl (congrArg _ (funext fun header => ?_))
  cases header <;> rfl

variable (env fuel cb st) in
/-- Where a run of a turn stands: it does not read and has not read before, or it is in the part
that reads the response, with no read in front of it. -/
def Stands (trace : List (Event Answer)) (final : State)
    (left : Io (StreamState User ⊕ (Int × StreamState User))) : Prop :=
  (NotReading st left ∧ ∀ event ∈ trace, ¬ IsReply event.op) ∨
    ∃ tls front back middle, trace = front ++ back ∧ (∀ event ∈ front, ¬ IsReply event.op) ∧
      Steps env middle (readHeaderLine tls.ssl nosGeminiMaxHeader >>=
        answerHeader fuel cb tls st) back final left

theorem Stands.after {front back : List (Event Answer)}
    {left : Io (StreamState User ⊕ (Int × StreamState User))}
    (quiet : ∀ event ∈ front, ¬ IsReply event.op) (stands : Stands env fuel cb st back final left) :
    Stands env fuel cb st (front ++ back) final left := by
  rcases stands with ⟨notReading, quietBack⟩ | ⟨tls, middle, rest, start, rfl, quietMiddle, run⟩
  · refine .inl ⟨notReading, fun event member => ?_⟩
    exact (List.mem_append.mp member).elim (quiet event) (quietBack event)
  · refine .inr ⟨tls, front ++ middle, rest, start, by simp, fun event member => ?_, run⟩
    exact (List.mem_append.mp member).elim (quiet event) (quietMiddle event)

/-- A part of a turn that does not read, and what comes behind it. -/
theorem stands_bind {Value : Type} {prog : Io Value}
    {rest : Value → Io (StreamState User ⊕ (Int × StreamState User))}
    {left : Io (StreamState User ⊕ (Int × StreamState User))}
    (run : Steps env state (prog >>= rest) trace final left)
    (calls : Calls (fun op => ¬ IsReply op) prog)
    (tail : ∀ value middle back, Steps env middle (rest value) back final left →
      Stands env fuel cb st back final left) : Stands env fuel cb st trace final left := by
  rcases run.bind_calls calls with
    ⟨here, quiet⟩ | ⟨value, front, back, middle, _, second, rfl, quiet⟩
  · refine .inl ⟨?_, quiet⟩
    rcases here with ⟨op, next, rfl, other⟩ | rfl
    · exact .inl ⟨op, next, rfl, other⟩
    · exact .inr (.inl rfl)
  · exact (tail value middle back second).after quiet

theorem stands_ret {err : NosGeminiErr} {left : Io (StreamState User ⊕ (Int × StreamState User))}
    (run : Steps env state (.ret (.inr (-1, { st with err }))) trace final left) :
    Stands env fuel cb st trace final left := by
  obtain ⟨rfl, _, rfl⟩ := run.of_ret
  exact .inl ⟨.inr (.inr ⟨err, rfl⟩), by simp⟩

theorem stands_exit {tls : NosTlsCtx} {message : Text}
    {left : Io (StreamState User ⊕ (Int × StreamState User))}
    (run : Steps env state (nosTlsClose tls >>= fun _ => return st.fail message) trace final left) :
    Stands env fuel cb st trace final left :=
  stands_bind run ((calls_nosTlsClose tls).mono fun _ => CloseOp.not_reply)
    fun _ _ _ second => stands_ret second

theorem exchange_stands {left : Io (StreamState User ⊕ (Int × StreamState User))}
    (run : Steps env state (exchange fuel cb st) trace final left) :
    Stands env fuel cb st trace final left := by
  unfold exchange at run
  refine stands_bind run ((calls_nosTlsConnect fuel _ _).mono fun _ => ConnectOp.not_reply)
    fun connected _ _ run => ?_
  obtain ⟨rc, tls⟩ := connected
  dsimp only at run
  split at run
  · exact stands_ret run
  have checks : Calls (fun op => ¬ IsReply op)
      (nosTofuCheck tls.ssl st.current.host st.current.port 128) := by
    cases tls.ssl with
    | none => trivial
    | some conn => exact (calls_nosTofuCheck conn _ _ _).mono fun _ => TofuOp.not_reply
  refine stands_bind run checks fun checked _ _ run => ?_
  obtain ⟨trusted, terr⟩ := checked
  dsimp only at run
  split at run
  · exact stands_exit run
  rw [converse_eq] at run
  split at run
  · exact stands_exit run
  refine stands_bind run (calls_perform.mpr id) fun written middle back run => ?_
  split at run
  · exact stands_exit run
  · exact .inr ⟨tls, [], back, middle, rfl, by simp, run⟩

/-- The parts of a turn that ends: it fails before it reads and keeps what it knows, or it reads a
header line, as far as it comes, and answers it. -/
theorem exchange_parts {value : StreamState User ⊕ (Int × StreamState User)}
    (run : Steps env state (exchange fuel cb st) trace final (.ret value)) :
    ((∃ err, value = .inr (-1, { st with err })) ∧ ∀ event ∈ trace, ¬ IsReply event.op) ∨
      ∃ tls header front line back middle next, trace = front ++ (line ++ back) ∧
        (∀ event ∈ front, ¬ IsReply event.op) ∧
        Steps env middle (readHeaderLine tls.ssl nosGeminiMaxHeader) line next (.ret header) ∧
        Steps env next (answerHeader fuel cb tls st header) back final (.ret value) := by
  rcases exchange_stands run with ⟨notReading, quiet⟩ | ⟨tls, front, _, _, rfl, quiet, reading⟩
  · rcases notReading with ⟨_, _, equal, _⟩ | equal | ⟨err, equal⟩
    · cases equal
    · cases equal
    · cases equal
      exact .inl ⟨⟨err, rfl⟩, quiet⟩
  · obtain ⟨header, line, back, _, read, answered, rfl⟩ := reading.bind_ret
    exact .inr ⟨tls, header, front, line, back, _, _, rfl, quiet, read, answered⟩

/-- A turn that goes on has read. -/
theorem exchange_next_reads {next : StreamState User}
    (run : Steps env state (exchange fuel cb st) trace final (.ret (.inl next))) :
    ∃ event ∈ trace, IsRead event.op := by
  rcases exchange_parts run with ⟨⟨_, equal⟩, _⟩ | ⟨tls, _, _, line, _, _, _, rfl, _, read, _⟩
  · cases equal
  · obtain ⟨answer, _, tail, _, _, rfl⟩ := read.perform_ret
    exact ⟨⟨.sslRead tls.ssl 1, answer⟩, by simp, trivial⟩

/-- Until it reads, the request loop is in its first turn. -/
theorem iterates_unread {start : StreamState User} {visited : List (StreamState User)}
    (iterates : Iterates env (exchange fuel cb) start state visited trace st final)
    (unread : ∀ event ∈ trace, ¬ IsRead event.op) : visited = [] ∧ st = start := by
  cases iterates with
  | refl => exact ⟨rfl, rfl⟩
  | step iteration tail =>
    obtain ⟨event, member, reads⟩ := exchange_next_reads iteration
    exact absurd reads (unread event (List.mem_append_left _ member))

/-- A turn that is about to read for the first time is at the start of the part that reads the
response. -/
theorem exchange_firstRead {conn : Option WolfSsl} {size : Nat}
    {next : ReadResult size → Io (StreamState User ⊕ (Int × StreamState User))}
    (run : Steps env state (exchange fuel cb st) trace final (.call (.sslRead conn size) next))
    (firstRead : ∀ event ∈ trace, ¬ IsRead event.op) :
    (∀ event ∈ trace, ¬ IsReply event.op) ∧ ∃ tls, .call (.sslRead conn size) next =
      (readHeaderLine tls.ssl nosGeminiMaxHeader >>= answerHeader fuel cb tls st) := by
  rcases exchange_stands run with ⟨notReading, _⟩ | ⟨tls, front, back, middle, rfl, quiet, reading⟩
  · rcases notReading with ⟨op, next, equal, other⟩ | equal | ⟨result, equal⟩
    · cases equal
      exact absurd trivial other
    · cases equal
    · cases equal
  · cases reading with
    | refl => exact ⟨by simpa using quiet, tls, rfl⟩
    | @call _ _ _ _ _ answer _ _ answered tail =>
      exact absurd trivial (firstRead ⟨.sslRead tls.ssl 1, answer⟩ (by simp))

end Responses

end Nosgem
