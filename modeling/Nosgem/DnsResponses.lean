/-
This file is about what a response does to the cache of DNS.CPP. `udpHandler`
reads the questions and the records of a response, whatever they say, and stores
the address of an answer under the name that `resolve` was asked for. The
handler does not ask where the datagram ends: a message is here the memory from
the header on, and only what lies behind its end is out of reach.

A response counts only with the ident of the pending query, and when the handler
returns, the query is over. The addresses that count are those of the Answer
section, each of a record about the name that was asked, or about the one that
the last canonical record of that section before it gives: the handler does not
ask which name a canonical record is about, nor whether a query is still
pending. The cache learns the last of these addresses, under the name that was
asked for; the two other sections teach it nothing.
-/

import Nosgem.CacheTable
import Nosgem.DnsRecords

namespace Nosgem.Dns

open CText Buffers Circular CacheTable

/-! ### The source -/

/-- `DNS_MAX_ENTRIES` of nosgem.cfg. -/
def dnsMaxEntries : Nat := 1

/-- `UnknownError` of `DNS_Response_Code_t`. -/
def unknownError : Int := -2

/-- `IpAddr_t`, the four bytes as a message holds them. -/
abbrev IpAddr : Type := Text

/-- What `DNS_Pending_Rec_t` holds for the handler. -/
structure PendingQuery where
  ident : Nat
  originalTarget : Text
  targetName : Text

/-- The static variables of the class. -/
structure State where
  dnsTable : Table Text IpAddr dnsMaxEntries
  queryPending : Bool
  lastQueryRc : Int
  pendingQuery : PendingQuery

/-- The loop over the questions: the position behind them. -/
def questions (fuel : Nat) (message : Text) : Nat → Nat → Vector Byte dnsMaxNameLen →
    Except Stop Nat
  | 0, current, _ => return current
  | remaining + 1, current, questionName => do
    let (current, questionName) ← decodeName fuel message current questionName
    -- the type and the class
    let _ ← load message current 4
    questions fuel message remaining (current + 4) questionName

/-- The variables of the loop over the records. -/
structure RecordLocals where
  current : Nat
  tmpName : Vector Byte dnsMaxNameLen
  state : State

/-- `Dns::addOrUpdate` for an answer, which ends the query. -/
def answer (state : State) (addr : IpAddr) (now : Nat) : Except Stop State := do
  let dnsTable ← updateOrAdd fold state.dnsTable state.pendingQuery.originalTarget addr now
  return { state with dnsTable, queryPending := false, lastQueryRc := 0 }

/-- The body of the loop over the records of a section. -/
def record (fuel : Nat) (message : Text) (inAnswers : Bool) (now : Nat) (st : RecordLocals) :
    Except Stop RecordLocals := do
  let (current, tmpName) ← decodeName fuel message st.current st.tmpName
  let type ← wordAt message current
  -- the class and the time to live
  let _ ← load message (current + 2) 6
  let rdl ← wordAt message (current + 8)
  if type = 1 then
    if inAnswers ∧ fold st.state.pendingQuery.targetName = fold (cString tmpName.toList) then
      let addr ← load message (current + 10) 4
      let state ← answer st.state addr now
      return ⟨current + 10 + rdl, tmpName, state⟩
    else return ⟨current + 10 + rdl, tmpName, st.state⟩
  else if type = 2 then
    let (current, tmpName) ← decodeName fuel message (current + 10) tmpName
    return ⟨current, tmpName, st.state⟩
  else if type = 5 then
    let (current, tmpName) ← decodeName fuel message (current + 10) tmpName
    return ⟨current, tmpName, { st.state with
      pendingQuery := { st.state.pendingQuery with targetName := cString tmpName.toList } }⟩
  else return ⟨current + 10 + rdl, tmpName, st.state⟩

/-- The loop over the records of a section. -/
def records (fuel : Nat) (message : Text) (inAnswers : Bool) (now : Nat) :
    Nat → RecordLocals → Except Stop RecordLocals
  | 0, st => return st
  | remaining + 1, st => do
    let st ← record fuel message inAnswers now st
    records fuel message inAnswers now remaining st

/-- `Dns::udpHandler`, with what the two buffers on the stack held before. The numbers of questions
and records are kept in bytes. -/
def udpHandler (fuel : Nat) (message : Text) (now : Nat)
    (questionName tmpName : Vector Byte dnsMaxNameLen) (state : State) : Except Stop State := do
  let ident ← wordAt message 0
  let numQuestions ← wordAt message 4
  let numAnswers ← wordAt message 6
  let numAuthority ← wordAt message 8
  let numAdditional ← wordAt message 10
  if ident ≠ state.pendingQuery.ident then return state
  else
    let current ← questions fuel message (numQuestions % 256) 12 questionName
    let st ← records fuel message true now (numAnswers % 256) ⟨current, tmpName, state⟩
    let st ← records fuel message false now (numAuthority % 256) st
    let st ← records fuel message false now (numAdditional % 256) st
    if st.state.queryPending = false then return st.state
    else
      let flags ← byteAt message 3
      if flags.toNat % 16 ≠ 0 then
        return { st.state with queryPending := false, lastQueryRc := flags.toNat % 16 }
      else return { st.state with queryPending := false, lastQueryRc := unknownError }

/-! ### What a response means -/

/-- The name that stands for the one that was asked, behind some records: the last one that is
called canonical, whatever name that record is about. -/
def canonicalName : Text → List Record → Text
  | target, [] => target
  | _, ⟨_, .canonical name⟩ :: records => canonicalName name records
  | target, ⟨_, .address _⟩ :: records => canonicalName target records
  | target, ⟨_, .other⟩ :: records => canonicalName target records

/-- The addresses that answer a query: those of the records about the name that stands for the one
that was asked. -/
def found : Text → List Record → List Nat
  | _, [] => []
  | target, ⟨name, .address position⟩ :: records =>
    if fold target = fold name then position :: found target records else found target records
  | _, ⟨_, .canonical name⟩ :: records => found name records
  | target, ⟨_, .other⟩ :: records => found target records

/-- A cache learns an address for a name. It forgets at most one other name, the oldest, when it is
full and the name is new. -/
structure Learns (name : Text) (addr : IpAddr) (before after : Table Text IpAddr dnsMaxEntries) :
    Prop where
  sound : Sound fold after
  knows : ∃ victim, after.lookup fold =
      Function.update (forget victim (before.lookup fold)) (fold name) (some addr) ∧
    ∀ lost ∈ victim, Evicts fold before name lost

/-- The result of a query without an answer, from the response code. -/
def failure (flags : Byte) : Int :=
  if flags.toNat % 16 ≠ 0 then flags.toNat % 16 else unknownError

/-- What a response makes of a query. -/
structure Handled (message : Text) (response : Response) (before after : State) : Prop where
  sound : Sound fold after.dnsTable
  settled : after.queryPending = false
  query : after.pendingQuery = { before.pendingQuery with
    targetName := canonicalName before.pendingQuery.targetName
      (response.answers ++ response.authority ++ response.additional) }
  answered : ∀ position ∈ (found before.pendingQuery.targetName response.answers).getLast?,
    after.lastQueryRc = 0 ∧ ∃ addr, load message position 4 = .ok addr ∧
      Learns before.pendingQuery.originalTarget addr before.dnsTable after.dnsTable
  unanswered : found before.pendingQuery.targetName response.answers = [] →
    after.dnsTable = before.dnsTable ∧
      (before.queryPending = false → after.lastQueryRc = before.lastQueryRc) ∧
      (before.queryPending = true →
        ∃ flags, byteAt message 3 = .ok flags ∧ after.lastQueryRc = failure flags)

section Meaning

variable {target : Text}

theorem canonicalName_append (records more : List Record) :
    canonicalName target (records ++ more) =
      canonicalName (canonicalName target records) more := by
  induction records generalizing target with
  | nil => rfl
  | cons record records inductionHypothesis =>
    obtain ⟨name, _ | _ | _⟩ := record <;> exact @inductionHypothesis _

theorem found_append (records more : List Record) :
    found target (records ++ more) =
      found target records ++ found (canonicalName target records) more := by
  induction records generalizing target with
  | nil => rfl
  | cons record records inductionHypothesis =>
    obtain ⟨name, position | _ | _⟩ := record
    · have rest := @inductionHypothesis target
      rw [List.cons_append, found, found, rest]
      split <;> rfl
    · exact @inductionHypothesis _
    · exact @inductionHypothesis _

/-- A query without an answer does not succeed. -/
theorem failure_ne_zero (flags : Byte) : failure flags ≠ 0 := by
  rw [failure]
  split
  · rename_i failed
    exact fun zero => failed (Int.natCast_eq_zero.mp zero)
  · decide

end Meaning

section Learn

variable {name : Text} {addr : IpAddr} {before middle after : Table Text IpAddr dnsMaxEntries}

theorem learns_of_updateOrAdd (sound : Sound fold before) {now : Nat}
    (updates : updateOrAdd fold before name addr now = .ok after) :
    Learns name addr before after := by
  obtain ⟨next, victim, updates', sound', knows, evicts⟩ :=
    updateOrAdd_spec sound (show 0 < dnsMaxEntries by decide) name addr now
  obtain rfl := Except.ok.inj (updates.symm.trans updates')
  exact ⟨sound', victim, knows, evicts⟩

/-- A name that was learned is not new, so that nothing is thrown out for it again. -/
theorem Learns.again {other : IpAddr} (learns : Learns name addr before middle)
    (again : Learns name other middle after) : Learns name other before after := by
  obtain ⟨-, victim, knows, evicts⟩ := learns
  obtain ⟨sound, victim', knows', evicts'⟩ := again
  have none : victim' = none := by
    refine Option.eq_none_iff_forall_not_mem.mpr fun lost isLost => ?_
    have new := (evicts' lost isLost).new
    rw [knows, Function.update_self] at new
    cases new
  have keeps (assigned : Text → Option IpAddr) : forget Option.none assigned = assigned := rfl
  rw [none, keeps, knows, Function.update_idem] at knows'
  exact ⟨sound, victim, knows', evicts⟩

end Learn

/-! ### The handler -/

section Handle

variable {fuel : Nat} {message : Text}

/-- What addresses do to the state: it learns the last of them, and the query has succeeded. Without
any, only the pending query may have changed. -/
def Answered (message : Text) (name : Text) (positions : List Nat) (before after : State) : Prop :=
  match positions.getLast? with
  | none => after = { before with pendingQuery := after.pendingQuery }
  | some position => after.queryPending = false ∧ after.lastQueryRc = 0 ∧
      ∃ addr, load message position 4 = .ok addr ∧
        Learns name addr before.dnsTable after.dnsTable

variable {name : Text} {before middle after : State}

theorem Answered.sound {positions : List Nat}
    (answered : Answered message name positions before after)
    (sound : Sound fold before.dnsTable) : Sound fold after.dnsTable := by
  rw [Answered] at answered
  split at answered
  · rw [answered]
    exact sound
  · obtain ⟨-, -, addr, -, learns⟩ := answered
    exact learns.sound

theorem Answered.append {positions more : List Nat}
    (first : Answered message name positions before middle)
    (second : Answered message name more middle after) :
    Answered message name (positions ++ more) before after := by
  rw [Answered] at first second ⊢
  rw [List.getLast?_append]
  cases last : more.getLast? with
  | none =>
    rw [last] at second
    rw [Option.none_or]
    split at first
    · rw [second, first]
    · rw [second]
      exact first
  | some position =>
    rw [last] at second
    obtain ⟨ended, good, addr, loads, learns⟩ := second
    refine ⟨ended, good, addr, loads, ?_⟩
    split at first
    · rwa [first] at learns
    · obtain ⟨-, -, other, -, learned⟩ := first
      exact learned.again learns

theorem Answered.last {positions : List Nat}
    (answered : Answered message name positions before after) {position : Nat}
    (isLast : position ∈ positions.getLast?) : after.queryPending = false ∧
      after.lastQueryRc = 0 ∧ ∃ addr, load message position 4 = .ok addr ∧
        Learns name addr before.dnsTable after.dnsTable := by
  rw [Answered, isLast] at answered
  exact answered

theorem Answered.refl : Answered message name [] before before := rfl

/-- `addOrUpdate` for an answer. -/
theorem answered_of_answer (sound : Sound fold before.dnsTable) {position now : Nat} {addr : IpAddr}
    (loads : load message position 4 = .ok addr) (answers : answer before addr now = .ok after) :
    Answered message before.pendingQuery.originalTarget [position] before after ∧
      after.pendingQuery = before.pendingQuery := by
  obtain ⟨dnsTable, updates, answers⟩ := bind_eq_ok answers
  obtain rfl := Except.ok.inj answers
  exact ⟨⟨rfl, rfl, addr, loads, learns_of_updateOrAdd sound updates⟩, rfl⟩

/-- The addresses of a section that count. -/
def counted (inAnswers : Bool) (target : Text) (records : List Record) : List Nat :=
  if inAnswers then found target records else []

theorem counted_cons (inAnswers : Bool) (target : Text) (record : Record) (records : List Record) :
    counted inAnswers target (record :: records) = counted inAnswers target [record] ++
      counted inAnswers (canonicalName target [record]) records := by
  cases inAnswers with
  | false => rfl
  | true => exact found_append [record] records

/-- What the loop over some records has done: it has come through them, and they have changed the
state as what they say has it. -/
structure Through (fuel : Nat) (message : Text) (inAnswers : Bool) (st : RecordLocals)
    (list : List Record) (st' : RecordLocals) : Prop where
  records : Section fuel message st.current list st'.current
  query : st'.state.pendingQuery = { st.state.pendingQuery with
    targetName := canonicalName st.state.pendingQuery.targetName list }
  answered : Answered message st.state.pendingQuery.originalTarget
    (counted inAnswers st.state.pendingQuery.targetName list) st.state st'.state

variable {inAnswers : Bool} {now : Nat} {st st' st'' : RecordLocals}

theorem Through.nil : Through fuel message inAnswers st [] st :=
  ⟨.nil, rfl, by rw [counted, found, ite_self]; exact .refl⟩

theorem Through.cons {record : Record} {list : List Record}
    (first : Through fuel message inAnswers st [record] st')
    (rest : Through fuel message inAnswers st' list st'') :
    Through fuel message inAnswers st (record :: list) st'' := by
  obtain ⟨⟩ | ⟨stands, ⟨⟩⟩ := first.records
  refine ⟨.cons stands rest.records, ?_, ?_⟩
  · have named := @canonicalName_append st.state.pendingQuery.targetName [record] list
    rw [List.singleton_append] at named
    rw [named, rest.query, first.query]
  · have answered := rest.answered
    rw [first.query] at answered
    rw [counted_cons]
    exact first.answered.append answered

/-- The step lemma. -/
theorem record_through (sound : Sound fold st.state.dnsTable)
    (run : record fuel message inAnswers now st = .ok st') :
    ∃ record, Through fuel message inAnswers st [record] st' := by
  obtain ⟨⟨fields, tmpName⟩, decodes, run⟩ := bind_eq_ok run
  obtain ⟨type, reads, run⟩ := bind_eq_ok run
  obtain ⟨_, -, run⟩ := bind_eq_ok run
  obtain ⟨rdl, length, run⟩ := bind_eq_ok run
  have about : Reads fuel message st.current fields (cString tmpName.toList) :=
    ⟨st.tmpName, tmpName, decodes, rfl⟩
  by_cases address : type = 1
  · rw [if_pos address] at run
    rw [address] at reads
    have stands : Stands fuel message st.current _ (fields + 10 + rdl) :=
      .intro about reads (.address length)
    refine ⟨⟨cString tmpName.toList, .address (fields + 10)⟩, ?_⟩
    split at run
    · rename_i meant
      obtain ⟨addr, loads, run⟩ := bind_eq_ok run
      obtain ⟨state, answers, run⟩ := bind_eq_ok run
      obtain rfl := Except.ok.inj run
      obtain ⟨answered, query⟩ := answered_of_answer sound loads answers
      refine ⟨.cons stands .nil, query, ?_⟩
      rw [counted, if_pos meant.1, found, if_pos meant.2]
      exact answered
    · rename_i meant
      obtain rfl := Except.ok.inj run
      refine ⟨.cons stands .nil, rfl, ?_⟩
      rw [counted]
      split
      · rename_i inAnswers
        rw [found, if_neg fun same => meant ⟨inAnswers, same⟩]
        exact .refl
      · exact .refl
  rw [if_neg address] at run
  by_cases server : type = 2
  · rw [if_pos server] at run
    rw [server] at reads
    obtain ⟨⟨next, host⟩, decodes', run⟩ := bind_eq_ok run
    obtain rfl := Except.ok.inj run
    have stands : Stands fuel message st.current _ next :=
      .intro about reads (.server ⟨tmpName, host, decodes', rfl⟩)
    refine ⟨_, .cons stands .nil, rfl, ?_⟩
    rw [counted, found, found, ite_self]
    exact .refl
  rw [if_neg server] at run
  by_cases canonical : type = 5
  · rw [if_pos canonical] at run
    rw [canonical] at reads
    obtain ⟨⟨next, target⟩, decodes', run⟩ := bind_eq_ok run
    obtain rfl := Except.ok.inj run
    have stands : Stands fuel message st.current _ next :=
      .intro about reads (.canonical ⟨tmpName, target, decodes', rfl⟩)
    refine ⟨_, .cons stands .nil, rfl, ?_⟩
    rw [counted, found, found, ite_self]
    rfl
  · rw [if_neg canonical] at run
    obtain rfl := Except.ok.inj run
    have stands : Stands fuel message st.current _ (fields + 10 + rdl) :=
      .intro about reads (.other ⟨address, server, canonical⟩ length)
    refine ⟨_, .cons stands .nil, rfl, ?_⟩
    rw [counted, found, found, ite_self]
    exact .refl

/-- The run lemma. -/
theorem records_through {remaining : Nat} (sound : Sound fold st.state.dnsTable)
    (run : records fuel message inAnswers now remaining st = .ok st') :
    ∃ list, list.length = remaining ∧ Through fuel message inAnswers st list st' := by
  induction remaining generalizing st with
  | zero =>
    obtain rfl := Except.ok.inj run
    exact ⟨[], rfl, .nil⟩
  | succ remaining inductionHypothesis =>
    obtain ⟨middle, first, rest⟩ := bind_eq_ok run
    obtain ⟨record, through⟩ := record_through sound first
    obtain ⟨list, length, more⟩ := inductionHypothesis (through.answered.sound sound) rest
    exact ⟨record :: list, congrArg (· + 1) length, through.cons more⟩

theorem questions_asks {remaining current next : Nat} {questionName : Vector Byte dnsMaxNameLen}
    (run : questions fuel message remaining current questionName = .ok next) :
    Asks fuel message current remaining next := by
  induction remaining generalizing current questionName with
  | zero =>
    obtain rfl := Except.ok.inj run
    exact .nil
  | succ remaining inductionHypothesis =>
    obtain ⟨⟨fields, named⟩, decodes, run⟩ := bind_eq_ok run
    obtain ⟨_, -, run⟩ := bind_eq_ok run
    exact .cons ⟨_, named, decodes, rfl⟩ (inductionHypothesis run)

/-- The end of the handler, where the query is over. -/
theorem handled_of_answered {response : Response} (sound : Sound fold before.dnsTable)
    (query : middle.pendingQuery = { before.pendingQuery with
      targetName := canonicalName before.pendingQuery.targetName
        (response.answers ++ response.authority ++ response.additional) })
    (answered : Answered message before.pendingQuery.originalTarget
      (found before.pendingQuery.targetName response.answers) before middle)
    (run : (if middle.queryPending = false then pure middle
      else do
        let flags ← byteAt message 3
        if flags.toNat % 16 ≠ 0 then
          return { middle with queryPending := false, lastQueryRc := flags.toNat % 16 }
        else return { middle with queryPending := false, lastQueryRc := unknownError }) =
      Except.ok after) : Handled message response before after := by
  by_cases settled : middle.queryPending = false
  · rw [if_pos settled] at run
    obtain rfl := Except.ok.inj run
    refine ⟨answered.sound sound, settled, query, fun position isLast => (answered.last isLast).2,
      fun none => ?_⟩
    rw [none] at answered
    have same : middle = { before with pendingQuery := middle.pendingQuery } := answered
    rw [same] at settled ⊢
    refine ⟨rfl, fun _ => rfl, fun pending => ?_⟩
    cases pending.symm.trans settled
  · rw [if_neg settled] at run
    obtain ⟨flags, reads, run⟩ := bind_eq_ok run
    have ends : after = { middle with queryPending := false, lastQueryRc := failure flags } := by
      rw [failure]
      split at run
      · rename_i failed
        rw [if_pos failed]
        exact (Except.ok.inj run).symm
      · rename_i good
        rw [if_neg good]
        exact (Except.ok.inj run).symm
    rw [ends]
    refine ⟨answered.sound sound, rfl, query,
      fun position isLast => absurd (answered.last isLast).1 settled, fun none => ?_⟩
    rw [none] at answered
    have same : middle = { before with pendingQuery := middle.pendingQuery } := answered
    rw [same] at settled ⊢
    exact ⟨rfl, fun ended => absurd ended settled, fun _ => ⟨flags, reads, rfl⟩⟩

/-- A pending query succeeds with an answer, and only with one. -/
theorem Handled.good_iff {response : Response} (handled : Handled message response before after)
    (pending : before.queryPending = true) :
    after.lastQueryRc = 0 ↔ found before.pendingQuery.targetName response.answers ≠ [] := by
  constructor
  · rintro good none
    obtain ⟨flags, -, failed⟩ := (handled.unanswered none).2.2 pending
    exact failure_ne_zero flags (failed.symm.trans good)
  · intro some
    exact (handled.answered _ (List.getLast_mem_getLast? some)).1

/-- What a response does. With another ident than the pending query it does nothing. Else the
message holds the records of one response, the handler makes of the query what they say, and it has
succeeded if they hold an answer. -/
theorem udpHandler_handled {questionName tmpName : Vector Byte dnsMaxNameLen}
    (sound : Sound fold before.dnsTable)
    (run : udpHandler fuel message now questionName tmpName before = .ok after) :
    (wordAt message 0 ≠ .ok before.pendingQuery.ident ∧ after = before) ∨
    wordAt message 0 = .ok before.pendingQuery.ident ∧
      ∃ response, (∀ other, Holds fuel message other ↔ other = response) ∧
        Handled message response before after ∧ (before.queryPending = true →
          (after.lastQueryRc = 0 ↔
            found before.pendingQuery.targetName response.answers ≠ [])) := by
  obtain ⟨ident, readsIdent, run⟩ := bind_eq_ok run
  obtain ⟨numQuestions, readsQuestions, run⟩ := bind_eq_ok run
  obtain ⟨numAnswers, readsAnswers, run⟩ := bind_eq_ok run
  obtain ⟨numAuthority, readsAuthority, run⟩ := bind_eq_ok run
  obtain ⟨numAdditional, readsAdditional, run⟩ := bind_eq_ok run
  by_cases other : ident ≠ before.pendingQuery.ident
  · rw [if_pos other] at run
    refine .inl ⟨fun same => other (Except.ok.inj (readsIdent.symm.trans same)), ?_⟩
    exact (Except.ok.inj run).symm
  rw [if_neg other] at run
  rw [not_not.mp other] at readsIdent
  obtain ⟨first, asks, run⟩ := bind_eq_ok run
  obtain ⟨second, inAnswers, run⟩ := bind_eq_ok run
  obtain ⟨third, inAuthority, run⟩ := bind_eq_ok run
  obtain ⟨fourth, inAdditional, run⟩ := bind_eq_ok run
  obtain ⟨answers, lengthAnswers, throughAnswers⟩ := records_through sound inAnswers
  have sound₂ := throughAnswers.answered.sound sound
  obtain ⟨authority, lengthAuthority, throughAuthority⟩ := records_through sound₂ inAuthority
  have sound₃ := throughAuthority.answered.sound sound₂
  obtain ⟨additional, lengthAdditional, throughAdditional⟩ := records_through sound₃ inAdditional
  have handled : Handled message ⟨answers, authority, additional⟩ before after := by
    refine handled_of_answered sound ?_ ?_ run
    · rw [throughAdditional.query, throughAuthority.query, throughAnswers.query,
        canonicalName_append, canonicalName_append]
    · have second := throughAuthority.answered
      rw [throughAnswers.query] at second
      have third := throughAdditional.answered
      rw [throughAuthority.query, throughAnswers.query] at third
      have all := (throughAnswers.answered.append second).append third
      simpa only [counted, if_true, Bool.false_eq_true, if_false, List.append_nil] using all
  have holds : Holds fuel message ⟨answers, authority, additional⟩ :=
    ⟨first, second.current, third.current, fourth.current,
      ⟨_, ⟨_, readsQuestions, rfl⟩, questions_asks asks⟩,
      ⟨_, readsAnswers, lengthAnswers⟩, throughAnswers.records,
      ⟨_, readsAuthority, lengthAuthority⟩, throughAuthority.records,
      ⟨_, readsAdditional, lengthAdditional⟩, throughAdditional.records⟩
  refine .inr ⟨readsIdent, _, fun other => ⟨fun also => also.unique holds, ?_⟩, handled,
    handled.good_iff⟩
  rintro rfl
  exact holds

end Handle

/-- The response 10.0.0.1 to a query for a name, and another address in the Additional section. -/
def response : Text :=
  [0, 5, 129, 128, 0, 0, 0, 1, 0, 0, 0, 1] ++
    ([1, 97, 0] ++ [0, 1] ++ [0, 1, 0, 0, 0, 60] ++ [0, 4] ++ [10, 0, 0, 1]) ++
    ([1, 97, 0] ++ [0, 1] ++ [0, 1, 0, 0, 0, 60] ++ [0, 4] ++ [10, 6, 6, 6])

/-- The query waits for its response. -/
def waiting : State := ⟨⟨.replicate _ ⟨[], [], 0⟩, 0⟩, true, 0, ⟨5, [97], [97]⟩⟩

/-- The query has its response. -/
def resolved : State :=
  ⟨⟨(Vector.replicate _ ⟨[], [], 0⟩).set 0 ⟨[97], [10, 0, 0, 1], 0⟩ (by decide), 1⟩, false, 0,
    ⟨5, [97], [97]⟩⟩

/-- The name of both records. -/
theorem decodeName_response {start : Nat}
    (name : Encodes response start [[97]] (start + 3)) (starts : response[start]? = some 1)
    (nameBuf : Vector Byte dnsMaxNameLen) : ∃ fuel named,
      (∀ more, decodeName (fuel + more) response start nameBuf = .ok (start + 3, named)) ∧
        cString named.toList = [97] := by
  obtain ⟨fuel, named, decodes, stores⟩ := decodeName_fits name starts (by decide)
    (List.cons_ne_nil _ _) (by decide) nameBuf
  refine ⟨fuel, named, decodes, ?_⟩
  have front : named.toList.take 2 = [97, 0] := stores
  rw [← List.take_append_drop 2 named.toList, front]
  rfl

/-- The answer is read and stored, the other address is not. -/
theorem udpHandler_response : ∃ fuel,
    udpHandler fuel response 0 (.replicate _ 0) (.replicate _ 0) waiting = .ok resolved := by
  have name : Encodes response 12 [[97]] 15 :=
    @Encodes.label _ 12 15 1 [97] [] rfl (by decide) (by decide) rfl (@Encodes.root _ 14 rfl)
  have again : Encodes response 29 [[97]] 32 :=
    @Encodes.label _ 29 32 1 [97] [] rfl (by decide) (by decide) rfl (@Encodes.root _ 31 rfl)
  obtain ⟨fuel, named, decodes, content⟩ := decodeName_response name rfl (.replicate _ 0)
  obtain ⟨fuel', named', decodes', -⟩ := decodeName_response again rfl named
  have reads : record (fuel + fuel') response true 0 ⟨12, .replicate _ 0, waiting⟩ =
      .ok ⟨29, named, resolved⟩ := by
    have type : wordAt response 15 = .ok 1 := rfl
    have rdl : wordAt response 23 = .ok 4 := rfl
    have skipped : load response 17 6 = .ok [0, 1, 0, 0, 0, 60] := rfl
    have addr : load response 25 4 = .ok [10, 0, 0, 1] := rfl
    have answers : answer waiting [10, 0, 0, 1] 0 = .ok resolved := rfl
    rw [record, decodes, ok_bind]
    dsimp only
    rw [type, ok_bind, skipped, ok_bind, rdl, ok_bind, if_pos rfl, if_pos, addr, ok_bind, answers]
    · rfl
    · rw [content]
      exact ⟨rfl, rfl⟩
  have skips : record (fuel + fuel') response false 0 ⟨29, named, resolved⟩ =
      .ok ⟨46, named', resolved⟩ := by
    have type : wordAt response 32 = .ok 1 := rfl
    have rdl : wordAt response 40 = .ok 4 := rfl
    have skipped : load response 34 6 = .ok [0, 1, 0, 0, 0, 60] := rfl
    rw [record, Nat.add_comm, decodes', ok_bind]
    dsimp only
    rw [type, ok_bind, skipped, ok_bind, rdl, ok_bind, if_pos rfl, if_neg]
    · rfl
    · rintro ⟨⟨⟩, -⟩
  refine ⟨fuel + fuel', ?_⟩
  have first : records (fuel + fuel') response true 0 1 ⟨12, .replicate _ 0, waiting⟩ =
      .ok ⟨29, named, resolved⟩ := by
    rw [records, reads]
    rfl
  have last : records (fuel + fuel') response false 0 1 ⟨29, named, resolved⟩ =
      .ok ⟨46, named', resolved⟩ := by
    rw [records, skips]
    rfl
  have ident : wordAt response 0 = .ok 5 := rfl
  have numQuestions : wordAt response 4 = .ok 0 := rfl
  have numAnswers : wordAt response 6 = .ok 1 := rfl
  have numAuthority : wordAt response 8 = .ok 0 := rfl
  have numAdditional : wordAt response 10 = .ok 1 := rfl
  rw [udpHandler, ident, ok_bind, numQuestions, ok_bind, numAnswers, ok_bind, numAuthority,
    ok_bind, numAdditional, ok_bind,
    if_neg (show ¬5 ≠ waiting.pendingQuery.ident from not_not_intro rfl)]
  show (records (fuel + fuel') response true 0 1 ⟨12, .replicate _ 0, waiting⟩ >>= _) = _
  rw [first]
  show (records (fuel + fuel') response false 0 1 ⟨29, named, resolved⟩ >>= _) = _
  rw [last]
  rfl

theorem udpHandler_handled_response : ∃ fuel,
    udpHandler fuel response 0 (.replicate _ 0) (.replicate _ 0) waiting = .ok resolved ∧
      ((wordAt response 0 ≠ .ok waiting.pendingQuery.ident ∧ resolved = waiting) ∨
      wordAt response 0 = .ok waiting.pendingQuery.ident ∧
        ∃ records, (∀ other, Holds fuel response other ↔ other = records) ∧
          Handled response records waiting resolved ∧ (waiting.queryPending = true →
            (resolved.lastQueryRc = 0 ↔
              found waiting.pendingQuery.targetName records.answers ≠ []))) := by
  obtain ⟨fuel, run⟩ := udpHandler_response
  exact ⟨fuel, run, udpHandler_handled ⟨Nat.zero_le _, List.nodup_nil⟩ run⟩

end Nosgem.Dns
