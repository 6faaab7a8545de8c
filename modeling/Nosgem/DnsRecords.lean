/-
This file is about what the message of a response says, apart from what
DNS.CPP makes of it: behind the header stand some questions, and then the
records of three sections, one behind the other. A record is about a name, and
gives its address, or another name that it calls canonical, or something that
the resolver does not use.

How long a record is depends on its type: one that gives a name ends with this
name, any other as its data length says. So a message can be read from the front
only, and in one way: where a record starts and what it says is decided by the
bytes in front of it. That holds although the names are read into buffers whose
old content is not known.
-/

import Nosgem.DnsNames

namespace Nosgem.Dns

open CText Buffers Circular

/-- A number of two bytes, the high one first. -/
def wordAt (message : Text) (index : Nat) : Except Stop Nat := do
  let high ← byteAt message index
  let low ← byteAt message (index + 1)
  return high.toNat * 256 + low.toNat

/-! ### Records -/

/-- A name that is read in a message, and the position behind it. -/
def Reads (fuel : Nat) (message : Text) (start next : Nat) (name : Text) : Prop :=
  ∃ before after, decodeName fuel message start before = .ok (next, after) ∧
    name = cString after.toList

/-- What a record says of the name it is about. Of an address it is the position in the message. -/
inductive Content where
  | address (position : Nat)
  | canonical (name : Text)
  | other

/-- A record of a response. -/
structure Record where
  name : Text
  content : Content

/-- What stands behind the name of a record, by the type of the record, and the position behind it:
that of a name the record ends with, else as its data length says. -/
inductive Body (fuel : Nat) (message : Text) (fields : Nat) : Nat → Content → Nat → Prop where
  | address {rdl : Nat} (length : wordAt message (fields + 8) = .ok rdl) :
      Body fuel message fields 1 (.address (fields + 10)) (fields + 10 + rdl)
  | server {next : Nat} {host : Text} (reads : Reads fuel message (fields + 10) next host) :
      Body fuel message fields 2 .other next
  | canonical {next : Nat} {target : Text} (reads : Reads fuel message (fields + 10) next target) :
      Body fuel message fields 5 (.canonical target) next
  | other {type rdl : Nat} (unknown : type ≠ 1 ∧ type ≠ 2 ∧ type ≠ 5)
      (length : wordAt message (fields + 8) = .ok rdl) :
      Body fuel message fields type .other (fields + 10 + rdl)

/-- A record in a message, and the position behind it. -/
inductive Stands (fuel : Nat) (message : Text) : Nat → Record → Nat → Prop where
  | intro {start fields type next : Nat} {name : Text} {content : Content}
      (about : Reads fuel message start fields name) (kind : wordAt message fields = .ok type)
      (body : Body fuel message fields type content next) :
      Stands fuel message start ⟨name, content⟩ next

/-- The questions of a message, one behind the other. -/
inductive Asks (fuel : Nat) (message : Text) : Nat → Nat → Nat → Prop where
  | nil {start : Nat} : Asks fuel message start 0 start
  | cons {start fields number next : Nat} {name : Text}
      (first : Reads fuel message start fields name)
      (rest : Asks fuel message (fields + 4) number next) :
      Asks fuel message start (number + 1) next

/-- The records of a section, one behind the other. -/
inductive Section (fuel : Nat) (message : Text) : Nat → List Record → Nat → Prop where
  | nil {start : Nat} : Section fuel message start [] start
  | cons {start middle next : Nat} {record : Record} {records : List Record}
      (first : Stands fuel message start record middle)
      (rest : Section fuel message middle records next) :
      Section fuel message start (record :: records) next

/-- The records of a response. -/
structure Response where
  answers : List Record
  authority : List Record
  additional : List Record

/-- A number of the header. Its low byte counts. -/
def Counts (message : Text) (field number : Nat) : Prop :=
  ∃ word, wordAt message field = .ok word ∧ number = word % 256

/-- A message that divides into a header, some questions and the three sections of a response; the
positions are those where the sections end. -/
structure Divides (fuel : Nat) (message : Text) (response : Response)
    (first second third stop : Nat) : Prop where
  questions : ∃ number, Counts message 4 number ∧ Asks fuel message 12 number first
  numAnswers : Counts message 6 response.answers.length
  answers : Section fuel message first response.answers second
  numAuthority : Counts message 8 response.authority.length
  authority : Section fuel message second response.authority third
  numAdditional : Counts message 10 response.additional.length
  additional : Section fuel message third response.additional stop

/-- A message holds the records of a response. -/
def Holds (fuel : Nat) (message : Text) (response : Response) : Prop :=
  ∃ first second third stop, Divides fuel message response first second third stop

/-! ### One reading -/

section Unique

variable {fuel : Nat} {message : Text} {start next stop : Nat}

theorem Reads.unique {name other : Text} (first : Reads fuel message start next name)
    (second : Reads fuel message start stop other) : next = stop ∧ name = other := by
  obtain ⟨before, after, decodes, rfl⟩ := first
  obtain ⟨before', after', decodes', rfl⟩ := second
  obtain ⟨named, again, same⟩ := decodeName_alike decodes before'
  obtain ⟨rfl, rfl⟩ := Prod.mk.inj (Except.ok.inj (again.symm.trans decodes'))
  exact ⟨rfl, same.symm⟩

theorem Body.unique {fields type : Nat} {content content' : Content}
    (first : Body fuel message fields type content next)
    (second : Body fuel message fields type content' stop) :
    content = content' ∧ next = stop := by
  cases first with
  | address length =>
    cases second with
    | address length' =>
      obtain rfl := Except.ok.inj (length.symm.trans length')
      exact ⟨rfl, rfl⟩
    | other unknown _ => exact absurd rfl unknown.1
  | server reads =>
    cases second with
    | server reads' => exact ⟨rfl, (reads.unique reads').1⟩
    | other unknown _ => exact absurd rfl unknown.2.1
  | canonical reads =>
    cases second with
    | canonical reads' =>
      obtain ⟨rfl, rfl⟩ := reads.unique reads'
      exact ⟨rfl, rfl⟩
    | other unknown _ => exact absurd rfl unknown.2.2
  | other unknown length =>
    cases second with
    | address _ => exact absurd rfl unknown.1
    | server _ => exact absurd rfl unknown.2.1
    | canonical _ => exact absurd rfl unknown.2.2
    | other _ length' =>
      obtain rfl := Except.ok.inj (length.symm.trans length')
      exact ⟨rfl, rfl⟩

theorem Stands.unique {record other : Record} (first : Stands fuel message start record next)
    (second : Stands fuel message start other stop) : record = other ∧ next = stop := by
  obtain ⟨about, kind, body⟩ := first
  obtain ⟨about', kind', body'⟩ := second
  obtain ⟨rfl, rfl⟩ := about.unique about'
  obtain rfl := Except.ok.inj (kind.symm.trans kind')
  obtain ⟨rfl, rfl⟩ := body.unique body'
  exact ⟨rfl, rfl⟩

theorem Asks.unique {number : Nat} (first : Asks fuel message start number next)
    (second : Asks fuel message start number stop) : next = stop := by
  induction first with
  | nil =>
    cases second
    rfl
  | cons question _ inductionHypothesis =>
    cases second with
    | cons question' rest =>
      obtain ⟨rfl, -⟩ := question.unique question'
      exact inductionHypothesis rest

theorem Section.unique {records others : List Record}
    (first : Section fuel message start records next)
    (second : Section fuel message start others stop) (length : records.length = others.length) :
    records = others ∧ next = stop := by
  induction first generalizing others with
  | nil =>
    cases second with
    | nil => exact ⟨rfl, rfl⟩
    | cons => cases length
  | cons stands _ inductionHypothesis =>
    cases second with
    | nil => cases length
    | cons stands' rest =>
      obtain ⟨rfl, rfl⟩ := stands.unique stands'
      obtain ⟨rfl, rfl⟩ := inductionHypothesis rest (Nat.succ.inj length)
      exact ⟨rfl, rfl⟩

theorem Counts.unique {field number other : Nat} (first : Counts message field number)
    (second : Counts message field other) : number = other := by
  obtain ⟨word, reads, rfl⟩ := first
  obtain ⟨word', reads', rfl⟩ := second
  rw [Except.ok.inj (reads.symm.trans reads')]

/-- A message holds one response at most. -/
theorem Holds.unique {response other : Response} (holds : Holds fuel message response)
    (holds' : Holds fuel message other) : response = other := by
  obtain ⟨_, _, _, _, divides⟩ := holds
  obtain ⟨_, _, _, _, divides'⟩ := holds'
  obtain ⟨number, counts, asks⟩ := divides.questions
  obtain ⟨number', counts', asks'⟩ := divides'.questions
  obtain rfl := counts.unique counts'
  obtain rfl := asks.unique asks'
  obtain ⟨answers, rfl⟩ := divides.answers.unique divides'.answers
    (divides.numAnswers.unique divides'.numAnswers)
  obtain ⟨authority, rfl⟩ := divides.authority.unique divides'.authority
    (divides.numAuthority.unique divides'.numAuthority)
  obtain ⟨additional, -⟩ := divides.additional.unique divides'.additional
    (divides.numAdditional.unique divides'.numAdditional)
  cases response
  cases other
  rw [Response.mk.injEq]
  exact ⟨answers, authority, additional⟩

end Unique

end Nosgem.Dns
