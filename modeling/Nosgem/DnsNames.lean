/-
This file is about the names of DNS.CPP: the question that `sendRequest` asks
for the address of a name, and `decodeName`, which reads the names of a
response. A name in a message is a row of labels, each behind its length, which
a zero ends, or a pointer to the rest of the name elsewhere in the message.

The decoder meets this description on every name: it stores what is there, or
says that there is no room, and it accepts nothing else. Its two slips are about
pointers, which a response may hold wherever it likes: one that leads to the
root makes it write in front of its buffer, and pointers that lead to each other
are followed for ever. A name that is asked for is read back from the question
as it was given.

A message is the memory from the header of the response on. The decoder does not
ask where the datagram ends, so that what lies behind it is read as well; only
what lies behind the end of the memory is out of reach.
-/

import Nosgem.Circular
import Mathlib.Data.Set.Insert

namespace Nosgem.Dns

open CText Buffers Circular

/-! ### The source -/

/-- `DNS_MAX_NAME_LEN` of nosgem.cfg. -/
def dnsMaxNameLen : Nat := 128

/-- What the buffer of a name says when it is too small for it. -/
def tooBig : Text := text "!TOO_BIG" ++ [0]

/-- A byte of a message. -/
def byteAt (message : Text) (index : Nat) : Except Stop Byte :=
  match message[index]? with
  | some byte => .ok byte
  | none => .error .outside

/-- The variables of `decodeName`. `prePtrCurrent` is set once a pointer was hit. -/
structure NameLocals where
  current : Nat
  tmpNameIndex : Nat
  prePtrCurrent : Option Nat
  nameBuf : Vector Byte dnsMaxNameLen

/-- The loop of `decodeName`, with `fuel` for the rounds. Positions are counted from the header, as
the pointers do. -/
def decodeLoop (message : Text) : Nat → NameLocals → Except Stop NameLocals
  | 0, _ => .error .failed
  | fuel + 1, st => do
    let nextLen ← byteAt message st.current
    if nextLen = 0 then return st
    else if 191 < nextLen.toNat then
      let low ← byteAt message (st.current + 1)
      decodeLoop message fuel { st with
        prePtrCurrent := st.prePtrCurrent.or (some (st.current + 1))
        current := nextLen.toNat % 64 * 256 + low.toNat }
    else if dnsMaxNameLen ≤ st.tmpNameIndex + nextLen.toNat then
      let nameBuf ← copy st.nameBuf 0 tooBig
      return { st with current := st.current + 1, tmpNameIndex := 9, nameBuf }
    else
      let label ← load message (st.current + 1) nextLen.toNat
      let nameBuf ← copy st.nameBuf st.tmpNameIndex (label ++ [46])
      decodeLoop message fuel { st with
        current := st.current + 1 + nextLen.toNat
        tmpNameIndex := st.tmpNameIndex + nextLen.toNat + 1
        nameBuf }

/-- `decodeName`: the position behind the name, and the buffer that holds it. -/
def decodeName (fuel : Nat) (message : Text) (current : Nat)
    (nameBuf : Vector Byte dnsMaxNameLen) :
    Except Stop (Nat × Vector Byte dnsMaxNameLen) := do
  if (← byteAt message current) = 0 then
    let nameBuf ← put nameBuf 0 0
    return (current + 1, nameBuf)
  else
    let st ← decodeLoop message fuel ⟨current, 0, none, nameBuf⟩
    -- the byte in front of the buffer
    if st.tmpNameIndex = 0 then .error .outside
    else
      let nameBuf ← put st.nameBuf (st.tmpNameIndex - 1) 0
      return (st.prePtrCurrent.getD st.current + 1, nameBuf)

/-- `data` of a `DNSpacket`. -/
def dataLen : Nat := 512

/-- The variables of `sendRequest` that the question is encoded with; the pointers are indices into
the data. -/
structure QuestionLocals where
  data : Vector Byte dataLen
  sublen : Byte
  lenByte : Nat
  target : Nat

/-- The loop of `sendRequest` over the name. -/
def questionLoop : Text → QuestionLocals → Except Stop QuestionLocals
  | [], st => return st
  | c :: rest, st =>
    if c = 46 then do
      let data ← put st.data st.lenByte st.sublen
      questionLoop rest ⟨data, 0, st.target, st.target + 1⟩
    else do
      let data ← put st.data st.target c
      questionLoop rest ⟨data, st.sublen + 1, st.lenByte, st.target + 1⟩

/-- The question of `sendRequest` for the address of a name, and the length of the request. -/
def encodeQuestion (targetName : Text) (data : Vector Byte dataLen) :
    Except Stop (Vector Byte dataLen × Nat) := do
  let st ← questionLoop targetName ⟨data, 0, 0, 1⟩
  let data ← put st.data st.lenByte st.sublen
  let data ← copy data st.target [0, 0, 1, 0, 1]
  return (data, (12 + targetName.length + 2 + 4) % 256)

/-! ### Names -/

/-- The labels of a name, each with its dot. -/
def dotted (labels : List Text) : Text := labels.flatMap (· ++ [46])

/-- The labels of a name, with a dot between them. -/
def joined (labels : List Text) : Text := (dotted labels).dropLast

/-- A name as the program keeps it: a NUL takes the place of its last dot. -/
def stored (labels : List Text) : Text := joined labels ++ [0]

/-- The labels of a name in a message, each behind its length. -/
def wire (labels : List Text) : Text :=
  labels.flatMap fun label => UInt8.ofNat label.length :: label

/-- A name in a message and the position behind it. A pointer ends the name, and stands for the
labels it points to. -/
inductive Encodes (message : Text) : Nat → List Text → Nat → Prop where
  | root {position : Nat} (ends : message[position]? = some 0) :
      Encodes message position [] (position + 1)
  | label {position next : Nat} {length : Byte} {label : Text} {labels : List Text}
      (starts : message[position]? = some length) (some : 0 < length.toNat)
      (short : length.toNat ≤ 191)
      (bytes : load message (position + 1) length.toNat = .ok label)
      (rest : Encodes message (position + 1 + length.toNat) labels next) :
      Encodes message position (label :: labels) next
  | pointer {position next : Nat} {high low : Byte} {labels : List Text}
      (starts : message[position]? = some high) (points : 191 < high.toNat)
      (ends : message[position + 1]? = some low)
      (target : Encodes message (high.toNat % 64 * 256 + low.toNat) labels next) :
      Encodes message position labels (position + 2)

section Decode

variable {message : Text} {position next : Nat} {labels : List Text}

theorem byteAt_eq {index : Nat} {value : Byte} (there : message[index]? = some value) :
    byteAt message index = .ok value := by
  rw [byteAt, there]

theorem of_byteAt {index : Nat} {value : Byte} (reads : byteAt message index = .ok value) :
    message[index]? = some value := by
  rw [byteAt] at reads
  split at reads
  · rename_i there
    rw [there, Except.ok.inj reads]
  · cases reads

theorem ne_zero_of_lt {least : Nat} {c : Byte} (more : least < c.toNat) : c ≠ 0 := by
  rintro rfl
  exact absurd more (Nat.not_lt_zero least)

theorem length_load {start count : Nat} {bytes : Text}
    (loads : load message start count = .ok bytes) : bytes.length = count := by
  rw [load] at loads
  split at loads
  · obtain rfl := Except.ok.inj loads
    rw [List.length_take, List.length_drop]
    omega
  · cases loads

/-- A round that reads a pointer. -/
theorem decodeLoop_pointer {fuel : Nat} {st : NameLocals} {high low : Byte}
    (starts : message[st.current]? = some high) (points : 191 < high.toNat)
    (ends : message[st.current + 1]? = some low) :
    decodeLoop message (fuel + 1) st = decodeLoop message fuel { st with
      prePtrCurrent := st.prePtrCurrent.or (some (st.current + 1))
      current := high.toNat % 64 * 256 + low.toNat } := by
  rw [decodeLoop, byteAt_eq starts, ok_bind, if_neg (ne_zero_of_lt points), if_pos points,
    byteAt_eq ends]
  rfl

/-- A round that reads a label for which there is room. -/
theorem decodeLoop_label {st : NameLocals} {length : Byte} {label : Text}
    (starts : message[st.current]? = some length) (some : 0 < length.toNat)
    (short : length.toNat ≤ 191) (fits : st.tmpNameIndex + length.toNat < dnsMaxNameLen)
    (bytes : load message (st.current + 1) length.toNat = .ok label) :
    ∃ nameBuf, (∀ fuel, decodeLoop message (fuel + 1) st = decodeLoop message fuel
        ⟨st.current + 1 + length.toNat, st.tmpNameIndex + length.toNat + 1, st.prePtrCurrent,
          nameBuf⟩) ∧
      filled nameBuf (st.tmpNameIndex + length.toNat + 1) =
        filled st.nameBuf st.tmpNameIndex ++ (label ++ [46]) := by
  have size : (label ++ [46]).length = length.toNat + 1 := by
    rw [List.length_append, length_load bytes]
    rfl
  obtain ⟨nameBuf, copies, content⟩ := copy_filled st.nameBuf
    (show st.tmpNameIndex + (label ++ [46]).length ≤ dnsMaxNameLen by omega)
  refine ⟨nameBuf, fun fuel => ?_, by rwa [size] at content⟩
  rw [decodeLoop, byteAt_eq starts, ok_bind, if_neg (ne_zero_of_lt some), if_neg (by omega),
    if_neg (not_le.mpr fits), bytes, ok_bind, copies]
  rfl

/-- A round that reads a label for which there is no room. -/
theorem decodeLoop_tooBig {st : NameLocals} {length : Byte}
    (starts : message[st.current]? = some length) (some : 0 < length.toNat)
    (short : length.toNat ≤ 191) (full : dnsMaxNameLen ≤ st.tmpNameIndex + length.toNat) :
    ∃ nameBuf, (∀ fuel, decodeLoop message (fuel + 1) st =
        .ok ⟨st.current + 1, 9, st.prePtrCurrent, nameBuf⟩) ∧
      filled nameBuf 9 = tooBig := by
  obtain ⟨nameBuf, copies, content⟩ := copy_filled st.nameBuf
    (show 0 + tooBig.length ≤ dnsMaxNameLen by decide)
  refine ⟨nameBuf, fun fuel => ?_, content⟩
  rw [decodeLoop, byteAt_eq starts, ok_bind, if_neg (ne_zero_of_lt some), if_neg (by omega),
    if_pos full, copies]
  rfl

theorem length_dotted_cons (label : Text) (labels : List Text) :
    (dotted (label :: labels)).length = label.length + 1 + (dotted labels).length := by
  rw [dotted, List.flatMap_cons, List.length_append, List.length_append]
  rfl

/-- The position behind the name that the loop has come through. -/
def NameLocals.behind (st : NameLocals) : Nat := st.prePtrCurrent.getD st.current + 1

/-- The loop comes through a name and appends its labels, or says that there is no room. A pointer
that was hit before keeps the position that is returned. -/
theorem Encodes.decodeLoop (encodes : Encodes message position labels next) {st : NameLocals}
    (here : st.current = position) (inUse : st.tmpNameIndex ≤ dnsMaxNameLen) :
    ∃ fuel final, (∀ more, Dns.decodeLoop message (fuel + more) st = .ok final) ∧
      (st.tmpNameIndex + (dotted labels).length ≤ dnsMaxNameLen →
        final.tmpNameIndex = st.tmpNameIndex + (dotted labels).length ∧
        filled final.nameBuf final.tmpNameIndex =
          filled st.nameBuf st.tmpNameIndex ++ dotted labels ∧
        final.behind = (st.prePtrCurrent.map (· + 1)).getD next) ∧
      (dnsMaxNameLen < st.tmpNameIndex + (dotted labels).length →
        final.tmpNameIndex = 9 ∧ filled final.nameBuf 9 = tooBig) := by
  induction encodes generalizing st with
  | root ends =>
    subst here
    refine ⟨1, st, fun more => ?_, fun _ => ⟨rfl, (List.append_nil _).symm, ?_⟩, fun long => ?_⟩
    · rw [Nat.add_comm, Dns.decodeLoop, byteAt_eq ends, ok_bind, if_pos rfl]
      rfl
    · cases start : st.prePtrCurrent <;> simp [NameLocals.behind, start]
    · exact absurd long (not_lt.mpr inUse)
  | @label _ next length label labels starts some short bytes rest inductionHypothesis =>
    subst here
    have size := length_dotted_cons label labels
    rw [length_load bytes] at size
    by_cases fits : st.tmpNameIndex + length.toNat < dnsMaxNameLen
    · obtain ⟨nameBuf, reads, content⟩ := decodeLoop_label starts some short fits bytes
      obtain ⟨fuel, final, runs, named, tooLong⟩ := @inductionHypothesis
        ⟨st.current + 1 + length.toNat, st.tmpNameIndex + length.toNat + 1, st.prePtrCurrent,
          nameBuf⟩ rfl fits
      dsimp only at named tooLong
      refine ⟨fuel + 1, final, fun more => ?_, fun short => ?_, fun long => tooLong (by omega)⟩
      · rw [Nat.add_right_comm, reads]
        exact runs more
      · obtain ⟨index, content', behind⟩ := named (by omega)
        refine ⟨by omega, ?_, behind⟩
        rw [content', content, List.append_assoc]
        rfl
    · obtain ⟨nameBuf, reads, content⟩ := decodeLoop_tooBig starts some short (not_lt.mp fits)
      refine ⟨1, ⟨st.current + 1, 9, st.prePtrCurrent, nameBuf⟩, fun more => ?_, fun short => ?_,
        fun _ => ⟨rfl, content⟩⟩
      · rw [Nat.add_comm]
        exact reads more
      · omega
  | pointer starts points ends target inductionHypothesis =>
    subst here
    obtain ⟨fuel, final, runs, named, tooLong⟩ :=
      @inductionHypothesis { st with
        prePtrCurrent := st.prePtrCurrent.or (some (st.current + 1))
        current := _ } rfl inUse
    refine ⟨fuel + 1, final, fun more => ?_, fun fits => ?_, tooLong⟩
    · rw [Nat.add_right_comm, decodeLoop_pointer starts points ends]
      exact runs more
    · obtain ⟨index, content, behind⟩ := named fits
      refine ⟨index, content, behind.trans ?_⟩
      cases st.prePtrCurrent <;> rfl

/-- More rounds change nothing. -/
theorem decodeLoop_more {fuel : Nat} {st final : NameLocals}
    (runs : Dns.decodeLoop message fuel st = .ok final) (more : Nat) :
    Dns.decodeLoop message (fuel + more) st = .ok final := by
  induction fuel generalizing st with
  | zero => cases runs
  | succ fuel inductionHypothesis =>
    obtain ⟨nextLen, reads, round⟩ := bind_eq_ok runs
    rw [Nat.add_right_comm, Dns.decodeLoop, reads, ok_bind]
    by_cases ends : nextLen = 0
    · rwa [if_pos ends] at round ⊢
    rw [if_neg ends] at round ⊢
    by_cases points : 191 < nextLen.toNat
    · rw [if_pos points] at round ⊢
      obtain ⟨low, readsLow, rest⟩ := bind_eq_ok round
      rw [readsLow, ok_bind]
      exact inductionHypothesis rest
    rw [if_neg points] at round ⊢
    by_cases full : dnsMaxNameLen ≤ st.tmpNameIndex + nextLen.toNat
    · rwa [if_pos full] at round ⊢
    rw [if_neg full] at round ⊢
    obtain ⟨label, loads, copies⟩ := bind_eq_ok round
    obtain ⟨nameBuf, copied, rest⟩ := bind_eq_ok copies
    rw [loads, ok_bind, copied, ok_bind]
    exact inductionHypothesis rest

/-- What the loop comes through is a name for which there is room, or the buffer says that there is
none. -/
theorem encodes_of_decodeLoop {fuel : Nat} {st final : NameLocals}
    (runs : Dns.decodeLoop message fuel st = .ok final) (inUse : st.tmpNameIndex ≤ dnsMaxNameLen) :
    (∃ labels next, Encodes message st.current labels next ∧
      st.tmpNameIndex + (dotted labels).length ≤ dnsMaxNameLen) ∨
    final.tmpNameIndex = 9 ∧ filled final.nameBuf 9 = tooBig := by
  induction fuel generalizing st with
  | zero => cases runs
  | succ fuel inductionHypothesis =>
    obtain ⟨nextLen, reads, round⟩ := bind_eq_ok runs
    have starts := of_byteAt reads
    by_cases ends : nextLen = 0
    · exact .inl ⟨[], _, .root (ends ▸ starts), inUse⟩
    have some : 0 < nextLen.toNat := Nat.pos_of_ne_zero fun zero => ends (UInt8.toNat_inj.mp zero)
    rw [if_neg ends] at round
    by_cases points : 191 < nextLen.toNat
    · rw [if_pos points] at round
      obtain ⟨low, readsLow, rest⟩ := bind_eq_ok round
      refine (inductionHypothesis rest inUse).imp_left ?_
      rintro ⟨labels, next, target, fits⟩
      exact ⟨labels, _, .pointer starts points (of_byteAt readsLow) target, fits⟩
    rw [if_neg points] at round
    by_cases full : dnsMaxNameLen ≤ st.tmpNameIndex + nextLen.toNat
    · obtain ⟨nameBuf, stops, content⟩ :=
        decodeLoop_tooBig starts some (not_lt.mp points) full
      obtain rfl := Except.ok.inj ((stops fuel).symm.trans runs)
      exact .inr ⟨rfl, content⟩
    · rw [if_neg full] at round
      obtain ⟨label, loads, -⟩ := bind_eq_ok round
      obtain ⟨nameBuf, continues, -⟩ :=
        decodeLoop_label starts some (not_lt.mp points) (not_le.mp full) loads
      rw [continues] at runs
      refine (inductionHypothesis runs (not_le.mp full)).imp_left ?_
      rintro ⟨labels, next, rest, fits⟩
      refine ⟨label :: labels, next, .label starts some (not_lt.mp points) loads rest, ?_⟩
      rw [length_dotted_cons, length_load loads]
      dsimp only at fits
      omega

/-! ### The decoder -/

theorem decodeName_root (ends : message[position]? = some 0)
    (nameBuf : Vector Byte dnsMaxNameLen) :
    ∃ named, (∀ fuel, decodeName fuel message position nameBuf = .ok (position + 1, named)) ∧
      filled named 1 = [0] := by
  obtain ⟨named, written, content⟩ := put_filled nameBuf (show 0 < dnsMaxNameLen by decide) 0
  refine ⟨named, fun fuel => ?_, content⟩
  rw [decodeName, byteAt_eq ends, ok_bind, if_pos rfl, written]
  rfl

/-- What a loop that ends leaves to be done. -/
theorem decodeName_eq {first : Byte} (starts : message[position]? = some first)
    (some : first ≠ 0) {final : NameLocals} (used : 0 < final.tmpNameIndex)
    (bound : final.tmpNameIndex ≤ dnsMaxNameLen) :
    ∃ named, (∀ fuel nameBuf,
        Dns.decodeLoop message fuel ⟨position, 0, none, nameBuf⟩ = .ok final →
        decodeName fuel message position nameBuf = .ok (final.behind, named)) ∧
      filled named final.tmpNameIndex =
        filled final.nameBuf (final.tmpNameIndex - 1) ++ [0] := by
  obtain ⟨named, written, content⟩ := put_filled final.nameBuf
    (show final.tmpNameIndex - 1 < dnsMaxNameLen by omega) 0
  refine ⟨named, fun fuel nameBuf runs => ?_, ?_⟩
  · rw [decodeName, byteAt_eq starts, ok_bind, if_neg some, runs, ok_bind,
      if_neg (Nat.ne_of_gt used), written]
    rfl
  · rwa [Nat.sub_add_cancel used] at content

theorem length_joined (some : labels ≠ []) :
    (joined labels).length + 1 = (dotted labels).length := by
  obtain ⟨label, rest, rfl⟩ := List.exists_cons_of_ne_nil some
  have length := length_dotted_cons label rest
  rw [joined, List.length_dropLast]
  omega

theorem length_stored (some : labels ≠ []) : (stored labels).length = (dotted labels).length := by
  rw [stored, List.length_append, List.length_singleton, length_joined some]

/-- Only the root has a zero in its place. -/
theorem Encodes.eq_nil (encodes : Encodes message position labels next)
    (ends : message[position]? = some 0) : labels = [] ∧ next = position + 1 := by
  cases encodes with
  | root _ => exact ⟨rfl, rfl⟩
  | label starts some _ _ _ =>
    exact absurd (Option.some.inj (starts.symm.trans ends)) (ne_zero_of_lt some)
  | pointer starts points _ _ =>
    exact absurd (Option.some.inj (starts.symm.trans ends)) (ne_zero_of_lt points)

/-- A name starts with some byte. -/
theorem Encodes.starts (encodes : Encodes message position labels next) :
    ∃ first, message[position]? = some first := by
  cases encodes with
  | root ends => exact ⟨_, ends⟩
  | label starts _ _ _ _ => exact ⟨_, starts⟩
  | pointer starts _ _ _ => exact ⟨_, starts⟩

theorem decodeName_more {fuel : Nat} {nameBuf : Vector Byte dnsMaxNameLen}
    {result : Nat × Vector Byte dnsMaxNameLen}
    (decodes : decodeName fuel message position nameBuf = .ok result) (more : Nat) :
    decodeName (fuel + more) message position nameBuf = .ok result := by
  obtain ⟨first, reads, rest⟩ := bind_eq_ok decodes
  rw [decodeName, reads, ok_bind]
  by_cases ends : first = 0
  · rwa [if_pos ends] at rest ⊢
  · rw [if_neg ends] at rest ⊢
    obtain ⟨final, runs, finish⟩ := bind_eq_ok rest
    rwa [decodeLoop_more runs more, ok_bind]

/-- What the buffer holds behind the name makes no difference to the loop. -/
theorem decodeLoop_alike {fuel : Nat} {st final : NameLocals}
    (runs : Dns.decodeLoop message fuel st = .ok final) {other : Vector Byte dnsMaxNameLen}
    (same : filled other st.tmpNameIndex = filled st.nameBuf st.tmpNameIndex) :
    ∃ buffer, Dns.decodeLoop message fuel { st with nameBuf := other } =
        .ok { final with nameBuf := buffer } ∧
      filled buffer final.tmpNameIndex = filled final.nameBuf final.tmpNameIndex := by
  induction fuel generalizing st other with
  | zero => cases runs
  | succ fuel inductionHypothesis =>
    obtain ⟨nextLen, reads, round⟩ := bind_eq_ok runs
    rw [Dns.decodeLoop, reads, ok_bind]
    by_cases ends : nextLen = 0
    · rw [if_pos ends] at round ⊢
      obtain rfl := Except.ok.inj round
      exact ⟨other, rfl, same⟩
    rw [if_neg ends] at round ⊢
    by_cases points : 191 < nextLen.toNat
    · rw [if_pos points] at round ⊢
      obtain ⟨low, readsLow, rest⟩ := bind_eq_ok round
      rw [readsLow, ok_bind]
      exact inductionHypothesis rest same
    rw [if_neg points] at round ⊢
    by_cases full : dnsMaxNameLen ≤ st.tmpNameIndex + nextLen.toNat
    · rw [if_pos full] at round ⊢
      obtain ⟨nameBuf, copied, rest⟩ := bind_eq_ok round
      obtain rfl := Except.ok.inj rest
      have room : 0 + tooBig.length ≤ dnsMaxNameLen := by decide
      obtain ⟨_, copied', content⟩ := copy_filled st.nameBuf room
      obtain rfl := Except.ok.inj (copied.symm.trans copied')
      obtain ⟨buffer, copies, content'⟩ := copy_filled other room
      exact ⟨buffer, by rw [copies]; rfl, content'.trans content.symm⟩
    rw [if_neg full] at round ⊢
    obtain ⟨label, loads, copies⟩ := bind_eq_ok round
    obtain ⟨nameBuf, copied, rest⟩ := bind_eq_ok copies
    have size : (label ++ [46]).length = nextLen.toNat + 1 := by
      rw [List.length_append, length_load loads]
      rfl
    have room : st.tmpNameIndex + (label ++ [46]).length ≤ dnsMaxNameLen := by omega
    obtain ⟨_, copied', content⟩ := copy_filled st.nameBuf room
    obtain rfl := Except.ok.inj (copied.symm.trans copied')
    obtain ⟨buffer, copies, content'⟩ := copy_filled other room
    rw [loads, ok_bind, copies, ok_bind]
    refine inductionHypothesis rest ?_
    rw [size, ← Nat.add_assoc] at content content'
    exact content'.trans (same ▸ content.symm)

/-- A text ends at its first NUL. -/
theorem cString_of_filled {buffer other : Vector Byte dnsMaxNameLen} {used : Nat} {name : Text}
    (content : filled buffer used = name ++ [0]) (same : filled other used = name ++ [0]) :
    cString buffer.toList = cString other.toList := by
  have cut (buffer : Vector Byte dnsMaxNameLen) (content : filled buffer used = name ++ [0]) :
      cString buffer.toList = cString (name ++ [0]) := by
    have front : buffer.toList.take used = name ++ [0] := content
    rw [← List.take_append_drop used buffer.toList, front, cString_append,
      if_pos List.mem_concat_self, List.append_nil]
  rw [cut buffer content, cut other same]

/-- What the buffer held before makes no difference to the name that is read. -/
theorem decodeName_alike {fuel : Nat} {nameBuf named : Vector Byte dnsMaxNameLen}
    (decodes : decodeName fuel message position nameBuf = .ok (next, named))
    (other : Vector Byte dnsMaxNameLen) :
    ∃ named', decodeName fuel message position other = .ok (next, named') ∧
      cString named'.toList = cString named.toList := by
  obtain ⟨first, reads, rest⟩ := bind_eq_ok decodes
  rw [decodeName, reads, ok_bind]
  have some : 0 < dnsMaxNameLen := by decide
  by_cases ends : first = 0
  · rw [if_pos ends] at rest ⊢
    obtain ⟨_, written, rest⟩ := bind_eq_ok rest
    obtain ⟨rfl, rfl⟩ := Prod.mk.inj (Except.ok.inj rest)
    obtain ⟨_, written', content⟩ := put_filled nameBuf some 0
    obtain rfl := Except.ok.inj (written.symm.trans written')
    obtain ⟨named', writes, content'⟩ := put_filled other some 0
    exact ⟨named', by rw [writes]; rfl, cString_of_filled content' content⟩
  · rw [if_neg ends] at rest ⊢
    obtain ⟨final, runs, finish⟩ := bind_eq_ok rest
    obtain ⟨buffer, runs', same⟩ :=
      @decodeLoop_alike _ _ ⟨position, 0, none, nameBuf⟩ _ runs other rfl
    rw [runs', ok_bind]
    dsimp only at finish ⊢
    by_cases root : final.tmpNameIndex = 0
    · rw [if_pos root] at finish
      cases finish
    rw [if_neg root] at finish ⊢
    obtain ⟨_, written, rest⟩ := bind_eq_ok finish
    obtain ⟨rfl, rfl⟩ := Prod.mk.inj (Except.ok.inj rest)
    have bound : final.tmpNameIndex - 1 < dnsMaxNameLen := by
      rw [put] at written
      split at written
      · assumption
      · cases written
    obtain ⟨_, written', content⟩ := put_filled final.nameBuf bound 0
    obtain rfl := Except.ok.inj (written.symm.trans written')
    obtain ⟨named', writes, content'⟩ := put_filled buffer bound 0
    refine ⟨named', by rw [writes]; rfl, cString_of_filled content' ?_⟩
    rw [content, ← take_filled _ (Nat.sub_le _ 1), ← take_filled _ (Nat.sub_le _ 1), same]

/-- A name for which there is room is stored. -/
theorem decodeName_fits (encodes : Encodes message position labels next) {first : Byte}
    (starts : message[position]? = some first) (notRoot : first ≠ 0) (empty : labels ≠ [])
    (fits : (dotted labels).length ≤ dnsMaxNameLen) (nameBuf : Vector Byte dnsMaxNameLen) :
    ∃ fuel named, (∀ more, decodeName (fuel + more) message position nameBuf = .ok (next, named)) ∧
      filled named (stored labels).length = stored labels := by
  obtain ⟨fuel, final, runs, named, -⟩ :=
    @Encodes.decodeLoop _ _ _ _ encodes ⟨position, 0, none, nameBuf⟩ rfl (Nat.zero_le _)
  dsimp only at named
  rw [Nat.zero_add] at named
  obtain ⟨index, content, behind⟩ := named fits
  have some : 0 < final.tmpNameIndex := by
    rw [index, ← length_joined empty]
    exact Nat.succ_pos _
  obtain ⟨kept, decodes, keeps⟩ := decodeName_eq starts notRoot some (index.trans_le fits)
  refine ⟨fuel, kept, fun more => ?_, ?_⟩
  · rw [decodes _ _ (runs more), behind]
    rfl
  · rw [length_stored empty, stored, joined, ← index, keeps, ← take_filled _ (Nat.sub_le _ 1),
      content, List.dropLast_eq_take, index]
    rfl

/-- A name for which there is no room is said to be too big. -/
theorem decodeName_tooBig (encodes : Encodes message position labels next) {first : Byte}
    (starts : message[position]? = some first) (notRoot : first ≠ 0)
    (long : dnsMaxNameLen < (dotted labels).length) (nameBuf : Vector Byte dnsMaxNameLen) :
    ∃ fuel behind named,
      (∀ more, decodeName (fuel + more) message position nameBuf = .ok (behind, named)) ∧
      filled named 9 = tooBig := by
  obtain ⟨fuel, final, runs, -, tooLong⟩ :=
    @Encodes.decodeLoop _ _ _ _ encodes ⟨position, 0, none, nameBuf⟩ rfl (Nat.zero_le _)
  dsimp only at tooLong
  rw [Nat.zero_add] at tooLong
  obtain ⟨index, content⟩ := tooLong long
  obtain ⟨kept, decodes, keeps⟩ :=
    decodeName_eq starts notRoot (by rw [index]; decide) (by rw [index]; decide)
  refine ⟨fuel, _, kept, fun more => decodes _ _ (runs more), ?_⟩
  rw [index, ← take_filled _ (Nat.sub_le 9 1), content] at keeps
  exact keeps

/-- A pointer to the root leaves no dot for the NUL to replace. -/
theorem decodeName_pointsRoot (encodes : Encodes message position [] next) {first : Byte}
    (starts : message[position]? = some first) (notRoot : first ≠ 0)
    (nameBuf : Vector Byte dnsMaxNameLen) :
    ∃ fuel, ∀ more, decodeName (fuel + more) message position nameBuf = .error .outside := by
  obtain ⟨fuel, final, runs, named, -⟩ :=
    @Encodes.decodeLoop _ _ _ _ encodes ⟨position, 0, none, nameBuf⟩ rfl (Nat.zero_le _)
  have index : final.tmpNameIndex = 0 := (named (show 0 + 0 ≤ dnsMaxNameLen by decide)).1
  refine ⟨fuel, fun more => ?_⟩
  rw [decodeName, byteAt_eq starts, ok_bind, if_neg notRoot, runs, ok_bind, if_pos index]

/-- What becomes of a name in a message. One for which there is room is stored, and the position
behind it is returned; one for which there is none is said to be too big; for a pointer to the root,
the byte in front of the buffer is written. -/
theorem decodeName_encoded (encodes : Encodes message position labels next)
    (nameBuf : Vector Byte dnsMaxNameLen) :
    (labels ≠ [] ∨ message[position]? = some 0 → (dotted labels).length ≤ dnsMaxNameLen →
      ∃ fuel named,
        (∀ more, decodeName (fuel + more) message position nameBuf = .ok (next, named)) ∧
        filled named (stored labels).length = stored labels) ∧
    (dnsMaxNameLen < (dotted labels).length →
      ∃ fuel behind named,
        (∀ more, decodeName (fuel + more) message position nameBuf = .ok (behind, named)) ∧
        filled named 9 = tooBig) ∧
    (labels = [] → message[position]? ≠ some 0 →
      ∃ fuel, ∀ more, decodeName (fuel + more) message position nameBuf = .error .outside) := by
  by_cases ends : message[position]? = some 0
  · obtain ⟨rfl, rfl⟩ := encodes.eq_nil ends
    obtain ⟨named, decodes, content⟩ := decodeName_root ends nameBuf
    exact ⟨fun _ _ => ⟨0, named, fun more => decodes _, content⟩,
      fun long => absurd long (by decide), fun _ other => absurd ends other⟩
  obtain ⟨first, starts⟩ := encodes.starts
  have notRoot : first ≠ 0 := by
    rintro rfl
    exact ends starts
  refine ⟨fun either fits => ?_, fun long => decodeName_tooBig encodes starts notRoot long nameBuf,
    fun none _ => ?_⟩
  · exact decodeName_fits encodes starts notRoot (either.resolve_right ends) fits nameBuf
  · subst none
    exact decodeName_pointsRoot encodes starts notRoot nameBuf

/-- A label, and a pointer to another one. -/
theorem encodes_pointer : Encodes [1, 97, 0, 1, 98, 192, 0] 3 [[98], [97]] 7 := by
  have target : Encodes [1, 97, 0, 1, 98, 192, 0] 0 [[97]] 3 :=
    @Encodes.label _ 0 3 1 [97] [] rfl (by decide) (by decide) rfl (@Encodes.root _ 2 rfl)
  exact @Encodes.label _ 3 7 1 [98] [[97]] rfl (by decide) (by decide) rfl
    (@Encodes.pointer _ 5 3 192 0 [[97]] rfl (by decide) rfl target)

theorem decodeName_encoded_pointer : ∃ fuel named,
    (∀ more, decodeName (fuel + more) [1, 97, 0, 1, 98, 192, 0] 3 (.replicate _ 0) =
      .ok (7, named)) ∧ filled named 4 = [98, 46, 97, 0] :=
  (decodeName_encoded encodes_pointer (.replicate _ 0)).1 (.inl (List.cons_ne_nil _ _)) (by decide)

/-- What is accepted is a name: whatever the message holds, a decoder that returns has either found
no room for a name, or it has stored the name that is there and returned the position behind it. -/
theorem encodes_of_decodeName {fuel : Nat} {nameBuf named : Vector Byte dnsMaxNameLen}
    (decodes : decodeName fuel message position nameBuf = .ok (next, named)) :
    filled named 9 = tooBig ∨ ∃ labels, Encodes message position labels next ∧
      (dotted labels).length ≤ dnsMaxNameLen ∧
      filled named (stored labels).length = stored labels := by
  obtain ⟨first, reads, rest⟩ := bind_eq_ok decodes
  have starts := of_byteAt reads
  by_cases ends : first = 0
  · rw [ends] at starts
    obtain ⟨kept, stores, content⟩ := decodeName_root starts nameBuf
    obtain ⟨rfl, rfl⟩ := Prod.mk.inj (Except.ok.inj ((stores fuel).symm.trans decodes))
    exact .inr ⟨[], .root starts, by decide, content⟩
  rw [if_neg ends] at rest
  obtain ⟨final, runs, -⟩ := bind_eq_ok rest
  rcases encodes_of_decodeLoop runs (Nat.zero_le _) with
    ⟨labels, behind, encodes, fits⟩ | ⟨index, content⟩
  · have fits : 0 + (dotted labels).length ≤ dnsMaxNameLen := fits
    rw [Nat.zero_add] at fits
    -- the rounds that were enough here and those that the name takes are enough together
    by_cases empty : labels = []
    · subst empty
      obtain ⟨enough, fails⟩ := decodeName_pointsRoot encodes starts ends nameBuf
      have both := decodeName_more decodes enough
      rw [Nat.add_comm, fails] at both
      cases both
    · obtain ⟨enough, kept, stores, content⟩ :=
        decodeName_fits encodes starts ends empty fits nameBuf
      have both := decodeName_more decodes enough
      rw [Nat.add_comm, stores] at both
      obtain ⟨rfl, rfl⟩ := Prod.mk.inj (Except.ok.inj both)
      exact .inr ⟨labels, encodes, fits, content⟩
  · obtain ⟨kept, stores, keeps⟩ :=
      decodeName_eq starts ends (by rw [index]; decide) (by rw [index]; decide)
    obtain ⟨rfl, rfl⟩ := Prod.mk.inj (Except.ok.inj ((stores _ _ runs).symm.trans decodes))
    rw [index, ← take_filled _ (Nat.sub_le 9 1), content] at keeps
    exact .inl keeps

theorem encodes_of_decodeName_pointer : ∃ fuel named,
    decodeName fuel [1, 97, 0, 1, 98, 192, 0] 3 (.replicate _ 0) = .ok (7, named) ∧
      (filled named 9 = tooBig ∨ ∃ labels, Encodes [1, 97, 0, 1, 98, 192, 0] 3 labels 7 ∧
        (dotted labels).length ≤ dnsMaxNameLen ∧
        filled named (stored labels).length = stored labels) := by
  obtain ⟨fuel, named, decodes, -⟩ := decodeName_fits encodes_pointer rfl (by decide)
    (List.cons_ne_nil _ _) (by decide) (.replicate _ 0)
  exact ⟨fuel + 0, named, decodes 0, encodes_of_decodeName (decodes 0)⟩

/-- Pointers that lead to each other are followed for ever. -/
theorem decodeName_cycle {cycle : Set Nat} (closed : ∀ position ∈ cycle, ∃ high low : Byte,
      message[position]? = some high ∧ 191 < high.toNat ∧ message[position + 1]? = some low ∧
        high.toNat % 64 * 256 + low.toNat ∈ cycle)
    (inCycle : position ∈ cycle) (fuel : Nat) (nameBuf : Vector Byte dnsMaxNameLen) :
    decodeName fuel message position nameBuf = .error .failed := by
  have loops (st : NameLocals) (inCycle : st.current ∈ cycle) :
      Dns.decodeLoop message fuel st = .error .failed := by
    induction fuel generalizing st with
    | zero => rfl
    | succ fuel inductionHypothesis =>
      obtain ⟨high, low, starts, points, ends, target⟩ := closed _ inCycle
      rw [decodeLoop_pointer starts points ends]
      exact inductionHypothesis _ target
  obtain ⟨high, -, starts, points, -⟩ := closed position inCycle
  rw [decodeName, byteAt_eq starts, ok_bind, if_neg (ne_zero_of_lt points),
    loops ⟨position, 0, none, nameBuf⟩ inCycle]
  rfl

theorem decodeName_cycle_two :
    decodeName 1000 [192, 2, 192, 0] 0 (.replicate _ 0) = .error .failed := by
  refine @decodeName_cycle [192, 2, 192, 0] 0 {0, 2} ?_ (.inl rfl) 1000 _
  rintro position (rfl | rfl)
  · exact ⟨192, 2, rfl, by decide, rfl, .inr rfl⟩
  · exact ⟨192, 0, rfl, by decide, rfl, .inl rfl⟩

end Decode

/-! ### The question -/

section Question

variable {labels : List Text} {st : QuestionLocals}

/-- A value that is put behind the first cells. -/
theorem put_hole {size : Nat} {buffer : Vector Byte size} {used : Nat} {front back : Text}
    {old : Byte} (parts : filled buffer used = front ++ old :: back) (value : Byte) :
    ∃ next, put buffer front.length value = .ok next ∧
      filled next used = front ++ value :: back := by
  have inside : front.length < size := by
    have length := congrArg List.length parts
    rw [filled, List.length_take, Vector.length_toList, List.length_append, List.length_cons]
      at length
    omega
  refine ⟨buffer.set front.length value, by rw [put, dif_pos inside], ?_⟩
  rw [filled, Vector.toList_set, List.take_set, ← filled, parts,
    List.set_append_right _ _ le_rfl, Nat.sub_self, List.set_cons_zero]

theorem questionLoop_label {label : Text} (plain : 46 ∉ label) (rest : Text)
    (fits : st.target + label.length ≤ dataLen) :
    ∃ data, questionLoop (label ++ rest) st = questionLoop rest
        ⟨data, st.sublen + UInt8.ofNat label.length, st.lenByte, st.target + label.length⟩ ∧
      filled data (st.target + label.length) = filled st.data st.target ++ label := by
  induction label generalizing st with
  | nil =>
    exact ⟨st.data, by simp, (List.append_nil _).symm⟩
  | cons c label inductionHypothesis =>
    rw [List.length_cons] at fits
    have other : c ≠ 46 := Ne.symm (List.ne_of_not_mem_cons plain)
    obtain ⟨data, written, content⟩ :=
      put_filled st.data (show st.target < dataLen by omega) c
    obtain ⟨data', loops, content'⟩ :=
      @inductionHypothesis ⟨data, st.sublen + 1, st.lenByte, st.target + 1⟩
          (List.not_mem_of_not_mem_cons plain)
        (show st.target + 1 + label.length ≤ dataLen by omega)
    dsimp only at loops content'
    have length : st.target + 1 + label.length = st.target + (label.length + 1) := by omega
    rw [length] at loops content'
    refine ⟨data', ?_, ?_⟩
    · rw [List.cons_append, questionLoop, if_neg other, written, ok_bind, loops,
        List.length_cons, UInt8.add_assoc, UInt8.add_comm 1, UInt8.ofNat_add]
      rfl
    · rw [List.length_cons, content', content, List.append_assoc]
      rfl

/-- The name that starts with a label, with its last dot. -/
theorem dotted_cons (label : Text) (labels : List Text) :
    dotted (label :: labels) = label ++ labels.flatMap (46 :: ·) ++ [46] := by
  induction labels generalizing label with
  | nil => rw [dotted, List.flatMap_singleton, List.flatMap_nil, List.append_nil]
  | cons second labels inductionHypothesis =>
    have tail := inductionHypothesis second
    rw [dotted] at tail ⊢
    rw [List.flatMap_cons, tail, List.flatMap_cons]
    simp only [List.append_assoc, List.cons_append, List.nil_append]

theorem joined_cons (label : Text) (labels : List Text) :
    joined (label :: labels) = label ++ labels.flatMap (46 :: ·) := by
  rw [joined, dotted_cons, List.dropLast_concat]

theorem wire_cons (label : Text) (labels : List Text) :
    wire (label :: labels) = UInt8.ofNat label.length :: (label ++ wire labels) := rfl

theorem length_wire_cons (label : Text) (labels : List Text) :
    (wire (label :: labels)).length = label.length + (wire labels).length + 1 := by
  rw [wire_cons, List.length_cons, List.length_append]

theorem length_wire (labels : List Text) : (wire labels).length = (dotted labels).length := by
  induction labels with
  | nil => rfl
  | cons label labels inductionHypothesis =>
    rw [length_wire_cons, length_dotted_cons, inductionHypothesis]
    omega

/-- The loop over a name leaves the labels in the data, but for the length of the last one. -/
theorem questionLoop_spec {first : Text} {others : List Text} {front : Text} {old : Byte}
    (plain : ∀ label ∈ first :: others, 46 ∉ label)
    (fits : front.length + (wire (first :: others)).length ≤ dataLen)
    (here : st.lenByte = front.length) (behind : st.target = front.length + 1)
    (none : st.sublen = 0) (content : filled st.data st.target = front ++ [old]) :
    ∃ final data, questionLoop (first ++ others.flatMap (46 :: ·)) st = .ok final ∧
      put final.data final.lenByte final.sublen = .ok data ∧
      final.target = front.length + (wire (first :: others)).length ∧
      filled data final.target = front ++ wire (first :: others) := by
  have bound := fits
  rw [length_wire_cons] at bound
  induction others generalizing first front old st with
  | nil =>
    obtain ⟨data, loops, copied⟩ := questionLoop_label (plain first List.mem_cons_self) []
      (show st.target + first.length ≤ dataLen by omega)
    rw [none, UInt8.zero_add, here] at loops
    rw [content, List.append_assoc] at copied
    obtain ⟨data', written, hole⟩ := put_hole copied (UInt8.ofNat first.length)
    have length : st.target + first.length = front.length + (wire [first]).length := by
      rw [length_wire_cons, show wire [] = [] from rfl, List.length_nil]
      omega
    refine ⟨_, data', loops, written, length, hole.trans ?_⟩
    rw [wire_cons, show wire [] = [] from rfl, List.append_nil]
    rfl
  | cons second others inductionHypothesis =>
    have rest := length_wire_cons second others
    obtain ⟨data, loops, copied⟩ := questionLoop_label (plain first List.mem_cons_self)
      ((second :: others).flatMap (46 :: ·)) (show st.target + first.length ≤ dataLen by omega)
    rw [none, UInt8.zero_add, here] at loops
    rw [content, List.append_assoc] at copied
    -- the dot gives the label its length, and the next label leaves room for its own
    obtain ⟨data', written, hole⟩ := put_hole copied (UInt8.ofNat first.length)
    have length : (front ++ UInt8.ofNat first.length :: first).length =
        st.target + first.length := by
      rw [List.length_append, List.length_cons]
      omega
    have step : questionLoop (first ++ (second :: others).flatMap (46 :: ·)) st =
        questionLoop (second ++ others.flatMap (46 :: ·))
          ⟨data', 0, st.target + first.length, st.target + first.length + 1⟩ := by
      rw [loops, List.flatMap_cons, List.cons_append, questionLoop, if_pos rfl]
      dsimp only
      rw [written]
      rfl
    have room : st.target + first.length < dataLen := by omega
    have next : filled data' (st.target + first.length + 1) =
        front ++ UInt8.ofNat first.length :: first ++ [data'[st.target + first.length]] := by
      rw [filled_succ data' room, hole]
      rfl
    obtain ⟨final, data'', loops', written', target, content'⟩ := @inductionHypothesis
      ⟨data', 0, st.target + first.length, st.target + first.length + 1⟩ _ _ _
      (fun label member => plain label (List.mem_cons_of_mem _ member))
      (by omega) length.symm (congrArg (· + 1) length.symm) rfl next (by omega)
    refine ⟨final, data'', step.trans loops', written', ?_, ?_⟩
    · rw [target, length, length_wire_cons first]
      omega
    · rw [content', wire_cons first, List.append_assoc]
      rfl

/-- A name in a message is encoded there. -/
theorem encodes_wire (front back : Text)
    (sized : ∀ label ∈ labels, label ≠ [] ∧ label.length ≤ 191) :
    Encodes (front ++ (wire labels ++ 0 :: back)) front.length labels
      (front.length + (wire labels).length + 1) := by
  induction labels generalizing front with
  | nil =>
    exact .root (by rw [List.getElem?_append_right le_rfl, Nat.sub_self]; rfl)
  | cons label labels inductionHypothesis =>
    obtain ⟨some, short⟩ := sized label List.mem_cons_self
    have length : (UInt8.ofNat label.length).toNat = label.length := by
      rw [UInt8.toNat_ofNat']
      exact Nat.mod_eq_of_lt (by omega)
    have rest := inductionHypothesis (front ++ UInt8.ofNat label.length :: label)
      fun other member => sized other (List.mem_cons_of_mem _ member)
    have message : front ++ UInt8.ofNat label.length :: label ++ (wire labels ++ 0 :: back) =
        front ++ (wire (label :: labels) ++ 0 :: back) := by
      rw [wire_cons]
      simp only [List.append_assoc, List.cons_append]
    have before : (front ++ UInt8.ofNat label.length :: label).length =
        front.length + 1 + label.length := by
      rw [List.length_append, List.length_cons, Nat.add_assoc, Nat.add_comm 1]
    rw [message, before] at rest
    have behind : front.length + (wire (label :: labels)).length + 1 =
        front.length + 1 + label.length + (wire labels).length + 1 := by
      rw [length_wire_cons]
      omega
    rw [behind]
    refine .label ?_ (by rw [length]; exact List.length_pos_iff.mpr some)
      (length.trans_le short) ?_ (by rwa [length])
    · rw [List.getElem?_append_right le_rfl, Nat.sub_self]
      rfl
    · have split : front ++ (wire (label :: labels) ++ 0 :: back) =
          front ++ [UInt8.ofNat label.length] ++ (label ++ (wire labels ++ 0 :: back)) := by
        rw [wire_cons]
        simp only [List.append_assoc, List.cons_append, List.nil_append]
      have here : (front ++ [UInt8.ofNat label.length]).length = front.length + 1 :=
        List.length_append
      rw [length, split, load_eq (by rw [List.length_append, here, List.length_append]; omega),
        List.drop_left' here, List.take_left]

/-- What `sendRequest` writes behind the header. -/
theorem encodeQuestion_spec (some : labels ≠ []) (plain : ∀ label ∈ labels, 46 ∉ label)
    (fits : (joined labels).length < dnsMaxNameLen) (data : Vector Byte dataLen) :
    ∃ data', encodeQuestion (joined labels) data =
        .ok (data', 12 + (joined labels).length + 2 + 4) ∧
      filled data' ((joined labels).length + 2 + 4) = wire labels ++ [0, 0, 1, 0, 1] := by
  have length := length_joined some
  have wireLength := length_wire labels
  unfold dnsMaxNameLen at fits
  obtain ⟨first, others, rfl⟩ := List.exists_cons_of_ne_nil some
  have start : filled data 1 = [] ++ [data[0]] := filled_succ data (by decide)
  obtain ⟨final, asked, loops, written, target, content⟩ := @questionLoop_spec
    ⟨data, 0, 0, 1⟩ first others [] _ plain (by rw [List.length_nil]; unfold dataLen; omega)
    rfl rfl rfl start
  rw [List.length_nil, Nat.zero_add, wireLength, ← length] at target
  rw [← joined_cons] at loops
  obtain ⟨data', copies, content'⟩ := @copy_filled _ _ asked final.target [0, 0, 1, 0, 1]
    (by rw [target]; unfold dataLen; simp only [List.length_cons, List.length_nil]; omega)
  rw [content, target] at content'
  refine ⟨data', ?_, content'⟩
  rw [encodeQuestion, loops, ok_bind, written, ok_bind, copies, ok_bind,
    Nat.mod_eq_of_lt (by omega)]
  rfl

/-- The name that is asked for is the name in the question: what `sendRequest` sends is decoded to
the name it was given, behind any header. -/
theorem encodeQuestion_decodes {header : Text} (behind : header.length = 12)
    (some : labels ≠ []) (sized : ∀ label ∈ labels, label ≠ [] ∧ label.length ≤ 191)
    (plain : ∀ label ∈ labels, 46 ∉ label) (fits : (joined labels).length < dnsMaxNameLen)
    (data : Vector Byte dataLen) (nameBuf : Vector Byte dnsMaxNameLen) :
    ∃ data', encodeQuestion (joined labels) data =
        .ok (data', header.length + (joined labels).length + 2 + 4) ∧
      ∃ fuel named, (∀ more, decodeName (fuel + more)
        (header ++ filled data' ((joined labels).length + 2 + 4)) header.length nameBuf =
          .ok (header.length + (joined labels).length + 2, named)) ∧
        filled named ((joined labels).length + 1) = joined labels ++ [0] := by
  obtain ⟨data', asks, content⟩ := encodeQuestion_spec some plain fits data
  refine ⟨data', by rw [asks, behind], ?_⟩
  have length := length_joined some
  have encodes := @encodes_wire labels header [0, 1, 0, 1] sized
  obtain ⟨first, starts⟩ := encodes.starts
  have notRoot : first ≠ 0 := by
    rintro rfl
    exact some (encodes.eq_nil starts).1
  obtain ⟨fuel, named, decodes, stores⟩ := decodeName_fits encodes starts notRoot some
    (length.symm.trans_le fits) nameBuf
  rw [length_wire, ← length] at decodes
  rw [length_stored some, ← length] at stores
  rw [content]
  exact ⟨fuel, named, decodes, stores⟩

theorem encodeQuestion_decodes_ab : ∃ data', encodeQuestion [97, 46, 98] (.replicate _ 0) =
      .ok (data', 21) ∧
    ∃ fuel named, (∀ more, decodeName (fuel + more)
      (.replicate 12 0 ++ filled data' 9) 12 (.replicate _ 0) = .ok (17, named)) ∧
      filled named 4 = [97, 46, 98, 0] :=
  @encodeQuestion_decodes [[97], [98]] (.replicate 12 0) rfl (List.cons_ne_nil _ _) (by decide)
    (by decide) (by decide) (.replicate _ 0) (.replicate _ 0)

end Question

end Nosgem.Dns
