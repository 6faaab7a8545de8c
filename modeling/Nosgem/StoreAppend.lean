/-
This file settles whether accepting a new host preserves the store. The record
of a new host is appended to the file as it stands, and a file that has been
edited by hand may end in the middle of a line. The reader then sees the end of
the old text and the record in one piece, and takes the three words of an entry
from both. Where the words of that piece come from is decided by where the old
text ends among them: in front of the first word the record reads back, and
behind it the third word would have to be a fingerprint, which the record has
room for in one place only, at the start of its own key.
-/

import Nosgem.Records

namespace Nosgem

open CText Interaction

/-! ### The end of a store -/

/-- What stands behind the last complete piece of a store: an empty text when the last line has its
newline or the last piece fills the buffer. -/
def unfinished (store : Option Text) : Text :=
  match (storePieces store).getLast? with
  | none => []
  | some line => if line.length + 1 = lineSize ∨ line.getLast? = some lf then [] else line

/-- A store is its complete pieces and an unfinished line that leaves room in its buffer. -/
theorem unfinished_split (store : Option Text) :
    ∃ lines, store.getD [] = lines.flatten ++ unfinished store ∧
      (∀ line ∈ lines, Complete lineSize line) ∧ lf ∉ unfinished store ∧
      (unfinished store).length + 1 < lineSize ∧
      storePieces store = lines ++ if unfinished store = [] then [] else [unfinished store] := by
  have front : storePieces store = pieces lineSize (store.getD []) := by
    cases store <;> rfl
  obtain ⟨lines, rest, stream, complete, noLf, short, cut⟩ :=
    pieces_cut lineSize_room (store.getD [])
  suffices unfinished store = rest by
    rw [this]
    exact ⟨lines, stream, complete, noLf, short, front.trans cut⟩
  rw [unfinished, front, cut]
  by_cases ended : rest = []
  · rw [if_pos ended, List.append_nil, ended]
    cases last : lines.getLast? with
    | none => rfl
    | some line =>
      refine if_pos ?_
      rcases (complete line (List.mem_of_getLast? last)).stops with ⟨-, full⟩ | ⟨front, rfl, -⟩
      · exact .inl full
      · exact .inr (by simp)
  · rw [if_neg ended, List.getLast?_concat]
    refine if_neg (not_or.mpr ⟨by omega, fun last => noLf (List.mem_of_getLast? last)⟩)

/-! ### The words of an entry -/

theorem scanKnownHost_eq_some {line : Text} {known : KnownHost} :
    scanKnownHost line = some known ↔ ∃ first second third, Scans 255 line known.hostport first ∧
      Scans 31 first known.algo second ∧ Scans 127 second known.fp third := by
  constructor
  · intro scanned
    unfold scanKnownHost at scanned
    split at scanned
    · cases scanned
    rename_i hostport first scannedHost
    split at scanned
    · cases scanned
    rename_i algo second scannedAlgo
    split at scanned
    · cases scanned
    rename_i fp third scannedPrint
    cases scanned
    exact ⟨first, second, third, scans_of_scanWord (by decide) scannedHost,
      scans_of_scanWord (by decide) scannedAlgo, scans_of_scanWord (by decide) scannedPrint⟩
  · rintro ⟨first, second, third, host, algo, print⟩
    simp only [scanKnownHost, host.scanWord, algo.scanWord, print.scanWord]

/-- The words of an entry are in its line. -/
theorem ink_of_scanKnownHost {line : Text} {known : KnownHost}
    (scanned : scanKnownHost line = some known) :
    known.hostport.length + known.algo.length + known.fp.length ≤ ink line := by
  obtain ⟨first, second, third, host, algo, print⟩ := scanKnownHost_eq_some.mp scanned
  have inLine := host.ink
  have inFirst := algo.ink
  have inSecond := print.ink
  omega

/-- A word that ends at white space, and the word behind it: what stands in front of the second
one. -/
theorem second_word {width other : Nat} {s word rest next last : Text}
    (scans : Scans width s word rest) (short : word.length < width)
    (behind : Scans other rest next last) :
    ∃ front, s = front ++ (next ++ last) ∧ (∃ c ∈ front, isSpace c) ∧ ink front = word.length := by
  obtain ⟨leading, white, rfl⟩ := scans.split
  obtain ⟨blanks, blank, rfl⟩ := behind.split
  refine ⟨leading ++ (word ++ blanks), by simp only [List.append_assoc], ?_, ?_⟩
  · have ends := scans.ends.resolve_left (Nat.ne_of_lt short)
    cases blanks with
    | nil =>
      obtain ⟨c, tail, rfl⟩ := List.exists_cons_of_ne_nil behind.some
      have solid := behind.solid c List.mem_cons_self
      rw [ends c rfl] at solid
      cases solid
    | cons c blanks => exact ⟨c, by simp, blank c List.mem_cons_self⟩
  · rw [ink_append, ink_append, ink_of_blank white, ink_of_blank blank, ink_of_solid scans.solid]
    omega

section Record

variable {hostport fp : Text}

theorem ink_recordBody (writable : Writable hostport fp) :
    ink (recordBody hostport fp) = hostport.length + 6 + fp.length := by
  have word : ink (text " SHA256 ") = 6 := by decide
  rw [recordBody, ink_append, ink_append, ink_of_solid writable.key, ink_of_solid writable.print,
    word]
  omega

/-- A word as long as the fingerprint that stands behind white space in a start of a record is the
fingerprint. -/
theorem ink_before_print (writable : Writable hostport fp) (long : 7 ≤ fp.length)
    {front word behind : Text} (leads : front ++ (word ++ behind) <+: recordBody hostport fp)
    (white : ∃ c ∈ front, isSpace c) (solid : Solid word) (size : word.length = fp.length) :
    ink front = hostport.length + 6 := by
  obtain ⟨more, split⟩ : ∃ more, recordBody hostport fp = front ++ (word ++ more) := by
    obtain ⟨missing, whole⟩ := leads
    exact ⟨behind ++ missing, by rw [← whole]; simp only [List.append_assoc]⟩
  have body : recordBody hostport fp = hostport ++ 32 :: (text "SHA256" ++ 32 :: fp) := by
    simp [recordBody, text]
  have algo : (text "SHA256").length = 6 := by decide
  -- the white space in front of the word is behind the key
  obtain ⟨inside, rfl⟩ : ∃ inside, front = hostport ++ 32 :: inside := by
    obtain ⟨c, member, space⟩ := white
    rcases List.append_eq_append_iff.mp (body.symm.trans split) with
      ⟨inside, rfl, rest⟩ | ⟨inside, key, rest⟩
    · cases inside with
      | nil => exact absurd (writable.key c (by simpa using member)) (by simp [space])
      | cons d inside =>
        rw [List.cons_append, List.cons.injEq] at rest
        exact ⟨inside, by rw [← rest.1]⟩
    · exact absurd (writable.key c (key ▸ List.mem_append_left _ member)) (by simp [space])
  rw [body, List.append_assoc, List.append_cancel_left_eq, List.cons_append,
    List.cons.injEq] at split
  obtain ⟨-, split⟩ := split
  have lengths := congrArg List.length split
  simp only [List.length_append, List.length_cons, algo] at lengths
  have noBlank {tail : Text} (rest : word ++ more = tail ++ 32 :: fp)
      (inside : tail.length < word.length) : False := by
    rcases List.append_eq_append_iff.mp rest with ⟨gap, rfl, -⟩ | ⟨gap, rfl, blank⟩
    · rw [List.length_append] at inside
      omega
    · cases gap with
      | nil => simp at inside
      | cons c gap =>
        obtain ⟨rfl, -⟩ := List.cons.inj blank
        exact absurd (solid 32 (by simp)) (by decide)
  rcases List.append_eq_append_iff.mp split with ⟨tail, rfl, rest⟩ | ⟨tail, joined, rest⟩
  · cases tail with
    | nil => exact (@noBlank [] rest.symm (by simp only [List.length_nil]; omega)).elim
    | cons c tail =>
      obtain ⟨rfl, rest⟩ := List.cons.inj rest
      have whole := congrArg List.length rest
      simp only [List.length_append, List.length_cons, algo, size] at whole lengths
      obtain rfl : tail = [] := List.length_eq_zero_iff.mp (by omega)
      have blank : ink (32 :: text "SHA256" ++ [32]) = 6 := by decide
      rw [ink_append, ink_of_solid writable.key, ← List.cons_append, blank]
  · have part := congrArg List.length joined
    rw [List.length_append, algo] at part
    exact (noBlank rest (by omega)).elim

/-- A proper start of a record lacks some of its words. -/
theorem eq_recordBody_of_ink (writable : Writable hostport fp) {start : Text}
    (leads : start <+: recordBody hostport fp) (full : ink (recordBody hostport fp) ≤ ink start) :
    start = recordBody hostport fp := by
  obtain ⟨missing, split⟩ := leads
  cases missing using List.reverseRecOn with
  | nil => rw [← split, List.append_nil]
  | append_singleton missing c =>
    have last : c ∈ fp.getLast? := by
      have whole : (recordBody hostport fp).getLast? = some c := by
        rw [← split, ← List.append_assoc, List.getLast?_concat]
      rwa [recordBody, List.getLast?_append_of_ne_nil _ (by simp [writable.printSome]),
        List.getLast?_append_of_ne_nil _ writable.printSome] at whole
    have solid : Solid [c] := by simpa [Solid] using writable.print c (List.mem_of_getLast? last)
    rw [← split, ink_append, ink_append, ink_of_solid solid, List.length_singleton] at full
    omega

/-- A word at the start of a record that is not the key is a proper start of the key, and the record
stops behind it. -/
theorem word_of_key (writable : Writable hostport fp) {word rest : Text}
    (leads : word ++ rest <+: recordBody hostport fp) (solid : Solid word)
    (ends : ∀ c ∈ rest.head?, isSpace c) (notKey : word ≠ hostport) :
    rest = [] ∧ word <+: hostport := by
  obtain ⟨missing, split⟩ := leads
  rw [recordBody, List.append_assoc] at split
  rcases List.append_eq_append_iff.mp split with ⟨tail, key, joined⟩ | ⟨tail, rfl, joined⟩
  · refine ⟨?_, tail, key.symm⟩
    cases rest with
    | nil => rfl
    | cons c rest =>
      cases tail with
      | nil => exact absurd (by rw [key, List.append_nil]) notKey
      | cons d tail =>
        obtain ⟨rfl, -⟩ := List.cons.inj joined
        have space := ends c rfl
        rw [writable.key c (by simp [key])] at space
        cases space
  · cases tail with
    | nil => exact absurd (List.append_nil _) notKey
    | cons c tail =>
      have blank : c = 32 := (List.cons.inj joined).1.symm
      exact absurd (solid c (by simp)) (by rw [blank]; decide)

/-- A record starts with a solid byte. -/
theorem solid_head (writable : Writable hostport fp) {c : Byte} {tail : Text}
    (leads : c :: tail <+: recordBody hostport fp) : isSpace c = false := by
  obtain ⟨missing, split⟩ := leads
  obtain ⟨d, key, rfl⟩ := List.exists_cons_of_ne_nil writable.keySome
  obtain ⟨rfl, -⟩ := List.cons.inj split
  exact writable.key c List.mem_cons_self

/-- A fingerprint that is taken from the start of a record, and is not the key, is a start of the
key. -/
theorem print_of_key (writable : Writable hostport fp) (size : fp.length = 64)
    (notPrint : fold hostport ≠ fold fp) {start word rest : Text}
    (leads : start <+: recordBody hostport fp) (scans : Scans 127 start word rest)
    (print : fold word = fold fp) : start = word ∧ start <+: hostport := by
  have wordSize : word.length = 64 := by rw [← length_fold, print, length_fold, size]
  obtain ⟨leading, white, shape⟩ := scans.split
  obtain rfl : leading = [] := by
    cases leading with
    | nil => rfl
    | cons d leading =>
      have solid := solid_head writable (shape ▸ leads)
      rw [white d List.mem_cons_self] at solid
      cases solid
  rw [List.nil_append] at shape
  obtain ⟨rfl, inKey⟩ := word_of_key writable (shape ▸ leads) scans.solid
    (scans.ends.resolve_left (by omega)) fun equal => notPrint (by rw [← equal, print])
  rw [List.append_nil] at shape
  exact ⟨shape, shape ▸ inKey⟩

/-- Where the words of an entry for the key come from, when they are taken from the end of an old
text and from the start of the record: all from the record, all from the old text, or the key and
the algorithm from the old text and the fingerprint from the key of the record. -/
theorem splice (writable : Writable hostport fp) (size : fp.length = 64)
    (notPrint : fold hostport ≠ fold fp) {old start : Text} {known : KnownHost}
    (leads : start <+: recordBody hostport fp) (left : start ≠ [])
    (scanned : scanKnownHost (old ++ start) = some known)
    (host : fold known.hostport = fold hostport)
    (algo : fold known.algo = fold (text "SHA256")) (print : fold known.fp = fold fp) :
    ((∀ c ∈ old, isSpace c) ∧ start = recordBody hostport fp) ∨
      (∃ entry, scanKnownHost old = some entry ∧ entry.hostport = known.hostport) ∨
      ∃ rest blanks, Scans 255 old known.hostport rest ∧ Scans 31 rest known.algo blanks ∧
        blanks ≠ [] ∧ (∀ c ∈ blanks, isSpace c) ∧ start = known.fp ∧ start <+: hostport := by
  have hostSize : known.hostport.length = hostport.length := by
    rw [← length_fold known.hostport, host, length_fold]
  have algoSize : known.algo.length = 6 := by rw [← length_fold, algo]; decide
  have printSize : known.fp.length = 64 := by rw [← length_fold, print, length_fold, size]
  have keySize := List.length_pos_iff.mpr writable.keySome
  obtain ⟨first, second, third, takesHost, takesAlgo, takesPrint⟩ :=
    scanKnownHost_eq_some.mp scanned
  obtain ⟨c, tail, rfl⟩ := List.exists_cons_of_ne_nil left
  have solid := solid_head writable leads
  -- no start of the record has room for a part of the first two words and for all of the third
  have full {front : Text} (joined : c :: tail = front ++ (known.fp ++ third))
      (white : ∃ c ∈ front, isSpace c) : ink front = hostport.length + 6 :=
    ink_before_print writable (by omega) (joined ▸ leads) white takesPrint.solid (by omega)
  rcases takesHost.of_append rfl solid with
    ⟨blank, inStart⟩ | ⟨behindHost, inOld, -, rfl⟩ | ⟨front, back, inOld, short, inStart, joined⟩
  · -- the old text has no word
    refine .inl ⟨blank, eq_recordBody_of_ink writable leads ?_⟩
    have inks := inStart.ink
    have inFirst := takesAlgo.ink
    have inSecond := takesPrint.ink
    rw [ink_recordBody writable]
    omega
  · rcases takesAlgo.of_append rfl solid with
      ⟨-, inStart⟩ | ⟨blanks, inRest, ended, rfl⟩ | ⟨front, back, inRest, short, inStart, joined⟩
    · -- it has the key
      obtain ⟨before, shape, white, inks⟩ := second_word inStart (by omega) takesPrint
      have crowded := full shape white
      omega
    · have blanksLeft := ended.resolve_left (by omega)
      rcases takesPrint.of_append rfl solid with
        ⟨blank, inStart⟩ | ⟨behind, inBlanks, -, -⟩ | ⟨front, back, inBlanks, -, -, -⟩
      · -- it has the key and the algorithm
        obtain ⟨shape, inKey⟩ := print_of_key writable size notPrint leads inStart print
        exact .inr (.inr ⟨_, blanks, inOld, inRest, blanksLeft, blank, shape, inKey⟩)
      · exact .inr (.inl ⟨known, scanKnownHost_eq_some.mpr ⟨_, _, _, inOld, inRest, inBlanks⟩, rfl⟩)
      · exact .inr (.inl ⟨⟨known.hostport, known.algo, front⟩,
          scanKnownHost_eq_some.mpr ⟨_, _, _, inOld, inRest, inBlanks⟩, rfl⟩)
    · -- it ends in the algorithm
      obtain ⟨before, shape, white, inks⟩ := second_word inStart
        (by rw [joined, List.length_append] at algoSize; omega) takesPrint
      have crowded := full shape white
      rw [joined, List.length_append] at algoSize
      omega
  · -- it ends in the key
    obtain ⟨leading, blank, shape⟩ := inStart.split
    obtain ⟨before, behind, white, inks⟩ := second_word takesAlgo (by omega) takesPrint
    have someFront := List.length_pos_iff.mpr inOld.some
    obtain ⟨d, member, space⟩ := white
    rw [joined, List.length_append] at hostSize
    have joint : c :: tail = (leading ++ (back ++ before)) ++ (known.fp ++ third) := by
      rw [shape, behind]
      simp only [List.append_assoc]
    have crowded := full joint ⟨d, by simp [member], space⟩
    rw [ink_append, ink_append, ink_of_blank blank, ink_of_solid inStart.solid] at crowded
    omega

/-! ### The pieces behind an append -/

/-- The room the unfinished line of a store leaves in the buffer of the readers. -/
def joinRoom (store : Option Text) : Nat := lineSize - 1 - (unfinished store).length

/-- A record joins the unfinished line, as far as the buffer goes, and what the buffer does not hold
is a piece of its own. -/
theorem pieces_join (writable : Writable hostport fp) (store : Option Text) :
    pieces lineSize (unfinished store ++ recordText hostport fp) =
      (unfinished store ++ (recordText hostport fp).take (joinRoom store)) ::
        if (recordText hostport fp).drop (joinRoom store) = [] then []
        else [(recordText hostport fp).drop (joinRoom store)] := by
  obtain ⟨-, -, -, noLf, short, -⟩ := unfinished_split store
  have recordSize := writable.complete.short
  have room : (unfinished store).length + joinRoom store + 1 = lineSize := by
    unfold joinRoom
    omega
  by_cases fits : (recordText hostport fp).length ≤ joinRoom store
  · rw [List.take_of_length_le fits, List.drop_of_length_le fits, if_pos rfl]
    have whole : Complete lineSize (unfinished store ++ recordText hostport fp) := by
      refine ⟨by rw [List.length_append]; omega, .inr ⟨unfinished store ++ recordBody hostport fp,
        by rw [recordText_eq, List.append_assoc], ?_⟩⟩
      rw [List.mem_append, not_or]
      exact ⟨noLf, writable.noLf⟩
    simpa [pieces_nil] using pieces_append lineSize_room whole []
  · have missing : joinRoom store ≤ (recordBody hostport fp).length := by
      rw [recordText_eq, List.length_append, List.length_singleton] at fits
      omega
    have start : (recordText hostport fp).take (joinRoom store) =
        (recordBody hostport fp).take (joinRoom store) := by
      rw [recordText_eq, List.take_append_of_le_length missing]
    have rest : (recordText hostport fp).drop (joinRoom store) =
        (recordBody hostport fp).drop (joinRoom store) ++ [lf] := by
      rw [recordText_eq, List.drop_append_of_le_length missing]
    have size : ((recordBody hostport fp).take (joinRoom store)).length = joinRoom store := by
      rw [List.length_take, Nat.min_eq_left missing]
    have full : Complete lineSize
        (unfinished store ++ (recordText hostport fp).take (joinRoom store)) := by
      refine ⟨?_, .inl ⟨?_, ?_⟩⟩
      · rw [start, List.length_append, size]
        omega
      · rw [start, List.mem_append, not_or]
        exact ⟨noLf, fun member => writable.noLf (List.mem_of_mem_take member)⟩
      · rw [start, List.length_append, size]
        omega
    have last : Complete lineSize ((recordText hostport fp).drop (joinRoom store)) := by
      refine ⟨by rw [List.length_drop]; omega, .inr ⟨_, rest, fun member =>
        writable.noLf (List.mem_of_mem_drop member)⟩⟩
    rw [if_neg (last.ne_nil lineSize_room)]
    conv_lhs => rw [← List.take_append_drop (joinRoom store) (recordText hostport fp)]
    rw [← List.append_assoc, pieces_append lineSize_room full]
    congr 1
    simpa [pieces_nil] using pieces_append lineSize_room last []

/-- The readers see a record in one piece with the unfinished line, and in a second one. -/
theorem entries_join (writable : Writable hostport fp) (store : Option Text) :
    ∃ known, entries store = known ++ (entryOf (unfinished store)).toList ∧
      entries (some (store.getD [] ++ recordText hostport fp)) = known ++
        ((entryOf (unfinished store ++ (recordText hostport fp).take (joinRoom store))).toList ++
          (entryOf ((recordText hostport fp).drop (joinRoom store))).toList) := by
  obtain ⟨lines, stream, complete, -, -, cut⟩ := unfinished_split store
  have single (line : Text) : (if line = [] then [] else [line]).filterMap entryOf =
      (entryOf line).toList := by
    by_cases empty : line = []
    · subst empty
      rfl
    · rw [if_neg empty]
      cases entry : entryOf line <;> simp [entry]
  refine ⟨lines.filterMap entryOf, ?_, ?_⟩
  · rw [entries, cut, List.filterMap_append, single]
  · rw [entries, storePieces, stream, List.append_assoc,
      pieces_flatten_append lineSize_room complete, pieces_join writable, List.filterMap_append,
      List.filterMap_cons, single]
    cases entryOf (unfinished store ++ (recordText hostport fp).take (joinRoom store)) <;> rfl

/-! ### What an append records -/

/-- A new host has been recorded: it is looked up with its fingerprint, and every other key as
before. -/
def Recorded (before after : Option Text) (hostport fp : Text) : Prop :=
  Carries after hostport fp ∧
    ∀ other, fold other ≠ fold hostport → lookup after other = lookup before other

/-- Entries behind the old ones record a host when the first of them is for it and the others are
for keys that have an entry already. -/
theorem recorded_of_entries {before after : Option Text} {entry : KnownHost}
    {more : List KnownHost} (joined : entries after = entries before ++ entry :: more)
    (absent : lookup before hostport = none) (host : fold entry.hostport = fold hostport)
    (algo : fold entry.algo = fold (text "SHA256")) (print : fold entry.fp = fold fp)
    (shadowed : ∀ other ∈ more, (lookup before other.hostport).isSome) :
    Recorded before after hostport fp := by
  refine ⟨(carries_iff _ _ _).mpr ⟨entry, ?_, algo, print⟩, fun other different => ?_⟩
  · rw [lookup, joined, List.find?_append]
    rw [lookup] at absent
    rw [absent, Option.none_or, List.find?_cons_of_pos]
    exact (strIEq_iff _ _).mpr host
  · rw [lookup, joined, List.find?_append, List.find?_cons_of_neg]
    · cases found : lookup before other with
      | some known =>
        rw [lookup] at found
        rw [found, Option.some_or]
      | none =>
        have silent : more.find? (fun known => strIEq known.hostport other) = none := by
          rw [List.find?_eq_none]
          intro known member same
          have present := shadowed known member
          rw [lookup_eq_of_fold ((strIEq_iff _ _).mp same), found] at present
          cases present
        rw [lookup] at found
        rw [found, Option.none_or, silent]
    · rw [strIEq_iff, host]
      exact different.symm

/-- The reader takes the start of a key for its fingerprint: the unfinished line is the key and the
algorithm, the room behind it is that of a fingerprint, and the rest of the key, which starts the
next piece, is a comment or has an entry already. -/
structure TakenForPrint (store : Option Text) (hostport fp : Text) : Prop where
  words : ∃ first rest second blanks, scanWord 255 (unfinished store) = some (first, rest) ∧
    scanWord 31 rest = some (second, blanks) ∧ blanks ≠ [] ∧ (∀ c ∈ blanks, isSpace c) ∧
    fold first = fold hostport ∧ fold second = fold (text "SHA256")
  room : joinRoom store = 64
  print : fold (hostport.take 64) = fold fp
  shadowed : (hostport.drop 64).head? = some hash ∨ (lookup store (hostport.drop 64)).isSome

theorem scanKnownHost_of_blank {line : Text} (blank : ∀ c ∈ line, isSpace c) :
    scanKnownHost line = none := by
  rw [scanKnownHost, scanWord_eq_none.mpr blank]

/-- What an append adds to the unfinished line is a start of the record, and maybe its LF. -/
theorem take_recordText (room : Nat) : ∃ ending, (∀ c ∈ ending, isSpace c) ∧
    (recordText hostport fp).take room = (recordBody hostport fp).take room ++ ending := by
  rw [recordText_eq, List.take_append]
  refine ⟨_, fun c member => ?_, rfl⟩
  obtain rfl := List.mem_singleton.mp (List.mem_of_mem_take member)
  rfl

/-- The piece behind the unfinished line has too few words for an entry that carries the record. -/
theorem drop_silent (writable : Writable hostport fp) {room : Nat} (positive : 0 < room)
    {entry : KnownHost} (read : scanKnownHost ((recordText hostport fp).drop room) = some entry)
    (host : fold entry.hostport = fold hostport)
    (algo : fold entry.algo = fold (text "SHA256")) (print : fold entry.fp = fold fp) : False := by
  have inks := ink_of_scanKnownHost read
  have hostSize := congrArg List.length host
  have algoSize := congrArg List.length algo
  have printSize := congrArg List.length print
  have word : (text "SHA256").length = 6 := by decide
  rw [length_fold, length_fold] at hostSize algoSize printSize
  have whole : ink ((recordText hostport fp).take room) + ink ((recordText hostport fp).drop room) =
      hostport.length + 6 + fp.length := by
    rw [← ink_append, List.take_append_drop, recordText_eq, ink_append, ink_recordBody writable]
    rfl
  have start : 0 < ink ((recordText hostport fp).take room) := by
    obtain ⟨c, key, rfl⟩ := List.exists_cons_of_ne_nil writable.keySome
    obtain ⟨less, rfl⟩ := Nat.exists_eq_succ_of_ne_zero (Nat.ne_of_gt positive)
    have solid := writable.key c List.mem_cons_self
    simp [recordText, ink, solid]
  omega

variable {store : Option Text}

theorem unfinished_nulFree (nulFree : 0 ∉ store.getD []) : 0 ∉ unfinished store := by
  obtain ⟨lines, stream, -⟩ := unfinished_split store
  exact fun member => nulFree (stream ▸ List.mem_append_right _ member)

theorem nulFree_recordText (writable : Writable hostport fp) : 0 ∉ recordText hostport fp := by
  rw [recordText_eq, List.mem_append, not_or]
  exact ⟨writable.nulFree, by decide⟩

theorem joinRoom_pos (store : Option Text) : 0 < joinRoom store := by
  obtain ⟨-, -, -, -, short, -⟩ := unfinished_split store
  rw [joinRoom]
  omega

/-- Where the record fits behind white space it reads back. -/
theorem recorded_of_blank (writable : Writable hostport fp)
    (noComment : hostport.head? ≠ some hash) (nulFree : 0 ∉ store.getD [])
    (absent : lookup store hostport = none) (blank : ∀ c ∈ unfinished store, isSpace c)
    (fits : (recordBody hostport fp).length ≤ joinRoom store) :
    Recorded store (some (store.getD [] ++ recordText hostport fp)) hostport fp := by
  obtain ⟨known, before, after⟩ := entries_join writable store
  obtain ⟨ending, white, start⟩ := @take_recordText hostport fp (joinRoom store)
  have old : entryOf (unfinished store) = none := by
    rw [entryOf_eq (unfinished_nulFree nulFree), scanKnownHost_of_blank blank, ite_self]
  have rest : entryOf ((recordText hostport fp).drop (joinRoom store)) = none := by
    have small : ∀ c ∈ (recordText hostport fp).drop (joinRoom store), isSpace c := by
      rw [recordText_eq, List.drop_append, List.drop_of_length_le fits, List.nil_append]
      intro c member
      obtain rfl := List.mem_singleton.mp (List.mem_of_mem_drop member)
      rfl
    rw [entryOf_eq fun member => nulFree_recordText writable (List.mem_of_mem_drop member),
      scanKnownHost_of_blank small, ite_self]
  have notComment : (unfinished store ++ hostport).head? ≠ some hash := by
    cases line : unfinished store with
    | nil => exact noComment
    | cons c more =>
      have space := blank c (by rw [line]; exact List.mem_cons_self)
      rintro equal
      obtain rfl := Option.some.inj equal
      cases space
  rw [start, List.take_of_length_le fits, ← List.append_assoc (unfinished store),
    writable.entryOf blank white,
    if_neg notComment, rest] at after
  rw [old, Option.toList_none, List.append_nil] at before
  exact recorded_of_entries (by rw [after, before]; rfl) absent rfl rfl rfl (by simp)

theorem lt_length_of_take (notPrint : fold hostport ≠ fold fp) (long : 64 ≤ hostport.length)
    (start : fold (hostport.take 64) = fold fp) : 64 < hostport.length := by
  refine lt_of_le_of_ne long fun equal => notPrint ?_
  rwa [List.take_of_length_le (Nat.le_of_eq equal.symm)] at start

/-- The rest of a key reads back with its fingerprint, like a key of its own. -/
theorem Writable.rest_key (writable : Writable hostport fp) (long : 64 < hostport.length) :
    Nosgem.entryOf (recordText (hostport.drop 64) fp) =
      if (hostport.drop 64).head? = some hash then none
      else some ⟨hostport.drop 64, text "SHA256", fp⟩ := by
  have fits := writable.keyFits
  refine Writable.entryOf_recordText ⟨fun c member => writable.key c (List.mem_of_mem_drop member),
    List.ne_nil_of_length_pos (by rw [List.length_drop]; omega), by rw [List.length_drop]; omega,
    fun member => writable.keyEnds (List.mem_of_mem_drop member), writable.print,
    writable.printSome, writable.printFits, writable.printEnds⟩

theorem take_recordText_key {count : Nat} (inside : count ≤ hostport.length) :
    (recordText hostport fp).take count = hostport.take count := by
  rw [recordText, List.append_assoc, List.append_assoc, List.take_append_of_le_length inside]

/-- A record without the start of its key is the record of the rest of the key. -/
theorem drop_recordText_key {count : Nat} (inside : count ≤ hostport.length) :
    (recordText hostport fp).drop count = recordText (hostport.drop count) fp := by
  rw [recordText, List.append_assoc, List.append_assoc, List.drop_append_of_le_length inside,
    recordText, List.append_assoc, List.append_assoc]

/-- A line whose first word is the key is no comment when the key does not start like one. -/
theorem noHash_of_scans {width : Nat} {s word rest : Text} (scans : Scans width s word rest)
    (same : fold word = fold hostport) (noComment : hostport.head? ≠ some hash) :
    s.head? ≠ some hash := by
  obtain ⟨leading, white, rfl⟩ := scans.split
  obtain ⟨c, word, rfl⟩ := List.exists_cons_of_ne_nil scans.some
  intro head
  cases leading with
  | nil =>
    obtain rfl := Option.some.inj head
    cases hostport with
    | nil => cases same
    | cons d key =>
      rw [fold_cons, fold_cons, List.cons.injEq] at same
      exact noComment (congrArg some (eq_of_toLower (by decide) same.1.symm))
  | cons d leading =>
    obtain rfl := Option.some.inj head
    exact absurd (white hash List.mem_cons_self) (by decide)

/-- Where the key and the algorithm of an unfinished line are followed by the start of the key, the
record is read from both. -/
theorem recorded_of_takenForPrint (writable : Writable hostport fp)
    (print : fp.length = 64) (notPrint : fold hostport ≠ fold fp)
    (noComment : hostport.head? ≠ some hash) (nulFree : 0 ∉ store.getD [])
    (absent : lookup store hostport = none) (taken : TakenForPrint store hostport fp) :
    Recorded store (some (store.getD [] ++ recordText hostport fp)) hostport fp := by
  obtain ⟨known, before, after⟩ := entries_join writable store
  obtain ⟨first, rest, second, blanks, host, algo, left, blank, isKey, isAlgo⟩ := taken.words
  have takesHost := scans_of_scanWord (by decide) host
  have takesAlgo := scans_of_scanWord (by decide) algo
  have size : (hostport.take 64).length = 64 := by
    rw [← length_fold, taken.print, length_fold, print]
  have long : 64 ≤ hostport.length := by
    rw [List.length_take] at size
    omega
  have solid : Solid (hostport.take 64) := fun c member =>
    writable.key c (List.mem_of_mem_take member)
  have nulFreeLine : 0 ∉ unfinished store ++ hostport.take 64 := by
    rw [List.mem_append, not_or]
    exact ⟨unfinished_nulFree nulFree, fun member => writable.keyEnds (List.mem_of_mem_take member)⟩
  have old : entryOf (unfinished store) = none := by
    have none : scanKnownHost (unfinished store) = none := by
      simp only [scanKnownHost, host, algo, scanWord_eq_none.mpr blank]
    rw [entryOf_eq (unfinished_nulFree nulFree), none, ite_self]
  have someRest : rest ≠ [] := by
    rintro rfl
    cases algo
  have joinedHost := takesHost.append (.inr someRest) (hostport.take 64)
  have read : scanKnownHost (unfinished store ++ hostport.take 64) =
      some ⟨first, second, hostport.take 64⟩ := by
    refine scanKnownHost_eq_some.mpr ⟨_, _, [], joinedHost, takesAlgo.append (.inr left) _,
      ⟨blanks, blank, ?_⟩, solid, ?_, ?_, .inr (by simp)⟩
    · rw [List.append_nil]
    · exact List.ne_nil_of_length_pos (by rw [size]; decide)
    · exact size.le.trans (by decide)
  have notComment := noHash_of_scans joinedHost isKey noComment
  rw [taken.room, take_recordText_key long, drop_recordText_key long, entryOf_eq nulFreeLine,
    if_neg notComment, read] at after
  rw [old, Option.toList_none, List.append_nil] at before
  have joined : entries (some (store.getD [] ++ recordText hostport fp)) = entries store ++
      ⟨first, second, hostport.take 64⟩ :: (entryOf (recordText (hostport.drop 64) fp)).toList := by
    rw [after, before]
    rfl
  refine recorded_of_entries joined absent isKey isAlgo taken.print fun other member => ?_
  rw [Option.mem_toList, writable.rest_key (lt_length_of_take notPrint long taken.print)] at member
  rcases taken.shadowed with comment | found
  · rw [if_pos comment] at member
    cases member
  · split at member
    · cases member
    · obtain rfl := Option.some.inj member
      exact found

theorem not_key_of_absent (absent : lookup store hostport = none) {entry : KnownHost}
    (member : entry ∈ entries store) : fold entry.hostport ≠ fold hostport := fun same =>
  List.find?_eq_none.mp absent entry member ((strIEq_iff _ _).mpr same)

/-- An entry that carries the fingerprint of a new host has been read from the unfinished line and
the record behind it. -/
theorem joined_of_carries (writable : Writable hostport fp) (nulFree : 0 ∉ store.getD [])
    (absent : lookup store hostport = none)
    (carries : Carries (some (store.getD [] ++ recordText hostport fp)) hostport fp) :
    ∃ entry, (unfinished store).head? ≠ some hash ∧
      scanKnownHost (unfinished store ++ (recordBody hostport fp).take (joinRoom store)) =
        some entry ∧
      fold entry.hostport = fold hostport ∧ fold entry.algo = fold (text "SHA256") ∧
      fold entry.fp = fold fp := by
  obtain ⟨known, before, after⟩ := entries_join writable store
  obtain ⟨entry, found, algo, print⟩ := (carries_iff _ _ _).mp carries
  have host : fold entry.hostport = fold hostport :=
    (strIEq_iff _ _).mp (by simpa using List.find?_some found)
  have nulFreeRecord := nulFree_recordText writable
  have member := List.mem_of_find?_eq_some found
  rw [after, List.mem_append, List.mem_append, Option.mem_toList, Option.mem_toList] at member
  rcases member with old | joined | rest
  · exact absurd host (not_key_of_absent absent (before ▸ List.mem_append_left _ old))
  · obtain ⟨ending, white, start⟩ := @take_recordText hostport fp (joinRoom store)
    have nulFreeLine :
        0 ∉ unfinished store ++ (recordText hostport fp).take (joinRoom store) := by
      rw [List.mem_append, not_or]
      exact ⟨unfinished_nulFree nulFree, fun member => nulFreeRecord (List.mem_of_mem_take member)⟩
    rw [entryOf_eq nulFreeLine] at joined
    split at joined
    · cases joined
    rename_i noComment
    rw [start, ← List.append_assoc, scanKnownHost_append_blank _ white] at joined
    exact ⟨entry, fun head => noComment (by rw [List.head?_append, head, Option.some_or]), joined,
      host, algo, print⟩
  · rw [entryOf_eq fun member => nulFreeRecord (List.mem_of_mem_drop member)] at rest
    split at rest
    · cases rest
    · exact (drop_silent writable (joinRoom_pos store) rest host algo print).elim

/-- When the start of a key is taken for its fingerprint and no other key is looked up differently,
the rest of the key is a comment or has an entry. -/
theorem shadowed_of_others (writable : Writable hostport fp) (room : joinRoom store = 64)
    (long : 64 < hostport.length)
    (others : ∀ other, fold other ≠ fold hostport →
      lookup (some (store.getD [] ++ recordText hostport fp)) other = lookup store other) :
    (hostport.drop 64).head? = some hash ∨ (lookup store (hostport.drop 64)).isSome := by
  by_cases comment : (hostport.drop 64).head? = some hash
  · exact .inl comment
  obtain ⟨known, -, after⟩ := entries_join writable store
  have shorter : fold (hostport.drop 64) ≠ fold hostport := fun same => by
    have lengths := congrArg List.length same
    rw [length_fold, length_fold, List.length_drop] at lengths
    omega
  rw [← others _ shorter, lookup, List.find?_isSome, after, room,
    drop_recordText_key (Nat.le_of_lt long), writable.rest_key long,
    if_neg comment]
  exact .inr ⟨_, List.mem_append_right _ (List.mem_append_right _ (List.mem_singleton_self _)),
    (strIEq_iff _ _).mpr rfl⟩

/-- What makes an append record a new host. -/
theorem recorded_append_iff (writable : Writable hostport fp) (size : fp.length = 64)
    (notPrint : fold hostport ≠ fold fp) (noComment : hostport.head? ≠ some hash)
    (nulFree : 0 ∉ store.getD []) (absent : lookup store hostport = none) :
    Recorded store (some (store.getD [] ++ recordText hostport fp)) hostport fp ↔
      ((∀ c ∈ unfinished store, isSpace c) ∧
        (unfinished store).length + (recordText hostport fp).length ≤ lineSize) ∨
      TakenForPrint store hostport fp := by
  obtain ⟨-, -, -, -, short, -⟩ := unfinished_split store
  have fits : (unfinished store).length + (recordText hostport fp).length ≤ lineSize ↔
      (recordBody hostport fp).length ≤ joinRoom store := by
    rw [recordText_eq, List.length_append, List.length_singleton, joinRoom]
    omega
  rw [fits]
  constructor
  · rintro ⟨carries, others⟩
    obtain ⟨entry, notComment, read, host, algo, print⟩ :=
      joined_of_carries writable nulFree absent carries
    have key := List.length_pos_iff.mpr writable.keySome
    have body : (recordBody hostport fp).length = hostport.length + (8 + fp.length) := by
      rw [recordBody, List.length_append, List.length_append]
      rfl
    have startSize : ((recordBody hostport fp).take (joinRoom store)).length =
        min (joinRoom store) (recordBody hostport fp).length := List.length_take
    have positive := joinRoom_pos store
    have left : (recordBody hostport fp).take (joinRoom store) ≠ [] :=
      List.ne_nil_of_length_pos (by omega)
    rcases splice writable size notPrint (List.take_prefix _ _) left read host algo print with
      ⟨blank, whole⟩ | ⟨old, inOld, same⟩ |
        ⟨rest, blanks, takesHost, takesAlgo, someBlanks, blank, equal, inKey⟩
    · rw [whole] at startSize
      exact .inl ⟨blank, by omega⟩
    · -- the unfinished line would hold an entry for the key
      obtain ⟨known, before, -⟩ := entries_join writable store
      refine absurd (same ▸ host) (@not_key_of_absent _ _ absent old ?_)
      rw [before, List.mem_append, Option.mem_toList, entryOf_eq (unfinished_nulFree nulFree),
        if_neg notComment]
      exact .inr inOld
    · have printSize : entry.fp.length = 64 := by
        rw [← length_fold, print, length_fold, size]
      have inside := inKey.length_le
      rw [equal] at inside startSize
      have room : joinRoom store = 64 := by omega
      have start : hostport.take 64 = entry.fp := by
        rw [← equal, ← printSize, ← equal]
        exact (List.prefix_iff_eq_take.mp inKey).symm
      have prints : fold (hostport.take 64) = fold fp := by rw [start, print]
      have long := lt_length_of_take notPrint (by omega) prints
      exact .inr ⟨⟨_, _, _, _, takesHost.scanWord, takesAlgo.scanWord, someBlanks, blank, host,
        algo⟩, room, prints, shadowed_of_others writable room long others⟩
  · rintro (⟨blank, room⟩ | taken)
    · exact recorded_of_blank writable noComment nulFree absent blank room
    · exact recorded_of_takenForPrint writable size notPrint noComment nulFree absent taken

end Record

/-! ### The check -/

/-- A key is no fingerprint: it has a colon. -/
theorem hostport_not_print {fp : Text} (print : HexPrint fp) (host : Text) (port : Nat) :
    fold (hostportText host port) ≠ fold fp := by
  intro same
  have folded : byte ':' ∈ fold fp :=
    same ▸ List.mem_map.mpr ⟨byte ':', by simp [hostportText], by decide⟩
  obtain ⟨c, member, equal⟩ := List.mem_map.mp folded
  obtain rfl : c = byte ':' := eq_of_toLower (by decide) equal
  exact absurd (print.digits _ member) (by decide)

/-- Accepting a new host records it, and nothing else, exactly when the store does not end in the
middle of a line, except in white space that leaves room for the record, or when the start of the
key is taken for its fingerprint. -/
theorem checkKnownHost_recorded_iff (host : Text) (port : Nat) (fp : Text) (errMax : Nat)
    (desk after : Desk) (nulFree : 0 ∉ (desk.disk .knownHosts).getD [])
    (solid : Solid (hostportText host port)) (nulFreeHost : 0 ∉ host)
    (noComment : (hostportText host port).head? ≠ some hash)
    (fits : (hostportText host port).length ≤ 255) (print : HexPrint fp)
    (absent : lookup (desk.disk .knownHosts) (hostportText host port) = none)
    (trace : List (Event Answer)) (err : Text)
    (run : Steps fileEnv desk (checkKnownHost host port fp errMax) trace after (.ret (0, err))) :
    Recorded (desk.disk .knownHosts) (after.disk .knownHosts) (hostportText host port) fp ↔
      ((∀ c ∈ unfinished (desk.disk .knownHosts), isSpace c) ∧
        (unfinished (desk.disk .knownHosts)).length +
          (recordText (hostportText host port) fp).length ≤ lineSize) ∨
      TakenForPrint (desk.disk .knownHosts) (hostportText host port) fp := by
  have writable := print.writable solid (by simp [hostportText]) fits
    (nulFree_hostportText nulFreeHost port)
  have ends : CheckEnds desk (hostportText host port) fp 0 after :=
    (ends_checkKnownHost host port fp errMax desk).post_of_steps run
  cases ends with
  | known carries =>
    obtain ⟨known, found, -⟩ := carries
    rw [absent] at found
    cases found
  | accepted _ _ _ _ _ stored =>
    rw [stored, storeAfter, absent]
    exact recorded_append_iff writable print.length (hostport_not_print print host port) noComment
      nulFree absent

/-- A store whose last line has its newline. -/
theorem checkKnownHost_recorded_terminated :
    let fp := List.replicate 64 (byte '0')
    ∃ trace after err, Steps fileEnv ⟨fun _ => some (text "b:1 SHA256 11\n"), []⟩
        (checkKnownHost (text "h") 1965 fp 128) trace after (.ret (0, err)) ∧
      Recorded (some (text "b:1 SHA256 11\n")) (after.disk .knownHosts) (text "h:1965") fp := by
  intro fp
  have absent : lookup (some (text "b:1 SHA256 11\n")) (text "h:1965") = none := by decide
  obtain ⟨trace, after, run, -⟩ := checkKnownHost_accepts (text "h") 1965 fp 128
    ⟨fun _ => some (text "b:1 SHA256 11\n"), []⟩ ⟨text "y\n", by decide, by decide, by decide⟩ rfl
    absent
  exact ⟨trace, after, [], run, (checkKnownHost_recorded_iff _ _ _ 128 _ after (by decide)
    (by decide) (by decide) (by decide) (by decide) ⟨by decide, by decide⟩ absent trace [] run).mpr
    (.inl ⟨by decide, by decide⟩)⟩

/-- Without the newline, the key of the new host ends up in the fingerprint of the old one. -/
theorem checkKnownHost_unterminated :
    let store := text "b:1 SHA256 11"
    let fp := List.replicate 64 (byte '0')
    lookup (some store) (text "h:1965") = none ∧
      lookup (some store) (text "b:1") = some ⟨text "b:1", text "SHA256", text "11"⟩ ∧
      ∃ trace after err, Steps fileEnv ⟨fun _ => some store, []⟩
          (checkKnownHost (text "h") 1965 fp 128) trace after (.ret (0, err)) ∧
        lookup (after.disk .knownHosts) (text "h:1965") = none ∧
        lookup (after.disk .knownHosts) (text "b:1") =
          some ⟨text "b:1", text "SHA256", text "11h:1965"⟩ := by
  intro store fp
  refine ⟨by decide, by decide, ?_⟩
  obtain ⟨trace, after, run, -, stored⟩ := checkKnownHost_accepts (text "h") 1965 fp 128
    ⟨fun _ => some store, []⟩ ⟨text "y\n", by decide, by decide, by decide⟩ rfl (by decide)
  refine ⟨trace, after, [], run, ?_⟩
  rw [stored]
  exact ⟨by decide, by decide⟩

end Nosgem
