/-
This file shows how the record that `check_known_host` writes reads back. The
record of a host, a port and a fingerprint is the host, as it stands, followed
by a tail that has no white space in front of its second word. What the readers
make of it depends on the host alone: on its last line, with the blanks in
front of it taken off. A host without white space reads back as its own entry,
unless it starts like a comment.
-/

import Nosgem.KnownHosts

namespace Nosgem

open CText Interaction

/-! ### Fingerprints -/

theorem mem_fingerprintText {digest : Digest} {c : Byte} (member : c ∈ fingerprintText digest) :
    ∃ nibble < 16, c = hexDigit nibble := by
  obtain ⟨byte, -, inPair⟩ := List.mem_flatMap.mp member
  have small : byte.toNat < 256 := byte.toNat_lt
  rcases List.mem_cons.mp inPair with rfl | last
  · exact ⟨byte.toNat / 16, by omega, rfl⟩
  · exact ⟨byte.toNat % 16, by omega, List.mem_singleton.mp last⟩

theorem nulFree_fingerprintText (digest : Digest) : 0 ∉ fingerprintText digest := by
  intro member
  obtain ⟨nibble, small, equal⟩ := mem_fingerprintText member
  exact (by decide : ∀ nibble < 16, 0 ≠ hexDigit nibble) nibble small equal

theorem length_fingerprintText (digest : Digest) : (fingerprintText digest).length = 64 := by
  simp [fingerprintText, List.length_flatMap]

/-- A hexadecimal digit, in either letter case. -/
def isHexDigit (c : Byte) : Bool :=
  isDigit c || (byte 'A' ≤ c && c ≤ byte 'F') || (byte 'a' ≤ c && c ≤ byte 'f')

/-- A fingerprint: 64 hexadecimal digits. -/
structure HexPrint (fp : Text) : Prop where
  length : fp.length = 64
  digits : ∀ c ∈ fp, isHexDigit c

theorem hexPrint_fingerprintText (digest : Digest) : HexPrint (fingerprintText digest) := by
  refine ⟨length_fingerprintText digest, fun c member => ?_⟩
  obtain ⟨nibble, small, rfl⟩ := mem_fingerprintText member
  exact (by decide : ∀ nibble < 16, isHexDigit (hexDigit nibble)) nibble small

theorem HexPrint.solid {fp : Text} (print : HexPrint fp) : Solid fp := by
  intro c member
  have digit := print.digits c member
  refine isSpace_of_lt (UInt8.lt_iff_toNat_lt.mpr ?_)
  simp only [isHexDigit, isDigit, Bool.or_eq_true, Bool.and_eq_true, decide_eq_true_eq,
    UInt8.le_iff_toNat_le] at digit
  have marks : (byte '0').toNat = 48 ∧ (byte 'A').toNat = 65 ∧ (byte 'a').toNat = 97 := by decide
  have blank : (32 : Byte).toNat = 32 := rfl
  omega

theorem HexPrint.nulFree {fp : Text} (print : HexPrint fp) : 0 ∉ fp := fun member =>
  absurd (print.digits 0 member) (by decide)

theorem solid_fingerprintText (digest : Digest) : Solid (fingerprintText digest) :=
  (hexPrint_fingerprintText digest).solid

/-- Fingerprints have no lower-case letters, so they are equal when they are equal up to letter
case. -/
theorem fold_fingerprintText_injective {first second : Digest}
    (equal : fold (fingerprintText first) = fold (fingerprintText second)) :
    fingerprintText first = fingerprintText second := by
  have raised (digest : Digest) :
      (fold (fingerprintText digest)).map (fun c => if 97 ≤ c then c - 32 else c) =
        fingerprintText digest := by
    rw [fold, List.map_map]
    refine (List.map_congr_left fun c member => ?_).trans (List.map_id _)
    obtain ⟨nibble, small, rfl⟩ := mem_fingerprintText member
    exact (by decide : ∀ nibble < 16, (fun c : Byte => if 97 ≤ c then c - 32 else c)
      (toLower (hexDigit nibble)) = hexDigit nibble) nibble small
  rw [← raised first, equal, raised second]

/-! ### Reading a line -/

theorem cString_subset {buffer : Text} {c : Byte} (member : c ∈ cString buffer) : c ∈ buffer :=
  (List.takeWhile_sublist _).subset member

theorem rstripNewline_subset {line : Text} {c : Byte} (member : c ∈ rstripNewline line) :
    c ∈ line := by
  have stripped := List.mem_reverse.mp member
  exact cString_subset (List.mem_reverse.mp ((List.dropWhile_sublist _).subset stripped))

/-- What `rstrip_newline` takes off. -/
theorem rstripNewline_split {line : Text} (nulFree : 0 ∉ line) :
    ∃ ending, line = rstripNewline line ++ ending ∧ ∀ c ∈ ending, c = lf ∨ c = cr := by
  refine ⟨(line.reverse.takeWhile fun c => c == lf || c == cr).reverse, ?_, fun c member => ?_⟩
  · rw [rstripNewline, cString_eq_self nulFree, ← List.reverse_append,
      List.takeWhile_append_dropWhile, List.reverse_reverse]
  · simpa using List.mem_takeWhile_imp (List.mem_reverse.mp member)

/-- White space behind a line does not change its words. -/
theorem scanKnownHost_append_blank (s : Text) {blanks : Text} (blank : ∀ c ∈ blanks, isSpace c) :
    scanKnownHost (s ++ blanks) = scanKnownHost s := by
  unfold scanKnownHost
  rw [scanWord_append_blank (by decide) s blank]
  cases scanWord 255 s with
  | none => rfl
  | some first =>
    dsimp only [Option.map_some]
    rw [scanWord_append_blank (by decide) first.2 blank]
    cases scanWord 31 first.2 with
    | none => rfl
    | some second =>
      dsimp only [Option.map_some]
      rw [scanWord_append_blank (by decide) second.2 blank]
      cases scanWord 127 second.2 <;> rfl

/-- The line ends that the readers strip do not matter for the entry of a line. -/
theorem entryOf_eq {line : Text} (nulFree : 0 ∉ line) :
    entryOf line = if line.head? = some hash then none else scanKnownHost line := by
  obtain ⟨ending, split, ends⟩ := rstripNewline_split nulFree
  have blank : ∀ c ∈ ending, isSpace c := fun c member => by
    rcases ends c member with rfl | rfl <;> rfl
  have scanned : scanKnownHost line = scanKnownHost (rstripNewline line) := by
    conv_lhs => rw [split]
    exact scanKnownHost_append_blank _ blank
  rw [entryOf, scanned]
  by_cases empty : rstripNewline line = []
  · rw [if_pos (.inl empty), empty]
    split <;> rfl
  · have first : line.head? = (rstripNewline line).head? := by
      conv_lhs => rw [split]
      exact List.head?_append_of_ne_nil _ empty
    simp only [empty, false_or, first]

theorem scanWord_subset {width : Nat} {s word rest : Text}
    (scanned : scanWord width s = some (word, rest)) {c : Byte} (member : c ∈ word) :
    c ∈ (s.dropWhile isSpace).takeWhile fun c => !isSpace c := by
  simp only [scanWord] at scanned
  split at scanned
  · cases scanned
  · obtain ⟨rfl, -⟩ := Prod.mk.inj (Option.some.inj scanned)
    exact List.mem_of_mem_take member

/-- The key of an entry is a word of its line. -/
theorem scanKnownHost_hostport {line : Text} {known : KnownHost}
    (scanned : scanKnownHost line = some known) :
    ∃ rest, scanWord 255 line = some (known.hostport, rest) := by
  unfold scanKnownHost at scanned
  split at scanned
  · cases scanned
  rename_i hostport rest first
  split at scanned
  · cases scanned
  split at scanned
  · cases scanned
  cases scanned
  exact ⟨rest, first⟩

theorem entryOf_eq_some {line : Text} {known : KnownHost} (entry : entryOf line = some known) :
    scanKnownHost (rstripNewline line) = some known := by
  unfold entryOf at entry
  split at entry
  · cases entry
  · exact entry

theorem solid_of_entryOf {line : Text} {known : KnownHost} (entry : entryOf line = some known) :
    Solid known.hostport := by
  obtain ⟨rest, scanned⟩ := scanKnownHost_hostport (entryOf_eq_some entry)
  exact solid_of_scanWord scanned

/-- A byte of the key of an entry is a byte of its line. -/
theorem hostport_subset {line : Text} {known : KnownHost} (entry : entryOf line = some known)
    {c : Byte} (member : c ∈ known.hostport) : c ∈ line := by
  obtain ⟨rest, scanned⟩ := scanKnownHost_hostport (entryOf_eq_some entry)
  have inWord := scanWord_subset scanned member
  exact rstripNewline_subset
    ((List.dropWhile_sublist _).subset ((List.takeWhile_sublist _).subset inWord))

theorem isSpace_toLower (c : Byte) : isSpace (toLower c) = isSpace c := by
  unfold toLower
  split
  · rename_i upper
    have lower := UInt8.le_iff_toNat_le.mp upper.1
    have below := UInt8.le_iff_toNat_le.mp upper.2
    have first : (65 : Byte).toNat = 65 := rfl
    have last : (90 : Byte).toNat = 90 := rfl
    have blank : (32 : Byte).toNat = 32 := rfl
    have raised : (c + 32).toNat = c.toNat + 32 := by
      rw [UInt8.toNat_add]
      omega
    rw [isSpace_of_lt (UInt8.lt_iff_toNat_lt.mpr (by omega)),
      isSpace_of_lt (UInt8.lt_iff_toNat_lt.mpr (by omega))]
  · rfl

theorem solid_of_fold {first second : Text} (equal : fold first = fold second)
    (solid : Solid first) : Solid second := by
  intro c member
  have folded : toLower c ∈ fold first := equal ▸ List.mem_map_of_mem member
  obtain ⟨d, inFirst, same⟩ := List.mem_map.mp folded
  rw [← isSpace_toLower, ← same, isSpace_toLower, solid d inFirst]

/-! ### Words in a record -/

/-- A key and a fingerprint whose record reads back: words that fit the buffers of the readers. -/
structure Writable (hostport fp : Text) : Prop where
  key : Solid hostport
  keySome : hostport ≠ []
  keyFits : hostport.length ≤ 255
  keyEnds : 0 ∉ hostport
  print : Solid fp
  printSome : fp ≠ []
  printFits : fp.length ≤ 127
  printEnds : 0 ∉ fp

theorem HexPrint.writable {hostport fp : Text} (print : HexPrint fp) (key : Solid hostport)
    (keySome : hostport ≠ []) (keyFits : hostport.length ≤ 255) (keyEnds : 0 ∉ hostport) :
    Writable hostport fp :=
  ⟨key, keySome, keyFits, keyEnds, print.solid,
    List.ne_nil_of_length_pos (by rw [print.length]; decide), by rw [print.length]; decide,
    print.nulFree⟩

/-- A record without its LF. -/
def recordBody (hostport fp : Text) : Text := hostport ++ (text " SHA256 " ++ fp)

theorem recordText_eq (hostport fp : Text) :
    recordText hostport fp = recordBody hostport fp ++ [lf] := by
  simp [recordText, recordBody]

theorem noLf_of_solid {word : Text} (solid : Solid word) : lf ∉ word := fun member =>
  absurd (solid lf member) (by decide)

namespace Writable

variable {hostport fp : Text}

theorem nulFree (writable : Writable hostport fp) : 0 ∉ recordBody hostport fp := by
  simp only [recordBody, List.mem_append, not_or]
  exact ⟨writable.keyEnds, by decide, writable.printEnds⟩

theorem noLf (writable : Writable hostport fp) : lf ∉ recordBody hostport fp := by
  simp only [recordBody, List.mem_append, not_or]
  exact ⟨noLf_of_solid writable.key, by decide, noLf_of_solid writable.print⟩

/-- A record fills one piece. -/
theorem complete (writable : Writable hostport fp) :
    Complete lineSize (recordText hostport fp) := by
  have word : (text " SHA256 ").length = 8 := by decide
  have key := writable.keyFits
  have print := writable.printFits
  refine ⟨?_, .inr ⟨recordBody hostport fp, recordText_eq hostport fp, writable.noLf⟩⟩
  simp only [recordText_eq, recordBody, List.length_append, List.length_singleton, word, lineSize]
  omega

/-- Behind white space the three words of a record are scanned. -/
theorem scanKnownHost (writable : Writable hostport fp) {blanks : Text}
    (leading : ∀ c ∈ blanks, isSpace c) :
    scanKnownHost (blanks ++ recordBody hostport fp) = some ⟨hostport, text "SHA256", fp⟩ := by
  have blank : ∀ c ∈ ([32] : Text), isSpace c := by decide
  have shape : recordBody hostport fp =
      hostport ++ ([32] ++ (text "SHA256" ++ ([32] ++ (fp ++ [])))) := by
    simp [recordBody, text]
  rw [Nosgem.scanKnownHost, shape, scanWord_of_solid leading writable.key writable.keySome
    writable.keyFits (by simp [isSpace])]
  dsimp only
  rw [scanWord_of_solid blank (by decide) (by decide) (by decide) (by simp [isSpace])]
  dsimp only
  rw [scanWord_of_solid blank writable.print writable.printSome writable.printFits (by simp)]

/-- A record between white space reads back, unless it starts like a comment. -/
theorem entryOf (writable : Writable hostport fp) {blanks ending : Text}
    (leading : ∀ c ∈ blanks, isSpace c) (ends : ∀ c ∈ ending, isSpace c) :
    entryOf (blanks ++ recordBody hostport fp ++ ending) =
      if (blanks ++ hostport).head? = some hash then none
      else some ⟨hostport, text "SHA256", fp⟩ := by
  have noNul {white : Text} (blank : ∀ c ∈ white, isSpace c) : 0 ∉ white := fun member =>
    absurd (blank 0 member) (by decide)
  have nulFree : 0 ∉ blanks ++ recordBody hostport fp ++ ending := by
    simp only [List.mem_append, not_or]
    exact ⟨⟨noNul leading, writable.nulFree⟩, noNul ends⟩
  have first : (blanks ++ recordBody hostport fp ++ ending).head? = (blanks ++ hostport).head? := by
    rw [recordBody, List.append_assoc, List.append_assoc, ← List.append_assoc,
      List.head?_append_of_ne_nil _ (by simp [writable.keySome])]
  rw [entryOf_eq nulFree, first, scanKnownHost_append_blank _ ends, writable.scanKnownHost leading]

/-- A record reads back, with its LF. -/
theorem entryOf_recordText (writable : Writable hostport fp) :
    Nosgem.entryOf (recordText hostport fp) =
      if hostport.head? = some hash then none else some ⟨hostport, text "SHA256", fp⟩ := by
  rw [recordText_eq]
  exact @entryOf hostport fp writable [] [lf] (by simp) (by decide)

end Writable

/-! ### The last line of a record -/

/-- What `check_known_host` writes behind the host. -/
def recordTail (port : Nat) (fp : Text) : Text :=
  byte ':' :: decimal port ++ (32 :: (text "SHA256" ++ 32 :: fp)) ++ [lf]

theorem recordText_hostportText (host : Text) (port : Nat) (fp : Text) :
    recordText (hostportText host port) fp = host ++ recordTail port fp := by
  simp [recordText, hostportText, recordTail, text]

theorem solid_decimal (value : Nat) : Solid (decimal value) := fun c member => by
  have digit := isDigit_of_mem_decimal member
  simp only [isDigit, Bool.and_eq_true, decide_eq_true_eq] at digit
  exact isSpace_of_lt (UInt8.lt_of_lt_of_le (by decide) digit.1)

theorem solid_hostportText {host : Text} (solid : Solid host) (port : Nat) :
    Solid (hostportText host port) := by
  intro c member
  rcases List.mem_append.mp member with inHost | inPort
  · exact solid c inHost
  · rcases List.mem_cons.mp inPort with rfl | digit
    · decide
    · exact solid_decimal port c digit

theorem nulFree_decimal (value : Nat) : 0 ∉ decimal value := fun member =>
  absurd (isDigit_of_mem_decimal member) (by decide)

theorem nulFree_hostportText {host : Text} (nulFree : 0 ∉ host) (port : Nat) :
    0 ∉ hostportText host port := by
  rw [hostportText, List.mem_append, List.mem_cons, not_or, not_or]
  exact ⟨nulFree, by decide, nulFree_decimal port⟩

theorem noHash_hostportText {host : Text} (noComment : host.head? ≠ some hash) (port : Nat) :
    (hostportText host port).head? ≠ some hash := by
  rw [hostportText]
  cases host with
  | nil => simp [hash]
  | cons c rest => exact noComment

/-- The last line of a record without its LF. -/
def recordLine (line : Text) (port : Nat) (fp : Text) : Text :=
  line ++ byte ':' :: decimal port ++ (32 :: (text "SHA256" ++ 32 :: fp))

theorem entryOf_recordTail {line : Text} (nulFree : 0 ∉ line) (port : Nat) (digest : Digest) :
    entryOf (line ++ recordTail port (fingerprintText digest)) =
      if line.head? = some hash then none
      else scanKnownHost (recordLine line port (fingerprintText digest)) := by
  have split : line ++ recordTail port (fingerprintText digest) =
      recordLine line port (fingerprintText digest) ++ [lf] := by
    simp [recordTail, recordLine]
  have whole : 0 ∉ line ++ recordTail port (fingerprintText digest) := by
    simp only [recordTail, List.mem_append, List.mem_cons, not_or]
    exact ⟨nulFree, ⟨⟨by decide, nulFree_decimal port⟩, by decide, by decide, by decide,
      nulFree_fingerprintText digest⟩, by decide, by simp⟩
  have first : (line ++ recordTail port (fingerprintText digest)).head? = some hash ↔
      line.head? = some hash := by
    cases line with
    | nil => simp [recordTail, hash]
    | cons c rest => simp
  rw [entryOf_eq whole, split, scanKnownHost_append_blank _ (by decide), ← split]
  simp only [first]

/-- The last line of a record reads as an entry for what is left of it behind its blanks, when that
is free of white space and the line does not start like a comment. -/
theorem entryOf_solid {line : Text} {port : Nat} {digest : Digest} (nulFree : 0 ∉ line)
    (noComment : line.head? ≠ some hash) (solid : Solid (line.dropWhile isSpace))
    (fits : (hostportText line port).length ≤ 255) :
    entryOf (line ++ recordTail port (fingerprintText digest)) =
      some ⟨hostportText (line.dropWhile isSpace) port, text "SHA256", fingerprintText digest⟩ := by
  have suffix := List.dropWhile_suffix isSpace (l := line)
  have fitsKey : (hostportText (line.dropWhile isSpace) port).length ≤ 255 := by
    have shorter := suffix.length_le
    simp only [hostportText, List.length_append] at fits ⊢
    omega
  have writable := (hexPrint_fingerprintText digest).writable (solid_hostportText solid port)
    (by simp [hostportText]) fitsKey
    (nulFree_hostportText (fun member => nulFree (suffix.subset member)) port)
  have joined : line.takeWhile isSpace ++ hostportText (line.dropWhile isSpace) port =
      hostportText line port := by
    rw [hostportText, ← List.append_assoc, List.takeWhile_append_dropWhile, hostportText]
  have shape : line ++ recordTail port (fingerprintText digest) =
      line.takeWhile isSpace ++
        recordBody (hostportText (line.dropWhile isSpace) port) (fingerprintText digest) ++
          [lf] := by
    rw [recordBody, ← List.append_assoc, joined]
    simp [recordTail, hostportText, text]
  rw [shape, writable.entryOf (fun c => List.mem_takeWhile_imp) (by decide), joined,
    if_neg (noHash_hostportText noComment port)]

/-- A byte of the key of the last line of a record, when what is left of the line behind its blanks
has white space in it: the key ends before the colon of the record. -/
theorem hostport_subset_of_not_solid {line : Text} {port : Nat} {digest : Digest}
    (nulFree : 0 ∉ line) (broken : ¬ Solid (line.dropWhile isSpace)) {known : KnownHost}
    (entry : entryOf (line ++ recordTail port (fingerprintText digest)) = some known) {c : Byte}
    (member : c ∈ known.hostport) : c ∈ line := by
  rw [entryOf_recordTail nulFree] at entry
  split at entry
  · cases entry
  obtain ⟨rest, scanned⟩ := scanKnownHost_hostport entry
  have inWord := scanWord_subset scanned member
  have left : line.dropWhile isSpace ≠ [] := fun empty => broken (by simp [empty, Solid])
  have cut : ((line.dropWhile isSpace).takeWhile fun c => !isSpace c).length ≠
      (line.dropWhile isSpace).length := fun whole => broken fun c inLine => by
    have all := (List.takeWhile_sublist fun c => !isSpace c).eq_of_length whole
    simpa using List.takeWhile_eq_self_iff.mp all c inLine
  rw [recordLine, List.append_assoc, List.dropWhile_append,
    if_neg (by simpa using left), List.takeWhile_append, if_neg cut] at inWord
  exact (List.dropWhile_sublist _).subset ((List.takeWhile_sublist _).subset inWord)

/-! ### Records in a store -/

theorem lineSize_room : 1 < lineSize := by decide

/-- Behind newline-terminated lines a text is read as if it stood alone. -/
theorem storePieces_append (store : Option Text) (terminated : Terminated (store.getD []))
    (rest : Text) :
    storePieces (some (store.getD [] ++ rest)) = storePieces store ++ pieces lineSize rest := by
  have front : storePieces store = pieces lineSize (store.getD []) := by
    cases store <;> rfl
  rw [front, storePieces]
  conv_lhs => rw [← flatten_pieces lineSize_room (store.getD [])]
  exact pieces_flatten_append lineSize_room (complete_of_mem_pieces lineSize_room terminated) rest

theorem mem_of_mem_storePieces {store : Option Text} {line : Text}
    (member : line ∈ storePieces store) {c : Byte} (inLine : c ∈ line) : c ∈ store.getD [] := by
  cases store with
  | none => cases member
  | some content =>
    rw [Option.getD_some, ← flatten_pieces lineSize_room content]
    exact List.mem_flatten_of_mem member inLine

/-- The last line of a record fills one piece. -/
theorem complete_recordTail {line : Text} {port : Nat} (digest : Digest) (noLf : lf ∉ line)
    (fits : (hostportText line port).length ≤ 255) :
    Complete lineSize (line ++ recordTail port (fingerprintText digest)) := by
  have length := length_fingerprintText digest
  have word : (text "SHA256").length = 6 := by decide
  refine ⟨?_, .inr ⟨recordLine line port (fingerprintText digest), ?_, ?_⟩⟩
  · simp only [hostportText, recordTail, List.length_append, List.length_cons, List.length_nil,
      length, word, lineSize] at fits ⊢
    omega
  · simp [recordLine, recordTail]
  · have noSpace {word : Text} (solid : Solid word) : lf ∉ word := fun member =>
      absurd (solid lf member) (by decide)
    simp only [recordLine, List.mem_append, List.mem_cons, not_or]
    exact ⟨⟨noLf, by decide, noSpace (solid_decimal port)⟩, by decide, by decide, by decide,
      noSpace (solid_fingerprintText digest)⟩

theorem lookup_eq_of_fold {first second : Text} (equal : fold first = fold second)
    (store : Option Text) : lookup store first = lookup store second := by
  have same (known : KnownHost) : strIEq known.hostport first = strIEq known.hostport second := by
    rw [Bool.eq_iff_iff, strIEq_iff, strIEq_iff, equal]
  simp only [lookup, same]

/-- A key is found where some line of the store holds an entry for it. -/
theorem isSome_lookup {store : Option Text} {hostport : Text} :
    (lookup store hostport).isSome = (storePieces store).any (holds hostport) := by
  rw [Bool.eq_iff_iff, lookup, List.find?_isSome, List.any_eq_true]
  simp only [entries, List.mem_filterMap, holds, Option.any_eq_true_iff_get]
  constructor
  · rintro ⟨known, ⟨line, member, entry⟩, same⟩
    exact ⟨line, member, by simp [entry], by simpa [entry] using same⟩
  · rintro ⟨line, member, holdsEntry, same⟩
    exact ⟨_, ⟨line, member, (Option.some_get holdsEntry).symm⟩, same⟩

/-- A key that the store has an entry for is free of white space. -/
theorem solid_of_lookup {store : Option Text} {hostport : Text}
    (found : (lookup store hostport).isSome) : Solid hostport := by
  obtain ⟨known, first⟩ := Option.isSome_iff_exists.mp found
  obtain ⟨line, -, entry⟩ := List.mem_filterMap.mp (List.mem_of_find?_eq_some first)
  have same : strIEq known.hostport hostport := by simpa using List.find?_some first
  exact solid_of_fold ((strIEq_iff _ _).mp same) (solid_of_entryOf entry)

/-- The entries behind an appended record. -/
theorem entries_append {store : Option Text} (terminated : Terminated (store.getD []))
    (rest : Text) :
    entries (some (store.getD [] ++ rest)) =
      entries store ++ (pieces lineSize rest).filterMap entryOf := by
  rw [entries, storePieces_append store terminated, List.filterMap_append, entries]

/-- The lines of a rewritten store are the copies of its lines, one for one. -/
theorem storePieces_rewritten {store : Option Text} {hostport fp : Text}
    (nulFree : 0 ∉ store.getD []) (complete : Complete lineSize (recordText hostport fp))
    (found : (lookup store hostport).isSome) :
    storePieces (some (rewritten hostport fp (storePieces store))) =
      (storePieces store).map (copyLine hostport fp) := by
  have front : storePieces store = pieces lineSize (store.getD []) := by
    cases store <;> rfl
  obtain ⟨lines, rest, stream, full, noLf, short, cut⟩ := pieces_cut lineSize_room (store.getD [])
  have kept {line : Text} (inside : ∀ c ∈ line, c ∈ store.getD []) : cString line = line :=
    cString_eq_self fun member => nulFree (inside 0 member)
  have copied : ∀ line ∈ lines.map (copyLine hostport fp), Complete lineSize line := by
    intro line member
    obtain ⟨old, inLines, rfl⟩ := List.mem_map.mp member
    unfold copyLine
    split
    · exact complete
    · rw [kept fun c inOld =>
        stream ▸ List.mem_append_left _ (List.mem_flatten_of_mem inLines inOld)]
      exact full old inLines
  -- the rest is shorter than a piece, and so is its copy
  have last : pieces lineSize (((if rest = [] then [] else [rest]).map
      (copyLine hostport fp)).flatten) =
        (if rest = [] then [] else [rest]).map (copyLine hostport fp) := by
    split
    · rfl
    rename_i left
    rw [List.map_singleton, List.flatten_singleton, copyLine]
    split
    · simpa [pieces_nil] using pieces_append lineSize_room complete []
    · rw [kept fun c member => stream ▸ List.mem_append_right _ member,
        pieces_short lineSize_room left noLf (by omega)]
  rw [rewritten, ← isSome_lookup, if_pos found, List.append_nil, storePieces, front, cut,
    List.flatMap_append, List.flatMap, pieces_flatten_append lineSize_room copied, List.flatMap,
    last, List.map_append]

/-- The entries of a rewritten store: the record stands in for every entry of its key, and every
other entry is kept. -/
theorem entries_rewritten {store : Option Text} {hostport fp : Text}
    (nulFree : 0 ∉ store.getD []) (complete : Complete lineSize (recordText hostport fp))
    (found : (lookup store hostport).isSome) :
    entries (some (rewritten hostport fp (storePieces store))) =
      (entries store).filterMap fun known =>
        if strIEq known.hostport hostport then entryOf (recordText hostport fp)
        else some known := by
  rw [entries, storePieces_rewritten nulFree complete found, List.filterMap_map, entries,
    List.filterMap_filterMap]
  refine List.filterMap_congr fun line member => ?_
  have same : cString line = line :=
    cString_eq_self fun inLine => nulFree (mem_of_mem_storePieces member inLine)
  rw [Function.comp_apply, copyLine, holds]
  cases entry : entryOf line with
  | none => simp [same, entry]
  | some known =>
    by_cases isKey : strIEq known.hostport hostport
    · simp [isKey]
    · simp [isKey, same, entry]

/-- A key whose entry has been rewritten is looked up as the record. -/
theorem lookup_rewritten_self {store : Option Text} {hostport fp : Text}
    (writable : Writable hostport fp) (noComment : hostport.head? ≠ some hash)
    (nulFree : 0 ∉ store.getD []) (found : (lookup store hostport).isSome) :
    lookup (some (rewritten hostport fp (storePieces store))) hostport =
      some ⟨hostport, text "SHA256", fp⟩ := by
  have agree (known : KnownHost) :
      (if strIEq known.hostport hostport then some ⟨hostport, text "SHA256", fp⟩
        else some known).any (fun known => strIEq known.hostport hostport) =
        strIEq known.hostport hostport := by
    split
    · rename_i own
      rw [own, Option.any_some, strIEq_iff]
    · rfl
  obtain ⟨known, first⟩ := Option.isSome_iff_exists.mp found
  have own : strIEq known.hostport hostport := by simpa using List.find?_some first
  rw [lookup] at first ⊢
  rw [entries_rewritten nulFree writable.complete found, writable.entryOf_recordText,
    if_neg noComment, List.find?_filterMap]
  simp only [agree, first, Option.bind_some, own, if_true]

/-- Rewriting the entries of a key does not change what another key is looked up as. -/
theorem lookup_rewritten_of_ne {store : Option Text} {hostport other fp : Text}
    (writable : Writable hostport fp) (nulFree : 0 ∉ store.getD [])
    (found : (lookup store hostport).isSome) (different : fold other ≠ fold hostport) :
    lookup (some (rewritten hostport fp (storePieces store))) other = lookup store other := by
  have notKey {key : Text} (own : fold key = fold hostport) : strIEq key other = false := by
    rw [Bool.eq_false_iff, ne_eq, strIEq_iff, own]
    exact different.symm
  have agree (known : KnownHost) :
      (if strIEq known.hostport hostport then entryOf (recordText hostport fp)
        else some known).any (fun known => strIEq known.hostport other) =
        strIEq known.hostport other := by
    split
    · rename_i own
      rw [notKey ((strIEq_iff _ _).mp own), writable.entryOf_recordText]
      split
      · rfl
      · exact notKey rfl
    · rfl
  rw [lookup, entries_rewritten nulFree writable.complete found, List.find?_filterMap]
  simp only [agree]
  rw [lookup]
  cases first : (entries store).find? (fun known => strIEq known.hostport other) with
  | none => rfl
  | some known =>
    have same : strIEq known.hostport other := by simpa using List.find?_some first
    rw [Option.bind_some, if_neg]
    rw [strIEq_iff, (strIEq_iff _ _).mp same]
    exact different

end Nosgem
