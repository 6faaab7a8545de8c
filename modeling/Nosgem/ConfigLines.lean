/-
This file settles how the configuration file is read. The format is one of lines,
and the loop of `nos_config_load` reads pieces of at most 255 bytes; a longer line
is read as several lines. So the rest of a long comment is a line of its own, and
where it has the form of a setting it sets a field.

The file is read by its lines when the cuts do no harm: the first piece of every
line makes the setting that the line makes, and no piece behind it makes any. A
line that is no longer than a piece is harmless, and so is a comment without `=`
behind its first piece. Where a line is not harmless, a value may still come out
right, when a later line gives it; but a key that no line sets is never set by a
piece of a file that is read by its lines.
-/

import Nosgem.Config

namespace Nosgem

open Assignments CText

/-! ### The pieces of a line -/

section Pieces

variable {line : Text}

/-- What stands behind a number of full line buffers, as far as the next one has room for it. -/
def block (line : Text) (i : Nat) : Text := (line.drop (255 * i)).take 255

theorem block_drop (line : Text) (i : Nat) : block (line.drop 255) i = block line (i + 1) := by
  rw [block, block, List.drop_drop, Nat.mul_succ, Nat.add_comm]

theorem oneLine_of_mem_fullLines {file : Text} (member : line ∈ fullLines file) :
    line ≠ [] ∧ lf ∉ line.dropLast := by
  rcases stops_of_mem_fullLines line member with ⟨some, noLf⟩ | ⟨front, rfl, noLf⟩
  · exact ⟨some, fun inside => noLf (List.dropLast_subset _ inside)⟩
  · rw [List.dropLast_concat]
    exact ⟨by simp, noLf⟩

theorem fullLines_oneLine (left : line ≠ []) (oneLine : lf ∉ line.dropLast) :
    fullLines line = [line] := by
  have joined := List.dropLast_append_getLast left
  by_cases ends : line.getLast left = lf
  · rw [← joined, ends]
    exact fullLines_line oneLine []
  · refine fullLines_noLf left ?_
    rw [← joined, List.mem_append, List.mem_singleton, not_or]
    exact ⟨oneLine, Ne.symm ends⟩

/-- A line is cut every 255 bytes. -/
theorem pieces_oneLine (left : line ≠ []) (oneLine : lf ∉ line.dropLast) :
    pieces 256 line = line.take 255 :: pieces 256 (line.drop 255) := by
  obtain ⟨first, more, lines, _, _, pieced⟩ := fullLines_eq left
  rw [fullLines_oneLine left oneLine, List.cons.injEq] at lines
  rw [pieces_eq (by decide) left, pieced, ← lines.1, List.length_take]
  rcases Nat.le_total 255 line.length with long | short
  · rw [Nat.min_eq_left long]
  · rw [Nat.min_eq_right short, List.drop_length, List.drop_eq_nil_of_le short]

theorem mem_pieces_oneLine (oneLine : lf ∉ line.dropLast) {piece : Text} :
    piece ∈ pieces 256 line ↔ ∃ i, 255 * i < line.length ∧ piece = block line i := by
  induction h : line.length using Nat.strongRecOn generalizing line with
  | ind length inductionHypothesis =>
    subst h
    by_cases left : line = []
    · subst left
      simp [pieces_nil]
    have positive := List.length_pos_iff.mpr left
    have shorter : (line.drop 255).length < line.length := by
      rw [List.length_drop]
      omega
    have oneLineRest : lf ∉ (line.drop 255).dropLast := fun inside => by
      rw [List.dropLast_drop_eq_drop_dropLast] at inside
      exact oneLine (List.mem_of_mem_drop inside)
    rw [pieces_oneLine left oneLine, List.mem_cons,
      inductionHypothesis _ shorter oneLineRest rfl]
    constructor
    · rintro (rfl | ⟨i, inside, rfl⟩)
      · exact ⟨0, positive, rfl⟩
      · rw [List.length_drop] at inside
        exact ⟨i + 1, by omega, block_drop line i⟩
    · rintro ⟨i, inside, rfl⟩
      cases i with
      | zero => exact .inl rfl
      | succ i =>
        refine .inr ⟨i, ?_, (block_drop line i).symm⟩
        rw [List.length_drop]
        omega

end Pieces

/-! ### Reading by lines -/

/-- The file is read by its lines: loading it leaves what its lines make of a configuration. -/
def ReadByLines (file : Text) : Prop :=
  ∀ cfg, nosConfigLoad (some file) cfg = (0, configOfLines file cfg)

/-- Cutting a line every 255 bytes does no harm: the first 255 bytes of it make the setting that it
makes, and no block behind them makes any. -/
structure Harmless (line : Text) : Prop where
  first : settingOfLine (block line 0) = settingOfLine line
  behind : ∀ i, settingOfLine (block line (i + 1)) = none

/-- The pieces of a text without NUL are read as they are. -/
theorem nosConfigLoad_nulFree {file : Text} (nulFree : 0 ∉ file) (cfg : NosConfig) :
    nosConfigLoad (some file) cfg = (0, cfg.set ((pieces 256 file).filterMap settingOfLine)) := by
  have same : ∀ line ∈ pieces 256 file, settingOfLine (cString line) = settingOfLine line := by
    intro line member
    have inFile : ∀ c ∈ line, c ∈ file := fun c inLine => by
      rw [← flatten_pieces (show 1 < 256 by decide) file]
      exact List.mem_flatten_of_mem member inLine
    rw [cString_eq_self fun zero => nulFree (inFile 0 zero)]
  rw [nosConfigLoad_some, List.filterMap_congr same]

/-- A text without `=` makes no setting. -/
theorem settingOfLine_noMark {line : Text} (noMark : byte '=' ∉ line) :
    settingOfLine line = none := by
  have trimmed : trim line ⊆ line := fun _ member =>
    (List.dropWhile_sublist _).subset ((List.rdropWhile_prefix _ _).subset member)
  rw [settingOfLine]
  exact if_pos (.inr (.inr fun inside => noMark (trimmed inside)))

/-- What `trim` leaves begins with the first byte of the text, unless that is trimmed. -/
theorem head?_trim {c : Byte} (kept : (isBlank c || c == cr || c == lf) = false) (rest : Text) :
    (trim (c :: rest)).head? = some c := by
  have solid : isBlank c = false := by
    rw [Bool.or_eq_false_iff, Bool.or_eq_false_iff] at kept
    exact kept.1.1
  rw [trim, List.dropWhile_cons_of_neg (by simp [solid])]
  obtain ⟨tail, joined⟩ :=
    List.rdropWhile_prefix (fun c => isBlank c || c == cr || c == lf) (l := c :: rest)
  cases left : (c :: rest).rdropWhile fun c => isBlank c || c == cr || c == lf with
  | nil =>
    have all := List.rdropWhile_eq_nil_iff.mp left c List.mem_cons_self
    rw [kept] at all
    cases all
  | cons first more =>
    rw [left, List.cons_append, List.cons.injEq] at joined
    rw [List.head?_cons, joined.1]

/-- A line that starts with `#` sets nothing. -/
theorem settingOfLine_comment (rest : Text) : settingOfLine (byte '#' :: rest) = none := by
  have first := head?_trim (c := byte '#') (by decide) rest
  rw [settingOfLine]
  exact if_pos (.inr (.inl first))

/-- A line that fits into the line buffer is its own only piece. -/
theorem harmless_of_short {line : Text} (short : line.length ≤ 255) : Harmless line where
  first := by rw [block, Nat.mul_zero, List.drop_zero, List.take_of_length_le short]
  behind i := by
    rw [block, List.drop_eq_nil_of_le (by omega), List.take_nil]
    exact settingOfLine_noMark List.not_mem_nil

/-- A comment is harmless when no `=` stands behind its first 255 bytes. -/
theorem harmless_comment {rest : Text} (noMark : byte '=' ∉ rest.drop 254) :
    Harmless (byte '#' :: rest) where
  first := by
    rw [block, Nat.mul_zero, List.drop_zero, List.take_succ_cons, settingOfLine_comment,
      settingOfLine_comment]
  behind i := by
    refine settingOfLine_noMark fun inside => noMark ?_
    have later : (byte '#' :: rest).drop (255 * (i + 1)) = (rest.drop 254).drop (255 * i) := by
      rw [List.drop_drop, show 255 * (i + 1) = 254 + 255 * i + 1 by omega, List.drop_succ_cons]
    rw [block, later] at inside
    exact List.mem_of_mem_drop (List.mem_of_mem_take inside)

/-- The pieces of a harmless line make the setting of the line. -/
theorem Harmless.settings {line : Text} (harmless : Harmless line) (left : line ≠ [])
    (oneLine : lf ∉ line.dropLast) :
    (pieces 256 line).filterMap settingOfLine = (settingOfLine line).toList := by
  have oneLineRest : lf ∉ (line.drop 255).dropLast := fun inside => by
    rw [List.dropLast_drop_eq_drop_dropLast] at inside
    exact oneLine (List.mem_of_mem_drop inside)
  have rest : (pieces 256 (line.drop 255)).filterMap settingOfLine = [] := by
    rw [List.filterMap_eq_nil_iff]
    intro piece member
    obtain ⟨i, _, rfl⟩ := (mem_pieces_oneLine oneLineRest).mp member
    rw [block_drop]
    exact harmless.behind i
  have first : settingOfLine (line.take 255) = settingOfLine line := harmless.first
  rw [pieces_oneLine left oneLine, List.filterMap_cons, rest, first]
  cases settingOfLine line <;> rfl

/-- What a line sets a key to. -/
def lineValue (key : ConfigKey) (line : Text) : Option (ConfigValue key) :=
  (settingOfLine line).bind fun setting => setting.valueFor key

/-- A file whose lines are all harmless is read by its lines. And where no line sets a key, the file
is read by its lines only if no block of a line sets it. -/
theorem readByLines_harmless {file : Text} (nulFree : 0 ∉ file) :
    ((∀ line ∈ fullLines file, Harmless line) → ReadByLines file) ∧
      (ReadByLines file → ∀ key, (∀ line ∈ fullLines file, lineValue key line = none) →
        ∀ line ∈ fullLines file, ∀ i, lineValue key (block line i) = none) := by
  constructor
  · intro harmless cfg
    have same : (pieces 256 file).filterMap settingOfLine = settingsOfFile file := by
      rw [pieces_fullLines (by decide), List.filterMap_flatMap, settingsOfFile,
        List.filterMap_eq_flatMap_toList]
      refine List.flatMap_congr fun line member => ?_
      obtain ⟨left, oneLine⟩ := oneLine_of_mem_fullLines member
      exact (harmless line member).settings left oneLine
    rw [nosConfigLoad_nulFree nulFree, same, configOfLines]
  · intro byLines key unset line member i
    have same : ∀ cfg : NosConfig,
        cfg.set ((pieces 256 file).filterMap settingOfLine) = cfg.set (settingsOfFile file) := by
      intro cfg
      have reads := byLines cfg
      rw [nosConfigLoad_nulFree nulFree] at reads
      exact congrArg Prod.snd reads
    have silent : lastGiven (lineValue key) (pieces 256 file) = none := by
      have given := NosConfig.set_eq_iff.mp same key
      rw [settingsOfFile, lastFor_filterMap, lastFor_filterMap] at given
      exact given.trans (lastGiven_eq_none_iff.mpr unset)
    by_cases inside : 255 * i < line.length
    · refine lastGiven_eq_none_iff.mp silent _ ?_
      rw [pieces_fullLines (by decide), List.mem_flatMap]
      obtain ⟨_, oneLine⟩ := oneLine_of_mem_fullLines member
      exact ⟨line, member, (mem_pieces_oneLine oneLine).mpr ⟨i, inside, rfl⟩⟩
    · rw [lineValue, block, List.drop_eq_nil_of_le (by omega), List.take_nil,
        settingOfLine_noMark List.not_mem_nil]
      rfl

/-- A file with a comment that is longer than the line buffer, and a setting behind it. -/
def commentedFile : Text :=
  (byte '#' :: List.replicate 299 (byte '-')) ++ lf :: text "PAGE_LINES=30\n"

theorem fullLines_commentedFile :
    fullLines commentedFile =
      [(byte '#' :: List.replicate 299 (byte '-')) ++ [lf], text "PAGE_LINES=30\n"] := by
  have noLf : lf ∉ byte '#' :: List.replicate 299 (byte '-') := by
    rw [List.mem_cons, List.mem_replicate]
    decide
  rw [commentedFile, fullLines_line noLf,
    show fullLines (text "PAGE_LINES=30\n") = [text "PAGE_LINES=30\n"] by decide]

/-- The setting of the file is made. -/
theorem readByLines_harmless_commented :
    ReadByLines commentedFile ∧
      (nosConfigLoad (some commentedFile) nosConfigDefaults).2.pageLines = 30 := by
  have nulFree : 0 ∉ commentedFile := by
    rw [commentedFile, List.mem_append, List.mem_cons, List.mem_replicate]
    decide
  have byLines : ReadByLines commentedFile := by
    refine (readByLines_harmless nulFree).1 fun line member => ?_
    rw [fullLines_commentedFile, List.mem_pair] at member
    rcases member with rfl | rfl
    · refine harmless_comment fun inside => ?_
      have mark := List.mem_append.mp (List.mem_of_mem_drop inside)
      rw [List.mem_replicate] at mark
      exact absurd mark (by decide)
    · exact harmless_of_short (by decide)
  refine ⟨byLines, ?_⟩
  rw [byLines, configOfLines, settingsOfFile, fullLines_commentedFile, List.cons_append,
    List.filterMap_cons_none (settingOfLine_comment _)]
  decide

/-! ### Long comments -/

section Comments

variable {comment rest : Text}

/-- The pieces of a comment line whose first piece is full. -/
theorem pieces_comment (full : comment.length = 254) (short : rest.length < 255)
    (oneLine : lf ∉ comment ++ rest) :
    pieces 256 (byte '#' :: comment ++ (rest ++ [lf])) =
      [byte '#' :: comment, rest ++ [lf]] := by
  rw [List.mem_append, not_or] at oneLine
  have first : Complete 256 (byte '#' :: comment) := by
    refine ⟨by rw [List.length_cons]; omega, .inl ⟨?_, by rw [List.length_cons]; omega⟩⟩
    rw [List.mem_cons, not_or]
    exact ⟨by decide, oneLine.1⟩
  have second : Complete 256 (rest ++ [lf]) :=
    ⟨by rw [List.length_append, List.length_singleton]; omega, .inr ⟨rest, rfl, oneLine.2⟩⟩
  have last := pieces_append (show 1 < 256 by decide) second []
  rw [List.append_nil, pieces_nil] at last
  rw [pieces_append (by decide) first, last]

/-- What stands behind the first 255 bytes of a comment sets what it would set as a line, and the
line sets nothing. -/
theorem nosConfigLoad_comment (full : comment.length = 254) (short : rest.length < 255)
    (oneLine : lf ∉ comment ++ rest) (nulFree : 0 ∉ comment ++ rest) (cfg : NosConfig) :
    nosConfigLoad (some (byte '#' :: comment ++ (rest ++ [lf]))) cfg =
        (0, cfg.set (settingOfLine (rest ++ [lf])).toList) ∧
      configOfLines (byte '#' :: comment ++ (rest ++ [lf])) cfg = cfg := by
  constructor
  · have clean : 0 ∉ byte '#' :: comment ++ (rest ++ [lf]) := by
      rw [List.cons_append, ← List.append_assoc, List.mem_cons, List.mem_append]
      rintro (mark | inside | ending)
      · exact absurd mark (by decide)
      · exact nulFree inside
      · exact absurd (List.mem_singleton.mp ending) (by decide)
    rw [nosConfigLoad_nulFree clean, pieces_comment full short oneLine,
      List.filterMap_cons_none (settingOfLine_comment comment)]
    cases set : settingOfLine (rest ++ [lf]) with
    | none => rw [List.filterMap_cons_none set]; rfl
    | some setting => rw [List.filterMap_cons_some set]; rfl
  · have noLf : lf ∉ byte '#' :: comment ++ rest := by
      rw [List.cons_append, List.mem_cons, not_or]
      exact ⟨by decide, oneLine⟩
    have line := fullLines_line noLf []
    rw [List.append_assoc] at line
    have unset : settingsOfFile (byte '#' :: comment ++ (rest ++ [lf])) = [] := by
      rw [settingsOfFile, line]
      exact List.filterMap_cons_none (settingOfLine_comment _)
    rw [configOfLines, unset]
    rfl

end Comments

/-- A long comment whose rest has the form of a setting. -/
def longComment : Text :=
  byte '#' :: List.replicate 254 (byte '-') ++ (text "HOME=gemini://evil/" ++ [lf])

/-- The comment sets the home page. -/
theorem longComment_not_readByLines : ¬ ReadByLines longComment := by
  intro byLines
  have noLf : lf ∉ List.replicate 254 (byte '-') ++ text "HOME=gemini://evil/" := by
    rw [List.mem_append, List.mem_replicate]
    decide
  have noNul : 0 ∉ List.replicate 254 (byte '-') ++ text "HOME=gemini://evil/" := by
    rw [List.mem_append, List.mem_replicate]
    decide
  obtain ⟨loaded, lines⟩ :=
    nosConfigLoad_comment List.length_replicate (by decide) noLf noNul nosConfigDefaults
  have same : nosConfigDefaults.set
      (settingOfLine (text "HOME=gemini://evil/" ++ [lf])).toList = nosConfigDefaults := by
    have reads := byLines nosConfigDefaults
    rw [longComment, loaded, lines] at reads
    exact congrArg Prod.snd reads
  have homes : text "gemini://evil/" = text "gemini://geminiprotocol.net/" :=
    congrArg (fun cfg => cfg.home.val) same
  exact absurd homes (by decide)

end Nosgem
