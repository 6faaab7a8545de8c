/-
This file models `config.c`: the defaults of the configuration, `trim`, and
`nos_config_load`, which reads the file in pieces of its line buffer and lets
each piece set a field. An `unsigned int` has 16 bits and an `unsigned long` has
32; the home page is held in a buffer of 256 bytes.

Next to it stands what the format says of the file: the settings of its lines.
-/

import Nosgem.Assignments
import Nosgem.CText
import Mathlib.Data.List.DropRight

namespace Nosgem

open Assignments CText

/-! ### The configuration -/

/-- What the buffer of the home page can hold. -/
abbrev HomeText : Type := { home : Text // home.length < 256 }

/-- `nos_config_t`. -/
structure NosConfig where
  home : HomeText
  pageLines : UInt16
  maxBody : UInt32

/-- `nos_config_defaults`. -/
def nosConfigDefaults : NosConfig :=
  ⟨⟨text "gemini://geminiprotocol.net/", by decide⟩, 24, 524288⟩

/-! ### Reading values -/

/-- `trim`: blanks in front, and blanks and line ends behind. -/
def trim (s : Text) : Text :=
  (s.dropWhile isBlank).rdropWhile fun c => isBlank c || c == cr || c == lf

/-- What `atoi` and `strtoul` read: whether there is a minus sign, and the digits. -/
def numeral (s : Text) : Bool × Text :=
  match s.dropWhile isSpace with
  | [] => (false, [])
  | c :: rest =>
    if c = byte '-' then (true, rest.takeWhile isDigit)
    else if c = byte '+' then (false, rest.takeWhile isDigit)
    else (false, (c :: rest).takeWhile isDigit)

/-- `(unsigned int)atoi(s)`, computed in 16 bits. -/
def unsignedAtoi (s : Text) : UInt16 :=
  let value := UInt16.ofNat (decimalValue (numeral s).2)
  if (numeral s).1 then -value else value

/-- `strtoul(s, NULL, 10)`: a number out of range gives `ULONG_MAX`. -/
def strtoul (s : Text) : UInt32 :=
  let value := decimalValue (numeral s).2
  if value ≤ 0xFFFFFFFF then
    if (numeral s).1 then -UInt32.ofNat value else UInt32.ofNat value
  else 0xFFFFFFFF

/-- `strncpy(home, s, sizeof(home) - 1)` and the NUL behind it. -/
def copyHome (s : Text) : HomeText :=
  ⟨s.take 255, Nat.lt_succ_of_le (List.length_take_le 255 s)⟩

/-! ### Loading -/

/-- What the loop of `nos_config_load` does with one piece. -/
def nosConfigPiece (cfg : NosConfig) (line : Text) : NosConfig :=
  let line := trim (cString line)
  if line = [] ∨ line.head? = some (byte '#') then cfg
  else
    -- `eq` is what stands behind the first `=`
    match line.dropWhile (· ≠ byte '=') with
    | [] => cfg
    | _ :: eq =>
      let line := trim (line.takeWhile (· ≠ byte '='))
      let eq := trim eq
      if line = text "HOME" then { cfg with home := copyHome eq }
      else if line = text "PAGE_LINES" then { cfg with pageLines := unsignedAtoi eq }
      else if line = text "MAX_BODY" then { cfg with maxBody := strtoul eq }
      else cfg

/-- `nos_config_load` for what the file holds, if it can be opened. -/
def nosConfigLoad (file : Option Text) (cfg : NosConfig) : Int × NosConfig :=
  match file with
  | none => (-1, cfg)
  | some file => (0, (pieces 256 file).foldl nosConfigPiece cfg)

/-! ### The settings of a line -/

/-- The keys of the configuration. -/
inductive ConfigKey where
  | home
  | pageLines
  | maxBody
  deriving DecidableEq, Repr

/-- The values of the keys. -/
abbrev ConfigValue : ConfigKey → Type
  | .home => HomeText
  | .pageLines => UInt16
  | .maxBody => UInt32

instance (key : ConfigKey) : Nontrivial (ConfigValue key) :=
  match key with
  | .home => ⟨⟨[], by decide⟩, ⟨[0], by decide⟩, by decide⟩
  | .pageLines => ⟨0, 1, by decide⟩
  | .maxBody => ⟨0, 1, by decide⟩

/-- A key and the value that it is set to. -/
abbrev Setting : Type := Assignment ConfigValue

/-- The setting of a key that the configuration knows. -/
def settingOfKey (key value : Text) : Option Setting :=
  if key = text "HOME" then some ⟨.home, copyHome value⟩
  else if key = text "PAGE_LINES" then some ⟨.pageLines, unsignedAtoi value⟩
  else if key = text "MAX_BODY" then some ⟨.maxBody, strtoul value⟩
  else none

/-- The setting of a line: none when it is empty, a comment, or without `=`. -/
def settingOfLine (line : Text) : Option Setting :=
  let line := trim line
  if line = [] ∨ line.head? = some (byte '#') ∨ byte '=' ∉ line then none
  else
    settingOfKey (trim (line.takeWhile (· ≠ byte '=')))
      (trim (line.dropWhile (· ≠ byte '=')).tail)

/-- The settings of a file: those of its lines. -/
def settingsOfFile (file : Text) : List Setting := (fullLines file).filterMap settingOfLine

/-! ### Configurations as stores -/

/-- A configuration as a store of its keys. -/
def NosConfig.get (cfg : NosConfig) : (key : ConfigKey) → ConfigValue key
  | .home => cfg.home
  | .pageLines => cfg.pageLines
  | .maxBody => cfg.maxBody

/-- The configuration that holds a store. -/
def NosConfig.ofStore (store : (key : ConfigKey) → ConfigValue key) : NosConfig :=
  ⟨store .home, store .pageLines, store .maxBody⟩

@[simp] theorem NosConfig.get_ofStore (store : (key : ConfigKey) → ConfigValue key) :
    (NosConfig.ofStore store).get = store := by
  funext key
  cases key <;> rfl

theorem NosConfig.get_injective : Function.Injective NosConfig.get := by
  intro cfg other same
  have home : cfg.home = other.home := congrFun same .home
  have pageLines : cfg.pageLines = other.pageLines := congrFun same .pageLines
  have maxBody : cfg.maxBody = other.maxBody := congrFun same .maxBody
  cases cfg
  cases other
  cases home
  cases pageLines
  cases maxBody
  rfl

/-- The configuration after settings. -/
def NosConfig.set (cfg : NosConfig) (settings : List Setting) : NosConfig :=
  .ofStore (settings.foldl assign cfg.get)

@[simp] theorem NosConfig.get_set (cfg : NosConfig) (settings : List Setting) :
    (cfg.set settings).get = settings.foldl assign cfg.get := NosConfig.get_ofStore _

/-- The configuration that the lines of a file make, one after the other. -/
def configOfLines (file : Text) (cfg : NosConfig) : NosConfig := cfg.set (settingsOfFile file)

/-- A known key sets its field. -/
theorem set_settingOfKey (cfg : NosConfig) (key value : Text) :
    (if key = text "HOME" then { cfg with home := copyHome value }
      else if key = text "PAGE_LINES" then { cfg with pageLines := unsignedAtoi value }
      else if key = text "MAX_BODY" then { cfg with maxBody := strtoul value }
      else cfg) = cfg.set (settingOfKey key value).toList := by
  apply NosConfig.get_injective
  rw [NosConfig.get_set]
  unfold settingOfKey
  split_ifs <;> funext other <;> cases other <;> rfl

/-- `strchr` finds no `=` exactly in the texts without one. -/
theorem dropWhile_ne_eq_nil {s : Text} {mark : Byte} :
    s.dropWhile (· ≠ mark) = [] ↔ mark ∉ s := by
  rw [List.dropWhile_eq_nil_iff]
  grind

/-- One piece sets what the piece, read as a line, sets. -/
theorem nosConfigPiece_eq (cfg : NosConfig) (line : Text) :
    nosConfigPiece cfg line = cfg.set (settingOfLine (cString line)).toList := by
  unfold nosConfigPiece settingOfLine
  generalize trim (cString line) = s
  have unset : cfg = cfg.set (none : Option Setting).toList := NosConfig.get_injective (by simp)
  by_cases skipped : s = [] ∨ s.head? = some (byte '#')
  · have ignored : s = [] ∨ s.head? = some (byte '#') ∨ byte '=' ∉ s := by grind
    simp only [if_pos skipped, if_pos ignored]
    exact unset
  · cases found : s.dropWhile (· ≠ byte '=') with
    | nil =>
      have ignored : s = [] ∨ s.head? = some (byte '#') ∨ byte '=' ∉ s :=
        .inr (.inr (dropWhile_ne_eq_nil.mp found))
      simp only [if_neg skipped, if_pos ignored, found]
      exact unset
    | cons c eq =>
      have kept : ¬ (s = [] ∨ s.head? = some (byte '#') ∨ byte '=' ∉ s) := by
        rw [← dropWhile_ne_eq_nil, found]
        grind
      simp only [if_neg skipped, if_neg kept, found]
      exact set_settingOfKey cfg _ _

/-- Settings one after the other are the settings together. -/
theorem NosConfig.set_append (cfg : NosConfig) (first later : List Setting) :
    cfg.set (first ++ later) = (cfg.set first).set later :=
  NosConfig.get_injective (by simp)

/-- Settings leave every configuration the same exactly when they give every key the same last
value. -/
theorem NosConfig.set_eq_iff {settings others : List Setting} :
    (∀ cfg : NosConfig, cfg.set settings = cfg.set others) ↔
      ∀ key, lastFor key settings = lastFor key others := by
  rw [← foldl_assign_eq_iff]
  constructor
  · intro same store
    have stores := congrArg NosConfig.get (same (.ofStore store))
    rwa [NosConfig.get_set, NosConfig.get_set, NosConfig.get_ofStore] at stores
  · intro same cfg
    exact congrArg NosConfig.ofStore (same cfg.get)

/-- Pieces set, one after the other, what each of them sets. -/
theorem foldl_nosConfigPiece (lines : List Text) (cfg : NosConfig) :
    lines.foldl nosConfigPiece cfg =
      cfg.set (lines.filterMap fun line => settingOfLine (cString line)) := by
  induction lines generalizing cfg with
  | nil => exact NosConfig.get_injective (by simp)
  | cons line lines inductionHypothesis =>
    rw [List.foldl_cons, inductionHypothesis, nosConfigPiece_eq, ← NosConfig.set_append]
    cases set : settingOfLine (cString line) <;> simp [set]

/-- `nos_config_load` leaves what the settings of the pieces make. -/
theorem nosConfigLoad_some (file : Text) (cfg : NosConfig) :
    nosConfigLoad (some file) cfg =
      (0, cfg.set ((pieces 256 file).filterMap fun line => settingOfLine (cString line))) := by
  rw [← foldl_nosConfigPiece]
  rfl

end Nosgem
