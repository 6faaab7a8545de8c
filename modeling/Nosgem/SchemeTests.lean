/-
This file compares the places at which a scheme is looked for. The parser takes
the scheme of the program in any letter case from the front of its text, the
main loop looks for it in lower case in front of what was typed, and all of them
refuse a text without it that has the mark of a scheme anywhere.

So a link to a path from the root differs from the same path behind the scheme
and the host where the path or its query holds the mark, unless the path is
refused anyway; and what was typed differs from what is parsed where it starts
with the scheme in other letters and goes on with an authority.
-/

import Nosgem.Browser
import Nosgem.DirectoryLinks

namespace Nosgem

open CText

/-! ### Links to a path from the root -/

/-- A text in which a path that is too long follows a host is refused. -/
theorem nosUrlParse_long {host path : Text} (noSlash : slash ∉ host)
    (rooted : path.head? = some slash) (long : pathSize ≤ path.length) :
    nosUrlParse (nosUrlScheme ++ host ++ path) = none := by
  refine Option.eq_none_iff_forall_ne_some.mpr fun url parsed => ?_
  rw [List.append_assoc] at parsed
  exact absurd (nosUrlParse_parts noSlash (.inr rooted) parsed).1 (not_lt.mpr long)

/-- A link to a path from the root is resolved against an accepted URL on the default port as the
text with the path behind the scheme and the host is parsed, exactly when the link does not hold the
mark of a scheme or is refused for its length or its depth. -/
theorem nosUrlResolve_rooted_iff {raw link : Text} {base : NosUrl}
    (parsed : nosUrlParse raw = some base) (port : base.port = nosDefaultPort)
    (rooted : link.head? = some slash) :
    nosUrlResolve base link = nosUrlParse (nosUrlScheme ++ base.host ++ link) ↔
      ¬ strstr link (text "://") ∨ pathSize ≤ link.length ∨ ¬ Shallow [] link := by
  have wellFormed := nosUrlParse_wellFormed parsed
  have nonempty : link ≠ [] := fun empty => by
    rw [empty] at rooted
    cases rooted
  have noScheme : ¬ strIEqN link nosUrlScheme nosUrlScheme.length := by
    cases link with
    | nil => exact absurd rfl nonempty
    | cons c link =>
      obtain rfl : c = slash := by simpa using rooted
      exact Bool.false_ne_true
  by_cases long : pathSize ≤ link.length
  · refine iff_of_true ?_ (.inr (.inl long))
    rw [nosUrlParse_long wellFormed.hostSlash rooted long, nosUrlResolve, if_neg nonempty,
      if_neg noScheme, if_pos rooted, if_pos long, ite_self]
  have short : link.length < pathSize := not_le.mp long
  have refused : normalizePath link pathSize = none ↔ ¬ Shallow [] link := by
    rw [normalizePath_rooted_eq_none_iff rooted short, Shallow]
    simp only [not_forall, not_lt, exists_prop]
  rw [or_iff_right long, ← refused,
    nosUrlParse_scheme wellFormed.hostSome wellFormed.hostShort wellFormed.hostSlash
      wellFormed.hostColon rooted short, ← port]
  by_cases mark : strstr link (text "://")
  · rw [nosUrlResolve, if_neg nonempty, if_neg noScheme, if_pos mark,
      or_iff_right (not_not.mpr mark), eq_comm, Option.map_eq_none_iff]
  · refine iff_of_true ?_ (.inl mark)
    rw [nosUrlResolve, if_neg nonempty, if_neg noScheme, if_neg mark, if_pos rooted, if_neg long]

/-- A link without the mark. -/
theorem nosUrlResolve_rooted_plain :
    nosUrlResolve ⟨text "h", nosDefaultPort, text "/a"⟩ (text "/x") =
      nosUrlParse (nosUrlScheme ++ text "h" ++ text "/x") :=
  (nosUrlResolve_rooted_iff (show nosUrlParse (text "gemini://h/a") =
    some ⟨text "h", nosDefaultPort, text "/a"⟩ by decide) rfl (by decide)).mpr (.inl (by decide))

/-- A link to a search for a URL is refused, and the same path behind the host is not. -/
theorem nosUrlResolve_rooted_mark :
    ∃ raw base link, nosUrlParse raw = some base ∧ base.port = nosDefaultPort ∧
      link.head? = some slash ∧ nosUrlResolve base link = none ∧
      nosUrlParse (nosUrlScheme ++ base.host ++ link) =
        some ⟨text "h", nosDefaultPort, text "/go?gemini:/b"⟩ :=
  ⟨text "gemini://h/a", ⟨text "h", nosDefaultPort, text "/a"⟩, text "/go?gemini://b", by decide,
    by decide, by decide, by decide, by decide⟩

/-! ### Typed texts -/

/-- An authority as the parser takes it: a host with a path or nothing behind it, or a host and a
port with nothing behind them. -/
inductive NamesAuthority : Text → Prop
  | host {host back : Text} (some : host ≠ []) (noSlash : slash ∉ host) (noColon : colon ∉ host)
      (separated : back = [] ∨ back.head? = .some slash) : NamesAuthority (host ++ back)
  | port {host digits : Text} (some : host ≠ []) (noSlash : slash ∉ host) (noColon : colon ∉ host)
      (allDigits : isAllDigits digits) (positive : 0 < decimalValue digits)
      (small : decimalValue digits ≤ 65535) : NamesAuthority (host ++ colon :: digits)

/-- The scheme in front decides, and then what follows it. -/
theorem nosUrlParse_congr {raw other : Text} (same : stripScheme raw = stripScheme other) :
    nosUrlParse raw = nosUrlParse other := by
  rw [nosUrlParse, nosUrlParse, same]

/-- A short path from the root is normalised. -/
theorem normalizePath_isSome {path : Text} (rooted : path.head? = some slash)
    (short : path.length + 1 < 2 * maxSegments) : ∃ result,
      normalizePath path pathSize = some result := by
  have fits : path.length < pathSize := by
    rw [maxSegments] at short
    rw [pathSize]
    omega
  exact ⟨_, (normalizePath_rooted_iff rooted fits).mpr ⟨shallow_of_short short, rfl⟩⟩

/-- A short text with an authority behind the scheme is accepted. -/
theorem nosUrlParse_of_namesAuthority {rest : Text} (names : NamesAuthority rest)
    (short : rest.length + 1 < 2 * maxSegments) :
    ∃ url, nosUrlParse (nosUrlScheme ++ rest) = some url := by
  rw [maxSegments] at short
  cases names with
  | @host host back some noSlash noColon separated =>
    rw [List.length_append] at short
    obtain ⟨path, normalized⟩ : ∃ path,
        normalizePath (if back = [] then [slash] else back) pathSize = .some path := by
      split
      · exact ⟨[slash], rfl⟩
      · rename_i nonempty
        exact normalizePath_isSome (separated.resolve_left nonempty) (by rw [maxSegments]; omega)
    rw [nosUrlParse_authority noSlash separated (by rw [pathSize]; omega)
      (parseAuthority_host some (by rw [hostSize]; omega) noColon), normalized]
    exact ⟨_, rfl⟩
  | @port host digits some noSlash noColon allDigits positive small =>
    rw [List.length_append] at short
    have noSlashAuthority : slash ∉ host ++ colon :: digits := by
      rw [List.mem_append, List.mem_cons, not_or, not_or]
      exact ⟨noSlash, by decide, noSlash_of_isAllDigits allDigits⟩
    have parsed := nosUrlParse_authority noSlashAuthority (.inl rfl) (by decide)
      (parseAuthority_port some (by rw [hostSize]; omega) noColon allDigits positive small)
    rw [List.append_nil] at parsed
    exact ⟨_, parsed⟩

/-- What is accepted behind the scheme starts with an authority. -/
theorem namesAuthority_of_nosUrlParse {rest : Text} {url : NosUrl}
    (parsed : nosUrlParse (nosUrlScheme ++ rest) = some url) : NamesAuthority rest := by
  obtain ⟨authority, pathStart, stripped, noSlash, separated, _, authorityParsed, _⟩ :=
    nosUrlParse_eq_some parsed
  obtain ⟨some, _, noColon, positive, small, form⟩ := parseAuthority_eq_some authorityParsed
  rw [stripScheme_scheme, Option.some.injEq] at stripped
  subst stripped
  rcases form with ⟨rfl, _⟩ | ⟨digits, rfl, allDigits, value⟩
  · exact .host some noSlash noColon separated
  · have noSlashHost : slash ∉ url.host := fun member => noSlash (List.mem_append_left _ member)
    rw [value] at positive small
    rcases separated with rfl | rooted
    · rw [List.append_nil] at allDigits ⊢
      exact .port some noSlashHost noColon allDigits positive small
    · have inside : slash ∈ digits ++ pathStart :=
        List.mem_append_right _ (List.mem_of_mem_head? rooted)
      exact absurd inside (noSlash_of_isAllDigits allDigits)

/-- Behind a scheme in any letters a short text is accepted exactly when it starts with an
authority. -/
theorem nosUrlParse_eq_none_iff {raw rest : Text} (stripped : stripScheme raw = some rest)
    (short : rest.length + 1 < 2 * maxSegments) :
    nosUrlParse raw = none ↔ ¬ NamesAuthority rest := by
  rw [nosUrlParse_congr (stripped.trans (stripScheme_scheme rest).symm)]
  constructor
  · intro refused names
    obtain ⟨url, parsed⟩ := nosUrlParse_of_namesAuthority names short
    rw [refused] at parsed
    cases parsed
  · intro other
    exact Option.eq_none_iff_forall_ne_some.mpr fun url parsed =>
      other (namesAuthority_of_nosUrlParse parsed)

/-- What was typed into a line of the main loop is parsed as the parser does it alone, unless it
starts with the scheme in other letters than lower case and goes on with an authority. -/
theorem parseUserUrl_eq_iff {input : Text} (short : input.length ≤ 255) :
    parseUserUrl input = nosUrlParse input ↔
      (strIEqN input nosUrlScheme nosUrlScheme.length →
        NamesAuthority (input.drop nosUrlScheme.length) → nosUrlScheme.isPrefixOf input) := by
  unfold parseUserUrl
  split
  · rename_i lower
    exact iff_of_true rfl fun _ _ => lower
  rename_i notLower
  split
  · rename_i mark
    by_cases starts : strIEqN input nosUrlScheme nosUrlScheme.length
    · have stripped : stripScheme input = some (input.drop nosUrlScheme.length) := if_pos starts
      have shortRest : (input.drop nosUrlScheme.length).length + 1 < 2 * maxSegments := by
        rw [List.length_drop, maxSegments, show nosUrlScheme.length = 9 from rfl]
        omega
      rw [eq_comm, nosUrlParse_eq_none_iff stripped shortRest]
      exact ⟨fun refused _ names => absurd names refused, fun agrees names =>
        notLower (agrees starts names)⟩
    · refine iff_of_true ?_ fun anyCase => absurd anyCase starts
      rw [nosUrlParse, stripScheme, if_neg starts, if_pos mark]
  · rename_i noMark
    have starts : ¬ strIEqN input nosUrlScheme nosUrlScheme.length := fun starts =>
      noMark (strstr_of_strIEqN starts)
    have stripped : stripScheme input = some input := by
      rw [stripScheme, if_neg starts, if_neg noMark]
    rw [if_neg (show ¬ input.length + 9 ≥ userUrlSize by rw [userUrlSize]; omega)]
    exact iff_of_true (nosUrlParse_congr ((stripScheme_scheme input).trans stripped.symm))
      fun anyCase => absurd anyCase starts

/-- A typed text with the scheme in lower case. -/
theorem parseUserUrl_lower :
    parseUserUrl (text "gemini://h/") = nosUrlParse (text "gemini://h/") :=
  (parseUserUrl_eq_iff (by decide)).mpr fun _ _ => by decide

/-- A typed text with the scheme in upper case is refused, though the parser takes it. -/
theorem parseUserUrl_upper :
    (text "GEMINI://h/").length ≤ 255 ∧ parseUserUrl (text "GEMINI://h/") = none ∧
      nosUrlParse (text "GEMINI://h/") = some ⟨text "h", nosDefaultPort, text "/"⟩ := by
  decide

end Nosgem
