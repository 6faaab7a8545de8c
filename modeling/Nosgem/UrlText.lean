/-
This file settles whether the text `make_current_url` prints for a parsed URL
is parsed back to it. The printer writes every port but the default one behind
the host and always writes a path; the parser accepts a port only where it ends
the URL. So the round trip works exactly for the texts that name no port or the
default port.
-/

import Nosgem.Url

namespace Nosgem

open CText

/-- The port a URL text names, when it names one: the number behind the first colon of its
authority. -/
def explicitPort (raw : Text) : Option Nat :=
  match stripScheme raw with
  | none => none
  | some p =>
    match (p.takeWhile (· != slash)).dropWhile (· != colon) with
    | [] => none
    | _ :: digits => some (decimalValue digits)

/-- The size of the buffer `main` prints a URL into. -/
def urlbufSize : Nat := 600

/-- The port of an accepted URL is the one its text names, else the default one. -/
theorem port_of_nosUrlParse {raw : Text} {url : NosUrl} (parsed : nosUrlParse raw = some url) :
    url.port = (explicitPort raw).getD nosDefaultPort := by
  obtain ⟨authority, pathStart, stripped, noSlash, shape, _, authorityParsed, _⟩ :=
    nosUrlParse_eq_some parsed
  obtain ⟨_, _, noColon, _, _, form⟩ := parseAuthority_eq_some authorityParsed
  simp only [explicitPort, stripped, PathStack.takeWhile_separated noSlash shape]
  rcases form with ⟨equal, port⟩ | ⟨digits, equal, _, port⟩
  · have dropped : authority.dropWhile (· != colon) = [] := by
      simpa [equal] using fun c member (same : c = colon) => noColon (same ▸ member)
    rw [dropped, port]
    rfl
  · rw [equal, PathStack.dropWhile_mark noColon, port]
    rfl

theorem makeCurrentUrl_eq {url : NosUrl} {outMax : Nat} (fits : makeCurrentUrl url outMax ≠ []) :
    makeCurrentUrl url outMax =
      nosUrlScheme ++ url.host ++
        (if url.port ≠ nosDefaultPort then colon :: decimal url.port else []) ++ url.path := by
  unfold makeCurrentUrl at fits ⊢
  split
  · rename_i long
    exact absurd (if_pos long) fits
  · rfl

/-- A well-formed URL on the default port is parsed back from its text. -/
theorem nosUrlParse_of_defaultPort {url : NosUrl} (wellFormed : url.WellFormed)
    (default : url.port = nosDefaultPort) :
    nosUrlParse (nosUrlScheme ++ url.host ++ url.path) = some url := by
  rw [nosUrlParse_scheme wellFormed.hostSome wellFormed.hostShort wellFormed.hostSlash
    wellFormed.hostColon wellFormed.path.head? wellFormed.path.length_lt,
    normalizePath_of_normalPath wellFormed.path, Option.map_some, ← default]

/-- The printed text of an accepted URL is parsed back to it exactly when the accepted text names no
port or the default port. -/
theorem nosUrlParse_makeCurrentUrl_iff (s : Text) (url : NosUrl) (parsed : nosUrlParse s = some url)
    (printed : makeCurrentUrl url urlbufSize ≠ []) :
    nosUrlParse (makeCurrentUrl url urlbufSize) = some url ↔
      explicitPort s = none ∨ explicitPort s = some nosDefaultPort := by
  have wellFormed := nosUrlParse_wellFormed parsed
  have port := port_of_nosUrlParse parsed
  have named : explicitPort s = none ∨ explicitPort s = some nosDefaultPort ↔
      url.port = nosDefaultPort := by
    rw [port]
    cases explicitPort s <;> simp
  rw [named, makeCurrentUrl_eq printed]
  by_cases default : url.port = nosDefaultPort
  · simp only [default, ne_eq, not_true, if_false, List.append_nil, iff_true]
    exact nosUrlParse_of_defaultPort wellFormed default
  · simp only [default, ne_eq, not_false_eq_true, if_true, iff_false]
    rw [nosUrlParse_port_path wellFormed.hostSlash wellFormed.hostColon
      (fun d member => isDigit_of_mem_decimal member) wellFormed.path.head?]
    simp

/-- The round trip at an input with dot segments and no port. -/
theorem nosUrlParse_makeCurrentUrl_noPort :
    nosUrlParse (makeCurrentUrl ⟨text "a.b", 1965, text "/d"⟩ urlbufSize) =
      some ⟨text "a.b", 1965, text "/d"⟩ :=
  (nosUrlParse_makeCurrentUrl_iff (text "gemini://a.b/c/..//d") _ (by decide) (by decide)).mpr
    (by decide)

/-- A URL on another port is printed as a text the parser refuses. -/
theorem nosUrlParse_makeCurrentUrl_refuses :
    nosUrlParse (text "example.org:1966") = some ⟨text "example.org", 1966, text "/"⟩ ∧
      makeCurrentUrl ⟨text "example.org", 1966, text "/"⟩ urlbufSize ≠ [] ∧
      nosUrlParse (makeCurrentUrl ⟨text "example.org", 1966, text "/"⟩ urlbufSize) = none := by
  decide

end Nosgem
