/-
This file settles whether a request line denotes the URL being fetched. Every
write of the request loop is the request for its current URL, and the current
URL comes from the parser, from an answered prompt or from a redirect. The
request spells out the scheme, the host and the path, so it is parsed back to
the current URL exactly when that URL is on the default port and its path is
normal. A prompt keeps both; a redirect keeps them unless its META names
another port, or is a query that is appended to the path as it stands.
-/

import Nosgem.Queries
import Nosgem.TrustGate
import Nosgem.Turns
import Nosgem.UrlText

namespace Nosgem

open CText Interaction

/-! ### Encoded queries -/

/-- A byte `url_encode_query` puts out. -/
def QueryByte (c : Byte) : Prop := isUnreserved c ∨ c = byte '%'

theorem isUnreserved_of_isUpperHex {c : Byte} (hex : Percent.isUpperHex c) : isUnreserved c := by
  simp only [Percent.isUpperHex, isUnreserved, Bool.or_eq_true, Bool.and_eq_true,
    decide_eq_true_eq, UInt8.le_iff_toNat_le] at hex ⊢
  have marks : (byte 'F').toNat = 70 ∧ (byte 'Z').toNat = 90 := by decide
  rcases hex with digit | ⟨low, high⟩
  · exact .inl (.inl (.inl (.inl (.inr digit))))
  · exact .inl (.inl (.inl (.inl (.inl (.inl ⟨low, by omega⟩)))))

theorem queryByte_encodedQuery {query : Text} {c : Byte} (member : c ∈ encodedQuery query) :
    QueryByte c := by
  rcases (Percent.encoded_encode query).mem member with unreserved | percent | hex
  · exact .inl unreserved
  · exact .inr percent
  · exact .inl (isUnreserved_of_isUpperHex hex)

/-- The path of a URL with an answer as its query. -/
theorem applyQuery_eq_some {base next : NosUrl} {query : Text}
    (applied : applyQuery base query = some next) :
    ∃ encoded, (∀ c ∈ encoded, QueryByte c) ∧
      (base.path.takeWhile (· != question)).length + 1 + encoded.length < pathSize ∧
      next = { base with path := base.path.takeWhile (· != question) ++ question :: encoded } := by
  rw [applyQuery_eq] at applied
  split at applied
  · rename_i fits
    refine ⟨_, fun c => queryByte_encodedQuery, ?_, (Option.some.inj applied).symm⟩
    have short := fits.2
    rw [List.length_append, List.length_cons, pathOnly] at short
    rw [pathSize]
    omega
  · cases applied

theorem not_mem_of_queryByte {encoded : Text} (bytes : ∀ c ∈ encoded, QueryByte c) {c : Byte}
    (other : ¬ QueryByte c) : c ∉ encoded := fun member => other (bytes c member)

theorem not_queryByte_slash : ¬ QueryByte slash := by
  simp only [QueryByte]
  decide

/-! ### The current URL -/

/-- What the request needs of every current URL: a host the parser can cut out again, and a path
from the root that fits its buffer. -/
structure NosUrl.Addressed (url : NosUrl) : Prop where
  hostSome : url.host ≠ []
  hostShort : url.host.length < hostSize
  hostSlash : slash ∉ url.host
  hostColon : colon ∉ url.host
  rooted : url.path.head? = some slash
  fits : url.path.length < pathSize

theorem NosUrl.WellFormed.addressed {url : NosUrl} (wellFormed : url.WellFormed) :
    url.Addressed where
  hostSome := wellFormed.hostSome
  hostShort := wellFormed.hostShort
  hostSlash := wellFormed.hostSlash
  hostColon := wellFormed.hostColon
  rooted := wellFormed.path.head?
  fits := wellFormed.path.length_lt

/-- A new path from the root keeps a URL addressed. -/
theorem NosUrl.Addressed.withPath {url : NosUrl} (addressed : url.Addressed) {path : Text}
    (rooted : path.head? = some slash) (fits : path.length < pathSize) :
    ({ url with path } : NosUrl).Addressed :=
  { addressed with rooted, fits }

theorem head?_takeWhile_question {path : Text} (rooted : path.head? = some slash) (rest : Text) :
    (path.takeWhile (· != question) ++ rest).head? = some slash := by
  obtain ⟨tail, rfl⟩ := eq_slash_cons rooted
  rw [List.takeWhile_cons_of_pos (by decide), List.cons_append, List.head?_cons]

theorem NosUrl.Addressed.applyQuery {base next : NosUrl} {query : Text} (addressed : base.Addressed)
    (applied : Nosgem.applyQuery base query = some next) : next.Addressed := by
  obtain ⟨encoded, _, fits, rfl⟩ := applyQuery_eq_some applied
  refine addressed.withPath (head?_takeWhile_question addressed.rooted _) ?_
  rw [List.length_append, List.length_cons]
  omega

theorem NosUrl.Addressed.nosUrlResolve {base next : NosUrl} {link : Text}
    (addressed : base.Addressed) (resolved : Nosgem.nosUrlResolve base link = some next) :
    next.Addressed := by
  rcases nosUrlResolve_eq_some resolved with ⟨_, rfl⟩ | ⟨_, parsed⟩ | ⟨_, fits, rfl⟩ |
    ⟨target, path, _, normalized, rfl⟩
  · exact addressed
  · exact (nosUrlParse_wellFormed parsed).addressed
  · refine addressed.withPath ?_ (by rwa [List.length_append])
    rw [List.head?_append, addressed.rooted, Option.some_or]
  · have normal := normalPath_of_normalizePath normalized
    exact addressed.withPath normal.head? normal.length_lt

/-- Whatever a turn reads, the next URL is addressed. -/
theorem NosUrl.Addressed.leadsTo {current next : NosUrl} {resp : NosGeminiResp}
    (addressed : current.Addressed) (leads : LeadsTo current resp next) : next.Addressed := by
  rcases leads with ⟨_, _, line, applied⟩ | ⟨_, _, resolved⟩
  · exact addressed.applyQuery applied
  · exact addressed.nosUrlResolve resolved

/-- The request of an addressed URL, without its line end, is parsed back to it exactly when the URL
is on the default port and `normalize_path` leaves its path alone. -/
theorem nosUrlParse_request_iff {url : NosUrl} (addressed : url.Addressed) :
    nosUrlParse (nosUrlScheme ++ url.host ++ url.path) = some url ↔
      url.port = nosDefaultPort ∧ normalizePath url.path pathSize = some url.path := by
  rw [nosUrlParse_scheme addressed.hostSome addressed.hostShort addressed.hostSlash
    addressed.hostColon addressed.rooted addressed.fits, Option.map_eq_some_iff]
  constructor
  · rintro ⟨path, normalized, equal⟩
    exact ⟨by rw [← equal], by rw [normalized, ← equal]⟩
  · rintro ⟨default, normal⟩
    exact ⟨url.path, normal, by rw [← default]⟩

/-! ### Turns that keep the text -/

variable {User State : Type} {env : Env Answer State}

/-- The text names no port other than the default one. -/
def NamesNoOtherPort (raw : Text) : Prop :=
  explicitPort raw = none ∨ explicitPort raw = some nosDefaultPort

/-- What a turn must read for the request of the next turn to denote its URL, when its own does: an
absolute META names no other port, and a query META leaves a path that is still normal. -/
def KeepsText (here next : StreamState User) : Prop :=
  30 ≤ next.resp.status →
    (strIEqN next.resp.metaText nosUrlScheme nosUrlScheme.length →
      NamesNoOtherPort next.resp.metaText) ∧
    (next.resp.metaText.head? = some question →
      normalizePath (here.current.path ++ next.resp.metaText) pathSize =
        some (here.current.path ++ next.resp.metaText))

theorem port_of_namesNoOtherPort {raw : Text} {url : NosUrl} (parsed : nosUrlParse raw = some url)
    (names : NamesNoOtherPort raw) : url.port = nosDefaultPort := by
  rw [port_of_nosUrlParse parsed]
  rcases names with none | default
  · rw [none, Option.getD_none]
  · rw [default, Option.getD_some]

/-- An answered prompt keeps the path normal: the query ends the last segment it leaves. -/
theorem normalPath_query {path encoded : Text} (normal : NormalPath path)
    (bytes : ∀ c ∈ encoded, QueryByte c)
    (fits : (path.takeWhile (· != question)).length + 1 + encoded.length < pathSize) :
    NormalPath (path.takeWhile (· != question) ++ question :: encoded) := by
  obtain ⟨stack, kept, room, rfl⟩ := normal
  obtain ⟨cut, cutKept, shorter, equal⟩ := PathStack.path_cut kept
    (show question ≠ slash by decide) (show question ≠ dot by decide)
    (not_mem_of_queryByte bytes not_queryByte_slash)
  refine ⟨cut, cutKept, ⟨?_, ?_⟩, equal⟩
  · have total : (PathStack.path slash cut).length < pathSize := by
      rw [← equal, List.length_append, List.length_cons]
      omega
    rw [PathStack.path] at total
    split at total
    · rename_i root
      rw [root]
      decide
    · exact total
  · have := room.segStarts
    have : 1 < maxSegments := by decide
    omega

/-- A turn that keeps the text leads from a URL on the default port with a normal path to
another one. -/
theorem leadsTo_keepsText {here next : StreamState User}
    (leads : LeadsTo here.current next.resp next.current) (keeps : KeepsText here next)
    (default : here.current.port = nosDefaultPort) (normal : NormalPath here.current.path) :
    next.current.port = nosDefaultPort ∧ NormalPath next.current.path := by
  rcases leads with ⟨_, _, line, applied⟩ | ⟨redirects, _, resolved⟩
  · obtain ⟨encoded, bytes, fits, equal⟩ := applyQuery_eq_some applied
    rw [equal]
    exact ⟨default, normalPath_query normal bytes fits⟩
  · obtain ⟨absolute, query⟩ := keeps redirects
    rcases nosUrlResolve_eq_some resolved with ⟨_, equal⟩ | ⟨isAbsolute, parsed⟩ |
      ⟨isQuery, fits, equal⟩ | ⟨target, path, _, normalized, equal⟩
    · rw [equal]
      exact ⟨default, normal⟩
    · exact ⟨port_of_namesNoOtherPort parsed (absolute isAbsolute),
        (nosUrlParse_wellFormed parsed).path⟩
    · rw [equal]
      exact ⟨default, normalizePath_eq_self_iff.mp (query isQuery)⟩
    · rw [equal]
      exact ⟨default, normalPath_of_normalizePath normalized⟩

/-! ### Every request of a run -/

/-- Every current URL of a run that starts with an accepted one is addressed. -/
theorem addressed_of_iterates {fuel : Nat} {cb : BodyCb User} {start here : StreamState User}
    {state middle : State} {visited : List (StreamState User)} {trace : List (Event Answer)}
    (iterates : Iterates env (exchange fuel cb) start state visited trace here middle)
    (addressed : start.current.Addressed) : here.current.Addressed :=
  iterates.invariant (fun st => st.current.Addressed)
    (fun addressed turn => addressed.leadsTo (exchange_next turn).2.1) addressed

/-- After turns that keep the text, the current URL is on the default port with a normal path. -/
theorem keepsText_of_iterates {fuel : Nat} {cb : BodyCb User} {start here : StreamState User}
    {state middle : State} {visited : List (StreamState User)} {trace : List (Event Answer)}
    (iterates : Iterates env (exchange fuel cb) start state visited trace here middle)
    (chain : (visited ++ [here]).IsChain KeepsText)
    (default : start.current.port = nosDefaultPort) (normal : NormalPath start.current.path) :
    here.current.port = nosDefaultPort ∧ NormalPath here.current.path :=
  iterates.invariant_of_good KeepsText
    (fun st => st.current.port = nosDefaultPort ∧ NormalPath st.current.path)
    (fun holds keeps turn => leadsTo_keepsText (exchange_next turn).2.1 keeps holds.1 holds.2)
    chain ⟨default, normal⟩

/-- Every request of a run is the scheme, the host and the path of the current URL. Without its line
end it is parsed back to the current URL exactly when that URL is on the default port and its path
is normal; and it is, when the starting text and every META read so far keep it so. -/
theorem requestLine_denotes_iff (raw : Text) (url : NosUrl) (parsed : nosUrlParse raw = some url)
    (fuel : Nat) (cb : BodyCb User) (user : User) (state final : State)
    (trace : List (Event Answer)) (conn : Option WolfSsl) (data : Text)
    (next : Int → Io (Int × StreamState User))
    (run : Steps env state (nosGeminiRequestStream fuel url cb user) trace final
      (.call (.sslWrite conn data) next)) :
    ∃ here visited front back middle inner line,
      Iterates env (exchange fuel cb) (.initial url user) state visited front here middle ∧
      Steps env middle (exchange fuel cb here) back final (.call (.sslWrite conn data) inner) ∧
      trace = front ++ back ∧ data = line ++ [cr, lf] ∧
      (nosUrlParse line = some here.current ↔ here.current.port = nosDefaultPort ∧
        normalizePath here.current.path pathSize = some here.current.path) ∧
      (NamesNoOtherPort raw → (visited ++ [here]).IsChain KeepsText →
        nosUrlParse line = some here.current) := by
  obtain ⟨here, visited, front, back, middle, inner, iterates, turn, equal⟩ := run.loop_call
  have wellFormed := nosUrlParse_wellFormed parsed
  have denotes := nosUrlParse_request_iff (addressed_of_iterates iterates wellFormed.addressed)
  refine ⟨here, visited, front, back, middle, inner, _, iterates, turn, equal,
    exchange_write turn, denotes, fun names chain => denotes.mpr ?_⟩
  obtain ⟨default, normal⟩ := keepsText_of_iterates iterates chain
    (port_of_namesNoOtherPort parsed names) wellFormed.path
  exact ⟨default, normalizePath_of_normalPath normal⟩

/-- The first request for `gemini://h/a` denotes that URL. -/
theorem requestLine_denotes_firstUse :
    ∃ final next, Steps diskEnv (fun _ => none)
        (nosGeminiRequestStream 1 ⟨text "h", 1965, text "/a"⟩ (fun _ _ _ => (0, ())) ())
        (firstUse (text "h") 1965 (.replicate 32 0)) final
        (.call (.sslWrite (some ⟨0⟩) (text "gemini://h/a" ++ [cr, lf])) next) ∧
      (nosUrlParse (text "gemini://h/a") = some ⟨text "h", 1965, text "/a"⟩ ↔
        1965 = nosDefaultPort ∧ normalizePath (text "/a") pathSize = some (text "/a")) ∧
      nosUrlParse (text "gemini://h/a") = some ⟨text "h", 1965, text "/a"⟩ := by
  obtain ⟨final, next, run⟩ := nosGeminiRequestStream_firstUse (fun _ _ _ => (0, ()))
    ⟨text "h", 1965, text "/a"⟩ () (.replicate 32 0) (by decide)
  obtain ⟨here, visited, front, back, _, _, line, iterates, _, parts, equal, denotes, keeps⟩ :=
    requestLine_denotes_iff (text "gemini://h/a") _ (by decide) 1 _ _ _ final _ _ _ next run
  have unread : ∀ event ∈ firstUse (text "h") 1965 (.replicate 32 0), ¬ IsRead event.op := by
    simp [firstUse, IsRead]
  obtain ⟨rfl, rfl⟩ := iterates_unread iterates fun event member =>
    unread event (parts ▸ List.mem_append_left _ member)
  obtain rfl : text "gemini://h/a" = line := List.append_cancel_right equal
  exact ⟨final, next, run, denotes, keeps (.inl (by decide)) (List.isChain_singleton _)⟩

/-- The request for a URL on another port denotes a URL on the default port. -/
theorem requestLine_loses_port :
    nosUrlParse (text "h:1966") = some ⟨text "h", 1966, text "/"⟩ ∧
      (∃ final next, Steps diskEnv (fun _ => none)
        (exchange 1 (fun _ _ _ => (0, ())) (.initial ⟨text "h", 1966, text "/"⟩ ()))
        (firstUse (text "h") 1966 (.replicate 32 0)) final
        (.call (.sslWrite (some ⟨0⟩) (text "gemini://h/" ++ [cr, lf])) next)) ∧
      nosUrlParse (text "gemini://h/") = some ⟨text "h", 1965, text "/"⟩ := by
  refine ⟨by decide, ?_, by decide⟩
  exact exchange_firstUse (fun _ _ _ => (0, ())) (.initial ⟨text "h", 1966, text "/"⟩ ())
    (.replicate 32 0) (by decide)

end Nosgem
