/-
This file settles whether the key of a check fits its buffer. The key is the
host, a colon and the port, written by `sprintf` into 256 bytes. The URL parser
keeps a host below 256 bytes, so a host can fill the buffer of the key before
the colon; what keeps the key short in practice is the resolver, which refuses a
long name. It does not refuse a long host that reads as a numeric address, and a
redirect can supply one.
-/

import Nosgem.Exchanges
import Nosgem.UrlInvariant

namespace Nosgem

open CText Interaction

/-! ### The resolver -/

/-- A host that the resolver takes for a numeric address: digits and dots only, four numbers with
dots between them first. -/
structure DottedNumeric (host : Text) : Prop where
  bytes : ∀ c ∈ host, isDigit c ∨ c = byte '.'
  numbers : ∃ first second third fourth rest,
    host = first ++ byte '.' :: second ++ byte '.' :: third ++ byte '.' :: fourth ++ rest ∧
    ∀ number ∈ [first, second, third, fourth], number ≠ [] ∧ ∀ c ∈ number, isDigit c

/-- The longest name the resolver looks up. -/
def longestName : Nat := 126

/-- Any answers, but a host is resolved only when it is a numeric address or a short name. -/
def resolverEnv : Env Answer Unit := fun _ op answer _ =>
  match op, answer with
  | .dnsResolve host _, rc => rc = (0 : Int) → DottedNumeric host ∨ host.length ≤ longestName
  | _, _ => True

/-- A connect that succeeds has resolved its host. -/
theorem resolved_of_connect {fuel : Nat} {host : Text} {port : Nat} {tls : NosTlsCtx}
    {trace : List (Event Answer)}
    (run : Steps resolverEnv () (nosTlsConnect fuel host port) trace () (.ret (0, tls))) :
    DottedNumeric host ∨ host.length ≤ longestName := by
  unfold nosTlsConnect at run
  obtain ⟨resolved, _, _, _, resolving, rest, _⟩ := run.bind_ret
  split at rest
  · cases rest.of_ret.2.2
  rename_i zero
  unfold nosDnsResolve at resolving
  obtain ⟨_, _, _, _, rest, _⟩ := resolving.perform_ret
  split at rest
  · obtain ⟨-, -, equal⟩ := rest.of_ret
    cases equal
    exact absurd (by decide) zero
  obtain ⟨_, _, _, _, _, polled, _⟩ := rest.bind_ret
  obtain ⟨answer, _, _, answered, rest, _⟩ := polled.perform_ret
  split at rest
  · obtain ⟨-, -, equal⟩ := rest.of_ret
    cases equal
    exact absurd (by decide) zero
  rename_i same
  exact answered (not_not.mp same)

/-! ### The port -/

/-- The digits of a port. -/
theorem length_decimal_port {port : Nat} (small : port ≤ 65535) : (decimal port).length ≤ 5 := by
  rw [decimal, List.length_map, Nat.length_toDigits_le_iff (by decide) (by decide)]
  omega

/-- Every turn of the request loop has a port of 16 bits, when its first URL had one. -/
theorem port_of_iterates {State User : Type} {env : Env Answer State} {fuel : Nat}
    {cb : BodyCb User} {start here : StreamState User} {state middle : State}
    {visited : List (StreamState User)} {trace : List (Event Answer)}
    (iterates : Iterates env (exchange fuel cb) start state visited trace here middle)
    (small : start.current.port ≤ 65535) : here.current.port ≤ 65535 := by
  refine iterates.invariant (fun st => st.current.port ≤ 65535) (fun small turn => ?_) small
  obtain ⟨-, leads, -⟩ := exchange_next turn
  rcases leads with ⟨_, _, line, applied⟩ | ⟨_, _, resolved⟩
  · obtain ⟨_, _, _, same⟩ := applyQuery_eq_some applied
    rw [same]
    exact small
  · rcases nosUrlResolve_eq_some resolved with
      ⟨_, same⟩ | ⟨_, parsed⟩ | ⟨_, _, same⟩ | ⟨_, _, _, _, same⟩
    · rw [same]
      exact small
    · exact (nosUrlParse_wellFormed parsed).portSmall
    · rw [same]
      exact small
    · rw [same]
      exact small

/-! ### The key -/

/-- The buffer of the key in `check_known_host`. -/
def hostportSize : Nat := 256

/-- In every turn of a request loop that was started for an accepted URL, once the connect has
succeeded, the key that the certificate check writes fits its buffer exactly when the host is not a
numeric address of more than 254 bytes, the digits of the port counted in. -/
theorem hostport_fits_iff (raw : Text) (url : NosUrl) (parsed : nosUrlParse raw = some url)
    {User : Type} (fuel : Nat) (cb : BodyCb User) (user : User)
    (visited : List (StreamState User)) (requests connecting : List (Event Answer))
    (st : StreamState User) (tls : NosTlsCtx)
    (turns : Iterates resolverEnv (exchange fuel cb) (.initial url user) () visited requests st ())
    (connected : Steps resolverEnv () (nosTlsConnect fuel st.current.host st.current.port)
      connecting () (.ret (0, tls))) :
    (hostportText st.current.host st.current.port).length + 1 ≤ hostportSize ↔
      (DottedNumeric st.current.host →
        st.current.host.length + (decimal st.current.port).length ≤ 254) := by
  have port : st.current.port ≤ 65535 :=
    port_of_iterates turns (nosUrlParse_wellFormed parsed).portSmall
  have digits := length_decimal_port port
  have key : (hostportText st.current.host st.current.port).length =
      st.current.host.length + ((decimal st.current.port).length + 1) := by
    rw [hostportText, List.length_append, List.length_cons]
  rw [key, hostportSize]
  constructor
  · intro fits _
    omega
  · intro bounded
    rcases resolved_of_connect connected with numeric | short
    · have := bounded numeric
      omega
    · rw [longestName] at short
      omega

/-- A connect to a host that the resolver takes. -/
theorem nosTlsConnect_resolves {host : Text} (resolved : DottedNumeric host ∨
    host.length ≤ longestName) (fuel port : Nat) : Steps resolverEnv ()
      (nosTlsConnect (fuel + 1) host port) (connecting host port) () (.ret (0, openTls)) := by
  refine (nosTlsConnect_run fuel host port).of_any ?_
  simp only [connecting, List.forall_mem_cons]
  exact ⟨fun _ => resolved, trivial, fun _ => resolved, trivial, trivial, trivial, trivial, trivial,
    trivial, trivial, trivial, trivial, trivial, trivial, by simp⟩

/-- A numeric address of the usual length. -/
theorem hostport_fits_address : DottedNumeric (text "127.0.0.1") ∧
    (hostportText (text "127.0.0.1") 1965).length + 1 ≤ hostportSize := by
  have numeric : DottedNumeric (text "127.0.0.1") :=
    ⟨by decide, text "127", text "0", text "0", text "1", [], rfl, by decide⟩
  have bounded : (text "127.0.0.1").length + (decimal 1965).length ≤ 254 := by decide
  refine ⟨numeric, (hostport_fits_iff (text "gemini://127.0.0.1/")
    ⟨text "127.0.0.1", 1965, [slash]⟩ (by decide) 1 takeAll () [] [] _
    (.initial ⟨text "127.0.0.1", 1965, [slash]⟩ ()) openTls (.refl _ _)
    (nosTlsConnect_resolves (.inl numeric) 0 1965)).mpr fun _ => bounded⟩

/-- A numeric address with dots up to 251 bytes. -/
def longAddress : Text := text "1.2.3.4" ++ List.replicate 244 (byte '.')

theorem dottedNumeric_longAddress : DottedNumeric longAddress := by
  refine ⟨fun c member => ?_, text "1", text "2", text "3", text "4",
    List.replicate 244 (byte '.'), rfl, by decide⟩
  rcases List.mem_append.mp member with head | tail
  · exact (by decide : ∀ c ∈ text "1.2.3.4", isDigit c ∨ c = byte '.') c head
  · exact .inr (List.eq_of_mem_replicate tail)

/-- The key of a long numeric address overflows its buffer: the URL is accepted, and the first turn
of its request loop connects and goes on to the check. -/
theorem hostport_overflows :
    ∃ url trace tls, nosUrlParse (nosUrlScheme ++ longAddress ++ [slash]) = some url ∧
      Steps resolverEnv () (nosTlsConnect 1 url.host url.port) trace () (.ret (0, tls)) ∧
      hostportSize < (hostportText url.host url.port).length + 1 := by
  have absent (mark : Byte) (other : mark ∉ text "1.2.3.4" ∧ mark ≠ byte '.') :
      mark ∉ longAddress := by
    rw [longAddress, List.mem_append, not_or]
    exact ⟨other.1, fun member => other.2 (List.eq_of_mem_replicate member)⟩
  have size : longAddress.length = 251 := by
    rw [longAddress, List.length_append, List.length_replicate]
    rfl
  have parsed := @nosUrlParse_scheme longAddress [slash] (List.ne_nil_of_length_pos (by omega))
    (by rw [size]; decide) (absent slash (by decide)) (absent colon (by decide)) rfl (by decide)
  refine ⟨⟨longAddress, nosDefaultPort, [slash]⟩, _, openTls, parsed,
    nosTlsConnect_resolves (.inl dottedNumeric_longAddress) 0 nosDefaultPort, ?_⟩
  show hostportSize < (hostportText longAddress nosDefaultPort).length + 1
  rw [hostportText, List.length_append, size]
  decide

end Nosgem
