/-
This file settles the redirect-limit flag. The request loop sets the flag of the
error when a further 3x answer arrives after five redirects, and then calls
`set_err`, which clears it. So the flag is 0 after every request, which is right
exactly for the runs with at most five 3x answers; the sixth one fails the
request, with a flag that says that the limit was not reached. The answers are
counted in what the server sends, not in the variables of the loop.
-/

import Nosgem.RequestBounds

namespace Nosgem

open CText Interaction

/-! ### The answers of the server -/

/-- What was read byte by byte. -/
def headerBytes (trace : List (Event Answer)) : Text :=
  (trace.filterMap fun
    | ⟨.sslRead _ size, .data bytes _ _⟩ => if size = 1 then some bytes else none
    | _ => none).flatten

/-- The lines of a text up to the CR LF that ends them, with the unfinished line in front of it. -/
def crlfLines : (unfinished : Text) → Text → List Text
  | _, [] => []
  | unfinished, c :: rest =>
    if unfinished.getLast? = some cr ∧ c = lf then (unfinished ++ [c]) :: crlfLines [] rest
    else crlfLines (unfinished ++ [c]) rest

/-- A header line with a 3x status. -/
def isRedirect (header : Text) : Bool :=
  (parseHeader header ⟨0, []⟩ nosGeminiMaxHeader).1 = 0 ∧
    30 ≤ (parseHeader header ⟨0, []⟩ nosGeminiMaxHeader).2.status ∧
    (parseHeader header ⟨0, []⟩ nosGeminiMaxHeader).2.status < 40

/-- The 3x answers that have arrived. -/
def redirectAnswers (trace : List (Event Answer)) : Nat :=
  (crlfLines [] (headerBytes trace)).countP isRedirect

@[simp] theorem headerBytes_append (front back : List (Event Answer)) :
    headerBytes (front ++ back) = headerBytes front ++ headerBytes back := by
  rw [headerBytes, List.filterMap_append, List.flatten_append]
  rfl

theorem headerBytes_quiet {trace : List (Event Answer)}
    (quiet : ∀ event ∈ trace, ∀ conn, event.op ≠ .sslRead conn 1) : headerBytes trace = [] := by
  suffices none : trace.filterMap _ = [] by rw [headerBytes, none, List.flatten_nil]
  rw [List.filterMap_eq_nil_iff]
  rintro ⟨op, answer⟩ member
  have other := quiet _ member
  cases op with
  | sslRead conn size =>
    cases answer with
    | data bytes nonempty fits => exact if_neg fun one => other conn (congrArg _ one)
    | failed reason => rfl
  | _ => rfl

/-- What a header line says does not depend on the response in front of it. -/
theorem parseHeader_resp {line : Text} {resp parsed : NosGeminiResp} {metaMax : Nat}
    (complete : parseHeader line resp metaMax = (0, parsed)) (other : NosGeminiResp) :
    parseHeader line other metaMax = (0, parsed) := by
  unfold parseHeader at complete ⊢
  split at complete
  · split at complete
    · rename_i digits
      dsimp only at complete ⊢
      split at complete
      · cases complete
      · rename_i fits
        rw [if_pos digits, if_neg fits]
        exact complete
    · cases complete
  · cases complete

theorem isRedirect_iff {header : Text} {resp parsed : NosGeminiResp}
    (complete : parseHeader header resp nosGeminiMaxHeader = (0, parsed)) :
    isRedirect header ↔ 30 ≤ parsed.status ∧ parsed.status < 40 := by
  rw [isRedirect, parseHeader_resp complete ⟨0, []⟩]
  simp

theorem isRedirect_of_failed {header : Text} {resp : NosGeminiResp}
    (failed : (parseHeader header resp nosGeminiMaxHeader).1 ≠ 0) : ¬ isRedirect header := by
  intro redirects
  rw [isRedirect, decide_eq_true_eq] at redirects
  exact failed (congrArg Prod.fst (parseHeader_resp (Prod.ext redirects.1 rfl) resp))

/-! ### The header lines of a turn -/

section Turns

variable {User State : Type} {env : Env Answer State} {state final : State} {fuel : Nat}
  {cb : BodyCb User} {tls : NosTlsCtx} {st next : StreamState User} {trace : List (Event Answer)}

/-- A header line that is read is the next line of what the server sends, and where none is read no
line has come to its end. -/
theorem crlfLines_readHeaderBytes {conn : Option WolfSsl} {room : Nat} {buf : Text} {prev : Byte}
    {header : Option Text} (last : buf.getLast? = some cr ↔ prev = cr)
    (run : Steps env state (readHeaderBytes conn room buf prev) trace final (.ret header))
    {later : Text} (ends : header = none → later = []) :
    crlfLines buf (headerBytes trace ++ later) = header.toList ++ crlfLines [] later := by
  induction room generalizing buf prev state trace with
  | zero =>
    obtain ⟨rfl, _, equal⟩ := run.of_ret
    cases equal
    rw [ends rfl]
    rfl
  | succ room inductionHypothesis =>
    obtain ⟨answer, _, rest, _, tail, rfl⟩ := run.perform_ret
    cases answer with
    | failed =>
      obtain ⟨rfl, _, equal⟩ := tail.of_ret
      cases equal
      rw [ends rfl]
      rfl
    | data bytes nonempty fits =>
      obtain ⟨c, rfl⟩ : ∃ c, bytes = [c] := by
        obtain ⟨c, more, rfl⟩ := List.exists_cons_of_ne_nil nonempty
        obtain rfl : more = [] := List.length_eq_zero_iff.mp (by simpa using fits)
        exact ⟨c, rfl⟩
      have read : headerBytes (⟨.sslRead conn 1, .data [c] nonempty fits⟩ :: rest) =
          c :: headerBytes rest := rfl
      rw [read, List.cons_append, crlfLines]
      dsimp only at tail
      by_cases ended : prev = cr ∧ c = lf
      · rw [if_pos (show prev = cr ∧ [c].head _ = lf from ended)] at tail
        obtain ⟨rfl, _, equal⟩ := tail.of_ret
        cases equal
        exact if_pos ⟨last.mpr ended.1, ended.2⟩
      · rw [if_neg (show ¬ (prev = cr ∧ [c].head _ = lf) from ended)] at tail
        rw [if_neg fun here => ended ⟨last.mp here.1, here.2⟩]
        exact inductionHypothesis (by simp) tail

/-- The answer to a header reads no further header line. -/
theorem calls_respond_noHeader (fuel : Nat) (cb : BodyCb User) (tls : NosTlsCtx)
    (st : StreamState User) :
    Calls (fun op => ∀ conn, op ≠ .sslRead conn 1) (respond fuel cb tls st) := by
  have closing (op : Op) (closes : CloseOp op) : ∀ conn, op ≠ .sslRead conn 1 := by
    rintro conn rfl
    exact closes
  by_cases success : 20 ≤ st.resp.status ∧ st.resp.status < 30
  · unfold respond
    rw [if_pos success]
    refine Calls.bind (Calls.loop (fun here => .perform (by simp) fun answer => ?_) fuel _)
      fun done => ?_
    · cases answer with
      | failed => trivial
      | data bytes nonempty fits =>
        refine .perform (by simp) fun _ => ?_
        dsimp only
        split <;> trivial
    · dsimp only
      split <;> exact (calls_exit tls fun _ => ⟨_, rfl⟩).mono closing
  · refine (calls_respond_other success).mono fun op calls => ?_
    rcases calls with asks | closes
    · rintro conn rfl
      exact asks
    · exact closing op closes

theorem headerBytes_respond {left : Io (StreamState User ⊕ (Int × StreamState User))}
    (run : Steps env state (respond fuel cb tls st) trace final left) : headerBytes trace = [] :=
  headerBytes_quiet ((calls_respond_noHeader fuel cb tls st).of_mem run)

theorem headerBytes_exit {Result : Type} {value : Result} {left : Io Result}
    (run : Steps env state (nosTlsClose tls >>= fun _ => return value) trace final left) :
    headerBytes trace = [] := by
  refine headerBytes_quiet fun event member conn reads => ?_
  have closes := (calls_exit tls fun _ => ⟨_, rfl⟩).of_mem run event member
  rw [reads] at closes
  exact closes

/-- A turn that ends has failed with no 3x answer, or it has read one header line that parses and
acted on the response in it. -/
theorem exchange_answers {value : StreamState User ⊕ (Int × StreamState User)}
    (run : Steps env state (exchange fuel cb st) trace final (.ret value)) :
    (∃ done, value = .inr (-1, done) ∧ done.redirects = st.redirects ∧ redirectAnswers trace = 0) ∨
      ∃ tls header resp back middle, parseHeader header st.resp nosGeminiMaxHeader = (0, resp) ∧
        Steps env middle (respond fuel cb tls { st with resp }) back final (.ret value) ∧
        ∀ later, crlfLines [] (headerBytes trace ++ later) = header :: crlfLines [] later := by
  rcases exchange_parts run with
    ⟨⟨err, equal⟩, quiet⟩ | ⟨tls, header, front, line, back, _, _, rfl, quiet, read, answered⟩
  · have none : headerBytes trace = [] := headerBytes_quiet fun event member conn reads =>
      quiet event member (by rw [reads]; trivial)
    exact .inl ⟨_, equal, rfl, by rw [redirectAnswers, none]; rfl⟩
  have silent : headerBytes front = [] := headerBytes_quiet fun event member conn reads =>
    quiet event member (by rw [reads]; trivial)
  have lines {later : Text} (ends : header = none → later = []) :
      crlfLines [] (headerBytes line ++ later) = header.toList ++ crlfLines [] later :=
    crlfLines_readHeaderBytes (iff_of_false (by simp) (by decide)) read ends
  cases header with
  | none =>
    have none := lines (fun _ => rfl)
    refine .inl ⟨_, exit_fail answered, rfl, ?_⟩
    rw [redirectAnswers, headerBytes_append, headerBytes_append, silent, headerBytes_exit answered,
      List.nil_append, none]
    rfl
  | some header =>
    unfold answerHeader at answered
    dsimp only at answered
    split at answered
    · rename_i failed
      refine .inl ⟨_, exit_fail answered, rfl, ?_⟩
      rw [redirectAnswers, headerBytes_append, headerBytes_append, silent,
        headerBytes_exit answered, List.nil_append, lines nofun]
      exact List.countP_cons_of_neg (isRedirect_of_failed failed)
    · rename_i parsed
      refine .inr ⟨tls, header, _, back, _, Prod.ext (not_not.mp parsed) rfl, answered,
        fun later => ?_⟩
      rw [headerBytes_append, headerBytes_append, silent, headerBytes_respond answered,
        List.nil_append, List.append_nil]
      exact lines nofun

/-- A turn that goes on has read one header line, and it has followed it exactly when it is a 3x
answer. -/
theorem exchange_next_answers
    (run : Steps env state (exchange fuel cb st) trace final (.ret (.inl next))) :
    ∃ header, (∀ later, crlfLines [] (headerBytes trace ++ later) = header :: crlfLines [] later) ∧
      next.redirects = st.redirects + if isRedirect header then 1 else 0 := by
  rcases exchange_answers run with
    ⟨_, equal, _⟩ | ⟨tls, header, resp, back, _, parsed, responded, lines⟩
  · cases equal
  · refine ⟨header, lines, ?_⟩
    have same : next.resp = resp := (respond_next responded).resp
    rcases (respond_next responded).counts with ⟨status, _, counted⟩ | ⟨status, kept, _⟩
    · rw [same] at status
      rw [if_pos ((isRedirect_iff parsed).mpr status)]
      exact counted
    · rw [same] at status
      rw [if_neg fun redirects => by
        have := (isRedirect_iff parsed).mp redirects
        omega]
      exact kept

/-- The loop counts the 3x answers that it has followed. -/
theorem redirects_of_iterates {start here : StreamState User} {visited : List (StreamState User)}
    (iterates : Iterates env (exchange fuel cb) start state visited trace here final) :
    ∃ headers, (∀ later,
        crlfLines [] (headerBytes trace ++ later) = headers ++ crlfLines [] later) ∧
      here.redirects = start.redirects + headers.countP isRedirect := by
  induction iterates with
  | refl => exact ⟨[], fun _ => rfl, rfl⟩
  | step turn _ inductionHypothesis =>
    obtain ⟨header, line, counted⟩ := exchange_next_answers turn
    obtain ⟨headers, lines, total⟩ := inductionHypothesis
    refine ⟨header :: headers, fun later => ?_, ?_⟩
    · rw [headerBytes_append, List.append_assoc, line, lines, List.cons_append]
    · rw [total, counted, List.countP_cons]
      omega

/-! ### The flag -/

/-- How the branches on the status return: 0 leaves the error as it is and is not the answer to a
redirect, and an error comes from `set_err`, which clears the flag. -/
def Reports (st : StreamState User) (value : StreamState User ⊕ (Int × StreamState User)) : Prop :=
  ∀ rc done, value = .inr (rc, done) →
    (rc = 0 ∧ done.err = st.err ∧ ¬ (30 ≤ st.resp.status ∧ st.resp.status < 40)) ∨
      (rc = -1 ∧ done.err.redirectLimit = 0)

theorem reports_fail (st other : StreamState User) (message : Text) :
    Reports st (other.fail message) := by
  intro rc done equal
  cases equal
  exact .inr ⟨rfl, rfl⟩

theorem reports_inl (st next : StreamState User) : Reports st (.inl next) := nofun

theorem reports_respond (fuel : Nat) (cb : BodyCb User) (tls : NosTlsCtx) (st : StreamState User) :
    Yields (Reports st) (respond fuel cb tls st) := by
  have completes {done : StreamState User} (same : done.err = st.err)
      (other : ¬ (30 ≤ st.resp.status ∧ st.resp.status < 40)) : Reports st (.inr (0, done)) := by
    intro rc done equal
    cases equal
    exact .inl ⟨rfl, same, other⟩
  unfold respond
  split
  · refine .bind fun done => ?_
    dsimp only
    split
    · exact .bind fun _ => reports_fail st _ _
    · exact .bind fun _ => completes rfl (by omega)
  split
  · refine .bind fun _ => .bind fun line => ?_
    split
    · exact .bind fun _ => reports_fail st _ _
    · refine .bind fun _ => ?_
      split
      · exact reports_fail st _ _
      · exact reports_inl st _
  split
  · split
    · exact .bind fun _ => reports_fail st _ _
    · refine .bind fun _ => ?_
      split
      · exact reports_fail st _ _
      · exact reports_inl st _
  rename_i other
  split
  · exact .bind fun _ => completes rfl other
  split
  · exact .bind fun _ => completes rfl other
  · exact .bind fun _ => completes rfl other

/-- A turn that returns leaves the flag at 0, if it was 0. -/
theorem flag_exchange (cleared : st.err.redirectLimit = 0) :
    Yields (fun value => ∀ rc done, value = .inr (rc, done) → done.err.redirectLimit = 0)
      (exchange fuel cb st) := by
  have fails (other : StreamState User) (message : Text) (rc : Int) (done : StreamState User)
      (equal : other.fail message = .inr (rc, done)) : done.err.redirectLimit = 0 := by
    cases equal
    rfl
  unfold exchange
  refine .bind fun connected => ?_
  obtain ⟨rc, tls⟩ := connected
  dsimp only
  split
  · intro _ _ equal
    cases equal
    rfl
  refine .bind fun checked => ?_
  obtain ⟨trusted, terr⟩ := checked
  dsimp only
  split
  · exact .bind fun _ => fails _ _
  rw [converse_eq]
  split
  · exact .bind fun _ => fails _ _
  refine .bind fun written => ?_
  split
  · exact .bind fun _ => fails _ _
  refine .bind fun header => ?_
  cases header with
  | none => exact .bind fun _ => fails _ _
  | some header =>
    unfold answerHeader
    dsimp only
    split
    · exact .bind fun _ => fails _ _
    · refine (reports_respond fuel cb tls _).mono fun value reports rc done equal => ?_
      rcases reports rc done equal with ⟨_, same, _⟩ | ⟨_, zero⟩
      · rw [same]
        exact cleared
      · exact zero

theorem flag_of_iterates {start here : StreamState User} {visited : List (StreamState User)}
    (iterates : Iterates env (exchange fuel cb) start state visited trace here final)
    (cleared : start.err.redirectLimit = 0) : here.err.redirectLimit = 0 := by
  refine iterates.invariant (fun st => st.err.redirectLimit = 0) (fun cleared turn => ?_) cleared
  rcases exchange_ret turn with ⟨_, equal⟩ | ⟨_, _, _, _, _, _, _, responded, _⟩
  · cases equal
  · cases respond_next responded <;> exact cleared

/-- The flag is 0 after every request. -/
theorem flag_nosGeminiRequestStream {url : NosUrl} {user : User} {rc : Int}
    {done : StreamState User}
    (run : Steps env state (nosGeminiRequestStream fuel url cb user) trace final
      (.ret (rc, done))) : done.err.redirectLimit = 0 := by
  obtain ⟨here, visited, front, back, middle, iterates, turn, _⟩ := run.loop_ret
  exact (flag_exchange (flag_of_iterates iterates rfl)).of_steps turn rc done rfl

/-- The request failed because a further 3x answer arrived after five redirects. -/
def LimitExceeded (rc : Int) (trace : List (Event Answer)) : Prop :=
  rc = -1 ∧ 5 < redirectAnswers trace

/-- The sixth 3x answer fails the request. -/
theorem exceeds_nosGeminiRequestStream {url : NosUrl} {user : User} {rc : Int}
    {done : StreamState User}
    (run : Steps env state (nosGeminiRequestStream fuel url cb user) trace final
      (.ret (rc, done))) (more : 5 < redirectAnswers trace) : LimitExceeded rc trace := by
  refine ⟨?_, more⟩
  obtain ⟨here, visited, front, back, middle, iterates, turn, rfl⟩ := run.loop_ret
  obtain ⟨headers, lines, counted⟩ := redirects_of_iterates iterates
  obtain ⟨-, few, -⟩ := costs_of_iterates iterates (Nat.zero_le 5)
  replace counted : here.redirects = 0 + headers.countP isRedirect := counted
  rw [redirectAnswers, headerBytes_append, lines, List.countP_append] at more
  rcases exchange_answers turn with
    ⟨_, equal, _, none⟩ | ⟨tls, header, resp, last, _, parsed, responded, line⟩
  · cases equal
    rfl
  · have single := line []
    rw [List.append_nil] at single
    rw [single] at more
    have redirects : isRedirect header := by
      by_contra other
      rw [List.countP_cons_of_neg other] at more
      exact absurd more (by simp [crlfLines]; omega)
    have status := (isRedirect_iff parsed).mp redirects
    rcases (reports_respond fuel cb tls _).of_steps responded rc done rfl with
      ⟨_, _, other⟩ | ⟨failed, _⟩
    · exact absurd status other
    · exact failed

/-- The flag is 1 when the limit was exceeded, and 0 otherwise. -/
structure FlagExact (rc : Int) (trace : List (Event Answer)) (err : NosGeminiErr) : Prop where
  raised : err.redirectLimit = 1 ↔ LimitExceeded rc trace
  cleared : err.redirectLimit = 0 ↔ ¬ LimitExceeded rc trace

/-- The flag is exact in the runs with at most five 3x answers, and in no other run. -/
theorem nosGeminiRequestStream_redirectLimit_iff {url : NosUrl} {user : User} {rc : Int}
    {done : StreamState User}
    (run : Steps env state (nosGeminiRequestStream fuel url cb user) trace final
      (.ret (rc, done))) :
    FlagExact rc trace done.err ↔ redirectAnswers trace ≤ 5 := by
  have zero := flag_nosGeminiRequestStream run
  constructor
  · intro exact
    by_contra more
    exact exact.cleared.mp zero (exceeds_nosGeminiRequestStream run (not_le.mp more))
  · intro few
    have kept : ¬ LimitExceeded rc trace := fun exceeded => absurd few (not_le.mpr exceeded.2)
    exact ⟨iff_of_false (by rw [zero]; decide) kept, iff_of_true zero kept⟩

end Turns

/-- A page redirects to itself five times, and then its host is not found. -/
theorem redirectLimit_five :
    ∃ trace done, Steps anyEnv () (nosGeminiRequestStream 7 plainUrl takeAll ()) trace ()
        (.ret (-1, done)) ∧
      redirectAnswers trace = 5 ∧ FlagExact (-1) trace done.err := by
  obtain ⟨front, iterates⟩ := iterates_bounced 6 5 (Nat.le_refl 5)
  have turn : Steps anyEnv () (exchange 7 takeAll (bounced 5))
      [⟨.dnsResolve plainUrl.host true, (-1 : Int)⟩] () (.ret (.inr (-1, _))) := .any (.refl _ _)
  have run : Steps anyEnv () (nosGeminiRequestStream 7 plainUrl takeAll ()) _ () (.ret (-1, _)) :=
    iterates.loop_run turn (by decide)
  obtain ⟨headers, lines, counted⟩ := redirects_of_iterates iterates
  replace counted : 5 = 0 + headers.countP isRedirect := counted
  have five : redirectAnswers (front ++ [⟨.dnsResolve plainUrl.host true, (-1 : Int)⟩]) = 5 := by
    rw [redirectAnswers, headerBytes_append, lines, List.countP_append,
      ← Nat.zero_add (headers.countP _), ← counted]
    rfl
  exact ⟨_, _, run, five, (nosGeminiRequestStream_redirectLimit_iff run).mpr five.le⟩

/-- The sixth redirect of a page to itself fails the request and leaves the flag at 0. -/
theorem redirectLimit_lost :
    ∃ trace done, Steps anyEnv () (nosGeminiRequestStream 7 plainUrl takeAll ()) trace ()
        (.ret (-1, done)) ∧
      redirectAnswers trace = 6 ∧ done.err.msg = text "redirect limit exceeded" ∧
      done.err.redirectLimit = 0 := by
  obtain ⟨front, iterates⟩ := iterates_bounced 6 5 (Nat.le_refl 5)
  obtain ⟨asking, answered⟩ := answered_bounced 6 5
  let last : StreamState Unit :=
    { bounced 5 with
      resp := ⟨30, text "/"⟩
      redirects := 6
      err := setErr ⟨0, 0, 1, []⟩ (-1) 0 (text "redirect limit exceeded") }
  have refused : Steps anyEnv () (respond 7 takeAll openTls
      { bounced 5 with resp := ⟨30, text "/"⟩ }) closing () (.ret (.inr (-1, last))) :=
    nosTlsClose_run.bind_left _
  have turn := answered.append refused
  refine ⟨_, last, iterates.loop_run turn (by decide), ?_, rfl, rfl⟩
  obtain ⟨headers, lines, counted⟩ := redirects_of_iterates iterates
  replace counted : 5 = 0 + headers.countP isRedirect := counted
  rw [redirectAnswers, headerBytes_append, lines, List.countP_append]
  rcases exchange_answers turn with
    ⟨done, equal, kept, _⟩ | ⟨tls, header, resp, _, _, parsed, responded, line⟩
  · cases equal
    cases kept
  · have single := line []
    rw [List.append_nil] at single
    have same : last.resp = resp := (respond_ret responded).2.1
    have redirects := (isRedirect_iff parsed).mpr (by rw [← same]; decide)
    rw [single, List.countP_cons_of_pos redirects, ← Nat.zero_add (headers.countP _), ← counted]
    rfl

end Nosgem
