/-
This file says what one turn of the request loop does, for the statements about
its runs: a turn that returns or goes on has failed, or has read a header and
then acted on its status; a turn that goes on does so with the answer of a
prompt or with the META of a redirect; a turn that returns 0 has handed the
whole body to the callback; and the only write of a turn is the request for its
current URL.
-/

import Nosgem.Responses

namespace Nosgem

open CText Interaction

/-! ### Where a turn of the request loop leads -/

section Turns

variable {User State : Type} {env : Env Answer State} {state final : State} {fuel : Nat}
  {cb : BodyCb User} {tls : NosTlsCtx} {st next : StreamState User} {trace : List (Event Answer)}

/-- The current URL of the next turn: the answer of a prompt as the query of the current one, or the
META of a redirect resolved against it. -/
def LeadsTo (current : NosUrl) (resp : NosGeminiResp) (next : NosUrl) : Prop :=
  (10 ≤ resp.status ∧ resp.status < 20 ∧ ∃ line, applyQuery current line = some next) ∨
    (30 ≤ resp.status ∧ resp.status < 40 ∧ nosUrlResolve current resp.metaText = some next)

/-- An exit of the request loop does not go on with another turn unless its value says so. -/
theorem exit_ret {Result : Type} {rest : NosTlsCtx → Io Result} {value : Result}
    (run : Steps env state (nosTlsClose tls >>= rest) trace final (.ret value)) :
    ∃ after middle back, Steps env middle (rest after) back final (.ret value) := by
  obtain ⟨after, _, back, middle, _, tail, _⟩ := run.bind_ret
  exact ⟨after, middle, back, tail⟩

theorem exit_fail {Result : Type} {value other : Result}
    (run : Steps env state (nosTlsClose tls >>= fun _ => return other) trace final (.ret value)) :
    value = other := by
  obtain ⟨_, _, _, tail⟩ := exit_ret run
  injection tail.of_ret.2.2

/-- The chunks handed to the callback in a run. -/
def chunksIn (trace : List (Event Answer)) : List Text :=
  trace.filterMap fun event =>
    match event.op with
    | .callback chunk => some chunk
    | _ => none

@[simp] theorem chunksIn_append (front back : List (Event Answer)) :
    chunksIn (front ++ back) = chunksIn front ++ chunksIn back := List.filterMap_append

/-- What a turn does before it acts on its response: it reads byte by byte, if it reads, and hands
nothing on. -/
def Opening (trace : List (Event Answer)) : Prop :=
  ∀ event ∈ trace, IsReply event.op → ∃ conn, event.op = .sslRead conn 1

theorem Opening.append {front back : List (Event Answer)} (first : Opening front)
    (second : Opening back) : Opening (front ++ back) := fun event member =>
  (List.mem_append.mp member).elim (first event) (second event)

theorem opening_of_quiet (quiet : ∀ event ∈ trace, ¬ IsReply event.op) : Opening trace :=
  fun event member replies => absurd replies (quiet event member)

theorem opening_of_reads {conn : Option WolfSsl}
    (reads : ∀ event ∈ trace, event.op = .sslRead conn 1) : Opening trace :=
  fun event member _ => ⟨conn, reads event member⟩

theorem Opening.chunksIn (opening : Opening trace) : chunksIn trace = [] := by
  rw [Nosgem.chunksIn, List.filterMap_eq_nil_iff]
  intro event member
  have reads := opening event member
  split
  · rename_i chunk equal
    rw [equal] at reads
    obtain ⟨_, reads⟩ := reads trivial
    cases reads
  · rfl

/-- The header line that was read fits behind what stood in the buffer. -/
theorem length_readHeaderBytes {conn : Option WolfSsl} {room : Nat} {buf line : Text} {prev : Byte}
    (run : Steps env state (readHeaderBytes conn room buf prev) trace final (.ret (some line))) :
    line.length ≤ buf.length + room := by
  induction room generalizing buf prev state trace with
  | zero => cases run.of_ret.2.2
  | succ room inductionHypothesis =>
    obtain ⟨answer, _, _, _, rest, rfl⟩ := run.perform_ret
    cases answer with
    | failed => cases rest.of_ret.2.2
    | data bytes nonempty fits =>
      dsimp only at rest
      split at rest
      · cases rest.of_ret.2.2
        rw [List.length_append, List.length_singleton]
        omega
      · have bound := inductionHypothesis rest
        rw [List.length_append, List.length_singleton] at bound
        omega

theorem takeMeta_leads (line : Text) : takeMeta line <+: line := by
  fun_induction takeMeta line with
  | case1 => exact List.nil_prefix
  | case2 => exact List.nil_prefix
  | case3 c rest _ inductionHypothesis => exact List.cons_prefix_cons.mpr ⟨rfl, inductionHypothesis⟩

/-- A header line that is shorter than the buffer for its META fails before anything is stored. -/
theorem parseHeader_fails {line : Text} {resp : NosGeminiResp} {metaMax : Nat}
    (short : line.length ≤ metaMax) (failed : (parseHeader line resp metaMax).1 ≠ 0) :
    (parseHeader line resp metaMax).2 = resp := by
  unfold parseHeader at failed ⊢
  split at failed
  · rename_i tens ones rest shape
    split at failed
    · have metaShort : (takeMeta (rest.dropWhile isBlank)).length < metaMax := by
        have taken := (takeMeta_leads (rest.dropWhile isBlank)).length_le
        have dropped := (List.dropWhile_suffix isBlank (l := rest)).length_le
        have string := (List.takeWhile_prefix (· ≠ (0 : Byte)) (l := line)).length_le
        have skipped := (List.dropWhile_suffix isBlank (l := cString line)).length_le
        rw [shape, List.length_cons, List.length_cons] at skipped
        rw [cString] at skipped
        omega
      dsimp only at failed
      rw [if_neg (not_le.mpr metaShort)] at failed
      exact absurd rfl failed
    · rename_i noDigits
      rw [if_neg noDigits]
  · rfl

/-- A turn that ends has failed and kept what it knows, or it has read a header line that parses and
acted on the response in it. -/
theorem exchange_ret {value : StreamState User ⊕ (Int × StreamState User)}
    (run : Steps env state (exchange fuel cb st) trace final (.ret value)) :
    (∃ err, value = .inr (-1, { st with err })) ∨
      ∃ tls header resp front back middle,
        parseHeader header st.resp nosGeminiMaxHeader = (0, resp) ∧
          Steps env middle (respond fuel cb tls { st with resp }) back final (.ret value) ∧
          trace = front ++ back ∧ Opening front := by
  rcases exchange_parts run with
    ⟨failed, _⟩ | ⟨tls, header, front, line, back, _, _, rfl, quiet, read, answered⟩
  · exact .inl failed
  cases header with
  | none => exact .inl ⟨_, exit_fail answered⟩
  | some header =>
    unfold answerHeader at answered
    dsimp only at answered
    split at answered
    · rename_i failed
      have short : header.length ≤ 0 + 1023 := length_readHeaderBytes read
      have same := parseHeader_fails (show header.length ≤ nosGeminiMaxHeader by
        rw [nosGeminiMaxHeader]
        omega) failed
      rw [same] at answered
      exact .inl ⟨_, exit_fail answered⟩
    rename_i parsed
    refine .inr ⟨tls, header, _, front ++ line, back, _, Prod.ext (not_not.mp parsed) rfl, answered,
      (List.append_assoc _ _ _).symm, ?_⟩
    exact (opening_of_quiet quiet).append
      (opening_of_reads ((calls_readHeaderLine tls.ssl _).of_mem read))

/-! ### Turns that go on -/

/-- How the branches on the status go on with another turn: a line was read for a 1x status and is
the query of the next URL, or the redirect of a 3x status is followed. -/
inductive GoesOn (st : StreamState User) : List (Event Answer) → StreamState User → Prop where
  | answered {shown : Text} {line : FgetsLine 256} {closing : List (Event Answer)} {url : NosUrl}
      (prompts : 10 ≤ st.resp.status ∧ st.resp.status < 20)
      (applied : applyQuery st.current (rstripNewline line.bytes) = some url) :
      GoesOn st (⟨.print shown, ()⟩ :: ⟨.fgetsStdin 256, some line⟩ :: closing)
        { st with current := url }
  | redirected {closing : List (Event Answer)} {url : NosUrl}
      (redirects : 30 ≤ st.resp.status ∧ st.resp.status < 40)
      (room : st.redirects < nosGeminiMaxRedirects)
      (resolved : nosUrlResolve st.current st.resp.metaText = some url) :
      GoesOn st closing { st with current := url, redirects := st.redirects + 1 }

theorem respond_next
    (run : Steps env state (respond fuel cb tls st) trace final (.ret (.inl next))) :
    GoesOn st trace next := by
  unfold respond at run
  split at run
  · obtain ⟨done, _, _, _, _, rest, _⟩ := run.bind_ret
    dsimp only at rest
    split at rest
    · cases exit_fail rest
    · cases exit_fail rest
  split at run
  · rename_i prompts
    obtain ⟨_, _, _, _, asked, rfl⟩ := run.perform_ret
    obtain ⟨line, _, _, _, rest, rfl⟩ := asked.perform_ret
    split at rest
    · cases exit_fail rest
    · obtain ⟨_, _, _, tail⟩ := exit_ret rest
      split at tail
      · cases tail.of_ret.2.2
      · rename_i applied
        cases tail.of_ret.2.2
        exact .answered prompts applied
  split at run
  · rename_i redirects
    split at run
    · cases exit_fail run
    · rename_i room
      obtain ⟨_, _, _, tail⟩ := exit_ret run
      split at tail
      · cases tail.of_ret.2.2
      · rename_i resolved
        cases tail.of_ret.2.2
        exact .redirected redirects (not_le.mp room) resolved
  split at run
  · cases exit_fail run
  split at run
  · cases exit_fail run
  · cases exit_fail run

theorem GoesOn.resp (goesOn : GoesOn st trace next) : next.resp = st.resp := by
  cases goesOn <;> rfl

theorem GoesOn.user (goesOn : GoesOn st trace next) : next.user = st.user := by
  cases goesOn <;> rfl

theorem GoesOn.leadsTo (goesOn : GoesOn st trace next) :
    LeadsTo st.current st.resp next.current := by
  cases goesOn with
  | answered prompts applied => exact .inl ⟨prompts.1, prompts.2, _, applied⟩
  | redirected redirects _ resolved => exact .inr ⟨redirects.1, redirects.2, resolved⟩

/-- A turn that goes on has read a header line and goes on where the response in it leads. -/
theorem exchange_next (run : Steps env state (exchange fuel cb st) trace final (.ret (.inl next))) :
    (∃ header, parseHeader header st.resp nosGeminiMaxHeader = (0, next.resp)) ∧
      LeadsTo st.current next.resp next.current ∧ next.user = st.user := by
  rcases exchange_ret run with ⟨_, equal⟩ | ⟨_, header, resp, _, _, _, parsed, responded, _⟩
  · cases equal
  · have goesOn := respond_next responded
    rw [goesOn.resp]
    exact ⟨⟨header, parsed⟩, goesOn.leadsTo, goesOn.user⟩

/-- Without a 2x status nothing is read and nothing handed to the callback. -/
theorem respond_quiet {left : Io (StreamState User ⊕ (Int × StreamState User))}
    (other : ¬ (20 ≤ st.resp.status ∧ st.resp.status < 30))
    (run : Steps env state (respond fuel cb tls st) trace final left) :
    ∀ event ∈ trace, ¬ IsReply event.op := fun event member => by
  have calls := (calls_respond_other other).of_mem run event member
  rcases calls with asks | closes
  · exact asks.not_reply
  · exact closes.not_reply

theorem LeadsTo.not_success {current next : NosUrl} {resp : NosGeminiResp}
    (leads : LeadsTo current resp next) : ¬ (20 ≤ resp.status ∧ resp.status < 30) := by
  rcases leads with ⟨_, small, _⟩ | ⟨large, _, _⟩
  · omega
  · omega

/-- A turn that goes on hands nothing to the callback. -/
theorem exchange_next_opening
    (run : Steps env state (exchange fuel cb st) trace final (.ret (.inl next))) :
    Opening trace := by
  rcases exchange_ret run with ⟨_, equal⟩ | ⟨_, _, _, _, _, _, _, responded, rfl, opening⟩
  · cases equal
  · have other := (respond_next responded).leadsTo.not_success
    exact opening.append (opening_of_quiet (respond_quiet other responded))

/-- The response that a turn starts with is the one the turn before went on from, so it has no 2x
status. -/
theorem status_of_iterates {start here : StreamState User} {visited : List (StreamState User)}
    (iterates : Iterates env (exchange fuel cb) start state visited trace here final)
    (initially : ¬ (20 ≤ start.resp.status ∧ start.resp.status < 30)) :
    ¬ (20 ≤ here.resp.status ∧ here.resp.status < 30) := by
  refine iterates.invariant (fun st => ¬ (20 ≤ st.resp.status ∧ st.resp.status < 30))
    (fun _ turn => ?_) initially
  exact (exchange_next turn).2.1.not_success

/-- The user data that reaches the last turn is what the request started with. -/
theorem user_of_iterates {start here : StreamState User} {visited : List (StreamState User)}
    (iterates : Iterates env (exchange fuel cb) start state visited trace here final) :
    here.user = start.user :=
  iterates.invariant (fun st => st.user = start.user)
    (fun same turn => (exchange_next turn).2.2.trans same) rfl

/-- Turns that go on hand nothing to the callback. -/
theorem opening_of_iterates {start here : StreamState User} {visited : List (StreamState User)}
    (iterates : Iterates env (exchange fuel cb) start state visited trace here final) :
    Opening trace := by
  induction iterates with
  | refl => exact opening_of_quiet (by simp)
  | step turn _ inductionHypothesis => exact (exchange_next_opening turn).append inductionHypothesis

/-! ### Turns that return -/

/-- Handing chunks to a callback until it aborts: what it returned last, and its user data. -/
def deliver (cb : User → Text → Int × User) : User → List Text → Int × User
  | user, [] => (0, user)
  | user, chunk :: chunks =>
    if (cb user chunk).1 ≠ 0 then cb user chunk else deliver cb (cb user chunk).2 chunks

theorem deliver_append {take : User → Text → Int × User} {user after : User} {front : List Text}
    (takes : deliver take user front = (0, after)) (back : List Text) :
    deliver take user (front ++ back) = deliver take after back := by
  induction front generalizing user with
  | nil =>
    obtain rfl : user = after := congrArg Prod.snd takes
    rfl
  | cons chunk front inductionHypothesis =>
    rw [deliver] at takes
    rw [List.cons_append, deliver]
    split at takes
    · rename_i aborts
      exact absurd (congrArg Prod.fst takes) aborts
    · rename_i took
      rw [if_neg took]
      exact inductionHypothesis takes

/-- An abort ends the delivery, whatever would come behind it. -/
theorem deliver_append_of_abort {take : User → Text → Int × User} {user : User}
    {front : List Text} (aborts : (deliver take user front).1 ≠ 0) (back : List Text) :
    deliver take user (front ++ back) = deliver take user front := by
  induction front generalizing user with
  | nil => exact absurd rfl aborts
  | cons chunk front inductionHypothesis =>
    rw [List.cons_append, deliver, deliver]
    rw [deliver] at aborts
    split
    · rfl
    · rename_i took
      rw [if_neg took] at aborts
      exact inductionHypothesis aborts

/-- A turn of the body loop that goes on has handed one chunk to the callback, which took it, and
has counted it. -/
theorem readChunk_next {take : User → Text → Int × User} {conn : Option WolfSsl}
    {here after : Nat × User}
    (run : Steps env state (readChunk take conn here) trace final (.ret (.inl after))) :
    ∃ chunk, chunksIn trace = [chunk] ∧ take here.2 chunk = (0, after.2) ∧
      after.1 = (here.1 + chunk.length) % uintRange := by
  obtain ⟨answer, _, _, _, answered, rfl⟩ := run.perform_ret
  cases answer with
  | failed => cases answered.of_ret.2.2
  | data bytes nonempty fits =>
    obtain ⟨_, _, _, _, handed, rfl⟩ := answered.perform_ret
    dsimp only at handed
    split at handed
    · cases handed.of_ret.2.2
    · rename_i took
      obtain ⟨rfl, _, equal⟩ := handed.of_ret
      cases equal
      exact ⟨bytes, rfl, Prod.ext (not_not.mp took) rfl, rfl⟩

/-- A turn of the body loop that ends it has handed nothing on, or a chunk the callback aborted
at. -/
theorem readChunk_last {take : User → Text → Int × User} {conn : Option WolfSsl}
    {here : Nat × User} {aborted : Bool} {total : Nat} {user : User}
    (run : Steps env state (readChunk take conn here) trace final
      (.ret (.inr (aborted, total, user)))) :
    total = here.1 ∧ ∃ rc, deliver take here.2 (chunksIn trace) = (rc, user) ∧
      (aborted ↔ rc ≠ 0) ∧ (aborted = false → chunksIn trace = []) := by
  obtain ⟨answer, _, _, _, answered, rfl⟩ := run.perform_ret
  cases answer with
  | failed =>
    obtain ⟨rfl, _, equal⟩ := answered.of_ret
    cases equal
    exact ⟨rfl, 0, rfl, by simp, fun _ => rfl⟩
  | data bytes nonempty fits =>
    obtain ⟨_, _, _, _, handed, rfl⟩ := answered.perform_ret
    dsimp only at handed
    split at handed
    · rename_i aborts
      obtain ⟨rfl, _, equal⟩ := handed.of_ret
      cases equal
      refine ⟨rfl, _, if_pos aborts, iff_of_true rfl aborts, nofun⟩
    · cases handed.of_ret.2.2

theorem deliver_of_iterates {take : User → Text → Int × User} {conn : Option WolfSsl}
    {start here : Nat × User} {visited : List (Nat × User)}
    (iterates : Iterates env (readChunk take conn) start state visited trace here final)
    (later : List Text) :
    deliver take start.2 (chunksIn trace ++ later) = deliver take here.2 later := by
  induction iterates with
  | refl => rfl
  | step iteration _ inductionHypothesis =>
    obtain ⟨chunk, handed, took, -⟩ := readChunk_next iteration
    rw [chunksIn_append, handed, List.append_assoc, List.singleton_append, deliver, took]
    exact inductionHypothesis

/-- The counter of the body loop counts in the range of its type. -/
theorem total_of_iterates {take : User → Text → Int × User} {conn : Option WolfSsl}
    {start here : Nat × User} {visited : List (Nat × User)}
    (iterates : Iterates env (readChunk take conn) start state visited trace here final)
    (small : start.1 < uintRange) :
    here.1 = (start.1 + (chunksIn trace).flatten.length) % uintRange := by
  induction iterates with
  | refl => exact (Nat.mod_eq_of_lt small).symm
  | step iteration _ inductionHypothesis =>
    obtain ⟨chunk, handed, -, counted⟩ := readChunk_next iteration
    rw [inductionHypothesis (counted ▸ Nat.mod_lt _ (by decide)), counted, chunksIn_append, handed,
      Nat.mod_add_mod, List.singleton_append, List.flatten_cons, List.length_append, Nat.add_assoc]

/-- A body loop has handed its chunks to the callback, one after the other, up to one the callback
aborts at; and without an abort it has counted their bytes. -/
theorem readBody_deliver {take : User → Text → Int × User} {conn : Option WolfSsl}
    {aborted : Bool} {total : Nat} {user after : User}
    (run : Steps env state (readBody fuel take conn user) trace final
      (.ret (aborted, total, after))) :
    (∃ rc, deliver take user (chunksIn trace) = (rc, after) ∧ (aborted ↔ rc ≠ 0)) ∧
      (aborted = false → total = (chunksIn trace).flatten.length % uintRange) := by
  obtain ⟨here, visited, front, back, middle, iterates, last, rfl⟩ := run.loop_ret
  obtain ⟨rfl, rc, delivered, aborts, ended⟩ := readChunk_last last
  rw [chunksIn_append]
  refine ⟨⟨rc, (deliver_of_iterates iterates _).trans delivered, aborts⟩, fun complete => ?_⟩
  rw [ended complete, List.append_nil, total_of_iterates iterates (show 0 < uintRange by decide),
    Nat.zero_add]

/-- The branches on the status that return keep the current URL and the response. On a 2x status the
body was read and the connection closed, and without an abort the body has its length; otherwise the
callback was not called. -/
theorem respond_ret {rc : Int} {done : StreamState User}
    (run : Steps env state (respond fuel cb tls st) trace final (.ret (.inr (rc, done)))) :
    done.current = st.current ∧ done.resp = st.resp ∧
      if 20 ≤ st.resp.status ∧ st.resp.status < 30 then
        ∃ aborted total body closing middle,
          Steps env state (readBody fuel (cb st.resp) tls.ssl st.user) body middle
            (.ret (aborted, total, done.user)) ∧
          trace = body ++ closing ∧ (∀ event ∈ closing, CloseOp event.op) ∧
          rc = (if aborted then -1 else 0) ∧ (aborted = false → done.bodyLen = total)
      else done.user = st.user := by
  unfold respond at run
  split at run
  · rename_i success
    rw [if_pos success]
    obtain ⟨⟨aborted, total, user⟩, body, closing, _, bodyRead, rest, rfl⟩ := run.bind_ret
    dsimp only at rest
    split at rest
    · rename_i aborts
      have closes := (calls_exit tls fun _ => ⟨_, rfl⟩).of_mem rest
      cases exit_fail rest
      refine ⟨rfl, rfl, _, _, _, _, _, bodyRead, rfl, closes, (if_pos aborts).symm, fun ends => ?_⟩
      rw [ends] at aborts
      cases aborts
    · rename_i complete
      have closes := (calls_exit tls fun _ => ⟨_, rfl⟩).of_mem rest
      cases exit_fail rest
      exact ⟨rfl, rfl, _, _, _, _, _, bodyRead, rfl, closes, (if_neg complete).symm, fun _ => rfl⟩
  rename_i other
  rw [if_neg other]
  split at run
  · obtain ⟨_, _, _, _, asked, _⟩ := run.perform_ret
    obtain ⟨line, _, _, _, rest, _⟩ := asked.perform_ret
    split at rest
    · cases exit_fail rest
      exact ⟨rfl, rfl, rfl⟩
    · obtain ⟨_, _, _, tail⟩ := exit_ret rest
      split at tail
      · cases tail.of_ret.2.2
        exact ⟨rfl, rfl, rfl⟩
      · cases tail.of_ret.2.2
  split at run
  · split at run
    · cases exit_fail run
      exact ⟨rfl, rfl, rfl⟩
    · obtain ⟨_, _, _, tail⟩ := exit_ret run
      split at tail
      · cases tail.of_ret.2.2
        exact ⟨rfl, rfl, rfl⟩
      · cases tail.of_ret.2.2
  split at run
  · cases exit_fail run
    exact ⟨rfl, rfl, rfl⟩
  split at run
  · cases exit_fail run
    exact ⟨rfl, rfl, rfl⟩
  · cases exit_fail run
    exact ⟨rfl, rfl, rfl⟩

theorem respond_zero {done : StreamState User}
    (run : Steps env state (respond fuel cb tls st) trace final (.ret (.inr (0, done)))) :
    done.current = st.current ∧ done.resp = st.resp ∧
      if 20 ≤ st.resp.status ∧ st.resp.status < 30 then
        deliver (cb st.resp) st.user (chunksIn trace) = (0, done.user)
      else done.user = st.user := by
  obtain ⟨current, resp, ends⟩ := respond_ret run
  refine ⟨current, resp, ?_⟩
  split at ends
  · rename_i success
    obtain ⟨aborted, total, body, closing, _, bodyRead, rfl, closes, zero, -⟩ := ends
    obtain rfl : aborted = false := by
      cases aborted with
      | false => rfl
      | true => cases zero
    obtain ⟨⟨rc, delivered, completes⟩, -⟩ := readBody_deliver bodyRead
    obtain rfl : rc = 0 := not_not.mp (mt completes.mpr Bool.false_ne_true)
    have noChunk := (opening_of_quiet fun event member => (closes event member).not_reply).chunksIn
    rw [if_pos success, chunksIn_append, noChunk, List.append_nil]
    exact delivered
  · rename_i other
    rw [if_neg other]
    exact ends

/-- A turn that returns 0 leaves the current URL, and the user data as the callback left it: on a 2x
status it took the chunks of the turn one after the other, and otherwise it was not called. -/
theorem exchange_zero {done : StreamState User}
    (run : Steps env state (exchange fuel cb st) trace final (.ret (.inr (0, done)))) :
    done.current = st.current ∧
      if 20 ≤ done.resp.status ∧ done.resp.status < 30 then
        deliver (cb done.resp) st.user (chunksIn trace) = (0, done.user)
      else done.user = st.user := by
  rcases exchange_ret run with
    ⟨_, equal⟩ | ⟨_, _, resp, _, _, _, _, responded, rfl, opening⟩
  · cases equal
  · obtain ⟨same, sameResp, user⟩ := respond_zero responded
    rw [chunksIn_append, opening.chunksIn, List.nil_append, sameResp]
    exact ⟨same, user⟩

/-! ### The request -/

/-- A turn writes the request for its current URL and nothing else. -/
theorem exchange_write {conn : Option WolfSsl} {data : Text}
    {rest : Int → Io (StreamState User ⊕ (Int × StreamState User))}
    (run : Steps env state (exchange fuel cb st) trace final (.call (.sslWrite conn data) rest)) :
    data = requestText st.current := by
  unfold exchange at run
  obtain ⟨⟨rc, tls⟩, _, _, _, _, connected, _⟩ := run.past (calls_nosTlsConnect fuel _ _) id
  dsimp only at connected
  split at connected
  · cases connected.of_ret.2.2
  rcases connected.bind_call with ⟨_, checking⟩ | ⟨⟨trusted, terr⟩, _, _, _, _, checked, _⟩
  · cases ssl : tls.ssl with
    | none =>
      rw [ssl] at checking
      cases checking.of_ret.2.2
    | some conn =>
      rw [ssl] at checking
      exact ((calls_nosTofuCheck conn _ _ _).of_steps checking).elim
  dsimp only at checked
  split at checked
  · exact ((calls_exit tls fun _ => ⟨_, rfl⟩).of_steps checked).elim
  unfold converse at checked
  split at checked
  · exact ((calls_exit tls fun _ => ⟨_, rfl⟩).of_steps checked).elim
  rcases checked.perform_call with ⟨equal, _⟩ | ⟨written, _, _, _, sent, _⟩
  · cases equal
    rfl
  split at sent
  · exact ((calls_exit tls fun _ => ⟨_, rfl⟩).of_steps sent).elim
  obtain ⟨header, _, _, _, _, read, _⟩ := sent.past (calls_readHeaderLine tls.ssl _) nofun
  cases header with
  | none => exact ((calls_exit tls fun _ => ⟨_, rfl⟩).of_steps read).elim
  | some header =>
    dsimp only at read
    split at read
    · exact ((calls_exit tls fun _ => ⟨_, rfl⟩).of_steps read).elim
    · rcases (session_respond fuel cb tls _).calls.of_steps read with replies | closes
      · exact replies.elim
      · exact closes.elim

end Turns

end Nosgem
