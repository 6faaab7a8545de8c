/-
This file bounds what one request can cost. The request loop goes on for two
reasons: a redirect, which it counts, and an answered prompt, which takes a
line from the user. So it connects at most once more than it has followed
redirects and read answers, and it never follows a sixth redirect; and when the
user runs out of lines and every response ends, it returns.
-/

import Nosgem.Exchanges
import Nosgem.RequestEnds

namespace Nosgem

open CText Interaction

/-! ### What is counted -/

/-- A TCP connect. -/
def isConnect : Op → Bool
  | .connectNonBlocking _ _ => true
  | _ => false

/-- The redirects among the turns that led from the first state of a list to its last one: every
state but the first was reached with the response it holds. -/
def redirectsFollowed {User : Type} (states : List (StreamState User)) : Nat :=
  states.tail.countP fun st => decide (30 ≤ st.resp.status ∧ st.resp.status < 40)

/-! ### One turn -/

theorem WaitOp.not_connect {op : Op} (waits : WaitOp op) : ¬ isConnect op := by
  cases op <;> first | exact waits.elim | simp [isConnect]

theorem TofuOp.not_connect {ssl : WolfSsl} {op : Op} (checks : TofuOp ssl op) :
    ¬ isConnect op := by
  cases op <;> first | exact checks.elim | simp [isConnect]

theorem CloseOp.not_connect {op : Op} (closes : CloseOp op) : ¬ isConnect op := by
  cases op <;> first | exact closes.elim | simp [isConnect]

theorem OpenOp.not_connect {conn : Option WolfSsl} {op : Op} (isOpen : OpenOp conn op) :
    ¬ isConnect op := by
  cases op <;> first | (rcases isOpen with talks | asks <;> contradiction) | simp [isConnect]

/-- A connect attempt connects once at most. -/
theorem callsAtMost_nosTlsConnect (fuel : Nat) (host : Text) (port : Nat) :
    CallsAtMost isConnect 1 (nosTlsConnect fuel host port) := by
  have waits (op : Op) (isWait : WaitOp op) : ¬ isConnect op := isWait.not_connect
  have other {op : Op} (isOther : ¬ isConnect op) :
      Calls (fun op => ¬ isConnect op) (invoke op) := calls_perform.mpr isOther
  unfold nosTlsConnect
  refine .bind_right ((calls_nosDnsResolve fuel host).mono waits) fun resolved => ?_
  split
  · trivial
  refine .bind_right (other nofun) fun sock => ?_
  split
  · refine .bind_right (other nofun) fun unset => ?_
    split
    · exact .bind_right (other nofun) fun _ => trivial
    refine .perform fun unconnected => ?_
    split
    · exact .perform nofun fun _ => trivial
    refine ((calls_awaitConnect fuel _).mono waits).bind fun connected => ?_
    split
    · exact .perform nofun fun _ => .perform nofun fun _ => trivial
    · exact (finishes_handshake _ host).calls.mono fun op shakes => waits op shakes.waitOp
  · trivial

section Turns

variable {User State : Type} {env : Env Answer State} {state final middle : State} {fuel : Nat}
  {cb : BodyCb User} {tls : NosTlsCtx} {st next : StreamState User} {trace : List (Event Answer)}

theorem callsAtMost_exchange (fuel : Nat) (cb : BodyCb User) (st : StreamState User) :
    CallsAtMost isConnect 1 (exchange fuel cb st) := by
  unfold exchange
  refine (callsAtMost_nosTlsConnect fuel _ _).bind_left fun connected => ?_
  obtain ⟨rc, tls⟩ := connected
  dsimp only
  split
  · trivial
  have checks : Calls (fun op => ¬ isConnect op)
      (nosTofuCheck tls.ssl st.current.host st.current.port 128) := by
    cases tls.ssl with
    | none => trivial
    | some conn => exact (calls_nosTofuCheck conn _ _ _).mono fun _ => TofuOp.not_connect
  refine checks.bind fun checked => ?_
  obtain ⟨trusted, terr⟩ := checked
  dsimp only
  split
  · exact (calls_exit tls fun _ => ⟨_, rfl⟩).mono fun _ => CloseOp.not_connect
  · refine (session_converse fuel cb tls st).calls.mono fun op works => ?_
    exact works.elim OpenOp.not_connect CloseOp.not_connect

/-- How a turn that goes on counts: it follows one of five redirects, or it has read an answer. -/
def Counts (st next : StreamState User) (trace : List (Event Answer)) : Prop :=
  ((30 ≤ next.resp.status ∧ next.resp.status < 40) ∧ st.redirects < 5 ∧
      next.redirects = st.redirects + 1) ∨
    ((10 ≤ next.resp.status ∧ next.resp.status < 20) ∧ next.redirects = st.redirects ∧
      1 ≤ promptsAnswered trace)

theorem GoesOn.counts (goesOn : GoesOn st trace next) : Counts st next trace := by
  cases goesOn with
  | answered prompts _ => exact .inr ⟨prompts, rfl, by simp [promptsAnswered]⟩
  | redirected redirects room _ => exact .inl ⟨redirects, room, rfl⟩

theorem exchange_counts
    (run : Steps env state (exchange fuel cb st) trace final (.ret (.inl next))) :
    Counts st next trace := by
  rcases exchange_ret run with ⟨_, equal⟩ | ⟨_, _, resp, front, back, _, _, responded, rfl, _⟩
  · cases equal
  · refine (respond_next responded).counts.imp id fun answered => ⟨answered.1, answered.2.1, ?_⟩
    rw [promptsAnswered_append]
    exact Nat.le_trans answered.2.2 (Nat.le_add_left _ _)

/-- What is left of a turn only closes its connection, and then the request returns -1. -/
def ClosesAndFails (left : Io (StreamState User ⊕ (Int × StreamState User))) : Prop :=
  Finishes CloseOp left ∧ ∀ (State : Type) (env : Env Answer State) (state final : State)
    (trace : List (Event Answer)) (value : StreamState User ⊕ (Int × StreamState User)),
    Steps env state left trace final (.ret value) → ∃ done, value = .inr (-1, done)

/-- A sixth redirect is not followed. -/
theorem respond_sixth (status : 30 ≤ st.resp.status ∧ st.resp.status < 40)
    (full : 5 ≤ st.redirects) : ClosesAndFails (respond fuel cb tls st) := by
  let last : StreamState User :=
    { st with
      redirects := st.redirects + 1
      err := { st.err with redirectLimit := 1 } }
  have here : respond fuel cb tls st =
      (nosTlsClose tls >>= fun _ => pure (last.fail (text "redirect limit exceeded"))) := by
    unfold respond
    rw [if_neg (by omega), if_neg (by omega), if_pos status,
      if_pos (show st.redirects ≥ nosGeminiMaxRedirects from full)]
  rw [here]
  exact ⟨finishes_exit tls fun _ => ⟨_, rfl⟩, fun _ _ _ _ _ _ run => ⟨_, exit_fail run⟩⟩

/-! ### Runs -/

/-- What complete turns have cost: the redirects that were followed are counted and no more than
five, and every other turn has read an answer. -/
theorem costs_of_iterates {start here : StreamState User} {visited : List (StreamState User)}
    (iterates : Iterates env (exchange fuel cb) start state visited trace here middle)
    (few : start.redirects ≤ 5) :
    here.redirects = start.redirects + redirectsFollowed (visited ++ [here]) ∧
      here.redirects ≤ 5 ∧
      visited.length ≤ redirectsFollowed (visited ++ [here]) + promptsAnswered trace ∧
      callsIn isConnect trace ≤ visited.length := by
  induction iterates with
  | refl => exact ⟨rfl, few, Nat.zero_le _, Nat.le_refl _⟩
  | @step start between last _ _ _ visited front back iteration tail inductionHypothesis =>
    have connects := (callsAtMost_exchange fuel cb start).of_steps iteration
    obtain ⟨rest, equal⟩ : ∃ rest, visited ++ [last] = between :: rest := by
      obtain ⟨rest, equal⟩ := List.head?_eq_some_iff.mp tail.head?_visited
      exact ⟨rest, equal⟩
    have followed : redirectsFollowed (start :: visited ++ [last]) =
        redirectsFollowed (visited ++ [last]) +
          if 30 ≤ between.resp.status ∧ between.resp.status < 40 then 1 else 0 := by
      rw [List.cons_append, equal, redirectsFollowed, redirectsFollowed, List.tail_cons,
        List.countP_cons, List.tail_cons]
      simp
    rw [followed, promptsAnswered_append, callsIn_append, List.length_cons]
    rcases exchange_counts iteration with ⟨status, room, counted⟩ | ⟨status, same, answered⟩
    · obtain ⟨counts, bounded, turns, connected⟩ := inductionHypothesis (by omega)
      rw [if_pos status]
      omega
    · obtain ⟨counts, bounded, turns, connected⟩ := inductionHypothesis (by omega)
      rw [if_neg (by omega)]
      omega

end Turns

/-! ### The bounds of one request -/

/-- Finitely many connection attempts have a common bound. -/
theorem exists_bound (polls reads : Nat → Nat) (last : Nat) :
    ∃ bound, ∀ i ≤ last, polls i < bound ∧ reads i < bound := by
  induction last with
  | zero => exact ⟨polls 0 + reads 0 + 1, fun i zero => by obtain rfl := Nat.le_zero.mp zero; omega⟩
  | succ last inductionHypothesis =>
    obtain ⟨bound, bounds⟩ := inductionHypothesis
    refine ⟨bound + polls (last + 1) + reads (last + 1) + 1, fun i small => ?_⟩
    rcases Nat.lt_or_eq_of_le small with earlier | rfl
    · have := bounds i (Nat.le_of_lt_succ earlier)
      omega
    · omega

/-- A request returns in a world that ends, with enough fuel. -/
theorem returns_nosGeminiRequestStream {User : Type} (url : NosUrl) (cb : BodyCb User) (user : User)
    (polls reads : Nat → Nat) (world : World) :
    ∃ enough, ∀ fuel ≥ enough, Returns (worldEnv polls reads)
      (nosGeminiRequestStream fuel url cb user) (fun _ _ => True) world := by
  obtain ⟨bound, bounds⟩ := exists_bound polls reads (world.opened + 5 + world.lines)
  refine ⟨bound + 5 + world.lines + 1, fun fuel enough => ?_⟩
  -- redirects that are left and lines that are left
  let measure (st : StreamState User) (here : World) : Nat := (5 - st.redirects) + here.lines
  refine Returns.loop (fun st here => st.redirects ≤ 5 ∧
    here.opened + measure st here ≤ world.opened + 5 + world.lines) measure
    (fun st here holds => ?_) (show measure (.initial url user) world < fuel by
      simp only [measure, StreamState.initial]
      omega) ⟨Nat.zero_le _, by simp only [measure, StreamState.initial]; omega⟩
  obtain ⟨few, attempts⟩ := holds
  obtain ⟨fewPolls, fewReads⟩ := bounds here.opened (by omega)
  have room : bound ≤ fuel := by omega
  have ends := spends_exchange cb st (Nat.lt_of_lt_of_le fewPolls room)
    (Nat.lt_of_lt_of_le fewReads room)
  have counts (value : StreamState User ⊕ (Int × StreamState User)) (trace : List (Event Answer))
      (after : World)
      (run : Steps (worldEnv polls reads) here (exchange fuel cb st) trace after (.ret value)) :
      ∀ next, value = .inl next → next.redirects ≤ 5 ∧ measure next after < measure st here := by
    rintro next rfl
    have spent := lines_of_steps run
    rcases exchange_counts run with ⟨_, room, counted⟩ | ⟨_, same, answered⟩
    · simp only [measure]
      omega
    · simp only [measure]
      omega
  refine (ends.and_runs counts).mono fun value after held => ?_
  obtain ⟨spent, counted⟩ := held
  cases value with
  | inr result => trivial
  | inl next =>
    obtain ⟨bounded, lower⟩ := counted next rfl
    have opened : after.opened = here.opened + 1 := spent.opened
    exact ⟨⟨bounded, by omega⟩, lower⟩

/-- One request connects at most `6 + k` times, when `k` lines are read at its prompts, and this at
every moment; it follows at most five redirects, and the answer that would be the sixth closes the
connection and fails the request; and when only finitely many lines can be read, and every
connection attempt and every response comes to an end, it returns. -/
theorem nosGeminiRequestStream_bounded {User : Type} (url : NosUrl) (cb : BodyCb User)
    (user : User) :
    (∀ (State : Type) (env : Env Answer State) (state final : State) (fuel : Nat)
        (trace : List (Event Answer)) (left : Io (Int × StreamState User)),
        Steps env state (nosGeminiRequestStream fuel url cb user) trace final left →
        callsIn isConnect trace ≤ 6 + promptsAnswered trace) ∧
      (∀ (State : Type) (env : Env Answer State) (state middle : State) (fuel : Nat)
        (visited : List (StreamState User)) (trace : List (Event Answer)) (here : StreamState User),
        Iterates env (exchange fuel cb) (.initial url user) state visited trace here middle →
        redirectsFollowed (visited ++ [here]) ≤ 5 ∧
          ∀ (tls : NosTlsCtx) (resp : NosGeminiResp) (back : List (Event Answer)) (after : State),
            redirectsFollowed (visited ++ [here]) = 5 → 30 ≤ resp.status ∧ resp.status < 40 →
            Steps env middle (exchange fuel cb here) back after
              (respond fuel cb tls { here with resp }) →
            ClosesAndFails (respond fuel cb tls { here with resp })) ∧
      ∀ (polls reads : Nat → Nat) (world : World), ∃ enough, ∀ fuel ≥ enough,
        Returns (worldEnv polls reads) (nosGeminiRequestStream fuel url cb user) (fun _ _ => True)
          world := by
  refine ⟨fun State env state final fuel trace left run => ?_,
    fun State env state middle fuel visited trace here iterates => ?_,
    returns_nosGeminiRequestStream url cb user⟩
  · obtain ⟨here, visited, front, back, middle, inner, iterates, turn, rfl⟩ := run.loop_cases
    obtain ⟨counts, few, turns, connects⟩ := costs_of_iterates iterates (Nat.zero_le 5)
    have last := (callsAtMost_exchange fuel cb here).of_steps turn
    replace counts : here.redirects = 0 + redirectsFollowed (visited ++ [here]) := counts
    rw [callsIn_append, promptsAnswered_append]
    omega
  · obtain ⟨counts, few, -⟩ := costs_of_iterates iterates (Nat.zero_le 5)
    replace counts : here.redirects = 0 + redirectsFollowed (visited ++ [here]) := counts
    refine ⟨by omega, fun tls resp back after five status _ => ?_⟩
    exact respond_sixth status (show 5 ≤ here.redirects by omega)

/-- A page that redirects to itself, after some redirects. -/
def bounced (count : Nat) : StreamState Unit :=
  { StreamState.initial plainUrl () with
    redirects := count
    resp := if count = 0 then ⟨0, []⟩ else ⟨30, text "/"⟩ }

theorem answered_bounced (fuel count : Nat) :
    ∃ trace, Steps anyEnv () (exchange (fuel + 1) takeAll (bounced count)) trace ()
      (respond (fuel + 1) takeAll openTls { bounced count with resp := ⟨30, text "/"⟩ }) := by
  have parsed : parseHeader (text "30 /" ++ [cr, lf]) (bounced count).resp nosGeminiMaxHeader =
      (0, ⟨30, text "/"⟩) := rfl
  obtain ⟨trace, _, run⟩ := exchange_run fuel takeAll (bounced count) _ findKnownHost_knownStore
    (show ¬ plainUrl.host.length + plainUrl.path.length + 12 ≥ requestSize by decide) (by decide)
    (by decide) parsed
  exact ⟨trace, run⟩

theorem iterates_bounced (fuel count : Nat) (few : count ≤ 5) :
    ∃ trace, Iterates anyEnv (exchange (fuel + 1) takeAll) (.initial plainUrl ()) ()
      ((List.range count).map bounced) trace (bounced count) () := by
  induction count with
  | zero => exact ⟨[], .refl _ _⟩
  | succ count inductionHypothesis =>
    obtain ⟨front, iterates⟩ := inductionHypothesis (by omega)
    obtain ⟨asking, answered⟩ := answered_bounced fuel count
    obtain ⟨leaving, _, redirected⟩ := respond_redirect (fuel + 1) takeAll
      { bounced count with resp := ⟨30, text "/"⟩ } (show 30 ≤ 30 ∧ 30 < 40 by decide)
      (show ¬ count ≥ 5 by omega) (show nosUrlResolve plainUrl (text "/") = some plainUrl by decide)
    have turn : Steps anyEnv () (exchange (fuel + 1) takeAll (bounced count)) (asking ++ leaving) ()
      (.ret (.inl (bounced (count + 1)))) := answered.append redirected
    rw [List.range_succ, List.map_append]
    exact ⟨_, iterates.append (.step turn (.refl _ _))⟩

/-- Five redirects are followed, and the sixth is not. -/
theorem nosGeminiRequestStream_bounded_bounced :
    ∃ visited trace here back,
      Iterates anyEnv (exchange 1 takeAll) (.initial plainUrl ()) () visited trace here () ∧
      Steps anyEnv () (exchange 1 takeAll here) back ()
        (respond 1 takeAll openTls { here with resp := ⟨30, text "/"⟩ }) ∧
      redirectsFollowed (visited ++ [here]) = 5 ∧
      ClosesAndFails (respond 1 takeAll openTls { here with resp := ⟨30, text "/"⟩ }) := by
  obtain ⟨trace, iterates⟩ := iterates_bounced 0 5 (Nat.le_refl 5)
  obtain ⟨back, answered⟩ := answered_bounced 0 5
  have five : redirectsFollowed ((List.range 5).map bounced ++ [bounced 5]) = 5 := by decide
  have bounded := nosGeminiRequestStream_bounded plainUrl takeAll ()
  exact ⟨_, trace, _, back, iterates, answered, five,
    (bounded.2.1 Unit anyEnv () () 1 _ trace _ iterates).2 openTls _ back () five (by decide)
      answered⟩

end Nosgem
