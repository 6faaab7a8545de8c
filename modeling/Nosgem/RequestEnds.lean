/-
This file says when a turn of the request loop ends. A turn polls until its
connect is through, reads a header of bounded length and then a body until the
server stops; so in a world in which every connection attempt and every
response comes to an end, it returns, and it leaves less of the world than it
found: fewer lines for the prompts, and one connection attempt less.
-/

import Nosgem.Footprint

namespace Nosgem

open CText Interaction

/-! ### A world that ends -/

/-- What the world has left: lines on the standard input, and for the connection at hand the polls
that do not end it and the reads that deliver something. -/
structure World where
  lines : Nat
  opened : Nat
  polls : Nat
  reads : Nat

/-- Every call may have any answer, but the standard input has only so many lines, the `i`-th
connection attempt is pending for at most `polls i` polls, and its response has at most `reads i`
reads. -/
def worldEnv (polls reads : Nat → Nat) : Env Answer World := fun world op answer after =>
  match op, answer with
  | .dnsResolve _ true, _ =>
    after = { world with
      opened := world.opened + 1
      polls := polls world.opened
      reads := reads world.opened }
  | .dnsIsQueryPending, true =>
    ∃ less, world.polls = less + 1 ∧ after = { world with polls := less }
  | .connectTimedOut, false =>
    ∃ less, world.polls = less + 1 ∧ after = { world with polls := less }
  | .sslRead _ _, .data _ _ _ =>
    ∃ less, world.reads = less + 1 ∧ after = { world with reads := less }
  | .fgetsStdin _, some _ => ∃ less, world.lines = less + 1 ∧ after = { world with lines := less }
  | _, _ => after = world

/-- The world has only less left, on the same connection. -/
structure World.Spends (before after : World) : Prop where
  opened : after.opened = before.opened
  lines : after.lines ≤ before.lines
  polls : after.polls ≤ before.polls
  reads : after.reads ≤ before.reads

theorem World.Spends.refl (world : World) : world.Spends world :=
  ⟨rfl, Nat.le_refl _, Nat.le_refl _, Nat.le_refl _⟩

theorem World.Spends.trans {before middle after : World} (first : before.Spends middle)
    (second : middle.Spends after) : before.Spends after where
  opened := second.opened.trans first.opened
  lines := Nat.le_trans second.lines first.lines
  polls := Nat.le_trans second.polls first.polls
  reads := Nat.le_trans second.reads first.reads

/-- The start of a connection attempt. -/
def IsAttempt : Op → Prop
  | .dnsResolve _ true => True
  | _ => False

/-- The lines read at the prompts of 1x responses, which have a buffer of 256 bytes. -/
def promptsAnswered (trace : List (Event Answer)) : Nat :=
  trace.countP fun event =>
    match event with
    | ⟨.fgetsStdin size, line⟩ => size == 256 && line.isSome
    | _ => false

@[simp] theorem promptsAnswered_append (front back : List (Event Answer)) :
    promptsAnswered (front ++ back) = promptsAnswered front + promptsAnswered back :=
  List.countP_append

section Worlds

variable {polls reads : Nat → Nat} {world after : World} {User Result : Type}

/-- Every call has an answer. -/
theorem worldEnv_answers (polls reads : Nat → Nat) (world : World) (op : Op) :
    ∃ answer after, worldEnv polls reads world op answer after := by
  cases op with
  | dnsResolve host sendReq => cases sendReq <;> exact ⟨(0 : Int), _, rfl⟩
  | dnsIsQueryPending => exact ⟨false, world, rfl⟩
  | connectTimedOut => exact ⟨true, world, rfl⟩
  | sslRead conn size => exact ⟨.failed .closeNotify, world, rfl⟩
  | fgetsStdin size => exact ⟨none, world, rfl⟩
  | _ => exact ⟨default, world, rfl⟩

theorem worldEnv_spends {op : Op} {answer : Answer op} (other : ¬ IsAttempt op)
    (answered : worldEnv polls reads world op answer after) : world.Spends after := by
  have stays (equal : after = world) : world.Spends after := equal ▸ .refl world
  cases op with
  | dnsResolve host sendReq =>
    cases sendReq with
    | true => exact absurd trivial other
    | false => exact stays answered
  | dnsIsQueryPending =>
    cases answer with
    | true =>
      obtain ⟨less, equal, rfl⟩ := answered
      exact ⟨rfl, Nat.le_refl _, equal ▸ Nat.le_succ less, Nat.le_refl _⟩
    | false => exact stays answered
  | connectTimedOut =>
    cases answer with
    | true => exact stays answered
    | false =>
      obtain ⟨less, equal, rfl⟩ := answered
      exact ⟨rfl, Nat.le_refl _, equal ▸ Nat.le_succ less, Nat.le_refl _⟩
  | sslRead conn size =>
    cases answer with
    | failed reason => exact stays answered
    | data bytes nonempty fits =>
      obtain ⟨less, equal, rfl⟩ := answered
      exact ⟨rfl, Nat.le_refl _, Nat.le_refl _, equal ▸ Nat.le_succ less⟩
  | fgetsStdin size =>
    cases answer with
    | none => exact stays answered
    | some line =>
      obtain ⟨less, equal, rfl⟩ := answered
      exact ⟨rfl, equal ▸ Nat.le_succ less, Nat.le_refl _, Nat.le_refl _⟩
  | _ => exact stays answered

/-- Every answered prompt has taken a line. -/
theorem lines_of_steps {prog left : Io Result} {trace : List (Event Answer)}
    (run : Steps (worldEnv polls reads) world prog trace after left) :
    after.lines + promptsAnswered trace ≤ world.lines := by
  induction run with
  | refl => exact Nat.le_refl _
  | @call world middle final op next answer trace rest answered _ inductionHypothesis =>
    have one : middle.lines + promptsAnswered [⟨op, answer⟩] ≤ world.lines := by
      by_cases attempt : IsAttempt op
      · cases op with
        | dnsResolve host sendReq =>
          cases sendReq with
          | true =>
            obtain rfl := answered
            exact Nat.le_refl _
          | false => exact attempt.elim
        | _ => exact attempt.elim
      · have fewer := (worldEnv_spends attempt answered).lines
        cases op with
        | fgetsStdin size =>
          cases answer with
          | none => simpa [promptsAnswered] using fewer
          | some line =>
            obtain ⟨less, equal, rfl⟩ := answered
            have bound : promptsAnswered [⟨.fgetsStdin size, some line⟩] ≤ 1 :=
              List.countP_le_length
            dsimp only
            omega
        | _ => exact fewer
    have split : promptsAnswered (⟨op, answer⟩ :: trace) =
        promptsAnswered [⟨op, answer⟩] + promptsAnswered trace :=
      promptsAnswered_append [⟨op, answer⟩] trace
    omega

/-- A program without loops that tries no connection only spends. -/
theorem spends_finishes {kind : Op → Prop} {prog : Io Result} (finishes : Finishes kind prog)
    (other : ∀ op, kind op → ¬ IsAttempt op) (world : World) :
    Returns (worldEnv polls reads) prog (fun _ after => world.Spends after) world :=
  finishes.returns World.Spends World.Spends.refl World.Spends.trans (worldEnv_answers polls reads)
    (fun _ _ _ _ isKind answered => worldEnv_spends (other _ isKind) answered) world

theorem spends_bind {First : Type} {prog : Io First} {rest : First → Io Result}
    {world : World}
    (head : Returns (worldEnv polls reads) prog (fun _ after => world.Spends after) world)
    (tail : ∀ value middle, world.Spends middle →
      Returns (worldEnv polls reads) (rest value) (fun _ after => middle.Spends after) middle) :
    Returns (worldEnv polls reads) (prog >>= rest) (fun _ after => world.Spends after) world :=
  head.bind fun value middle spent =>
    (tail value middle spent).mono fun _ _ later => spent.trans later

theorem spends_perform {op : Op} {rest : Answer op → Io Result} (other : ¬ IsAttempt op)
    (tail : ∀ answer middle, worldEnv polls reads world op answer middle →
      Returns (worldEnv polls reads) (rest answer) (fun _ after => middle.Spends after) middle) :
    Returns (worldEnv polls reads) (invoke op >>= rest) (fun _ after => world.Spends after) world :=
  .perform (worldEnv_answers polls reads world op) fun answer middle answered =>
    (tail answer middle answered).mono fun _ _ later =>
      (worldEnv_spends other answered).trans later

/-! ### The loops end -/

variable {fuel : Nat}

theorem spends_awaitDns (enough : world.polls < fuel) :
    Returns (worldEnv polls reads) (awaitDns fuel) (fun _ after => world.Spends after) world := by
  refine Returns.loop (fun _ here => world.Spends here) (fun _ here => here.polls)
    (fun _ here spent => ?_) enough (.refl world)
  refine .perform ⟨false, here, rfl⟩ fun pending middle answered => ?_
  cases pending with
  | false =>
    obtain rfl := answered
    exact spent
  | true =>
    have later := spent.trans (worldEnv_spends id answered)
    obtain ⟨less, equal, rfl⟩ := answered
    refine .perform ⟨(), _, rfl⟩ fun _ _ same => ?_
    obtain rfl := same
    exact ⟨later, equal ▸ Nat.lt_succ_self less⟩

theorem spends_awaitConnect (sock : TcpSocket) (enough : world.polls < fuel) :
    Returns (worldEnv polls reads) (awaitConnect fuel sock) (fun _ after => world.Spends after)
      world := by
  refine Returns.loop (fun _ here => world.Spends here) (fun _ here => here.polls)
    (fun _ here spent => ?_) enough (.refl world)
  refine .perform ⟨(), here, rfl⟩ fun _ _ same => ?_
  obtain rfl := same
  refine .perform ⟨false, _, rfl⟩ fun complete _ same => ?_
  obtain rfl := same
  split
  · exact spent
  refine .perform ⟨false, _, rfl⟩ fun closed _ same => ?_
  obtain rfl := same
  split
  · exact spent
  refine .perform ⟨true, _, rfl⟩ fun late middle answered => ?_
  cases late with
  | true =>
    obtain rfl := answered
    exact spent
  | false =>
    have later := spent.trans (worldEnv_spends id answered)
    obtain ⟨less, equal, rfl⟩ := answered
    exact ⟨later, equal ▸ Nat.lt_succ_self less⟩

theorem spends_readBody (take : User → Text → Int × User) (conn : Option WolfSsl) (user : User)
    (enough : world.reads < fuel) :
    Returns (worldEnv polls reads) (readBody fuel take conn user)
      (fun _ after => world.Spends after) world := by
  refine Returns.loop (fun _ here => world.Spends here) (fun _ here => here.reads)
    (fun state here spent => ?_) enough (.refl world)
  refine .perform ⟨.failed .closeNotify, here, rfl⟩ fun answer middle answered => ?_
  cases answer with
  | failed reason =>
    obtain rfl := answered
    exact spent
  | data bytes nonempty fits =>
    have later := spent.trans (worldEnv_spends id answered)
    obtain ⟨less, equal, rfl⟩ := answered
    refine .perform ⟨(), _, rfl⟩ fun _ _ same => ?_
    obtain rfl := same
    dsimp only
    split
    · exact later
    · exact ⟨later, equal ▸ Nat.lt_succ_self less⟩

/-! ### A turn ends -/

/-- The world after the start of a connection attempt. -/
def World.attempt (polls reads : Nat → Nat) (world : World) : World :=
  { world with
    opened := world.opened + 1
    polls := polls world.opened
    reads := reads world.opened }

theorem HandshakeOp.not_attempt {op : Op} (shakes : HandshakeOp op) : ¬ IsAttempt op := by
  cases op <;> first | exact shakes.elim | exact id

theorem CloseOp.not_attempt {op : Op} (closes : CloseOp op) : ¬ IsAttempt op := by
  cases op <;> first | exact closes.elim | exact id

theorem TofuOp.not_attempt {ssl : WolfSsl} {op : Op} (checks : TofuOp ssl op) :
    ¬ IsAttempt op := by
  cases op <;> first | exact checks.elim | exact id

theorem spends_exit (tls : NosTlsCtx) {rest : NosTlsCtx → Io Result}
    (tail : ∀ after, ∃ value, rest after = .ret value) (world : World) :
    Returns (worldEnv polls reads) (nosTlsClose tls >>= rest) (fun _ after => world.Spends after)
      world :=
  spends_finishes (finishes_exit tls tail) (fun _ => CloseOp.not_attempt) world

theorem spends_nosDnsResolve (host : Text) (enough : polls world.opened < fuel) :
    Returns (worldEnv polls reads) (nosDnsResolve fuel host)
      (fun _ after => (world.attempt polls reads).Spends after) world := by
  unfold nosDnsResolve
  refine .perform ⟨(0 : Int), _, rfl⟩ fun started middle attempted => ?_
  obtain rfl : middle = world.attempt polls reads := attempted
  split
  · exact .refl _
  refine spends_bind (spends_awaitDns enough) fun _ _ _ => ?_
  refine spends_perform id fun resolved after _ => ?_
  split
  · exact .refl after
  · exact .refl after

theorem spends_nosTlsConnect (host : Text) (port : Nat) (enough : polls world.opened < fuel) :
    Returns (worldEnv polls reads) (nosTlsConnect fuel host port)
      (fun _ after => (world.attempt polls reads).Spends after) world := by
  unfold nosTlsConnect
  refine (spends_nosDnsResolve host enough).bind fun resolved middle spent => ?_
  suffices rest : Returns (worldEnv polls reads) _ (fun _ after => middle.Spends after) middle from
    rest.mono fun _ _ later => spent.trans later
  have waiting : middle.polls < fuel := Nat.lt_of_le_of_lt spent.polls enough
  split
  · exact .refl middle
  refine spends_perform id fun sock opened same => ?_
  obtain rfl := same
  split
  · refine spends_perform id fun unset _ same => ?_
    obtain rfl := same
    split
    · exact spends_perform id fun _ after _ => .refl after
    refine spends_perform id fun unconnected _ same => ?_
    obtain rfl := same
    split
    · exact spends_perform id fun _ after _ => .refl after
    refine spends_bind (spends_awaitConnect _ waiting) fun connected after _ => ?_
    split
    · refine spends_perform id fun _ after _ => ?_
      exact spends_perform id fun _ after _ => .refl after
    · exact spends_finishes (finishes_handshake _ host) (fun _ => HandshakeOp.not_attempt) after
  · exact .refl _

theorem spends_respond (cb : BodyCb User) (tls : NosTlsCtx) (st : StreamState User)
    (enough : world.reads < fuel) :
    Returns (worldEnv polls reads) (respond fuel cb tls st) (fun _ after => world.Spends after)
      world := by
  have exits {other : World} {Value : Type} {rest : NosTlsCtx → Io Value}
      (tail : ∀ after, ∃ value, rest after = .ret value) : Returns (worldEnv polls reads)
        (nosTlsClose tls >>= rest) (fun _ after => other.Spends after) other :=
    spends_exit tls tail other
  unfold respond
  split
  · refine spends_bind (spends_readBody (cb st.resp) tls.ssl st.user enough)
      fun done _ _ => ?_
    dsimp only
    split
    · exact exits fun _ => ⟨_, rfl⟩
    · exact exits fun _ => ⟨_, rfl⟩
  split
  · refine spends_perform id fun _ _ _ => spends_perform id fun line _ _ => ?_
    split
    · exact exits fun _ => ⟨_, rfl⟩
    · refine exits fun _ => ?_
      split <;> exact ⟨_, rfl⟩
  split
  · split
    · exact exits fun _ => ⟨_, rfl⟩
    · refine exits fun _ => ?_
      split <;> exact ⟨_, rfl⟩
  split
  · exact exits fun _ => ⟨_, rfl⟩
  split
  · exact exits fun _ => ⟨_, rfl⟩
  · exact exits fun _ => ⟨_, rfl⟩

theorem spends_converse (cb : BodyCb User) (tls : NosTlsCtx) (st : StreamState User)
    (enough : world.reads < fuel) :
    Returns (worldEnv polls reads) (converse fuel cb tls st) (fun _ after => world.Spends after)
      world := by
  unfold converse
  split
  · exact spends_exit tls (fun _ => ⟨_, rfl⟩) world
  refine spends_perform id fun written middle same => ?_
  obtain rfl := same
  split
  · exact spends_exit tls (fun _ => ⟨_, rfl⟩) _
  refine spends_bind (spends_finishes (finishes_readHeaderLine tls.ssl _)
    (fun _ equal => equal ▸ id) _) fun header after spent => ?_
  have fewer : after.reads < fuel := Nat.lt_of_le_of_lt spent.reads enough
  split
  · dsimp only
    split
    · exact spends_exit tls (fun _ => ⟨_, rfl⟩) after
    · exact spends_respond cb tls _ fewer
  · exact spends_exit tls (fun _ => ⟨_, rfl⟩) after

/-- A turn of the request loop ends, with fuel for the polls and the reads of its connection. -/
theorem spends_exchange (cb : BodyCb User) (st : StreamState User)
    (enoughPolls : polls world.opened < fuel) (enoughReads : reads world.opened < fuel) :
    Returns (worldEnv polls reads) (exchange fuel cb st)
      (fun _ after => (world.attempt polls reads).Spends after) world := by
  unfold exchange
  refine (spends_nosTlsConnect _ _ enoughPolls).bind fun connected middle spent => ?_
  suffices rest : Returns (worldEnv polls reads) _ (fun _ after => middle.Spends after) middle from
    rest.mono fun _ _ later => spent.trans later
  obtain ⟨rc, tls⟩ := connected
  dsimp only
  split
  · exact .refl middle
  have checks : Returns (worldEnv polls reads)
      (nosTofuCheck tls.ssl st.current.host st.current.port 128)
      (fun _ after => middle.Spends after) middle := by
    cases tls.ssl with
    | none => exact .refl middle
    | some conn =>
      exact spends_finishes (finishes_nosTofuCheck conn _ _ _) (fun _ => TofuOp.not_attempt) middle
  refine spends_bind checks fun checked after checkSpent => ?_
  obtain ⟨trusted, terr⟩ := checked
  dsimp only
  split
  · exact spends_exit tls (fun _ => ⟨_, rfl⟩) after
  · refine spends_converse cb tls st ?_
    exact Nat.lt_of_le_of_lt (spent.trans checkSpent).reads enoughReads

end Worlds

end Nosgem
