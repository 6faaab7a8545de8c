/-
This file settles whether a truncated body is reported. The body loop ends with
the first read that delivers nothing, and wolfSSL tells an orderly end of the
stream from a failure of the connection only when it is asked, which the loop
does not do. A request with a 2x response therefore returns 0 whatever ended
its body, unless the callback aborted it, so a failure is reported in none of
its runs.
-/

import Nosgem.Exchanges

namespace Nosgem

open CText Interaction

/-! ### How a body ends -/

/-- Why the last read of a run failed, if it did. -/
def lastFailure (trace : List (Event Answer)) : Option ReadFailure := (readsIn trace).getLast?.join

theorem lastFailure_append {front back : List (Event Answer)} (reads : readsIn back ≠ []) :
    lastFailure (front ++ back) = lastFailure back := by
  rw [lastFailure, readsIn_append, List.getLast?_append_of_ne_nil _ reads, lastFailure]

theorem lastFailure_append_quiet {front back : List (Event Answer)} (quiet : readsIn back = []) :
    lastFailure (front ++ back) = lastFailure front := by
  rw [lastFailure, readsIn_append, quiet, List.append_nil, lastFailure]

/-- The connection failed: the last read failed with something else than the `close_notify` of the
server. -/
def ConnectionFailed (trace : List (Event Answer)) : Prop :=
  ∃ reason, lastFailure trace = some reason ∧ reason ≠ .closeNotify

/-- A truncated body is reported: 0 is returned only for a stream that ended in an orderly way, and
-1 when the connection failed. -/
def TruncationReported (rc : Int) (trace : List (Event Answer)) : Prop :=
  (rc = 0 → lastFailure trace = some .closeNotify) ∧ (ConnectionFailed trace → rc = -1)

section Truncation

variable {User State : Type} {env : Env Answer State} {state final : State} {fuel : Nat}
  {cb : BodyCb User} {tls : NosTlsCtx} {st : StreamState User} {trace : List (Event Answer)}

/-- The last turn of the body loop reads once: the read fails, or the callback aborts. -/
theorem readChunk_ends {take : User → Text → Int × User} {conn : Option WolfSsl}
    {here : Nat × User} {aborted : Bool} {total : Nat} {user : User}
    (run : Steps env state (readChunk take conn here) trace final
      (.ret (.inr (aborted, total, user)))) :
    ∃ read, readsIn trace = [read] ∧ (aborted ↔ read = none) := by
  obtain ⟨answer, _, _, _, answered, rfl⟩ := run.perform_ret
  cases answer with
  | failed reason =>
    obtain ⟨rfl, _, equal⟩ := answered.of_ret
    cases equal
    exact ⟨some reason, rfl, by simp⟩
  | data bytes nonempty fits =>
    obtain ⟨_, _, _, _, handed, rfl⟩ := answered.perform_ret
    dsimp only at handed
    split at handed
    · obtain ⟨rfl, _, equal⟩ := handed.of_ret
      cases equal
      exact ⟨none, rfl, by simp⟩
    · cases handed.of_ret.2.2

/-- A 2x response returns 0 exactly when a read that failed ended its body. -/
theorem respond_ends (success : 20 ≤ st.resp.status ∧ st.resp.status < 30) {rc : Int}
    {done : StreamState User}
    (run : Steps env state (respond fuel cb tls st) trace final (.ret (.inr (rc, done)))) :
    readsIn trace ≠ [] ∧
      ((rc = 0 ∧ lastFailure trace ≠ none) ∨ (rc = -1 ∧ lastFailure trace = none)) := by
  obtain ⟨_, _, ends⟩ := respond_ret run
  rw [if_pos success] at ends
  obtain ⟨aborted, total, _, closing, middle, bodyRead, rfl, closes, rfl, -⟩ := ends
  obtain ⟨here, visited, front, back, _, _, last, rfl⟩ := bodyRead.loop_ret
  obtain ⟨read, reads, abortedIff⟩ := readChunk_ends last
  have quiet : readsIn closing = [] :=
    readsIn_quiet fun event member => (closes event member).not_reply
  have ending : lastFailure (front ++ back) = read := by
    rw [lastFailure_append (by simp [reads]), lastFailure, reads]
    rfl
  rw [lastFailure_append_quiet quiet, ending]
  refine ⟨by simp [reads], ?_⟩
  cases aborted with
  | false => exact .inl ⟨rfl, fun none => Bool.false_ne_true (abortedIff.mpr none)⟩
  | true => exact .inr ⟨rfl, abortedIff.mp rfl⟩

/-- A turn that starts behind a response without a 2x status and returns with one returns 0 exactly
when a read that failed ended the body. -/
theorem exchange_ends {rc : Int} {done : StreamState User}
    (before : ¬ (20 ≤ st.resp.status ∧ st.resp.status < 30))
    (success : 20 ≤ done.resp.status ∧ done.resp.status < 30)
    (run : Steps env state (exchange fuel cb st) trace final (.ret (.inr (rc, done)))) :
    readsIn trace ≠ [] ∧
      ((rc = 0 ∧ lastFailure trace ≠ none) ∨ (rc = -1 ∧ lastFailure trace = none)) := by
  rcases exchange_ret run with ⟨_, equal⟩ | ⟨_, _, _, _, _, _, _, responded, rfl, _⟩
  · cases equal
    exact absurd success before
  rw [(respond_ret responded).2.1] at success
  obtain ⟨reads, ends⟩ := respond_ends success responded
  rw [lastFailure_append reads]
  exact ⟨by simp [reads], ends⟩

/-- In every run of the request loop that ends with a 2x response, a truncated body is reported
exactly when the connection did not fail. -/
theorem truncation_reported_iff {url : NosUrl} {user : User} {rc : Int} {done : StreamState User}
    (run : Steps env state (nosGeminiRequestStream fuel url cb user) trace final
      (.ret (rc, done)))
    (success : 20 ≤ done.resp.status ∧ done.resp.status < 30) :
    TruncationReported rc trace ↔ ¬ ConnectionFailed trace := by
  obtain ⟨here, visited, front, back, middle, iterates, turn, rfl⟩ := run.loop_ret
  have before := status_of_iterates iterates (show ¬ (20 ≤ 0 ∧ 0 < 30) by decide)
  obtain ⟨reads, ends⟩ := exchange_ends before success turn
  unfold TruncationReported ConnectionFailed
  rw [lastFailure_append reads]
  rcases ends with ⟨rfl, failed⟩ | ⟨rfl, delivered⟩
  · obtain ⟨reason, equal⟩ := Option.ne_none_iff_exists'.mp failed
    simp [equal]
  · simp [delivered]

end Truncation

/-! ### A body that ends early or in time -/

/-- A request that gets the body `ok`, behind which a read fails. -/
theorem request_ends (reason : ReadFailure) :
    ∃ trace done, Steps anyEnv () (nosGeminiRequestStream 2 plainUrl takeAll ()) trace ()
        (.ret (0, done)) ∧
      (20 ≤ done.resp.status ∧ done.resp.status < 30) ∧ lastFailure trace = some reason := by
  obtain ⟨asking, _, ask⟩ := exchange_run 1 takeAll (.initial plainUrl ())
    (text "20 text/plain" ++ [cr, lf]) findKnownHost_knownStore (by decide) (by decide) (by decide)
    (show parseHeader _ _ _ = (0, ⟨20, text "text/plain"⟩) by decide)
  obtain ⟨reading, done, _, reads, resp, _, read⟩ := respond_body 0 takeAll
    { StreamState.initial plainUrl () with resp := ⟨20, text "text/plain"⟩ } reason (by decide)
    (show text "ok" ≠ [] by decide) (by decide) rfl
  have turn : Steps anyEnv () (exchange 2 takeAll (.initial plainUrl ())) (asking ++ reading) ()
    (.ret (.inr (0, done))) := ask.append read
  refine ⟨asking ++ reading, done, turn.bind_left _, ?_, ?_⟩
  · rw [resp]
    decide
  · rw [lastFailure_append (by simp [reads]), lastFailure, reads]
    rfl

/-- The server ends its stream with a `close_notify`. -/
theorem truncation_reported_closed :
    ∃ trace done, Steps anyEnv () (nosGeminiRequestStream 2 plainUrl takeAll ()) trace ()
      (.ret (0, done)) ∧ TruncationReported 0 trace := by
  obtain ⟨trace, done, run, success, failure⟩ := request_ends .closeNotify
  refine ⟨trace, done, run, (truncation_reported_iff run success).mpr ?_⟩
  rintro ⟨reason, equal, other⟩
  rw [failure] at equal
  exact other (Option.some.inj equal).symm

/-- The TCP connection is closed in the middle of the body, and 0 is returned. -/
theorem truncation_unreported :
    ∃ trace done, Steps anyEnv () (nosGeminiRequestStream 2 plainUrl takeAll ()) trace ()
      (.ret (0, done)) ∧ (20 ≤ done.resp.status ∧ done.resp.status < 30) ∧
      lastFailure trace = some .connClosed ∧ ¬ TruncationReported 0 trace := by
  obtain ⟨trace, done, run, success, failure⟩ := request_ends .connClosed
  refine ⟨trace, done, run, success, failure, fun reported => ?_⟩
  have orderly := reported.1 rfl
  rw [failure] at orderly
  cases orderly

end Nosgem
