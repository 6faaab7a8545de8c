/-
This file settles whether the receive callback loses bytes when the connection
closes. The socket is a queue of bytes and a flag for the remote close; only the
processing of packets changes them from outside, and the bytes of a connection
are in its queue when the flag is set. The callback reads the queue before it
looks at the flag, and processes no packet in between; so at every moment what
the calls have returned and what is still in the queue is what has arrived, and
a call that reports the close has found the queue empty.
-/

import Nosgem.TlsCallbacks

namespace Nosgem

open CText Interaction

/-! ### The inbox of a socket -/

/-- The queue of a socket, the flag for the remote close, and all bytes that have arrived. -/
structure Inbox where
  queue : Text
  closed : Bool
  arrived : Text

/-- An inbox in the beginning. -/
def Inbox.fresh : Inbox := ⟨[], false, []⟩

/-- The processing of packets queues what arrives; after the close nothing does. -/
def Inbox.Processes (before after : Inbox) : Prop :=
  ∃ new, after.queue = before.queue ++ new ∧ after.arrived = before.arrived ++ new ∧
    (before.closed → after.closed ∧ new = [])

/-- A socket that returns what is at the front of its queue, as much as it likes up to the size
asked for, and nothing only when there is nothing. -/
def inboxEnv : Env SockAnswer Inbox := fun before op answer after =>
  match op, answer with
  | .recv userBufLen, got =>
    before.queue = got ++ after.queue ∧ (got : Text).length ≤ userBufLen ∧
      (got = [] → userBufLen = 0 ∨ before.queue = []) ∧ after.closed = before.closed ∧
      after.arrived = before.arrived
  | .isRemoteClosed, answer => answer = before.closed ∧ after = before
  | .packetProcess, _ => before.Processes after
  | .drivePackets, _ => before.Processes after
  | _, _ => after = before

/-- The calls of the receive callback, with the processing of packets between them: what each of
them returns and stores. -/
inductive Receives : Inbox → List (Int × Text) → Inbox → Prop where
  | refl (inbox : Inbox) : Receives inbox [] inbox
  | idle {before middle last : Inbox} {results : List (Int × Text)}
      (processes : before.Processes middle) (tail : Receives middle results last) :
      Receives before results last
  | call {before middle last : Inbox} {results : List (Int × Text)} {fuel : Nat} {sz : Int}
      {trace : List (Event SockAnswer)} {result : Int × Text} (isSize : IsSize sz)
      (run : Steps inboxEnv before (nosTlsRecv fuel sz) trace middle (.ret result))
      (tail : Receives middle results last) : Receives before (result :: results) last

/-- The bytes that calls return: as many of the buffer as the result has it. -/
def returned (results : List (Int × Text)) : Text :=
  results.flatMap fun result => result.2.take result.1.toNat

/-! ### One call -/

/-- What was returned before and what is in the queue is what has arrived. -/
def Conserves (before : Text) (inbox : Inbox) : Prop := before ++ inbox.queue = inbox.arrived

/-- What a call returned, behind what was returned before: nothing is lost, and the close is only
reported when the remote is closed and everything that arrived was returned. -/
structure Delivered (before : Text) (result : Int × Text) (inbox : Inbox) : Prop where
  conserves : Conserves (before ++ result.2.take result.1.toNat) inbox
  closes : result.1 = cbioErrConnClose → inbox.closed ∧ before = inbox.arrived

section Calls

variable {before : Text} {inbox next : Inbox} {sz : Int}

theorem Inbox.Processes.conserves (processes : inbox.Processes next)
    (conserves : Conserves before inbox) : Conserves before next := by
  obtain ⟨new, queued, arrived, -⟩ := processes
  rw [Conserves, queued, arrived, ← List.append_assoc]
  exact congrArg (· ++ new) conserves

/-- What a receive gives is counted as it is and conserved, and nothing means that the queue is
empty. -/
theorem received_spec (isSize : IsSize sz) (conserves : Conserves before inbox) {got : Text}
    (received : inboxEnv inbox (.recv (toUint16 sz)) got next) :
    toInt16 got.length = got.length ∧ Conserves (before ++ got) next ∧
      (got = [] → next.queue = []) := by
  obtain ⟨taken, fits, drained, -, arrived⟩ := received
  have size := toUint16_size isSize
  unfold IsSize at isSize
  refine ⟨toInt16_small (by omega), ?_, fun nothing => ?_⟩
  · rw [Conserves, List.append_assoc, ← taken, arrived]
    exact conserves
  · have empty : inbox.queue = [] := (drained nothing).resolve_left (by omega)
    rw [nothing, List.nil_append] at taken
    rw [← taken, empty]

/-- A receive and the test for the close behind it, in a sequence that ends with what they find. -/
theorem meets_receive {Result : Type} (found : Int × Text → Result) {rest : Text → SockIo Result}
    {post : Result → Inbox → Prop} (isSize : IsSize sz) (conserves : Conserves before inbox)
    (finds : ∀ result after, Delivered before result after → post (found result) after)
    (goesOn : ∀ after, Conserves before after →
      Meets inboxEnv (fun _ _ => True) (rest []) post after) :
    Meets inboxEnv (fun _ _ => True) (do
      let got ← onSock (.recv (toUint16 sz))
      if toInt16 got.length > 0 then return found (toInt16 got.length, got)
      if ← onSock .isRemoteClosed then return found (cbioErrConnClose, got)
      rest got) post inbox := by
  refine ⟨trivial, fun got after received => ?_⟩
  obtain ⟨counted, kept, drained⟩ := received_spec isSize conserves received
  show Meets inboxEnv (fun _ _ => True)
    (if toInt16 (got : Text).length > 0 then _ else _) post after
  rw [counted]
  by_cases positive : ((got : Text).length : Int) > 0
  · rw [if_pos positive]
    refine finds _ after ⟨?_, fun closing => ?_⟩
    · dsimp only
      rwa [Int.toNat_natCast, List.take_length]
    · unfold cbioErrConnClose at closing
      omega
  · rw [if_neg positive]
    have nothing : got = [] := List.eq_nil_of_length_eq_zero (by omega)
    subst nothing
    rw [List.append_nil] at kept
    refine ⟨trivial, fun closed again answered => ?_⟩
    obtain ⟨closed_eq, rfl⟩ := answered
    cases closed with
    | true =>
      refine finds _ again ⟨by simpa using kept, fun _ => ⟨closed_eq.symm, ?_⟩⟩
      rwa [Conserves, drained rfl, List.append_nil] at kept
    | false => exact goesOn again kept

/-- One call: it returns what is at the front of the queue, and it reports the close only when
nothing is left. -/
theorem meets_nosTlsRecv (fuel : Nat) (isSize : IsSize sz) (conserves : Conserves before inbox) :
    Meets inboxEnv (fun _ _ => True) (nosTlsRecv fuel sz) (Delivered before) inbox := by
  refine meets_receive id isSize conserves (fun _ _ delivered => delivered) ?_
  intro polled conserves
  refine meets_loop (fun _ => Conserves before) (fun _ start conserves => ?_) fuel conserves
  refine ⟨trivial, fun _ processed processes => ?_⟩
  refine ⟨trivial, fun _ driven drives => ?_⟩
  have conserves : Conserves before driven :=
    Inbox.Processes.conserves drives (Inbox.Processes.conserves processes conserves)
  refine meets_receive Sum.inr isSize conserves (fun _ _ delivered => delivered) ?_
  intro after conserves
  refine ⟨trivial, fun expired last answered => ?_⟩
  obtain rfl : last = after := answered
  cases expired with
  | true =>
    refine ⟨by simpa using conserves, fun closing => ?_⟩
    simp [cbioErrWantRead, cbioErrConnClose] at closing
  | false => exact conserves

end Calls

/-! ### Sequences of calls -/

/-- The run lemma: calls keep what was returned, with what is in the queue, equal to what has
arrived. -/
theorem Receives.conserves {start last : Inbox} {results : List (Int × Text)}
    (receives : Receives start results last) {before : Text} (conserves : Conserves before start) :
    Conserves (before ++ returned results) last := by
  induction receives generalizing before with
  | refl inbox => simpa [returned] using conserves
  | idle processes _ inductionHypothesis =>
    exact inductionHypothesis (processes.conserves conserves)
  | call isSize run _ inductionHypothesis =>
    have delivered := (meets_nosTlsRecv _ isSize conserves).post_of_steps run
    rw [returned, List.flatMap_cons, ← List.append_assoc]
    exact inductionHypothesis delivered.conserves

/-- Nothing is lost: whatever arrives and whenever, the bytes that calls return are the bytes that
arrived, but for those still in the queue, and a call reports the close only when the remote is
closed and every byte that arrived was returned. -/
theorem receives_lossless {results : List (Int × Text)} {here : Inbox}
    (receives : Receives .fresh results here) :
    returned results ++ here.queue = here.arrived ∧
      ∀ (fuel : Nat) (sz : Int) (trace : List (Event SockAnswer)) (result : Int × Text)
        (after : Inbox), IsSize sz →
        Steps inboxEnv here (nosTlsRecv fuel sz) trace after (.ret result) →
        result.1 = cbioErrConnClose → after.closed ∧ returned results = after.arrived := by
  have fresh : Conserves [] .fresh := rfl
  have conserves : Conserves (returned results) here := receives.conserves fresh
  refine ⟨conserves, fun fuel sz trace result after isSize run closing => ?_⟩
  exact ((meets_nosTlsRecv fuel isSize conserves).post_of_steps run).closes closing

/-- A socket that got the bytes of a text together with the close. -/
def closedWith (queue arrived : Text) : Inbox := ⟨queue, true, arrived⟩

/-- Two bytes and the close arrive together: the first call returns the bytes, the second one
reports the close. -/
theorem receives_lossless_closing :
    returned [(2, text "ok")] ++ [] = text "ok" ∧
      (closedWith [] (text "ok")).closed ∧ returned [(2, text "ok")] = text "ok" := by
  have arrives : Inbox.fresh.Processes (closedWith (text "ok") (text "ok")) :=
    ⟨text "ok", rfl, rfl, fun closed => absurd closed (by decide)⟩
  have taken : inboxEnv (closedWith (text "ok") (text "ok")) (.recv 16) (text "ok")
      (closedWith [] (text "ok")) := ⟨rfl, by decide, by decide, rfl, rfl⟩
  have first : Steps inboxEnv (closedWith (text "ok") (text "ok")) (nosTlsRecv 1 16)
      [⟨.recv 16, text "ok"⟩] (closedWith [] (text "ok")) (.ret (2, text "ok")) :=
    .call taken (.refl _ _)
  have drained : inboxEnv (closedWith [] (text "ok")) (.recv 16) []
      (closedWith [] (text "ok")) := ⟨rfl, by decide, by decide, rfl, rfl⟩
  have second : Steps inboxEnv (closedWith [] (text "ok")) (nosTlsRecv 1 16)
      [⟨.recv 16, []⟩, ⟨.isRemoteClosed, true⟩] (closedWith [] (text "ok"))
      (.ret (cbioErrConnClose, [])) := .call drained (.call ⟨rfl, rfl⟩ (.refl _ _))
  have size : IsSize 16 := ⟨by decide, by decide⟩
  have lossless := receives_lossless (.idle arrives (.call size first (.refl _)))
  exact ⟨lossless.1, lossless.2 1 16 _ _ _ size second rfl⟩

end Nosgem
