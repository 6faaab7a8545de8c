/-
This file proves that no request is split: every request the loop writes has a
CR LF at its end and nowhere else, whatever bytes the servers put into their
header lines and whatever the user types, when the text of the starting URL has
no CR LF in it.

The invariant is that neither the host nor the path of the current URL has a CR
followed by an LF. A META has none because the header parser stops at the first
one; the constructors of a URL take pieces out of such texts, and where they
join two pieces one side of the joint is a slash or a question mark. Percent
encoding leaves neither a CR nor an LF.
-/

import Nosgem.UrlParts

namespace Nosgem

open CText Interaction

/-! ### Texts without a CR LF -/

/-- A text in which no CR is followed by an LF. -/
def Unsplit (s : Text) : Prop := s.IsChain fun c next => ¬ (c = cr ∧ next = lf)

instance (s : Text) : Decidable (Unsplit s) :=
  inferInstanceAs (Decidable (s.IsChain fun c next => ¬ (c = cr ∧ next = lf)))

theorem unsplit_iff {s : Text} :
    Unsplit s ↔ ∀ i, ¬ (s[i]? = some cr ∧ s[i + 1]? = some lf) := by
  rw [Unsplit, List.isChain_iff_getElem]
  constructor
  · rintro chain i ⟨first, second⟩
    obtain ⟨inside, second⟩ := List.getElem?_eq_some_iff.mp second
    obtain ⟨_, first⟩ := List.getElem?_eq_some_iff.mp first
    exact chain i inside ⟨first, second⟩
  · intro absent i inside same
    exact absent i ⟨List.getElem?_eq_some_iff.mpr ⟨_, same.1⟩,
      List.getElem?_eq_some_iff.mpr ⟨_, same.2⟩⟩

theorem Unsplit.part {s part : Text} (unsplit : Unsplit s) (within : part <:+: s) :
    Unsplit part := by
  obtain ⟨front, back, rfl⟩ := within
  exact List.IsChain.right_of_append (List.IsChain.left_of_append unsplit)

/-- A text may be put behind another one when its first byte is not an LF. -/
theorem Unsplit.append {front back : Text} (frontUnsplit : Unsplit front)
    (backUnsplit : Unsplit back) (joint : back.head? ≠ some lf) : Unsplit (front ++ back) :=
  List.IsChain.append frontUnsplit backUnsplit fun _ _ _ first same =>
    joint (same.2 ▸ Option.mem_def.mp first)

theorem unsplit_cons {c : Byte} {s : Text} :
    Unsplit (c :: s) ↔ (∀ next ∈ s.head?, ¬ (c = cr ∧ next = lf)) ∧ Unsplit s := List.isChain_cons

theorem Unsplit.cons {c : Byte} (other : c ≠ cr) {s : Text} (unsplit : Unsplit s) :
    Unsplit (c :: s) := unsplit_cons.mpr ⟨fun _ _ same => other same.1, unsplit⟩

theorem unsplit_nil : Unsplit [] := .nil

theorem unsplit_of_not_mem {s : Text} (absent : cr ∉ s) : Unsplit s := by
  induction s with
  | nil => exact unsplit_nil
  | cons c s inductionHypothesis =>
    rw [List.mem_cons, not_or] at absent
    exact (inductionHypothesis absent.2).cons (Ne.symm absent.1)

/-- Behind a text without a CR LF, a line end is the only one. -/
theorem lineEnd_iff {s : Text} (unsplit : Unsplit s) (i : Nat) :
    ((s ++ [cr, lf])[i]? = some cr ∧ (s ++ [cr, lf])[i + 1]? = some lf) ↔
      i + 2 = (s ++ [cr, lf]).length := by
  have closed : Unsplit (s ++ [cr]) :=
    unsplit.append (unsplit_cons.mpr ⟨nofun, unsplit_nil⟩) (by decide)
  have split : s ++ [cr, lf] = (s ++ [cr]) ++ [lf] := by simp
  rw [List.length_append, List.length_cons, List.length_singleton]
  constructor
  · rintro ⟨first, second⟩
    rcases Nat.lt_or_ge (i + 1) (s ++ [cr]).length with inside | outside
    · rw [split, List.getElem?_append_left (by omega)] at first
      rw [split, List.getElem?_append_left inside] at second
      exact absurd ⟨first, second⟩ (unsplit_iff.mp closed i)
    · have present : i + 1 < (s ++ [cr, lf]).length := by
        by_contra past
        rw [List.getElem?_eq_none (not_lt.mp past)] at second
        cases second
      simp only [List.length_append, List.length_cons, List.length_nil] at outside present
      omega
  · intro last
    obtain rfl : i = s.length := by omega
    simp

/-! ### The pieces of a URL -/

/-- A CR comes in front of an LF at no slash and at no question mark. -/
theorem textRule_unsplit : TextRule Unsplit where
  part := Unsplit.part
  separator := unsplit_nil.cons (by decide)
  query bytes := by
    have noCr : ¬ QueryByte cr := by
      simp only [QueryByte]
      decide
    exact (unsplit_of_not_mem (not_mem_of_queryByte bytes noCr)).cons (by decide)
  joint frontUnsplit backUnsplit joined := by
    refine List.IsChain.append frontUnsplit backUnsplit fun c last next first same => ?_
    rcases joined with slashed | slashed | marked
    · rw [slashed] at last
      cases last
      exact absurd same.1 (by decide)
    · rw [slashed] at first
      cases first
      exact absurd same.2 (by decide)
    · rw [marked] at first
      cases first
      exact absurd same.2 (by decide)

/-- A URL whose host and path have no CR LF in them. -/
structure NosUrl.Unsplit (url : NosUrl) : Prop where
  host : Nosgem.Unsplit url.host
  path : Nosgem.Unsplit url.path

theorem NosUrl.unsplit_iff {url : NosUrl} : url.Unsplit ↔ url.Follows Nosgem.Unsplit :=
  ⟨fun unsplit => ⟨unsplit.host, unsplit.path⟩, fun follows => ⟨follows.1, follows.2⟩⟩

/-! ### The header -/

/-- The META of a header ends at the first CR LF. -/
theorem unsplit_takeMeta (line : Text) : Unsplit (takeMeta line) := by
  fun_induction takeMeta line with
  | case1 => exact unsplit_nil
  | case2 => exact unsplit_nil
  | case3 c rest goesOn inductionHypothesis =>
    refine unsplit_cons.mpr ⟨fun next first same => goesOn ⟨same.1, ?_⟩, inductionHypothesis⟩
    obtain ⟨tail, joined⟩ := takeMeta_leads rest
    rw [← joined, List.head?_append, Option.mem_def.mp first, Option.some_or, same.2]

theorem unsplit_parseHeader {header : Text} {resp parsed : NosGeminiResp}
    (done : parseHeader header resp nosGeminiMaxHeader = (0, parsed)) :
    Unsplit parsed.metaText := by
  unfold parseHeader at done
  split at done
  · split at done
    · dsimp only at done
      split at done
      · cases done
      · cases done
        exact unsplit_takeMeta _
    · cases done
  · cases done

/-! ### Every request of a run -/

variable {User State : Type} {env : Env Answer State}

theorem unsplit_of_iterates {fuel : Nat} {cb : BodyCb User} {start here : StreamState User}
    {state middle : State} {visited : List (StreamState User)} {trace : List (Event Answer)}
    (iterates : Iterates env (exchange fuel cb) start state visited trace here middle)
    (unsplit : start.current.Unsplit) : here.current.Unsplit := by
  refine iterates.invariant (fun st => st.current.Unsplit) (fun unsplit turn => ?_) unsplit
  obtain ⟨⟨header, parsed⟩, ⟨_, _, line, applied⟩ | ⟨_, _, resolved⟩, _⟩ := exchange_next turn
  · exact NosUrl.unsplit_iff.mpr
      (textRule_unsplit.applyQuery applied (NosUrl.unsplit_iff.mp unsplit))
  · exact NosUrl.unsplit_iff.mpr (textRule_unsplit.nosUrlResolve resolved
      (NosUrl.unsplit_iff.mp unsplit) (unsplit_parseHeader parsed))

/-- In every run from an accepted text without a CR LF, every request has a CR LF at its end and
nowhere else. -/
theorem requests_notSplit (raw : Text) (url : NosUrl) (parsed : nosUrlParse raw = some url)
    (single : ∀ i, ¬ (raw[i]? = some cr ∧ raw[i + 1]? = some lf)) (fuel : Nat) (cb : BodyCb User)
    (user : User) (state final : State) (trace : List (Event Answer)) (conn : Option WolfSsl)
    (data : Text) (next : Int → Io (Int × StreamState User))
    (run : Steps env state (nosGeminiRequestStream fuel url cb user) trace final
      (.call (.sslWrite conn data) next)) (i : Nat) :
    (data[i]? = some cr ∧ data[i + 1]? = some lf) ↔ i + 2 = data.length := by
  obtain ⟨here, _, _, _, _, _, iterates, turn, _⟩ := run.loop_call
  have rawUnsplit := unsplit_iff.mpr single
  have addressed := addressed_of_iterates iterates (nosUrlParse_wellFormed parsed).addressed
  have unsplit := unsplit_of_iterates iterates
    (NosUrl.unsplit_iff.mpr (textRule_unsplit.nosUrlParse parsed rawUnsplit))
  rw [exchange_write turn]
  refine lineEnd_iff (Unsplit.append (List.IsChain.append ?_ unsplit.host ?_) unsplit.path ?_) i
  · exact unsplit_of_not_mem (by decide)
  · rintro c last _ _ ⟨rfl, _⟩
    revert last
    decide
  · rw [addressed.rooted]
    decide

/-- The first request for a URL with a lone CR in its path. -/
theorem requests_notSplit_loneCr :
    ∃ final next, Steps diskEnv (fun _ => none)
        (nosGeminiRequestStream 1 ⟨text "h", 1965, [slash, cr]⟩ (fun _ _ _ => (0, ())) ())
        (firstUse (text "h") 1965 (.replicate 32 0)) final
        (.call (.sslWrite (some ⟨0⟩) (requestText ⟨text "h", 1965, [slash, cr]⟩)) next) ∧
      ∀ i, ((requestText ⟨text "h", 1965, [slash, cr]⟩)[i]? = some cr ∧
        (requestText ⟨text "h", 1965, [slash, cr]⟩)[i + 1]? = some lf) ↔
          i + 2 = (requestText ⟨text "h", 1965, [slash, cr]⟩).length := by
  obtain ⟨final, next, run⟩ := nosGeminiRequestStream_firstUse (fun _ _ _ => (0, ()))
    ⟨text "h", 1965, [slash, cr]⟩ () (.replicate 32 0) (by decide)
  exact ⟨final, next, run, requests_notSplit (text "gemini://h/" ++ [cr]) _ (by decide)
    (unsplit_iff.mp (by decide)) 1 _ _ _ final _ _ _ next run⟩

end Nosgem
