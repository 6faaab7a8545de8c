/-
This file settles whether trusting one host can change what the store records
for another one. The record is written with the host as it stands, and a host
that `nos_url_parse` accepts may contain line feeds and blanks. What the readers
see as the host of the record is the last line of the host without the blanks in
front of it; where that is another host, trusting the one writes an entry for
the other. The file says exactly when that happens and when it is felt: an entry
that is already there shadows the forged one, because the first entry counts.
-/

import Nosgem.Records
import Nosgem.Url

namespace Nosgem

open CText Interaction

/-! ### The forged host -/

/-- The last line of a host. -/
def lastLine (host : Text) : Text := (host.reverse.takeWhile (· != lf)).reverse

/-- The host the record of a host reads back as, when it is another one: the last line without its
blanks. A last line that starts like a comment holds no entry, and one with white space in it holds
an entry without a port. -/
def forgedHost (host : Text) : Option Text :=
  if (lastLine host).head? = some hash ∨ ¬ Solid ((lastLine host).dropWhile isSpace) ∨
      (lastLine host).dropWhile isSpace = host then none
  else some ((lastLine host).dropWhile isSpace)

theorem noLf_lastLine (host : Text) : lf ∉ lastLine host := by
  intro member
  simpa using List.mem_takeWhile_imp (List.mem_reverse.mp member)

/-- In front of the last line of a host stand newline-terminated lines. -/
theorem lastLine_split (host : Text) :
    ∃ front, host = front ++ lastLine host ∧ Terminated front := by
  refine ⟨(host.reverse.dropWhile (· != lf)).reverse, ?_, ?_⟩
  · rw [lastLine, ← List.reverse_append, List.takeWhile_append_dropWhile, List.reverse_reverse]
  · cases rest : host.reverse.dropWhile (· != lf) with
    | nil => exact .inl rfl
    | cons c tail =>
      have stopped := List.head?_dropWhile_not (· != lf) host.reverse
      rw [rest] at stopped
      obtain rfl : c = lf := by simpa using stopped
      exact .inr ⟨tail.reverse, List.reverse_cons⟩

theorem lastLine_suffix (host : Text) : lastLine host <:+ host := by
  obtain ⟨front, split, -⟩ := lastLine_split host
  exact ⟨front, split.symm⟩

theorem lastLine_of_solid {host : Text} (solid : Solid host) : lastLine host = host := by
  have noLf : lf ∉ host.reverse := fun member =>
    absurd (solid lf (List.mem_reverse.mp member)) (by decide)
  rw [lastLine, PathStack.takeWhile_absent noLf, List.reverse_reverse]

/-- A host without white space forges nothing. -/
theorem forgedHost_of_solid {host : Text} (solid : Solid host) : forgedHost host = none := by
  rw [forgedHost, lastLine_of_solid solid, if_pos (.inr (.inr (dropWhile_solid solid)))]

/-! ### The entries of a record -/

/-- A key that matches a host and a port has a colon in it. -/
theorem colon_of_matches {key host : Text} {port : Nat}
    (same : strIEq key (hostportText host port)) : colon ∈ key := by
  have folded : colon ∈ fold (hostportText host port) :=
    List.mem_map.mpr ⟨colon, by simp [hostportText, colon], by decide⟩
  rw [← (strIEq_iff _ _).mp same] at folded
  obtain ⟨c, member, equal⟩ := List.mem_map.mp folded
  exact eq_of_toLower (show colon < 97 by decide) equal ▸ member

variable {host : Text} {port : Nat} {digest : Digest}

/-- The entries of a record that match a host and a port come from its last line. -/
theorem find?_recordText (noColon : colon ∉ host)
    (fits : (hostportText host port).length ≤ 255) (otherHost : Text) (otherPort : Nat) :
    ((pieces lineSize (recordText (hostportText host port) (fingerprintText digest))).filterMap
        entryOf).find? (fun known => strIEq known.hostport (hostportText otherHost otherPort)) =
      (entryOf (lastLine host ++ recordTail port (fingerprintText digest))).filter fun known =>
        strIEq known.hostport (hostportText otherHost otherPort) := by
  obtain ⟨front, split, terminated⟩ := lastLine_split host
  have shorter : (hostportText (lastLine host) port).length ≤ 255 := by
    have := (lastLine_suffix host).length_le
    simp only [hostportText, List.length_append] at fits ⊢
    omega
  have complete := complete_recordTail digest (noLf_lastLine host) shorter
  have record : recordText (hostportText host port) (fingerprintText digest) =
      front ++ (lastLine host ++ recordTail port (fingerprintText digest)) := by
    rw [recordText_hostportText, ← List.append_assoc, ← split]
  have whole : pieces lineSize (recordText (hostportText host port) (fingerprintText digest)) =
      pieces lineSize front ++ [lastLine host ++ recordTail port (fingerprintText digest)] := by
    have alone : pieces lineSize (lastLine host ++ recordTail port (fingerprintText digest)) =
        [lastLine host ++ recordTail port (fingerprintText digest)] := by
      simpa [pieces_nil] using pieces_append lineSize_room complete []
    rw [record]
    exact (storePieces_append (some front) terminated _).trans (by rw [alone]; rfl)
  -- no line of the front has a colon, so none of their entries matches
  have silent : ((pieces lineSize front).filterMap entryOf).find?
      (fun known => strIEq known.hostport (hostportText otherHost otherPort)) = none := by
    rw [List.find?_eq_none]
    intro known member same
    obtain ⟨line, inFront, entry⟩ := List.mem_filterMap.mp member
    have inLine := hostport_subset entry (colon_of_matches same)
    have inHost : colon ∈ front :=
      mem_of_mem_storePieces (show line ∈ storePieces (some front) from inFront) inLine
    exact noColon (split ▸ List.mem_append_left _ inHost)
  rw [whole, List.filterMap_append, List.find?_append, silent, Option.none_or]
  cases entry : entryOf (lastLine host ++ recordTail port (fingerprintText digest)) with
  | none =>
    rw [List.filterMap_cons_none entry, List.filterMap_nil, List.find?_nil, Option.filter_none]
  | some known =>
    rw [List.filterMap_cons_some entry, List.filterMap_nil, List.find?_singleton,
      Option.filter_some]

/-- The last line of a record matches another host and port only when the host forges one. -/
theorem filter_lastLine (noColon : colon ∉ host) (nulFree : 0 ∉ host)
    (fits : (hostportText host port).length ≤ 255) {otherHost : Text} {otherPort : Nat}
    (different : fold (hostportText otherHost otherPort) ≠ fold (hostportText host port)) :
    (entryOf (lastLine host ++ recordTail port (fingerprintText digest))).filter
        (fun known => strIEq known.hostport (hostportText otherHost otherPort)) =
      (forgedHost host).bind fun forged =>
        if fold (hostportText forged port) = fold (hostportText otherHost otherPort) then
          some ⟨hostportText forged port, text "SHA256", fingerprintText digest⟩
        else none := by
  have inHost {c : Byte} (member : c ∈ lastLine host) : c ∈ host :=
    (lastLine_suffix host).subset member
  have nulFreeLine : 0 ∉ lastLine host := fun member => nulFree (inHost member)
  have shorter : (hostportText (lastLine host) port).length ≤ 255 := by
    have := (lastLine_suffix host).length_le
    simp only [hostportText, List.length_append] at fits ⊢
    omega
  unfold forgedHost
  by_cases comment : (lastLine host).head? = some hash
  · rw [if_pos (.inl comment), entryOf_recordTail nulFreeLine, if_pos comment]
    rfl
  by_cases solid : Solid ((lastLine host).dropWhile isSpace)
  · rw [entryOf_solid nulFreeLine comment solid shorter]
    by_cases own : (lastLine host).dropWhile isSpace = host
    · rw [if_pos (.inr (.inr own)), own, Option.filter_some, if_neg]
      · rfl
      · rw [strIEq_iff]
        exact different.symm
    · rw [if_neg (by simp [comment, solid, own]), Option.filter_some, Option.bind_some]
      simp only [strIEq_iff]
  · rw [if_pos (.inr (.inl solid)), Option.bind_none, Option.filter_eq_none_iff]
    intro known entry same
    have inLine := hostport_subset_of_not_solid nulFreeLine solid entry (colon_of_matches same)
    exact noColon (inHost inLine)

/-! ### Other keys -/

/-- Every key of a host and a port that differs from a given one is looked up the same in two
stores. -/
def OthersKept (before after : Option Text) (hostport : Text) : Prop :=
  ∀ host port, Solid (hostportText host port) → fold (hostportText host port) ≠ fold hostport →
    lookup after (hostportText host port) = lookup before (hostportText host port)

/-- Behind an appended record another key is looked up among the old entries first. -/
theorem lookup_append {store : Option Text} (terminated : Terminated (store.getD []))
    (noColon : colon ∉ host) (nulFree : 0 ∉ host) (fits : (hostportText host port).length ≤ 255)
    {otherHost : Text} {otherPort : Nat}
    (different : fold (hostportText otherHost otherPort) ≠ fold (hostportText host port)) :
    lookup (some (store.getD [] ++
        recordText (hostportText host port) (fingerprintText digest)))
        (hostportText otherHost otherPort) =
      (lookup store (hostportText otherHost otherPort)).or
        ((forgedHost host).bind fun forged =>
          if fold (hostportText forged port) = fold (hostportText otherHost otherPort) then
            some ⟨hostportText forged port, text "SHA256", fingerprintText digest⟩
          else none) := by
  rw [lookup, entries_append terminated, List.find?_append, find?_recordText noColon fits,
    filter_lastLine noColon nulFree fits different, lookup]

/-- A forged host is shorter than the host that forges it, and free of white space. -/
theorem forgedHost_eq_some {forged : Text} (forges : forgedHost host = some forged) :
    Solid forged ∧ forged.length < host.length := by
  unfold forgedHost at forges
  split at forges
  · cases forges
  rename_i plain
  obtain ⟨-, solid, other⟩ := not_or.mp plain |>.imp id not_or.mp
  obtain rfl := Option.some.inj forges
  refine ⟨not_not.mp solid, lt_of_le_of_ne ?_ fun same => other ?_⟩
  · exact ((List.dropWhile_suffix _).trans (lastLine_suffix host)).length_le
  · exact ((List.dropWhile_suffix _).trans (lastLine_suffix host)).eq_of_length same

/-- Appending a record keeps the other keys exactly when the host forges no host, or one that the
store has an entry for already. -/
theorem othersKept_append_iff {store : Option Text} (terminated : Terminated (store.getD []))
    (noColon : colon ∉ host) (nulFree : 0 ∉ host) (fits : (hostportText host port).length ≤ 255) :
    OthersKept store (some (store.getD [] ++
        recordText (hostportText host port) (fingerprintText digest))) (hostportText host port) ↔
      ∀ forged, forgedHost host = some forged →
        (lookup store (hostportText forged port)).isSome := by
  constructor
  · intro kept forged forges
    obtain ⟨solid, shorter⟩ := forgedHost_eq_some forges
    have different : fold (hostportText forged port) ≠ fold (hostportText host port) := by
      intro same
      have := congrArg List.length same
      simp only [length_fold, hostportText, List.length_append] at this
      omega
    have same := kept forged port (solid_hostportText solid port) different
    rw [lookup_append terminated noColon nulFree fits different, forges, Option.bind_some,
      if_pos rfl] at same
    cases found : lookup store (hostportText forged port) with
    | none => simp [found] at same
    | some known => rfl
  · intro shadowed otherHost otherPort _ different
    rw [lookup_append terminated noColon nulFree fits different]
    cases forges : forgedHost host with
    | none => simp
    | some forged =>
      rw [Option.bind_some]
      split
      · rename_i same
        have found := shadowed forged forges
        rw [lookup_eq_of_fold same] at found
        obtain ⟨known, first⟩ := Option.isSome_iff_exists.mp found
        rw [first, Option.some_or]
      · rw [Option.or_none]

/-- Rewriting a store keeps the other keys. -/
theorem othersKept_rewritten {store : Option Text} (nulFreeStore : 0 ∉ store.getD [])
    (nulFree : 0 ∉ host) (fits : (hostportText host port).length ≤ 255)
    (found : (lookup store (hostportText host port)).isSome) :
    OthersKept store (some (rewritten (hostportText host port) (fingerprintText digest)
      (storePieces store))) (hostportText host port) := by
  have writable := (hexPrint_fingerprintText digest).writable (solid_of_lookup found)
    (by simp [hostportText]) fits (nulFree_hostportText nulFree port)
  intro otherHost otherPort _ different
  exact lookup_rewritten_of_ne writable nulFreeStore found different

/-! ### The check -/

/-- An accepting check that asked the user keeps what the store says of every other key exactly when
its host forges no host, or only one that the store has an entry for already. -/
theorem checkKnownHost_othersKept_iff (raw : Text) (url : NosUrl)
    (parsed : nosUrlParse raw = some url) (nulFree : 0 ∉ url.host) (port : Nat)
    (fits : (hostportText url.host port).length ≤ 255)
    (digest : Digest) (errMax : Nat) (desk after : Desk)
    (terminated : Terminated ((desk.disk .knownHosts).getD []))
    (textFile : (lookup (desk.disk .knownHosts) (hostportText url.host port)).isSome →
      0 ∉ (desk.disk .knownHosts).getD [])
    (trace : List (Event Answer)) (err : Text)
    (run : Steps fileEnv desk (checkKnownHost url.host port (fingerprintText digest) errMax) trace
      after (.ret (0, err)))
    (answer : Option Text) (asked : after.asked = desk.asked ++ [answer]) :
    OthersKept (desk.disk .knownHosts) (after.disk .knownHosts) (hostportText url.host port) ↔
      ∀ forged, forgedHost url.host = some forged →
        (lookup (desk.disk .knownHosts) (hostportText forged port)).isSome := by
  have noColon := (nosUrlParse_wellFormed parsed).hostColon
  have ends : CheckEnds desk (hostportText url.host port) (fingerprintText digest) 0 after :=
    (ends_checkKnownHost _ _ _ errMax _).post_of_steps run
  cases ends with
  | known => simp at asked
  | accepted _ _ _ _ _ stored =>
    rw [stored]
    cases found : lookup (desk.disk .knownHosts) (hostportText url.host port) with
    | none =>
      simp only [storeAfter, found]
      exact othersKept_append_iff terminated noColon nulFree fits
    | some known =>
      rw [found] at textFile
      have isFound : (lookup (desk.disk .knownHosts) (hostportText url.host port)).isSome := by
        rw [found]
        rfl
      have solid : Solid url.host := fun c member =>
        solid_of_lookup isFound c (List.mem_append_left _ member)
      simp only [storeAfter, found, forgedHost_of_solid solid]
      refine iff_of_true ?_ fun _ missing => by cases missing
      exact othersKept_rewritten (textFile rfl) nulFree fits isFound

/-- A host without white space keeps the other keys. -/
theorem checkKnownHost_othersKept_plain :
    ∃ trace after err, Steps fileEnv ⟨fun _ => none, []⟩
        (checkKnownHost (text "a.b") 1965 (fingerprintText (.replicate 32 0)) 128) trace after
        (.ret (0, err)) ∧
      OthersKept none (after.disk .knownHosts) (hostportText (text "a.b") 1965) := by
  obtain ⟨_, after, run, asked, -⟩ := checkKnownHost_approval
    (text "a.b") (.replicate 32 0) ⟨text "y\n", by decide, by decide, by decide⟩ rfl
  exact ⟨_, after, _, run, (checkKnownHost_othersKept_iff (text "a.b") ⟨text "a.b", 1965, [slash]⟩
    (by decide) (by decide) 1965 (by decide) _ 128 _ after (.inl rfl) (by decide) _ _ run _
    asked).mpr (by decide)⟩

/-- Trusting a host of two lines writes an entry for its second line. -/
theorem checkKnownHost_forges :
    nosUrlParse (text "gemini://a\nb/") = some ⟨text "a\nb", 1965, [slash]⟩ ∧
      ∃ trace after err, Steps fileEnv ⟨fun _ => none, []⟩
          (checkKnownHost (text "a\nb") 1965 (fingerprintText (.replicate 32 0)) 128) trace after
          (.ret (0, err)) ∧
        after.asked = [some (text "y\n")] ∧
        fold (hostportText (text "b") 1965) ≠ fold (hostportText (text "a\nb") 1965) ∧
        lookup none (hostportText (text "b") 1965) = none ∧
        lookup (after.disk .knownHosts) (hostportText (text "b") 1965) =
          some ⟨hostportText (text "b") 1965, text "SHA256",
            fingerprintText (.replicate 32 0)⟩ := by
  refine ⟨by decide, ?_⟩
  obtain ⟨_, after, run, asked, store⟩ := checkKnownHost_approval
    (text "a\nb") (.replicate 32 0) ⟨text "y\n", by decide, by decide, by decide⟩ rfl
  refine ⟨_, after, _, run, asked, by decide, rfl, ?_⟩
  rw [store]
  decide

end Nosgem
