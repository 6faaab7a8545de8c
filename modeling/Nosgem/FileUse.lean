/-
This file keeps two books over the main loop at once: the connection resources,
and the files open for writing. In every run, whatever the servers, the user,
the disk and the library do, a file is written to and closed only while it is
open; while one is open for writing the program does nothing but write to it and
close it, so none stays open while the program waits for a key or for the
network; and at every command prompt, at the head of every turn and at the end
nothing is held.

The files open for reading are not in the book. The model reads a file where it
is opened; the program keeps the old trust store open while it writes the new
one, and the home page while it waits for a key between two pages.
-/

import Nosgem.Histories
import Nosgem.MainLoop
import Nosgem.Resources

namespace Nosgem

open CText Interaction

/-! ### The files open for writing -/

/-- Which calls open a file for writing, close it and write to it. A close that fails closes. A file
that is read is not counted. -/
def openFiles : Accounts Answer Path where
  acquired
    | .fopenWrite path _, true => some path
    | _, _ => none
  released
    | .fclose path => some path
    | _ => none
  used
    | .fputs path _ => [path]
    | _ => []

/-- A call writes to a file that is open for writing, closes one, or is made while none is open. -/
structure Orderly (files : List Path) (op : Op) : Prop where
  permitted : openFiles.Permitted files op
  alone : (∀ path output, op ≠ .fputs path output) → (∀ path, op ≠ .fclose path) → files = []

/-- The operations that open no file for writing, write to none and close none. -/
def UnfiledOp : Op → Prop
  | .fopenWrite _ _ | .fputs _ _ | .fclose _ => False
  | _ => True

theorem UnfiledOp.quiet {op : Op} (unfiled : UnfiledOp op) : openFiles.Quiet op := by
  cases op <;> first | exact ⟨fun _ => rfl, rfl⟩ | exact unfiled.elim

theorem UnfiledOp.orderly {op : Op} (unfiled : UnfiledOp op) : Orderly [] op := by
  refine ⟨⟨fun path used => ?_, fun path released => ?_⟩, fun _ _ => rfl⟩
  · cases op <;> first | exact absurd used List.not_mem_nil | exact unfiled.elim
  · rw [unfiled.quiet.released] at released
    cases released

/-- The runs of the browser's functions against any disk, with the calls the open files allow. -/
abbrev Files {Result : Type} (prog : Io Result) (post : Result → List Path → Prop)
    (files : List Path) : Prop :=
  Meets openFiles.ledger Orderly prog post files

variable {Result : Type} {path : Path} {post : Result → List Path → Prop}

theorem files_unfiled {prog : Io Result} (calls : Calls UnfiledOp prog) :
    Files prog (fun _ after => after = []) [] :=
  calls.quiet (fun _ => UnfiledOp.quiet) fun _ => UnfiledOp.orderly

theorem files_open {mode : WriteMode} {rest : Bool → Io Result}
    (refused : Files (rest false) post []) (opened : Files (rest true) post [path]) :
    Files (invoke (.fopenWrite path mode) >>= rest) post [] := by
  refine meets_acquire rfl ⟨⟨fun _ used => absurd used List.not_mem_nil, fun _ released => ?_⟩,
    fun _ _ => rfl⟩ ?_ ?_
  · cases released
  · intro answer none
    cases answer with
    | false => exact refused
    | true => cases none
  · intro answer object some _
    cases answer with
    | false => cases some
    | true =>
      cases some
      exact opened

theorem files_write {output : Text} {rest : Bool → Io Result}
    (tail : ∀ answer, Files (rest answer) post [path]) :
    Files (invoke (.fputs path output) >>= rest) post [path] := by
  refine meets_quiet ⟨fun _ => rfl, rfl⟩ ⟨⟨fun _ used => used, fun _ released => ?_⟩,
    fun other => absurd rfl (other path output)⟩ tail
  cases released

theorem files_close (path : Path) {rest : Bool → Io Result}
    (tail : ∀ answer, Files (rest answer) post []) :
    Files (invoke (.fclose path) >>= rest) post [path] := by
  refine meets_release path rfl (fun _ => rfl) ⟨⟨fun _ used => absurd used List.not_mem_nil,
    fun _ released => ?_⟩, fun _ other => absurd rfl (other path)⟩ fun answer => ?_
  · cases released
    exact List.mem_singleton.mpr rfl
  · rw [List.erase_cons_head]
    exact tail answer

/-! ### The writers -/

theorem files_copyKnownHosts (hostport fp : Text) (lines : List Text) (replaced : Bool) :
    Files (copyKnownHosts hostport fp lines replaced) (fun _ after => after = [.knownHostsTmp])
      [.knownHostsTmp] := by
  induction lines generalizing replaced with
  | nil => rfl
  | cons line rest inductionHypothesis =>
    unfold copyKnownHosts
    dsimp only
    split
    · exact files_write fun _ => inductionHypothesis _
    · split
      · split
        · exact files_write fun _ => inductionHypothesis _
        · exact files_write fun _ => inductionHypothesis _
      · exact files_write fun _ => inductionHypothesis _

theorem files_updateKnownHostsFile (hostport fp : Text) :
    Files (updateKnownHostsFile hostport fp) (fun _ after => after = []) [] := by
  have swaps : Calls UnfiledOp (invoke (.remove .knownHosts) >>= fun _ =>
      invoke (.rename .knownHostsTmp .knownHosts) >>= fun renamed =>
        if (!renamed) = true then return (-1 : Int) else return 0) := by
    refine .perform trivial fun _ => .perform trivial fun renamed => ?_
    split <;> trivial
  have finish := files_close .knownHostsTmp fun _ => files_unfiled swaps
  unfold updateKnownHostsFile
  have reads : Calls UnfiledOp (invoke (.fopenRead .knownHosts)) := calls_perform.mpr trivial
  refine (files_unfiled reads).bind ?_
  rintro input _ rfl
  refine files_open rfl ((files_copyKnownHosts hostport fp _ _).bind ?_)
  rintro replaced _ rfl
  split
  · exact files_write fun _ => finish
  · exact finish

theorem files_checkKnownHost (host fp : Text) (port errMax : Nat) :
    Files (checkKnownHost host port fp errMax) (fun _ after => after = []) [] := by
  have asks (hostport : Text) : Calls UnfiledOp (promptTrust hostport fp) := by
    refine .perform trivial fun _ => .perform trivial fun _ => .perform trivial fun _ =>
      .perform trivial fun line => ?_
    cases line <;> trivial
  have reads : Calls UnfiledOp (invoke (.fopenRead .knownHosts)) := calls_perform.mpr trivial
  have warns (output : Text) : Calls UnfiledOp (invoke (.print output)) := calls_perform.mpr trivial
  unfold checkKnownHost
  refine (files_unfiled reads).bind ?_
  rintro store _ rfl
  split
  · split
    · rfl
    split
    · rfl
    refine (files_unfiled (warns _)).bind ?_
    rintro _ _ rfl
    refine (files_unfiled (asks _)).bind ?_
    rintro trusted _ rfl
    split
    · rfl
    refine (files_updateKnownHostsFile _ fp).bind ?_
    rintro updated _ rfl
    split <;> rfl
  · refine (files_unfiled (asks _)).bind ?_
    rintro trusted _ rfl
    split
    · rfl
    exact files_open rfl (files_write fun _ => files_close .knownHosts fun _ => rfl)

theorem files_nosTofuCheck (ssl : Option WolfSsl) (host : Text) (port errMax : Nat) :
    Files (nosTofuCheck ssl host port errMax) (fun _ after => after = []) [] := by
  cases ssl with
  | none => rfl
  | some ssl =>
    have prints : Calls UnfiledOp (computePeerFingerprint ssl) := by
      refine .perform trivial fun certificate => ?_
      cases certificate with
      | none => trivial
      | some der =>
        refine .perform trivial fun digest => ?_
        cases digest <;> trivial
    unfold nosTofuCheck
    refine (files_unfiled prints).bind ?_
    rintro fingerprint _ rfl
    cases fingerprint with
    | none => rfl
    | some fingerprint =>
      refine (files_checkKnownHost host fingerprint port errMax).bind ?_
      rintro checked _ rfl
      dsimp only
      split <;> rfl

/-- A turn of the request loop starts and ends without open files. -/
theorem files_exchange {User : Type} (fuel : Nat) (cb : BodyCb User) (st : StreamState User) :
    Files (exchange fuel cb st) (fun _ after => after = []) [] := by
  have connects : Calls UnfiledOp (nosTlsConnect fuel st.current.host st.current.port) :=
    (calls_nosTlsConnect fuel _ _).mono fun op connects => by
      cases op <;> trivial
  have closes {op : Op} (closes : CloseOp op) : UnfiledOp op := by
    cases op <;> trivial
  have talks (tls : NosTlsCtx) : Calls UnfiledOp (converse fuel cb tls st) :=
    (session_converse fuel cb tls st).calls.mono fun op member => by
      rcases member with (talks | asks) | ends
      · cases op <;> trivial
      · cases op <;> trivial
      · exact closes ends
  unfold exchange
  refine (files_unfiled connects).bind ?_
  rintro ⟨rc, tls⟩ _ rfl
  dsimp only
  split
  · rfl
  refine (files_nosTofuCheck tls.ssl _ _ _).bind ?_
  rintro ⟨trusted, terr⟩ _ rfl
  dsimp only
  split
  · refine files_unfiled (((calls_nosTlsClose tls).mono fun _ => closes).bind fun _ => trivial)
  · exact files_unfiled (talks tls)

/-! ### The main loop -/

theorem files_nosBookmarksAdd (url label : Text) :
    Files (nosBookmarksAdd url label) (fun _ after => after = []) [] := by
  unfold nosBookmarksAdd
  split
  · rfl
  · exact files_open rfl (files_write fun _ => files_close .bookmarks fun _ => rfl)

theorem PageOp.unfiled {op : Op} (page : PageOp op) : UnfiledOp op := by
  cases op <;> trivial

/-- The parts of the main loop keep no file open. -/
theorem files_upheld : Upheld openFiles.ledger Orderly (fun files => files = []) where
  pages := by
    rintro _ op rfl page
    refine ⟨page.unfiled.orderly, fun answer after answered => ?_⟩
    rw [answered.2, page.unfiled.quiet.after]
  exchanges := by
    rintro fuel st _ rfl
    exact files_exchange fuel bodyCb st
  bookmarks := by
    rintro st _ rfl
    have unfiled {First : Type} {prog : Io First} (calls : Calls PageOp prog) :=
      files_unfiled (calls.mono fun _ => PageOp.unfiled)
    have tells (message : Text) := unfiled (show Calls PageOp (invoke (.print message)) from
      calls_perform.mpr trivial)
    unfold addBookmark
    dsimp only
    split
    · exact tells _
    · refine (unfiled (calls_nosUiPrompt _ 128)).bind ?_
      rintro label _ rfl
      cases label with
      | none => exact tells _
      | some label =>
        refine (files_nosBookmarksAdd _ label).bind ?_
        rintro rc _ rfl
        split
        · exact tells _
        · exact tells _

/-- The operations that neither acquire nor work on an object of a connection. -/
def UnconnectedOp : Op → Prop
  | .print _ | .getch | .fgetsStdin _ | .fopenRead _ | .userAbort | .strayUint | .strayText
  | .fopenWrite _ _ | .fputs _ _ | .fclose _ => True
  | _ => False

theorem UnconnectedOp.quiet {op : Op} (unconnected : UnconnectedOp op) : resources.Quiet op := by
  cases op <;> first | exact ⟨fun _ => rfl, rfl⟩ | exact unconnected.elim

theorem UnconnectedOp.balanced {op : Op} (unconnected : UnconnectedOp op) : Balanced [] op := by
  cases op <;> first
    | exact unconnected.elim
    | simp [balanced_iff, resources, overSocket, startsConnect]

theorem PageOp.unconnected {op : Op} (page : PageOp op) : UnconnectedOp op := by
  cases op <;> trivial

/-- The parts of the main loop hold nothing of a connection. -/
theorem resources_upheld : Upheld resources.ledger Balanced (fun held => held = []) where
  pages := by
    rintro _ op rfl page
    refine ⟨page.unconnected.balanced, fun answer after answered => ?_⟩
    rw [answered.2, page.unconnected.quiet.after]
  exchanges := by
    rintro fuel st _ rfl
    exact keeps_exchange fuel bodyCb st
  bookmarks := by
    rintro st _ rfl
    have adds (url label : Text) : Calls UnconnectedOp (nosBookmarksAdd url label) := by
      unfold nosBookmarksAdd
      split
      · trivial
      · refine .perform trivial fun opened => ?_
        split
        · trivial
        · exact .perform trivial fun _ => .perform trivial fun _ => trivial
    have calls : Calls UnconnectedOp (addBookmark st) := by
      unfold addBookmark
      dsimp only
      split
      · exact .perform trivial fun _ => trivial
      · refine ((calls_nosUiPrompt _ 128).mono fun _ => PageOp.unconnected).bind fun label => ?_
        cases label with
        | none => exact .perform trivial fun _ => trivial
        | some label =>
          refine (adds _ label).bind fun rc => ?_
          split
          · exact .perform trivial fun _ => trivial
          · exact .perform trivial fun _ => trivial
    exact calls.quiet (fun _ => UnconnectedOp.quiet) fun _ => UnconnectedOp.balanced

/-- The environment of both books: a call hands out only what is not held. -/
def booksEnv : Env Answer (List Resource × List Path) :=
  bothEnv resources.ledger openFiles.ledger

/-- A call that both books allow. -/
def Booked (held : List Resource × List Path) (op : Op) : Prop :=
  Balanced held.1 op ∧ Orderly held.2 op

theorem books_upheld : Upheld booksEnv Booked (fun held => held = ([], [])) where
  pages := by
    rintro _ op rfl page
    refine ⟨⟨page.unconnected.balanced, page.unfiled.orderly⟩, fun answer after answered => ?_⟩
    have first : after.1 = [] := by rw [answered.1.2, page.unconnected.quiet.after]
    have second : after.2 = [] := by rw [answered.2.2, page.unfiled.quiet.after]
    exact Prod.ext first second
  exchanges := by
    rintro fuel st _ rfl
    exact ((resources_upheld.exchanges fuel st [] rfl).both
      (files_upheld.exchanges fuel st [] rfl)).mono fun _ _ held => Prod.ext held.1 held.2
  bookmarks := by
    rintro st _ rfl
    exact ((resources_upheld.bookmarks st [] rfl).both
      (files_upheld.bookmarks st [] rfl)).mono fun _ _ held => Prod.ext held.1 held.2

/-- In every run of the main loop, at the head of every turn, at every command prompt and at the end
of every turn no object of a connection is held and no file is open for writing; and every call of a
turn works on held objects and on files open for writing only, and is made while there is no such
file, unless it writes to one or closes one. -/
theorem mainLoop_balanced {fuel pageLines : Nat} {home : NosUrl} {here : MainState}
    {visited : List MainState} {before : List (Event Answer)}
    {start : List Resource × List Path}
    (turns : Iterates booksEnv (turn fuel pageLines) (.initial home) ([], []) visited before here
      start) :
    start = ([], []) ∧
      (∀ trace held op next,
        Steps booksEnv start (turn fuel pageLines here) trace held (.call op next) →
          Booked held op) ∧
      (∀ page held links,
        Steps booksEnv start (display fuel pageLines here) page held (.ret links) →
          held = ([], [])) ∧
      ∀ trace held result,
        Steps booksEnv start (turn fuel pageLines here) trace held (.ret result) →
          held = ([], []) := by
  have empty := books_upheld.iterates turns rfl
  have turned : Meets booksEnv Booked (turn fuel pageLines here) (fun _ held => held = ([], []))
      start := books_upheld.turn here empty
  exact ⟨empty, fun trace held op next run => turned.allowed_of_steps run,
    fun page held links run => (books_upheld.display here empty).post_of_steps run,
    fun trace held result run => turned.post_of_steps run⟩

/-- A turn in which the home page does not open and a bookmark is about to be written. -/
theorem mainLoop_balanced_bookmark :
    ∃ trace output next, Steps booksEnv ([], []) (turn 1 24 (.initial homeUrl)) trace
        ([], [.bookmarks]) (.call (.fputs .bookmarks output) next) ∧
      Booked ([], [.bookmarks]) (.fputs .bookmarks output) := by
  have quiet (op : Op) (answer : Answer op) (page : PageOp op) :
      booksEnv ([], []) op answer ([], []) :=
    ⟨⟨fun _ some => absurd (page.unconnected.quiet.acquired answer ▸ some) (by simp),
        (page.unconnected.quiet.after answer).symm⟩,
      ⟨fun _ some => absurd (page.unfiled.quiet.acquired answer ▸ some) (by simp),
        (page.unfiled.quiet.after answer).symm⟩⟩
  have opened : booksEnv ([], []) (.fopenWrite .bookmarks .append) true ([], [.bookmarks]) :=
    ⟨⟨fun _ some => (by cases some), rfl⟩, fun _ _ => List.not_mem_nil, rfl⟩
  obtain ⟨trace, output, next, run⟩ := turn_bookmark quiet opened
  exact ⟨trace, output, next, run, (mainLoop_balanced (.refl _ _)).2.1 trace _ _ next run⟩

end Nosgem
