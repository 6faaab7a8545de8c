/-
This file settles which links the number command can follow. The link table of
the main loop is filled by the page that a turn displays: with the links of a
fetched gemtext body or of a local file, and with none where a fetch displays
no gemtext. Only a local file that does not open leaves the table as it is,
with the links of an earlier page, or undefined on the first turn; so the table
belongs to the page on the screen exactly when the local file opens or the
table was empty before.
-/

import Nosgem.Browser
import Nosgem.LinkNumbers
import Nosgem.Turns

namespace Nosgem

open CText Interaction

/-! ### What the callback makes of a body -/

/-- The table a gemtext document leaves. -/
def pageLinks (document : Text) : List NosLink := ((linkLines document).map linkOf).take nosMaxLinks

/-- A stream that was fed a document and flushed is left with its links, also when it refused to go
on somewhere. -/
theorem links_flush (ctx : NosRenderCtx) (chunks : List Text) :
    (nosRenderStreamFlush (feedChunks (nosRenderStreamInit ctx) chunks).2.2).2.2.ctx.links =
      pageLinks chunks.flatten := by
  have rendered := congrArg Prod.snd (feedChunks_flush ctx chunks).1
  dsimp only at rendered
  rw [rendered, links_renderAll]
  rfl

/-- The context of the stream that a gemtext body sets up. -/
def bodyCtx (pageLines : Nat) : NosRenderCtx := { nosRenderCtxInit with pageLines }

/-- A gemtext body is fed to its stream, and what the stream shows reaches the screen. -/
theorem deliver_gem_eq {resp : NosGeminiResp} {st : NosBodyState} {rstream : NosRenderStream}
    (gem : st.kind = .gem rstream) (chunks : List Text) :
    deliver (bodyCb resp) st chunks =
      (if (feedChunks rstream chunks).1 ≠ 0 then -1 else 0,
        { st with
          kind := .gem (feedChunks rstream chunks).2.2
          screen := st.screen ++ (feedChunks rstream chunks).2.1 }) := by
  induction chunks generalizing st rstream with
  | nil =>
    cases st
    cases gem
    simp [deliver, feedChunks]
  | cons chunk chunks inductionHypothesis =>
    have step : bodyCb resp st chunk =
        (if (nosRenderStreamFeed rstream chunk).1 ≠ 0 then -1 else 0,
          { st with
            kind := .gem (nosRenderStreamFeed rstream chunk).2.2
            screen := st.screen ++ (nosRenderStreamFeed rstream chunk).2.1 }) := by
      simp only [bodyCb, decideBody, gem]
    rw [deliver, step]
    by_cases refused : (nosRenderStreamFeed rstream chunk).1 ≠ 0
    · have fed : feedChunks rstream (chunk :: chunks) = nosRenderStreamFeed rstream chunk := by
        rw [feedChunks]
        exact if_pos refused
      rw [fed, if_pos refused, if_pos (show (-1 : Int) ≠ 0 by decide)]
    · have fed : feedChunks rstream (chunk :: chunks) =
          ((feedChunks (nosRenderStreamFeed rstream chunk).2.2 chunks).1,
            (nosRenderStreamFeed rstream chunk).2.1 ++
              (feedChunks (nosRenderStreamFeed rstream chunk).2.2 chunks).2.1,
            (feedChunks (nosRenderStreamFeed rstream chunk).2.2 chunks).2.2) := by
        rw [feedChunks]
        exact if_neg refused
      rw [fed, if_neg refused, if_neg (show ¬ (0 : Int) ≠ 0 by decide), inductionHypothesis rfl,
        List.append_assoc]

theorem deliver_gem {resp : NosGeminiResp} {st after : NosBodyState} {rstream : NosRenderStream}
    (gem : st.kind = .gem rstream) {chunks : List Text}
    (taken : deliver (bodyCb resp) st chunks = (0, after)) :
    after.kind = .gem (feedChunks rstream chunks).2.2 := by
  rw [deliver_gem_eq gem] at taken
  rw [← (Prod.mk.inj taken).2]

theorem kind_foldl_rawLineBreak (chunk : Text) (st : NosBodyState) :
    (chunk.foldl (fun st c => if c = lf then rawLineBreak st else st) st).kind = st.kind := by
  induction chunk generalizing st with
  | nil => rfl
  | cons c chunk inductionHypothesis =>
    rw [List.foldl_cons, inductionHypothesis]
    split
    · unfold rawLineBreak
      split <;> rfl
    · rfl

theorem deliver_raw {resp : NosGeminiResp} {st after : NosBodyState} (raw : st.kind = .raw)
    {chunks : List Text} (taken : deliver (bodyCb resp) st chunks = (0, after)) :
    after.kind = .raw := by
  induction chunks generalizing st with
  | nil =>
    cases taken
    exact raw
  | cons chunk chunks inductionHypothesis =>
    have kind : (bodyCb resp st chunk).2.kind = .raw := by
      simp only [bodyCb, decideBody, raw]
      exact kind_foldl_rawLineBreak _ _
    rw [deliver] at taken
    split at taken
    · rw [← kind, taken]
    · exact inductionHypothesis kind taken

/-- The first chunk decides how a body is displayed, and is then taken like the others. -/
theorem deliver_decided (resp : NosGeminiResp) (pageLines : Nat) (chunk : Text)
    (chunks : List Text) :
    deliver (bodyCb resp) (.start pageLines) (chunk :: chunks) =
      deliver (bodyCb resp) (decideBody resp (.start pageLines)) (chunk :: chunks) := by
  by_cases gemtext : isGemtext resp.metaText
  · simp only [deliver, bodyCb, decideBody, NosBodyState.start, gemtext, if_true]
  · simp only [deliver, bodyCb, decideBody, NosBodyState.start, gemtext, if_false,
      Bool.false_eq_true]

/-- What a body that was taken as a whole has made of the body state: nothing without a chunk, else
a gemtext stream that was fed all chunks, or something raw. -/
theorem deliver_start {resp : NosGeminiResp} {pageLines : Nat} {after : NosBodyState}
    {chunks : List Text}
    (taken : deliver (bodyCb resp) (.start pageLines) chunks = (0, after)) :
    if chunks ≠ [] ∧ isGemtext resp.metaText then
      after.kind = .gem (feedChunks (nosRenderStreamInit (bodyCtx pageLines)) chunks).2.2
    else ∀ rstream, after.kind ≠ .gem rstream := by
  cases chunks with
  | nil =>
    cases taken
    simp [NosBodyState.start]
  | cons chunk chunks =>
    rw [deliver_decided] at taken
    by_cases gemtext : isGemtext resp.metaText
    · rw [if_pos ⟨List.cons_ne_nil _ _, gemtext⟩]
      refine deliver_gem ?_ taken
      simp only [decideBody, NosBodyState.start, gemtext, if_true]
      rfl
    · rw [if_neg fun both => gemtext both.2]
      have raw := deliver_raw (by simp [decideBody, NosBodyState.start, gemtext]) taken
      intro rstream gem
      rw [raw] at gem
      cases gem

/-! ### The table a page leaves -/

section Pages

variable {State : Type} {env : Env Answer State} {state final : State} {trace : List (Event Answer)}

/-- The lines of a page on the screen, of a fetched one. -/
def fetchedLines (pageLines : Nat) : Nat := if pageLines = 0 then 24 else pageLines

/-- A run of a fetch: the turns of its request loop, the last of which starts with `last` and ends
it with `result`, and what is displayed after it. -/
def FetchRun (env : Env Answer State) (fuel pageLines : Nat) (url : NosUrl) (state : State)
    (trace : List (Event Answer)) (last : StreamState NosBodyState) (ending : List (Event Answer))
    (result : Int × StreamState NosBodyState) : Prop :=
  ∃ visited turns shown middle after,
    trace = turns ++ ending ++ shown ∧
    Iterates env (exchange fuel bodyCb) (.initial url (.start (fetchedLines pageLines))) state
      visited turns last middle ∧
    Steps env middle (exchange fuel bodyCb last) ending after (.ret (.inr result))

/-- What is displayed after a fetch may go on. -/
theorem FetchRun.append {fuel pageLines : Nat} {url : NosUrl} {last : StreamState NosBodyState}
    {ending : List (Event Answer)} {result : Int × StreamState NosBodyState}
    (fetched : FetchRun env fuel pageLines url state trace last ending result)
    (more : List (Event Answer)) :
    FetchRun env fuel pageLines url state (trace ++ more) last ending result := by
  obtain ⟨visited, turns, shown, middle, after, rfl, iterates, turn⟩ := fetched
  exact ⟨visited, turns, shown ++ more, middle, after, by simp, iterates, turn⟩

/-- The last turn of a fetch got a gemtext body. -/
structure GemtextBody (ending : List (Event Answer)) (result : Int × StreamState NosBodyState) :
    Prop where
  zero : result.1 = 0
  success : 20 ≤ result.2.resp.status ∧ result.2.resp.status < 30
  gemtext : isGemtext result.2.resp.metaText
  some : chunksIn ending ≠ []

theorem finishBody_links {st : NosBodyState} {table : NosRenderCtx}
    (run : Steps env state (finishBody st) trace final (.ret table)) :
    match st.kind with
    | .gem rstream => table.links = (nosRenderStreamFlush rstream).2.2.ctx.links
    | _ => table.links = [] := by
  unfold finishBody at run
  cases kind : st.kind with
  | undecided =>
    simp only [kind] at run
    obtain ⟨_, _, _, _, rest, _⟩ := run.perform_ret
    cases rest.of_ret.2.2
    rfl
  | raw =>
    simp only [kind] at run
    cases run.of_ret.2.2
    rfl
  | gem rstream =>
    simp only [kind] at run
    obtain ⟨_, _, _, _, _, rest, _⟩ := run.bind_ret
    split at rest
    · obtain ⟨_, _, _, _, last, _⟩ := rest.perform_ret
      cases last.of_ret.2.2
      rfl
    · cases rest.of_ret.2.2
      rfl

/-- A fetch leaves the links of a gemtext body, and no links without one. -/
theorem fetchAndRender_links {fuel pageLines : Nat} {url : NosUrl} {rc : Int} {table : NosRenderCtx}
    (run : Steps env state (fetchAndRender fuel url pageLines) trace final (.ret (rc, table))) :
    ∃ last ending result, FetchRun env fuel pageLines url state trace last ending result ∧
      (GemtextBody ending result → table.links = pageLinks (chunksIn ending).flatten) ∧
      (¬ GemtextBody ending result → table.links = []) := by
  unfold fetchAndRender at run
  obtain ⟨⟨fetched, done⟩, request, rest, after, requested, displayed, rfl⟩ := run.bind_ret
  obtain ⟨last, visited, turns, ending, middle, iterates, turn, rfl⟩ := requested.loop_ret
  refine ⟨last, ending, (fetched, done),
    ⟨visited, turns, rest, middle, after, rfl, iterates, turn⟩, ?_⟩
  dsimp only at displayed
  obtain ⟨_, _, _, _, _, reported, _⟩ := displayed.bind_ret
  split at reported
  · rename_i failed
    obtain ⟨_, _, _, _, told, _⟩ := reported.perform_ret
    cases told.of_ret.2.2
    exact ⟨fun gemtext => absurd gemtext.zero failed, fun _ => rfl⟩
  rename_i zero
  obtain rfl : fetched = 0 := not_not.mp zero
  have user := (exchange_zero turn).2
  rw [user_of_iterates iterates] at user
  split at reported
  · rename_i success
    rw [if_pos success] at user
    have kind := deliver_start user
    obtain ⟨links, _, _, _, finished, ended, _⟩ := reported.bind_ret
    have same : table = links := by
      obtain ⟨_, _, _, _, told, _⟩ := ended.perform_ret
      split at told
      · obtain ⟨_, _, _, _, aborted, _⟩ := told.perform_ret
        obtain ⟨_, _, _, _, last, _⟩ := aborted.perform_ret
        cases last.of_ret.2.2
        rfl
      · obtain ⟨_, _, _, _, last, _⟩ := told.perform_ret
        cases last.of_ret.2.2
        rfl
    rw [same]
    have table := finishBody_links finished
    split at kind
    · rename_i gemtext
      rw [kind] at table
      refine ⟨fun _ => table.trans (links_flush _ _), fun other => ?_⟩
      exact absurd ⟨rfl, success, gemtext.2, gemtext.1⟩ other
    · rename_i other
      refine ⟨fun gemtext => absurd ⟨gemtext.some, gemtext.gemtext⟩ other, fun _ => ?_⟩
      split at table
      · rename_i rstream gem
        exact absurd gem (kind rstream)
      · exact table
  · rename_i other
    obtain ⟨_, _, _, _, told, _⟩ := reported.perform_ret
    obtain ⟨_, _, _, _, last, _⟩ := told.perform_ret
    cases last.of_ret.2.2
    exact ⟨fun gemtext => absurd gemtext.success other, fun _ => rfl⟩

/-- A local page leaves the links of its file, or nothing changes when the file does not open. -/
theorem renderHomepage_links {path : Path} {pageLines : Nat} {links after : Option NosRenderCtx}
    {rc : Int}
    (run : Steps env state (renderHomepage path links pageLines) trace final (.ret (rc, after))) :
    (∃ document table, ⟨.fopenRead path, some document⟩ ∈ trace ∧ after = some table ∧
        table.links = pageLinks document) ∨
      trace = [⟨.fopenRead path, none⟩] ∧ after = links := by
  unfold renderHomepage at run
  obtain ⟨answer, _, _, _, opened, rfl⟩ := run.perform_ret
  cases answer with
  | none =>
    obtain ⟨rfl, _, equal⟩ := opened.of_ret
    cases equal
    exact .inr ⟨rfl, rfl⟩
  | some content =>
    obtain ⟨_, _, _, _, _, fed, _⟩ := opened.bind_ret
    obtain ⟨_, _, _, _, _, flushed, _⟩ := fed.bind_ret
    injection flushed.of_ret.2.2 with equal
    refine .inl ⟨content, _, by simp, (Prod.mk.inj equal).2, ?_⟩
    have table := links_flush (bodyCtx pageLines) (blocks homeBlockSize content)
    rw [flatten_blocks (by decide)] at table
    exact table

/-! ### The table at the prompt -/

/-- The file that a local URL shows. -/
def localFile (url : NosUrl) : Option Path :=
  match pageSource url with
  | .homepage => some .homepage
  | .bookmarks => some .bookmarks
  | .gemini => none

/-- A turn displays a page that it fetches: its events start with a title, and with a fetch as in
`FetchRun`. -/
def Fetched (env : Env Answer State) (fuel pageLines : Nat) (current : NosUrl) (start : State)
    (page : List (Event Answer)) (last : StreamState NosBodyState) (ending : List (Event Answer))
    (result : Int × StreamState NosBodyState) : Prop :=
  localFile current = none ∧
    ∃ banner titled during, env start (.print banner) () titled ∧
      page = ⟨.print banner, ()⟩ :: during ∧
      FetchRun env fuel pageLines current titled during last ending result

/-- The gemtext documents that a turn displays with the events of its page: the content of a local
file that opens, or the body of a fetch that ends with a gemtext body. -/
inductive Displays (env : Env Answer State) (fuel pageLines : Nat) (current : NosUrl)
    (start : State) (page : List (Event Answer)) : Text → Prop where
  | file {path : Path} {document : Text} (isLocal : localFile current = some path)
      (opened : ⟨.fopenRead path, some document⟩ ∈ page) :
      Displays env fuel pageLines current start page document
  | body {ending : List (Event Answer)} {last : StreamState NosBodyState}
      {result : Int × StreamState NosBodyState}
      (fetched : Fetched env fuel pageLines current start page last ending result)
      (gemtext : GemtextBody ending result) :
      Displays env fuel pageLines current start page (chunksIn ending).flatten

/-- The table is defined and holds only links of the documents displayed, hence none where none is
displayed. -/
def OnScreen (displayed : Text → Prop) (links : Option NosRenderCtx) : Prop :=
  ∃ table, links = some table ∧
    ∀ link ∈ table.links, ∃ document, displayed document ∧ link ∈ pageLinks document

/-- The main loop, started at its home URL, has reached the command prompt of a turn: complete turns
led to `here`, and the display of its page left `links`. -/
structure AtPrompt (env : Env Answer State) (fuel pageLines : Nat) (home : NosUrl) (state : State)
    (before : List (Event Answer)) (here : MainState) (start : State) (page : List (Event Answer))
    (links : Option NosRenderCtx) : Prop where
  turns : ∃ visited,
    Iterates env (turn fuel pageLines) (.initial home) state visited before here start
  displays : ∃ after, Steps env start (display fuel pageLines here) page after (.ret links)

theorem displayFile_links {path : Path} {titleLine failure : String} {pageLines : Nat}
    {links after : Option NosRenderCtx}
    (run : Steps env state (displayFile path titleLine failure pageLines links) trace final
      (.ret after)) :
    (∃ document table, ⟨.fopenRead path, some document⟩ ∈ trace ∧ after = some table ∧
        table.links = pageLinks document) ∨
      (∀ document, ⟨.fopenRead path, some document⟩ ∉ trace) ∧ after = links := by
  unfold displayFile at run
  obtain ⟨_, _, _, _, titled, rfl⟩ := run.perform_ret
  obtain ⟨⟨rc, rendered⟩, front, back, _, shown, told, rfl⟩ := titled.bind_ret
  have ended : rendered = after ∧ ∀ document, ⟨.fopenRead path, some document⟩ ∉ back := by
    dsimp only at told
    split at told
    · obtain ⟨_, _, _, _, last, rfl⟩ := told.perform_ret
      obtain ⟨rfl, _, equal⟩ := last.of_ret
      cases equal
      simp
    · obtain ⟨rfl, _, equal⟩ := told.of_ret
      cases equal
      simp
  obtain ⟨rfl, silent⟩ := ended
  rcases renderHomepage_links shown with ⟨document, table, opened, filled⟩ | ⟨rfl, same⟩
  · exact .inl ⟨document, table, by simp [opened], filled⟩
  · exact .inr ⟨by simp [silent], same⟩

theorem displayFetched_links {fuel pageLines : Nat} {url : NosUrl} {links : Option NosRenderCtx}
    (remote : localFile url = none)
    (run : Steps env state (displayFetched fuel pageLines url) trace final (.ret links)) :
    ∃ table last ending result, links = some table ∧
      Fetched env fuel pageLines url state trace last ending result ∧
      (GemtextBody ending result → table.links = pageLinks (chunksIn ending).flatten) ∧
      (¬ GemtextBody ending result → table.links = []) := by
  unfold displayFetched at run
  obtain ⟨⟨⟩, titled, _, title, fetching, rfl⟩ := run.perform_ret
  obtain ⟨⟨rc, table⟩, front, back, _, fetched, told, rfl⟩ := fetching.bind_ret
  have ended : links = some table := by
    dsimp only at told
    split at told
    · obtain ⟨_, _, _, _, last, _⟩ := told.perform_ret
      injection last.of_ret.2.2
    · injection told.of_ret.2.2
  obtain ⟨last, ending, result, fetchRun, table⟩ := fetchAndRender_links fetched
  exact ⟨_, last, ending, result, ended,
    ⟨remote, _, titled, _, title, rfl, fetchRun.append back⟩, table⟩

theorem pageSource_of_remote {url : NosUrl} (remote : localFile url = none) :
    pageSource url = .gemini := by
  cases source : pageSource url with
  | homepage => simp [localFile, source] at remote
  | bookmarks => simp [localFile, source] at remote
  | gemini => rfl

/-- A turn on a page that is fetched is left with the links of a gemtext body, and with no links
without one. -/
theorem display_fetched {fuel pageLines : Nat} {here : MainState} {links : Option NosRenderCtx}
    (remote : localFile here.current = none)
    (run : Steps env state (display fuel pageLines here) trace final (.ret links)) :
    ∃ table last ending result, links = some table ∧
      Fetched env fuel pageLines here.current state trace last ending result ∧
      (GemtextBody ending result → table.links = pageLinks (chunksIn ending).flatten) ∧
      (¬ GemtextBody ending result → table.links = []) := by
  unfold display at run
  simp only [pageSource_of_remote remote] at run
  exact displayFetched_links remote run

/-- The local file of a turn opens, if its page is a local one. -/
def FileOpens (current : NosUrl) (page : List (Event Answer)) : Prop :=
  ∀ path, localFile current = some path → ∃ document, ⟨.fopenRead path, some document⟩ ∈ page

/-- The display of a page puts its links into the table, unless it is the one of a local file that
does not open, which leaves the table alone. -/
theorem display_links {fuel pageLines : Nat} {here : MainState} {links : Option NosRenderCtx}
    (run : Steps env state (display fuel pageLines here) trace final (.ret links)) :
    (FileOpens here.current trace →
        OnScreen (Displays env fuel pageLines here.current state trace) links) ∧
      (¬ FileOpens here.current trace → links = here.links) := by
  have shown : ∀ {path titleLine failure}, localFile here.current = some path →
      Steps env state (displayFile path titleLine failure pageLines here.links) trace final
        (.ret links) →
      (FileOpens here.current trace →
          OnScreen (Displays env fuel pageLines here.current state trace) links) ∧
        (¬ FileOpens here.current trace → links = here.links) := by
    intro path titleLine failure isLocal run
    rcases displayFile_links run with ⟨document, table, opened, filled, entries⟩ | ⟨closed, same⟩
    · refine ⟨fun _ => ⟨table, filled, fun link member => ?_⟩, fun notOpen => ?_⟩
      · exact ⟨document, .file isLocal opened, entries ▸ member⟩
      · refine absurd (fun other sameFile => ?_) notOpen
        cases isLocal.symm.trans sameFile
        exact ⟨document, opened⟩
    · refine ⟨fun opens => ?_, fun _ => same⟩
      obtain ⟨document, opened⟩ := opens path isLocal
      exact absurd opened (closed document)
  cases source : pageSource here.current with
  | homepage =>
    simp only [display, source] at run
    exact shown (by rw [localFile, source]) run
  | bookmarks =>
    simp only [display, source] at run
    exact shown (by rw [localFile, source]) run
  | gemini =>
    have remote : localFile here.current = none := by rw [localFile, source]
    obtain ⟨table, last, ending, result, filled, fetched, gemtextLinks, otherLinks⟩ :=
      display_fetched remote run
    refine ⟨fun _ => ⟨table, filled, fun link member => ?_⟩, fun notOpen => ?_⟩
    · by_cases gemtext : GemtextBody ending result
      · exact ⟨_, .body fetched gemtext, gemtextLinks gemtext ▸ member⟩
      · rw [otherLinks gemtext] at member
        cases member
    · exact absurd (fun path isLocal => by cases remote.symm.trans isLocal) notOpen

/-- A turn displays no gemtext document when its local file does not open. -/
theorem Displays.fileOpens {fuel pageLines : Nat} {current : NosUrl} {document : Text}
    (displayed : Displays env fuel pageLines current state trace document) :
    FileOpens current trace := by
  intro path isLocal
  cases displayed with
  | file sameFile opened =>
    cases isLocal.symm.trans sameFile
    exact ⟨_, opened⟩
  | body fetched => cases isLocal.symm.trans fetched.1

/-- In every turn of every run of the main loop, the table that a number command consults is defined
and holds only links of the documents displayed in that turn exactly when the page of the turn was
fetched, its local file opened, or the table was defined and empty before the turn. -/
theorem mainLoop_onScreen_iff {fuel pageLines : Nat} {home : NosUrl} {state start : State}
    {before page : List (Event Answer)} {here : MainState} {links : Option NosRenderCtx}
    (prompt : AtPrompt env fuel pageLines home state before here start page links) :
    OnScreen (Displays env fuel pageLines here.current start page) links ↔
      FileOpens here.current page ∨ ∃ table, here.links = some table ∧ table.links = [] := by
  obtain ⟨after, run⟩ := prompt.displays
  obtain ⟨filled, untouched⟩ := display_links run
  by_cases opens : FileOpens here.current page
  · exact iff_of_true (filled opens) (.inl opens)
  rw [untouched opens]
  constructor
  · rintro ⟨table, defined, fromPage⟩
    refine .inr ⟨table, defined, List.eq_nil_iff_forall_not_mem.mpr fun link member => ?_⟩
    obtain ⟨document, displayed, -⟩ := fromPage link member
    exact opens displayed.fileOpens
  · rintro (opened | ⟨table, defined, empty⟩)
    · exact absurd opened opens
    · exact ⟨table, defined, by simp [empty]⟩

end Pages

/-! ### Home pages -/

theorem showOut_run (out : List Out) :
    ∃ trace, Steps anyEnv () (showOut out) trace () (.ret ()) := by
  induction out with
  | nil => exact ⟨_, .refl _ _⟩
  | cons output rest inductionHypothesis =>
    obtain ⟨trace, run⟩ := inductionHypothesis
    cases output with
    | put shown => exact ⟨⟨.print shown, ()⟩ :: trace, .any run⟩
    | pause =>
      exact ⟨⟨.print _, ()⟩ :: ⟨.getch, ()⟩ :: ⟨.print _, ()⟩ :: trace, .any (.any (.any run))⟩

/-- The home page of the configuration `HOME=gemini://local/homepage`. -/
def homeUrl : NosUrl := ⟨text "local", 1965, text "/homepage"⟩

/-- A home page that opens is displayed up to the prompt of the first turn. -/
theorem atPrompt_home (document : Text) :
    ∃ page links, ⟨.fopenRead .homepage, some document⟩ ∈ page ∧
      AtPrompt anyEnv 1 24 homeUrl () [] (.initial homeUrl) () page links := by
  let fed := feedChunks (nosRenderStreamInit (bodyCtx 24)) (blocks homeBlockSize document)
  let flushed := nosRenderStreamFlush fed.2.2
  obtain ⟨feedTrace, feedRun⟩ := showOut_run fed.2.1
  obtain ⟨flushTrace, flushRun⟩ := showOut_run flushed.2.1
  have rendered : Steps anyEnv () (renderHomepage .homepage none 24)
      (⟨.fopenRead .homepage, some document⟩ :: (feedTrace ++ (flushTrace ++ []))) ()
      (.ret (0, some flushed.2.2.ctx)) :=
    .any (feedRun.bind (flushRun.bind (.refl _ _)))
  exact ⟨⟨.print _, ()⟩ :: (_ ++ []), _, by simp, ⟨[], .refl _ _⟩, (),
    .any (rendered.bind (.refl _ _))⟩

theorem mainLoop_onScreen_links :
    ∃ page links, AtPrompt anyEnv 1 24 homeUrl () [] (.initial homeUrl) () page links ∧
      OnScreen (Displays anyEnv 1 24 homeUrl () page) links := by
  obtain ⟨page, links, opened, prompt⟩ := atPrompt_home (text "=> gemini://a/ A")
  refine ⟨page, links, prompt, (mainLoop_onScreen_iff prompt).mpr (.inl fun path isLocal => ?_)⟩
  cases isLocal
  exact ⟨_, opened⟩

/-- A home page that does not open leaves the table undefined. -/
theorem mainLoop_onScreen_undefined :
    nosUrlParse (text "gemini://local/homepage") = some homeUrl ∧
      ∃ page, AtPrompt anyEnv 1 24 homeUrl () [] (.initial homeUrl) () page none ∧
        ¬ OnScreen (Displays anyEnv 1 24 homeUrl () page) none := by
  refine ⟨by decide, ⟨.print (text "\n== HOME ==\n"), ()⟩ :: ⟨.fopenRead .homepage, none⟩ ::
    ⟨.print (text "Failed to open HOMEPAGE.GEM\n"), ()⟩ :: [],
    ⟨⟨[], .refl _ _⟩, (), .any (.any (.any (.refl _ _)))⟩, nofun⟩

end Nosgem
