/-
This file models the page sources of `main.c`: the body callback, the fetch of
a page and the display of a local file. Each of them fills the link table of
the main loop, or fails.

The callback is a function of its user data, so what it writes to the screen is
collected in the body state and written when the request returns; the request
loop itself writes nothing after its first call of the callback.
-/

import Nosgem.Gemini
import Nosgem.Render

namespace Nosgem

open CText Interaction

/-! ### The body callback -/

/-- `is_gemtext`. -/
def isGemtext (metaText : Text) : Bool := (text "text/gemini").isPrefixOf metaText

/-- `decided` and `is_gem` of `nos_body_state_t`, with the stream and its context, which only a
gemtext body sets up. -/
inductive BodyKind where
  | undecided
  | raw
  | gem (rstream : NosRenderStream)

/-- `nos_body_state_t`, and what the callback has written to the screen. The pointer `resp` is the
response that the request loop hands to the callback. -/
structure NosBodyState where
  kind : BodyKind
  rawLines : Nat
  pageLines : Nat
  screen : List Out

/-- The body state `fetch_and_render` starts with. -/
def NosBodyState.start (pageLines : Nat) : NosBodyState := ⟨.undecided, 0, pageLines, []⟩

/-- `raw_line_break`. -/
def rawLineBreak (st : NosBodyState) : NosBodyState :=
  if st.pageLines > 0 ∧ st.rawLines + 1 ≥ st.pageLines then
    { st with rawLines := 0, screen := st.screen ++ [.pause] }
  else { st with rawLines := st.rawLines + 1 }

/-- The first part of `body_cb`: the first chunk decides how the body is displayed. -/
def decideBody (resp : NosGeminiResp) (st : NosBodyState) : NosBodyState :=
  match st.kind with
  | .undecided =>
    if isGemtext resp.metaText then
      { st with
        kind := .gem (nosRenderStreamInit { nosRenderCtxInit with pageLines := st.pageLines })
        screen := st.screen ++ [.put (text "--- Gemtext ---\n")] }
    else { st with kind := .raw, screen := st.screen ++ [.put (text "--- Response ---\n")] }
  | _ => st

/-- `body_cb`, with an `fwrite` to the screen that does not fail. -/
def bodyCb : BodyCb NosBodyState := fun resp st chunk =>
  let st := decideBody resp st
  match st.kind with
  | .gem rstream =>
    let (rc, out, rstream) := nosRenderStreamFeed rstream chunk
    (if rc ≠ 0 then -1 else 0, { st with kind := .gem rstream, screen := st.screen ++ out })
  | _ =>
    (0, chunk.foldl (fun st c => if c = lf then rawLineBreak st else st)
      { st with screen := st.screen ++ [.put chunk] })

/-! ### Pages -/

/-- Writing to the screen, with the default pause. -/
def showOut : List Out → Io Unit
  | [] => return ()
  | .put output :: rest => do
    invoke (.print output)
    showOut rest
  | .pause :: rest => do
    invoke (.print (text "--More--"))
    invoke .getch
    invoke (.print (text "\r        \r"))
    showOut rest

/-- What `fetch_and_render` does with the body state of a 2x response: the table it stores. -/
def finishBody (st : NosBodyState) : Io NosRenderCtx :=
  match st.kind with
  | .undecided => do
    invoke (.print (text "--- Response ---\n"))
    return nosRenderCtxInit
  | .raw => return nosRenderCtxInit
  | .gem rstream => do
    let (rc, out, rstream) := nosRenderStreamFlush rstream
    showOut out
    if rc ≠ 0 then
      invoke (.print (text "Render failed\n"))
    return rstream.ctx

/-- `fetch_and_render`: the result, and the table in `out_ctx`. -/
def fetchAndRender (fuel : Nat) (url : NosUrl) (pageLines : Nat) : Io (Int × NosRenderCtx) := do
  let pageLines := if pageLines = 0 then 24 else pageLines
  let (rc, done) ← nosGeminiRequestStream fuel url bodyCb (.start pageLines)
  showOut done.user.screen
  if rc ≠ 0 then
    invoke (.print (text "Gemini request failed: " ++
      (if done.err.msg ≠ [] then done.err.msg else text "unknown") ++ text "\n"))
    return (-1, nosRenderCtxInit)
  if 20 ≤ done.resp.status ∧ done.resp.status < 30 then
    let links ← finishBody done.user
    if ← invoke .userAbort then
      invoke (.print (text "\n(Aborted)\n"))
    invoke (.print (text "\n--- End ---\n"))
    return (0, links)
  invoke (.print (text "Status: " ++ decimal done.resp.status ++ text "\n"))
  invoke (.print (text "Meta: " ++ done.resp.metaText ++ text "\n"))
  return (0, nosRenderCtxInit)

/-- The size of the buffer of `render_homepage`. -/
def homeBlockSize : Nat := 512

/-- `render_homepage`: the result and the table it leaves, which it does not touch when the file
does not open. -/
def renderHomepage (path : Path) (links : Option NosRenderCtx) (pageLines : Nat) :
    Io (Int × Option NosRenderCtx) := do
  let some content ← invoke (.fopenRead path) | return (-1, links)
  let (_, out, st) := feedChunks (nosRenderStreamInit { nosRenderCtxInit with pageLines })
    (blocks homeBlockSize content)
  showOut out
  let (_, out, st) := nosRenderStreamFlush st
  showOut out
  return (0, some st.ctx)

end Nosgem
