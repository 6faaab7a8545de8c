/-
This file models the user interface: the history stack of `nav.c`, the prompt
of `ui.c`, the bookmarks file of `bookmarks.c`, and the main loop of `main.c`
from the parsed home URL on. One turn of the loop displays the page of the
current URL, reads a command and carries it out.

The link table of the main loop is a local variable without an initialiser, so
it is missing until a page has filled it; what a command then reads of it is
whatever the memory holds.
-/

import Nosgem.Page
import Nosgem.UrlText

namespace Nosgem

open CText Interaction

/-! ### The history -/

/-- `NOS_NAV_MAX`. -/
def nosNavMax : Nat := 32

/-- `nos_nav_t`, the last item first. -/
structure NosNav where
  items : List NosUrl
  itemsFit : items.length ≤ nosNavMax
  deriving DecidableEq

/-- `nos_nav_init`. -/
def nosNavInit : NosNav := ⟨[], by decide⟩

/-- `nos_nav_push`: the result and the stack; a full stack stays as it is. -/
def nosNavPush (nav : NosNav) (url : NosUrl) : Int × NosNav :=
  if full : nav.items.length ≥ nosNavMax then (-1, nav)
  else (0, ⟨url :: nav.items, by rw [List.length_cons]; omega⟩)

/-- `nos_nav_pop`, nothing where it returns -1. -/
def nosNavPop (nav : NosNav) : Option (NosUrl × NosNav) :=
  match items : nav.items with
  | [] => none
  | url :: rest => some (url, ⟨rest, by
      have fits := nav.itemsFit
      rw [items, List.length_cons] at fits
      omega⟩)

/-! ### The prompt and the bookmarks -/

/-- `nos_ui_prompt`: the line without its end, nothing where it returns -1. -/
def nosUiPrompt (prompt : Text) (max : Nat) : Io (Option Text) := do
  if prompt ≠ [] then
    invoke (.print prompt)
  match ← invoke (.fgetsStdin max) with
  | none => return none
  | some line => return some (rstripNewline line.bytes)

/-- `nos_bookmarks_add`. -/
def nosBookmarksAdd (url label : Text) : Io Int := do
  if url = [] then return -1
  if !(← invoke (.fopenWrite .bookmarks .append)) then return -1
  let _ ← invoke (.fputs .bookmarks
    (text "=> " ++ url ++ (if label ≠ [] then text " " ++ label else []) ++ [lf]))
  let _ ← invoke (.fclose .bookmarks)
  return 0

/-! ### Commands -/

/-- `sizeof(temp)` of `parse_user_url`. -/
def userUrlSize : Nat := 600

/-- `parse_user_url`. -/
def parseUserUrl (input : Text) : Option NosUrl :=
  if nosUrlScheme.isPrefixOf input then nosUrlParse input
  else if strstr input (text "://") then none
  else if input.length + 9 ≥ userUrlSize then none
  else nosUrlParse (nosUrlScheme ++ input)

/-- `is_number`. -/
def isNumber (s : Text) : Bool := isAllDigits s

/-- `(unsigned int)atoi(s)` on a string of digits, on the 16-bit target. -/
def atoi (s : Text) : Nat := decimalValue s % uintRange

/-- The locals of `main` at the head of its loop; the table is missing until it has been filled. -/
structure MainState where
  current : NosUrl
  history : NosNav
  links : Option NosRenderCtx

/-- The state before the first turn. -/
def MainState.initial (home : NosUrl) : MainState := ⟨home, nosNavInit, none⟩

/-- `nos_nav_push(&history, &current); current = next;`. -/
def MainState.goTo (st : MainState) (next : NosUrl) : MainState :=
  { st with current := next, history := (nosNavPush st.history st.current).2 }

/-- A local page. -/
def localPage (name : String) : NosUrl := ⟨text "local", 0, text name⟩

/-- `links.link_count`. -/
def linkCount (links : Option NosRenderCtx) : Io Nat :=
  match links with
  | some table => return table.links.length
  | none => invoke .strayUint

/-- `links.links[i].url`. -/
def linkUrl (links : Option NosRenderCtx) (i : Nat) : Io Text :=
  match links.bind fun table => table.links[i]? with
  | some link => return link.url
  | none => invoke .strayText

/-- The number command. -/
def followLink (st : MainState) (idx : Nat) : Io MainState := do
  if idx = 0 ∨ idx > (← linkCount st.links) then
    invoke (.print (text "Invalid link number\n"))
    return st
  match nosUrlResolve st.current (← linkUrl st.links (idx - 1)) with
  | none =>
    invoke (.print (text "Failed to resolve link\n"))
    return st
  | some next => return st.goTo next

/-- The bookmark command. -/
def addBookmark (st : MainState) : Io Unit := do
  let urlbuf := makeCurrentUrl st.current urlbufSize
  if urlbuf = [] then
    invoke (.print (text "URL too long\n"))
  else
    match ← nosUiPrompt (text "Label (optional): ") 128 with
    | none => invoke (.print (text "Cancelled\n"))
    | some label =>
      if (← nosBookmarksAdd urlbuf label) ≠ 0 then
        invoke (.print (text "Failed to write bookmarks\n"))
      else
        invoke (.print (text "Bookmarked\n"))

/-- The dispatch of a command line: the next state, or the end of the loop. -/
def command (st : MainState) (input : Text) : Io (MainState ⊕ Unit) := do
  if input = [] then return .inl st
  if input = text "q" then return .inr ()
  if input = text "r" then return .inl st
  if input = text "h" then return .inl (st.goTo (localPage "/homepage"))
  if input = text "B" then return .inl (st.goTo (localPage "/bookmarks"))
  if input = text "a" then
    addBookmark st
    return .inl st
  if input = text "b" then
    match nosNavPop st.history with
    | some (next, history) => return .inl { st with current := next, history }
    | none =>
      invoke (.print (text "No history\n"))
      return .inl st
  if isNumber input then
    return .inl (← followLink st (atoi input))
  match parseUserUrl input with
  | none =>
    invoke (.print (text "Invalid URL\n"))
    return .inl st
  | some next => return .inl (st.goTo next)

/-! ### The main loop -/

/-- Where a page comes from. -/
inductive PageSource where
  | homepage
  | bookmarks
  | gemini
  deriving DecidableEq

/-- The tests on the current URL at the head of the loop. -/
def pageSource (url : NosUrl) : PageSource :=
  if url.host = text "local" ∧ url.path = text "/homepage" then .homepage
  else if url.host = text "local" ∧ url.path = text "/bookmarks" then .bookmarks
  else .gemini

/-- The display of a local page. -/
def displayFile (path : Path) (title failure : String) (pageLines : Nat)
    (links : Option NosRenderCtx) : Io (Option NosRenderCtx) := do
  invoke (.print (text title))
  let (rc, links) ← renderHomepage path links pageLines
  if rc ≠ 0 then
    invoke (.print (text failure))
  return links

/-- The display of a page that is fetched. -/
def displayFetched (fuel pageLines : Nat) (url : NosUrl) : Io (Option NosRenderCtx) := do
  invoke (.print (text "\n== " ++ url.host ++ text ":" ++ decimal url.port ++ url.path ++
    text " ==\n"))
  let (rc, links) ← fetchAndRender fuel url pageLines
  if rc ≠ 0 then
    invoke (.print (text "Fetch failed\n"))
  return some links

/-- The first part of a turn: the page of the current URL is displayed, and the table is filled. -/
def display (fuel pageLines : Nat) (st : MainState) : Io (Option NosRenderCtx) :=
  match pageSource st.current with
  | .homepage => displayFile .homepage "\n== HOME ==\n" "Failed to open HOMEPAGE.GEM\n" pageLines
      st.links
  | .bookmarks => displayFile .bookmarks "\n== BOOKMARKS ==\n" "Failed to open BOOKMARKS.GEM\n"
      pageLines st.links
  | .gemini => displayFetched fuel pageLines st.current

/-- One turn of the main loop. -/
def turn (fuel pageLines : Nat) (st : MainState) : Io (MainState ⊕ Unit) := do
  let links ← display fuel pageLines st
  let some input ← nosUiPrompt (text "Command (number/url/b/r/h/B/a/q): ") 256 | return .inr ()
  command { st with links } input

/-- The loop of `main`, unrolled `fuel` times, as its inner loops are. -/
def mainLoop (fuel pageLines : Nat) (home : NosUrl) : Io Unit :=
  loop (turn fuel pageLines) fuel (.initial home)

end Nosgem
