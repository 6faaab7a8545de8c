/-
This file models the locals of `main` as the source has them, with the URL `next`
that parsing and resolving write to. `nos_url_parse` and `nos_url_resolve` write
the fields of their result one after the other and may fail in between, so a
command can leave `next` half-written; the model keeps what every call leaves in
it, and the commands as they order the calls and the assignments.

The rest of the development has no such variable. The calls here deliver what the
functions of `url.c` and `nav.c` deliver there, and the main loop with `next` is
the main loop without it.
-/

import Nosgem.Browser

namespace Nosgem

open CText Interaction

/-! ### Calls that write a URL -/

/-- What a call that returns 0 delivers. -/
def delivered (call : Int × NosUrl) : Option NosUrl :=
  if call.1 = 0 then some call.2 else none

@[simp] theorem delivered_zero (out : NosUrl) : delivered (0, out) = some out := rfl

@[simp] theorem delivered_failed (out : NosUrl) : delivered (-1, out) = none := rfl

/-- `normalize_path(out->path, sizeof(out->path))`: the path is written at the end. -/
def normalizeInto (out : NosUrl) : Int × NosUrl :=
  match normalizePath out.path pathSize with
  | none => (-1, out)
  | some path => (0, { out with path })

/-- The part of `nos_url_parse` that writes the host and the port. -/
def parseAuthorityInto (out : NosUrl) (authority rest : Text) : Int × NosUrl :=
  let host := authority.takeWhile (· != colon)
  if host.length = 0 ∨ host.length ≥ hostSize then (-1, out)
  else
    let out := { out with host }
    match authority.dropWhile (· != colon) with
    | [] => (0, out)
    | _ :: digits =>
      if isAllDigits (digits ++ rest) then
        match scanPort digits with
        | none => (-1, out)
        | some portVal => if portVal = 0 then (-1, out) else (0, { out with port := portVal })
      else (-1, out)

/-- The part of `nos_url_parse` that writes the path. -/
def parsePathInto (out : NosUrl) (pathStart : Text) : Int × NosUrl :=
  if pathStart.length ≥ pathSize then (-1, out)
  else normalizeInto { out with path := if pathStart = [] then [slash] else pathStart }

/-- `nos_url_parse` with what it leaves in `*out`; every field of it is written first. -/
def nosUrlParseInto (raw : Text) : Int × NosUrl :=
  let out : NosUrl := { host := [], port := nosDefaultPort, path := [] }
  match stripScheme raw with
  | none => (-1, out)
  | some p =>
    let authority := p.takeWhile (· != slash)
    let pathStart := p.dropWhile (· != slash)
    if authority = [] then (-1, out)
    else
      let parsed := parseAuthorityInto out authority pathStart
      if parsed.1 ≠ 0 then parsed else parsePathInto parsed.2 pathStart

/-- `nos_url_resolve` with what it leaves in `*out`. -/
def nosUrlResolveInto (base : NosUrl) (link : Text) (out : NosUrl) : Int × NosUrl :=
  if link = [] then (0, base)
  else if strIEqN link nosUrlScheme nosUrlScheme.length then nosUrlParseInto link
  else if strstr link (text "://") then (-1, out)
  else
    -- `*out = *base` stands in front of the length checks
    let out := base
    if link.head? = some slash then
      if link.length ≥ pathSize then (-1, out)
      else normalizeInto { out with path := link }
    else if link.head? = some question then
      if base.path.length + link.length ≥ pathSize then (-1, out)
      else (0, { out with path := base.path ++ link })
    else if (directory base.path).length ≥ pathSize then (-1, out)
    else if (directory base.path).length + link.length ≥ pathSize then (-1, out)
    else normalizeInto { out with path := directory base.path ++ link }

/-- `nos_nav_pop` with the stack and what it leaves in `*out`. -/
def nosNavPopInto (nav : NosNav) (out : NosUrl) : Int × NosNav × NosUrl :=
  match nosNavPop nav with
  | none => (-1, nav, out)
  | some (url, nav) => (0, nav, url)

/-- `parse_user_url` with what it leaves in `*out`. -/
def parseUserUrlInto (input : Text) (out : NosUrl) : Int × NosUrl :=
  if nosUrlScheme.isPrefixOf input then nosUrlParseInto input
  else if strstr input (text "://") then (-1, out)
  else if input.length + 9 ≥ userUrlSize then (-1, out)
  else nosUrlParseInto (nosUrlScheme ++ input)

/-! ### What the calls deliver -/

theorem delivered_normalizeInto (out : NosUrl) :
    delivered (normalizeInto out) =
      (normalizePath out.path pathSize).map fun path => { out with path } := by
  unfold normalizeInto
  cases normalizePath out.path pathSize <;> rfl

/-- A call that returns where another one failed delivers what both deliver in turn. -/
theorem delivered_ite (call : Int × NosUrl) (rest : NosUrl → Int × NosUrl) :
    delivered (if call.1 ≠ 0 then call else rest call.2) =
      (delivered call).bind fun out => delivered (rest out) := by
  by_cases done : call.1 = 0
  · rw [if_neg (not_not.mpr done), delivered, delivered, if_pos done, Option.bind_some]
    rfl
  · rw [if_pos done, delivered, if_neg done, Option.bind_none]

theorem delivered_parseAuthorityInto (port : Nat) (host path authority rest : Text)
    (default : port = nosDefaultPort) :
    delivered (parseAuthorityInto ⟨host, port, path⟩ authority rest) =
      (parseAuthority authority rest).map fun parsed => ⟨parsed.1, parsed.2, path⟩ := by
  subst default
  unfold parseAuthorityInto parseAuthority
  dsimp only
  by_cases badHost : (authority.takeWhile (· != colon)).length = 0 ∨
      (authority.takeWhile (· != colon)).length ≥ hostSize
  · rw [if_pos badHost, if_pos badHost]
    rfl
  rw [if_neg badHost, if_neg badHost]
  cases authority.dropWhile (· != colon) with
  | nil => rfl
  | cons c digits =>
    dsimp only
    by_cases allDigits : isAllDigits (digits ++ rest)
    · rw [if_pos allDigits, if_pos allDigits]
      cases scanPort digits with
      | none => rfl
      | some portVal =>
        dsimp only
        split_ifs <;> rfl
    · rw [if_neg allDigits, if_neg allDigits]
      rfl

theorem delivered_parsePathInto (out : NosUrl) (pathStart : Text) :
    delivered (parsePathInto out pathStart) =
      if pathStart.length ≥ pathSize then none
      else
        (normalizePath (if pathStart = [] then [slash] else pathStart) pathSize).map fun path =>
          { out with path } := by
  unfold parsePathInto
  split
  · rfl
  · rw [delivered_normalizeInto]

/-- `nos_url_parse` delivers the URL that is parsed. -/
theorem delivered_nosUrlParseInto (raw : Text) :
    delivered (nosUrlParseInto raw) = nosUrlParse raw := by
  unfold nosUrlParseInto nosUrlParse
  cases stripScheme raw with
  | none => rfl
  | some p =>
    dsimp only
    by_cases noHost : p.takeWhile (· != slash) = []
    · rw [if_pos noHost, if_pos noHost]
      rfl
    rw [if_neg noHost, if_neg noHost,
      delivered_ite _ fun out => parsePathInto out (p.dropWhile (· != slash)),
      delivered_parseAuthorityInto _ _ _ _ _ rfl]
    cases parseAuthority (p.takeWhile (· != slash)) (p.dropWhile (· != slash)) with
    | none => rfl
    | some parsed =>
      rw [Option.map_some, Option.bind_some, delivered_parsePathInto]
      dsimp only
      split
      · rfl
      · cases normalizePath _ pathSize <;> rfl

/-- `nos_url_resolve` delivers the URL that the link resolves to. -/
theorem delivered_nosUrlResolveInto (base : NosUrl) (link : Text) (out : NosUrl) :
    delivered (nosUrlResolveInto base link out) = nosUrlResolve base link := by
  unfold nosUrlResolveInto nosUrlResolve
  split_ifs <;> simp only [delivered_nosUrlParseInto, delivered_normalizeInto, delivered_zero,
    delivered_failed]

/-- `parse_user_url` delivers the URL that is typed. -/
theorem delivered_parseUserUrlInto (input : Text) (out : NosUrl) :
    delivered (parseUserUrlInto input out) = parseUserUrl input := by
  unfold parseUserUrlInto parseUserUrl
  split_ifs <;> simp only [delivered_nosUrlParseInto, delivered_failed]

/-! ### The commands -/

/-- The locals of `main` at the head of its loop. -/
structure MainLocals where
  current : NosUrl
  next : NosUrl
  history : NosNav
  links : Option NosRenderCtx

/-- The locals without `next`. -/
def MainLocals.state (l : MainLocals) : MainState := ⟨l.current, l.history, l.links⟩

/-- `nos_nav_push(&history, &current)`. -/
def MainLocals.push (l : MainLocals) : MainLocals :=
  { l with history := (nosNavPush l.history l.current).2 }

/-- The end of the number and of the URL command: a call has written `next`, and its failure is
reported. -/
def MainLocals.enter (l : MainLocals) (call : Int × NosUrl) (failure : String) :
    Io MainLocals := do
  let l := { l with next := call.2 }
  if call.1 ≠ 0 then
    invoke (.print (text failure))
    return l
  let l := l.push
  return { l with current := l.next }

/-- The number command. -/
def followLinkIn (l : MainLocals) (idx : Nat) : Io MainLocals := do
  if idx = 0 ∨ idx > (← linkCount l.links) then
    invoke (.print (text "Invalid link number\n"))
    return l
  let link ← linkUrl l.links (idx - 1)
  l.enter (nosUrlResolveInto l.current link l.next) "Failed to resolve link\n"

/-- The dispatch of a command line: the next locals, or the end of the loop. -/
def commandIn (l : MainLocals) (input : Text) : Io (MainLocals ⊕ Unit) := do
  if input = [] then return .inl l
  if input = text "q" then return .inr ()
  if input = text "r" then return .inl l
  if input = text "h" then return .inl { l.push with current := localPage "/homepage" }
  if input = text "B" then return .inl { l.push with current := localPage "/bookmarks" }
  if input = text "a" then
    addBookmark l.state
    return .inl l
  if input = text "b" then
    let (rc, history, next) := nosNavPopInto l.history l.next
    let l := { l with history, next }
    if rc = 0 then return .inl { l with current := l.next }
    invoke (.print (text "No history\n"))
    return .inl l
  if isNumber input then
    return .inl (← followLinkIn l (atoi input))
  return .inl (← l.enter (parseUserUrlInto input l.next) "Invalid URL\n")

/-- One turn of the main loop. -/
def turnIn (fuel pageLines : Nat) (l : MainLocals) : Io (MainLocals ⊕ Unit) := do
  let links ← display fuel pageLines l.state
  let some input ← nosUiPrompt (text "Command (number/url/b/r/h/B/a/q): ") 256 | return .inr ()
  commandIn { l with links } input

/-- The loop of `main`, unrolled `fuel` times; nothing has been written to `next` yet, so it is
whatever the memory holds. -/
def mainLoopIn (fuel pageLines : Nat) (home next : NosUrl) : Io Unit :=
  loop (turnIn fuel pageLines) fuel ⟨home, next, nosNavInit, none⟩

/-! ### The commands without `next` -/

theorem enter_state (l : MainLocals) (call : Int × NosUrl) (failure : String) :
    (l.enter call failure).map MainLocals.state =
      match delivered call with
      | none => do
        invoke (.print (text failure))
        return l.state
      | some next => return l.state.goTo next := by
  unfold MainLocals.enter
  by_cases done : call.1 = 0
  · rw [if_neg (not_not.mpr done), delivered, if_pos done]
    rfl
  · rw [if_pos done, delivered, if_neg done]
    rfl

theorem followLinkIn_state (l : MainLocals) (idx : Nat) :
    (followLinkIn l idx).map MainLocals.state = followLink l.state idx := by
  unfold followLinkIn followLink
  rw [map_bind]
  congr 1
  funext count
  split_ifs
  · rfl
  · rw [map_bind]
    congr 1
    funext link
    rw [enter_state, delivered_nosUrlResolveInto]
    rfl

/-- A command does to the other locals what it does without `next`. -/
theorem commandIn_state (l : MainLocals) (input : Text) :
    (commandIn l input).map (Sum.map MainLocals.state id) = command l.state input := by
  unfold commandIn command
  by_cases empty : input = []
  · rw [if_pos empty, if_pos empty]
    rfl
  rw [if_neg empty, if_neg empty]
  by_cases quit : input = text "q"
  · rw [if_pos quit, if_pos quit]
    rfl
  rw [if_neg quit, if_neg quit]
  by_cases reload : input = text "r"
  · rw [if_pos reload, if_pos reload]
    rfl
  rw [if_neg reload, if_neg reload]
  by_cases home : input = text "h"
  · rw [if_pos home, if_pos home]
    rfl
  rw [if_neg home, if_neg home]
  by_cases bookmarks : input = text "B"
  · rw [if_pos bookmarks, if_pos bookmarks]
    rfl
  rw [if_neg bookmarks, if_neg bookmarks]
  by_cases add : input = text "a"
  · rw [if_pos add, if_pos add, map_bind]
    rfl
  rw [if_neg add, if_neg add]
  by_cases back : input = text "b"
  · rw [if_pos back, if_pos back, nosNavPopInto, show l.state.history = l.history from rfl]
    cases nosNavPop l.history <;> rfl
  rw [if_neg back, if_neg back]
  by_cases number : isNumber input
  · rw [if_pos number, if_pos number, map_bind, ← followLinkIn_state, bind_map]
    rfl
  rw [if_neg number, if_neg number, map_bind]
  have entered := enter_state l (parseUserUrlInto input l.next) "Invalid URL\n"
  have shown := bind_map MainLocals.state
    (l.enter (parseUserUrlInto input l.next) "Invalid URL\n")
    fun st => (.ret (.inl st) : Io (MainState ⊕ Unit))
  rw [entered, delivered_parseUserUrlInto] at shown
  refine shown.symm.trans ?_
  cases parseUserUrl input <;> rfl

/-- So does a turn of the main loop. -/
theorem turnIn_state (fuel pageLines : Nat) (l : MainLocals) :
    (turnIn fuel pageLines l).map (Sum.map MainLocals.state id) =
      turn fuel pageLines l.state := by
  unfold turnIn turn
  rw [map_bind]
  congr 1
  funext links
  rw [map_bind]
  congr 1
  funext input
  cases input with
  | none => rfl
  | some input => exact commandIn_state { l with links } input

/-- The main loop with `next` is the main loop without it, whatever `next` holds. -/
theorem mainLoopIn_eq (fuel pageLines : Nat) (home next : NosUrl) :
    mainLoopIn fuel pageLines home next = mainLoop fuel pageLines home :=
  loop_map MainLocals.state (turnIn_state fuel pageLines) fuel ⟨home, next, nosNavInit, none⟩

end Nosgem
