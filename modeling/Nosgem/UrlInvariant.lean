/-
This file settles what every URL of the browser looks like. A URL is made by
the parser, by a link or a redirect that is resolved, by an answered prompt, by
one of the two local pages, or it comes back from the history; each of these
gives a host and a path that end in their buffers, a host without a slash or a
colon, a path from the root, and a port that only a local page leaves at zero.
So the current URL of the main loop and all of its history stay like that, and
so does the current URL of every fetch.
-/

import Nosgem.History
import Nosgem.UrlParts

namespace Nosgem

open CText Interaction

/-! ### Texts that end where they end in memory -/

theorem nulFree_rstripNewline (line : Text) : 0 ∉ rstripNewline line := fun member => by
  have stripped := (List.dropWhile_sublist _).subset (List.mem_reverse.mp member)
  exact nulFree_cString line (List.mem_reverse.mp stripped)

/-- The META of a header that parses is a part of the C string in the header buffer. -/
theorem nulFree_parseHeader {line : Text} {resp after : NosGeminiResp} {metaMax : Nat}
    (parsed : parseHeader line resp metaMax = (0, after)) : 0 ∉ after.metaText := by
  unfold parseHeader at parsed
  split at parsed
  · rename_i tens ones rest opened
    split at parsed
    · dsimp only at parsed
      split at parsed
      · cases parsed
      · cases parsed
        have inLine : rest <:+: cString line := by
          refine List.IsInfix.trans ?_ (List.dropWhile_suffix isBlank).isInfix
          rw [opened]
          exact (List.suffix_append [tens, ones] rest).isInfix
        have inRest : takeMeta (rest.dropWhile isBlank) <:+: rest :=
          (takeMeta_leads _).isInfix.trans (List.dropWhile_suffix isBlank).isInfix
        exact textRule_nulFree.part (nulFree_cString line) (inRest.trans inLine)
    · cases parsed
  · cases parsed

/-- The URL of a link in the table is a part of the C string in the line buffer. -/
theorem nulFree_pageLinks {document : Text} {link : NosLink} (member : link ∈ pageLinks document) :
    0 ∉ link.url := by
  obtain ⟨line, linkLine, rfl⟩ := List.mem_map.mp (List.mem_of_mem_take member)
  obtain ⟨shown, _⟩ := List.mem_filter.mp linkLine
  obtain ⟨buffer, before, after, done⟩ := parsed_of_mem_shownLines shown
  have inLine : line.url <:+: cString buffer := (nosGemtextParseLine_parts done).2
  have cut : (linkOf line).url <:+: line.url := (List.take_prefix _ _).isInfix
  exact textRule_nulFree.part (nulFree_cString buffer) (cut.trans inLine)

/-! ### Sound URLs -/

/-- What every part of the browser may rely on: the host and the path end in their buffers of 256
and 512 bytes, the host is not empty and has no slash and no colon, the path starts at the root, and
only a local page has no port. -/
structure NosUrl.Sound (url : NosUrl) : Prop where
  hostEnds : 0 ∉ url.host
  hostSome : 1 ≤ url.host.length
  hostFits : url.host.length ≤ 255
  hostSlash : byte '/' ∉ url.host
  hostColon : byte ':' ∉ url.host
  pathEnds : 0 ∉ url.path
  pathRooted : url.path.head? = some (byte '/')
  pathFits : url.path.length ≤ 511
  port : (1 ≤ url.port ∧ url.port ≤ 65535) ∨ (url.port = 0 ∧ url.host = text "local")

/-- The port of a URL can be connected to, or the URL is a local page. -/
def NosUrl.PortSound (url : NosUrl) : Prop :=
  (1 ≤ url.port ∧ url.port ≤ 65535) ∨ (url.port = 0 ∧ url.host = text "local")

theorem NosUrl.sound_iff {url : NosUrl} :
    url.Sound ↔ url.Addressed ∧ url.Follows (fun s => 0 ∉ s) ∧ url.PortSound := by
  constructor
  · intro sound
    refine ⟨⟨?_, Nat.lt_succ_of_le sound.hostFits, sound.hostSlash, sound.hostColon,
      sound.pathRooted, Nat.lt_succ_of_le sound.pathFits⟩, ⟨sound.hostEnds, sound.pathEnds⟩,
      sound.port⟩
    exact List.length_pos_iff.mp sound.hostSome
  · rintro ⟨addressed, ⟨hostEnds, pathEnds⟩, port⟩
    exact ⟨hostEnds, List.length_pos_iff.mpr addressed.hostSome,
      Nat.le_of_lt_succ addressed.hostShort, addressed.hostSlash, addressed.hostColon, pathEnds,
      addressed.rooted, Nat.le_of_lt_succ addressed.fits, port⟩

theorem NosUrl.WellFormed.portSound {url : NosUrl} (wellFormed : url.WellFormed) : url.PortSound :=
  .inl ⟨wellFormed.portPositive, wellFormed.portSmall⟩

theorem sound_of_nosUrlParse {raw : Text} {url : NosUrl} (parsed : nosUrlParse raw = some url)
    (nulFree : 0 ∉ raw) : url.Sound :=
  have wellFormed := nosUrlParse_wellFormed parsed
  NosUrl.sound_iff.mpr ⟨wellFormed.addressed, textRule_nulFree.nosUrlParse parsed nulFree,
    wellFormed.portSound⟩

theorem NosUrl.Sound.nosUrlResolve {base next : NosUrl} {link : Text} (sound : base.Sound)
    (resolved : Nosgem.nosUrlResolve base link = some next) (nulFree : 0 ∉ link) : next.Sound := by
  obtain ⟨addressed, follows, port⟩ := NosUrl.sound_iff.mp sound
  refine NosUrl.sound_iff.mpr ⟨addressed.nosUrlResolve resolved,
    textRule_nulFree.nosUrlResolve resolved follows nulFree, ?_⟩
  rcases nosUrlResolve_eq_some resolved with
    ⟨_, rfl⟩ | ⟨_, parsed⟩ | ⟨_, _, rfl⟩ | ⟨_, _, _, _, rfl⟩
  · exact port
  · exact (nosUrlParse_wellFormed parsed).portSound
  · exact port
  · exact port

theorem NosUrl.Sound.applyQuery {base next : NosUrl} {query : Text} (sound : base.Sound)
    (applied : Nosgem.applyQuery base query = some next) : next.Sound := by
  obtain ⟨addressed, follows, port⟩ := NosUrl.sound_iff.mp sound
  refine NosUrl.sound_iff.mpr ⟨addressed.applyQuery applied,
    textRule_nulFree.applyQuery applied follows, ?_⟩
  obtain ⟨_, _, _, rfl⟩ := applyQuery_eq_some applied
  exact port

theorem sound_homepage : (localPage "/homepage").Sound := by
  constructor <;> decide

theorem sound_bookmarks : (localPage "/bookmarks").Sound := by
  constructor <;> decide

theorem sound_of_parseUserUrl {input : Text} {url : NosUrl} (parsed : parseUserUrl input = some url)
    (nulFree : 0 ∉ input) : url.Sound := by
  unfold parseUserUrl at parsed
  split at parsed
  · exact sound_of_nosUrlParse parsed nulFree
  split at parsed
  · cases parsed
  split at parsed
  · cases parsed
  · refine sound_of_nosUrlParse parsed ?_
    rw [List.mem_append, not_or]
    exact ⟨by decide, nulFree⟩

/-! ### Runs -/

section Runs

variable {State : Type} {env : Env Answer State} {state middle : State}
  {trace : List (Event Answer)}

/-- Every turn of the request loop that goes on has a sound URL, when the one before it had. -/
theorem sound_of_iterates {User : Type} {fuel : Nat} {cb : BodyCb User}
    {start here : StreamState User} {visited : List (StreamState User)}
    (iterates : Iterates env (exchange fuel cb) start state visited trace here middle)
    (sound : start.current.Sound) : here.current.Sound := by
  refine iterates.invariant (fun st => st.current.Sound) (fun sound turn => ?_) sound
  obtain ⟨⟨header, parsed⟩, leads, _⟩ := exchange_next turn
  rcases leads with ⟨_, _, line, applied⟩ | ⟨_, _, resolved⟩
  · exact sound.applyQuery applied
  · exact sound.nosUrlResolve resolved (nulFree_parseHeader parsed)

/-- The URLs in a link table are C strings. -/
def LinksEnd (links : Option NosRenderCtx) : Prop :=
  ∀ table, links = some table → ∀ link ∈ table.links, 0 ∉ link.url

/-- The invariant of the main loop. -/
structure MainState.Sound (st : MainState) : Prop where
  current : st.current.Sound
  history : ∀ url ∈ st.history.items, url.Sound
  links : LinksEnd st.links

theorem MainState.Sound.goTo {st : MainState} {target : NosUrl} (sound : st.Sound)
    (reached : target.Sound) : (st.goTo target).Sound where
  current := reached
  history := by
    rw [MainState.goTo]
    by_cases room : st.history.items.length < nosNavMax
    · rw [nosNavPush_items room]
      exact List.forall_mem_cons.mpr ⟨sound.current, sound.history⟩
    · rw [nosNavPush_full (not_lt.mp room)]
      exact sound.history
  links := sound.links

/-- What the memory answers where nothing was written is read as a C string. -/
def ReadsStrings (env : Env Answer State) : Prop :=
  ∀ state link after, env state .strayText link after → 0 ∉ link

theorem MainState.Sound.navigates {st moved : MainState} {input : Text} (sound : st.Sound)
    (nulFree : 0 ∉ input) (memory : ∀ link, ⟨.strayText, link⟩ ∈ trace → 0 ∉ link)
    (navigates : Navigates st trace input moved) : moved.Sound := by
  cases navigates with
  | home => exact sound.goTo sound_homepage
  | bookmarks => exact sound.goTo sound_bookmarks
  | link _ reads resolved =>
    refine sound.goTo (sound.current.nosUrlResolve resolved ?_)
    rcases reads with ⟨table, defined, entry, member, rfl⟩ | stray
    · exact sound.links table defined entry member
    · exact memory _ stray
  | typed _ _ parsed => exact sound.goTo (sound_of_parseUserUrl parsed nulFree)

/-- The table at the prompt holds C strings, whether the page filled it or not. -/
theorem linksEnd_display {fuel pageLines : Nat} {here : MainState} {links : Option NosRenderCtx}
    (ends : LinksEnd here.links)
    (run : Steps env state (display fuel pageLines here) trace middle (.ret links)) :
    LinksEnd links := by
  obtain ⟨filled, untouched⟩ := display_links run
  by_cases opens : FileOpens here.current trace
  · obtain ⟨table, defined, fromPage⟩ := filled opens
    intro other same link member
    cases defined.symm.trans same
    obtain ⟨document, _, onPage⟩ := fromPage link member
    exact nulFree_pageLinks onPage
  · rw [untouched opens]
    exact ends

/-- What a prompt returns is the line that was read for it, without its end. -/
theorem nosUiPrompt_line {prompt input : Text} {max : Nat}
    (run : Steps env state (nosUiPrompt prompt max) trace middle (.ret (some input))) :
    ∃ line : FgetsLine max, input = rstripNewline line.bytes := by
  have asked {state : State} {trace : List (Event Answer)}
      {answer : Option (FgetsLine max) → Io (Option Text)} (ended : answer none = pure none)
      (read : ∀ line, answer (some line) = pure (some (rstripNewline line.bytes)))
      (run : Steps env state (invoke (.fgetsStdin max) >>= answer) trace middle
        (.ret (some input))) :
      ∃ line : FgetsLine max, input = rstripNewline line.bytes := by
    obtain ⟨line, _, _, _, answered, _⟩ := run.perform_ret
    cases line with
    | none =>
      rw [ended] at answered
      cases answered.of_ret.2.2
    | some line =>
      rw [read] at answered
      cases answered.of_ret.2.2
      exact ⟨line, rfl⟩
  unfold nosUiPrompt at run
  split at run
  · obtain ⟨_, _, _, _, rest, _⟩ := run.perform_ret
    exact asked rfl (fun _ => rfl) rest
  · exact asked rfl (fun _ => rfl) run

theorem nulFree_nosUiPrompt {prompt input : Text} {max : Nat}
    (run : Steps env state (nosUiPrompt prompt max) trace middle (.ret (some input))) :
    0 ∉ input := by
  obtain ⟨line, rfl⟩ := nosUiPrompt_line run
  exact nulFree_rstripNewline line.bytes

/-- Every turn of the main loop keeps the invariant. -/
theorem MainState.Sound.turn {fuel pageLines : Nat} {here next : MainState} (sound : here.Sound)
    (memory : ReadsStrings env)
    (run : Steps env state (Nosgem.turn fuel pageLines here) trace middle (.ret (.inl next))) :
    next.Sound := by
  obtain ⟨links, input, page, asked, carried, shown, answered, rfl, displayed, prompted, done⟩ :=
    turn_next run
  have atPrompt : ({ here with links } : MainState).Sound :=
    ⟨sound.current, sound.history, linksEnd_display sound.links displayed⟩
  rcases command_next done with rfl | ⟨url, history, _, popped, rfl⟩ | navigates
  · exact atPrompt
  · have items := nosNavPop_eq_some.mp popped
    have all := sound.history
    rw [show here.history.items = url :: history.items from items, List.forall_mem_cons] at all
    exact ⟨all.1, all.2, atPrompt.links⟩
  · refine atPrompt.navigates (nulFree_nosUiPrompt prompted) (fun link member => ?_) navigates
    obtain ⟨before, after, asked⟩ := done.answered member
    exact memory before link after asked

theorem MainState.Sound.initial {raw : Text} {home : NosUrl}
    (parsed : nosUrlParse (cString raw) = some home) : (MainState.initial home).Sound where
  current := sound_of_nosUrlParse parsed (nulFree_cString raw)
  history url member := by cases member
  links table undefined := by cases undefined

/-- In every state of the main loop that is reached from a home URL that parses, the current URL and
the URLs of the history are sound, the history holds no more than 32 of them, and every turn of a
request loop that is started for the current URL has a sound one, too. -/
theorem urls_sound {raw : Text} {home : NosUrl} {fuel pageLines : Nat} {here : MainState}
    {visited : List MainState} (parsed : nosUrlParse (cString raw) = some home)
    (memory : ReadsStrings env)
    (turns : Iterates env (turn fuel pageLines) (.initial home) state visited trace here middle) :
    here.current.Sound ∧ (∀ url ∈ here.history.items, url.Sound) ∧
      here.history.items.length ≤ 32 ∧
      ∀ (User : Type) (fetchFuel : Nat) (cb : BodyCb User) (user : User) (start final : State)
        (requests : List (StreamState User)) (events : List (Event Answer)) (st : StreamState User),
        Iterates env (exchange fetchFuel cb) (.initial here.current user) start requests events st
          final → st.current.Sound := by
  have sound : here.Sound := turns.invariant MainState.Sound
    (fun sound run => sound.turn memory run) (.initial parsed)
  exact ⟨sound.current, sound.history, here.history.itemsFit,
    fun _ _ _ _ _ _ _ _ _ fetches => sound_of_iterates fetches sound.current⟩

end Runs

/-- An environment with any answers, but whose memory holds C strings. -/
def stringsEnv : Env Answer Unit := fun _ op answer _ =>
  match op, answer with
  | .strayText, link => 0 ∉ link
  | _, _ => True

/-- The home page does not open, and the user asks for it again. -/
theorem urls_sound_home :
    ∃ visited trace here, Iterates stringsEnv (turn 1 24) (.initial homeUrl) () visited trace here
        () ∧
      here.history.items = [homeUrl] ∧ here.current.Sound ∧ homeUrl.Sound := by
  have asked : Steps stringsEnv () (turn 1 24 (.initial homeUrl))
      [⟨.print (text "\n== HOME ==\n"), ()⟩, ⟨.fopenRead .homepage, none⟩,
        ⟨.print (text "Failed to open HOMEPAGE.GEM\n"), ()⟩,
        ⟨.print (text "Command (number/url/b/r/h/B/a/q): "), ()⟩,
        ⟨.fgetsStdin 256, some (keyLine (byte 'h') (by decide))⟩]
      () (.ret (.inl (goHome (.initial homeUrl)))) := by
    iterate 5 refine .call (show stringsEnv () _ _ () from trivial) ?_
    exact .refl _ _
  have turns := Iterates.step asked (.refl _ _)
  obtain ⟨current, history, _⟩ := urls_sound (show nosUrlParse (cString
    (text "gemini://local/homepage")) = some homeUrl by decide) (fun _ _ _ strings => strings) turns
  exact ⟨_, _, _, turns, rfl, current, history homeUrl List.mem_cons_self⟩

end Nosgem
