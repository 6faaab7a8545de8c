/-
This file settles where the number command leads on a fetched page. The main
loop resolves a link against the URL that it asked for; the page comes from the
URL at which the request loop ended, after redirects and answered prompts.

A link is refused from a URL when it does not fit behind what it keeps of the
path, or when the way along it has too many levels. So the two URLs lead to the
same place exactly when the link names a scheme, when it is refused from both,
or when it is refused from neither, they are on the same host and port, and
their paths lead a link of this kind to the same place.
-/

import Nosgem.Exchanges
import Nosgem.History
import Nosgem.QueryLinks

namespace Nosgem

open CText Interaction

/-! ### Links that lead nowhere -/

/-- A link without a scheme is refused from a path: behind what it keeps of the path it is too long
for a path buffer, or it is walked, and the way has more levels than the normaliser can go. -/
def RefusedFrom (path link : Text) : Prop :=
  pathSize ≤ (keptPart path link ++ link).length ∨
    link ≠ [] ∧ link.head? ≠ some question ∧ ¬ Shallow [] (keptPart path link ++ link)

section Refused

variable {path link : Text}

/-- An empty link and a query keep the whole path, and only their length can be too much. -/
theorem linkPath_kept (query : link = [] ∨ link.head? = some question)
    (fits : path.length < pathSize) :
    linkPath path link = none ↔ pathSize ≤ (path ++ link).length := by
  rw [linkPath]
  by_cases empty : link = []
  · rw [if_pos empty, empty, List.append_nil]
    exact iff_of_false (Option.some_ne_none _) (not_le.mpr fits)
  have mark := query.resolve_left empty
  have noRoot : link.head? ≠ some slash := by
    rw [mark]
    decide
  rw [if_neg empty, if_neg noRoot, if_pos mark, List.length_append]
  split
  · exact iff_of_true rfl ‹_›
  · exact iff_of_false (Option.some_ne_none _) ‹_›

/-- Any other link is walked behind what it keeps of the path, which starts from the root. -/
theorem linkPath_walked (walked : ¬ (link = [] ∨ link.head? = some question))
    (rooted : path.head? = some slash) :
    (keptPart path link ++ link).head? = some slash ∧
      linkPath path link =
        if pathSize ≤ (keptPart path link ++ link).length then none
        else normalizePath (keptPart path link ++ link) pathSize := by
  obtain ⟨nonempty, noMark⟩ := not_or.mp walked
  rw [linkPath, keptPart, if_neg walked, if_neg nonempty, if_neg noMark]
  by_cases noRoot : link.head? = some slash
  · rw [if_pos noRoot, if_pos noRoot]
    exact ⟨noRoot, rfl⟩
  · rw [if_neg noRoot, if_neg noRoot, List.length_append]
    refine ⟨?_, rfl⟩
    obtain ⟨front, pathEq, directoryEq⟩ := eq_directory_append rooted
    rw [directoryEq, List.append_assoc, List.singleton_append]
    exact rooted_join (pathEq ▸ rooted) link

/-- The normaliser refuses a path from the root that fits exactly when it has too many levels. -/
theorem normalizePath_eq_none_iff (rooted : path.head? = some slash)
    (short : path.length < pathSize) : normalizePath path pathSize = none ↔ ¬ Shallow [] path := by
  rw [Option.eq_none_iff_forall_ne_some]
  constructor
  · exact fun refused shallow =>
      refused _ ((normalizePath_rooted_iff rooted short).mpr ⟨shallow, rfl⟩)
  · exact fun deep _ found => deep ((normalizePath_rooted_iff rooted short).mp found).1

theorem linkPath_eq_none_iff (rooted : path.head? = some slash) (fits : path.length < pathSize) :
    linkPath path link = none ↔ RefusedFrom path link := by
  rw [RefusedFrom]
  by_cases walked : link = [] ∨ link.head? = some question
  · rw [linkPath_kept walked fits, keptPart, if_pos walked, or_iff_left]
    exact fun deep => walked.elim deep.1 deep.2.1
  · obtain ⟨rootedBoth, equal⟩ := linkPath_walked walked rooted
    rw [equal]
    split
    · exact iff_of_true rfl (.inl ‹_›)
    · rename_i short
      rw [or_iff_right short, normalizePath_eq_none_iff rootedBoth (not_le.mp short), ← and_assoc,
        and_iff_right (not_or.mp walked)]

end Refused

/-! ### Links that lead to the same place -/

/-- A link leads to the same place from the URL that was asked for and from the one that a page came
from: it names a scheme, or it is refused from both, or it is refused from neither, both are on the
same host and port, and what the link takes from their paths is the same. -/
def LeadsAlike (asked final : NosUrl) (link : Text) : Prop :=
  NamesScheme link ∨
    (RefusedFrom asked.path link ↔ RefusedFrom final.path link) ∧
      (¬ RefusedFrom asked.path link → asked.host = final.host ∧ asked.port = final.port ∧
        (link = [] → asked.path = final.path) ∧ SameFrom asked.path final.path link)

/-- From paths that do not refuse it, a link without a scheme leads to the same path exactly when
it takes the same from both. -/
theorem linkPath_alike_iff {path other link : Text} (relative : ¬ NamesScheme link)
    (rooted : path.head? = some slash) (rootedOther : other.head? = some slash)
    (leads : ¬ RefusedFrom path link) (leadsOther : ¬ RefusedFrom other link) :
    linkPath path link = linkPath other link ↔
      (link = [] → path = other) ∧ SameFrom path other link := by
  by_cases empty : link = []
  · subst empty
    rw [linkPath, linkPath, if_pos rfl, if_pos rfl, Option.some.injEq, forall_prop_of_true rfl]
    refine ⟨fun same => ⟨same, ?_⟩, And.left⟩
    exact .inr (.inr (.inr ⟨by decide, by decide, by rw [same], fun _ => by rw [same]⟩))
  · rw [linkPath_eq_iff empty relative rooted rootedOther
      (not_le.mp fun long => leads (.inl long)) (not_le.mp fun long => leadsOther (.inl long)),
      and_iff_right fun isEmpty => absurd isEmpty empty]

theorem nosUrlResolve_eq_iff {asked final : NosUrl} (addressed : asked.Addressed)
    (addressedFinal : final.Addressed) (link : Text) :
    nosUrlResolve asked link = nosUrlResolve final link ↔ LeadsAlike asked final link := by
  rw [LeadsAlike]
  by_cases names : NamesScheme link
  · exact iff_of_true (nosUrlResolve_namesScheme names asked final) (.inl names)
  rw [or_iff_right names, nosUrlResolve_linkPath names, nosUrlResolve_linkPath names]
  have refuses : linkPath asked.path link = none ↔ RefusedFrom asked.path link :=
    linkPath_eq_none_iff addressed.rooted addressed.fits
  have refusesFinal : linkPath final.path link = none ↔ RefusedFrom final.path link :=
    linkPath_eq_none_iff addressedFinal.rooted addressedFinal.fits
  by_cases refused : RefusedFrom asked.path link
  · rw [refuses.mpr refused, Option.map_none, eq_comm, Option.map_eq_none_iff, refusesFinal]
    exact ⟨fun also => ⟨iff_of_true refused also, fun leads => absurd refused leads⟩,
      fun alike => alike.1.mp refused⟩
  by_cases refusedFinal : RefusedFrom final.path link
  · rw [refusesFinal.mpr refusedFinal, Option.map_none, Option.map_eq_none_iff, refuses]
    exact ⟨fun also => absurd also refused, fun alike => absurd (alike.1.mpr refusedFinal) refused⟩
  rw [and_iff_right (iff_of_false refused refusedFinal), forall_prop_of_true refused,
    ← linkPath_alike_iff names addressed.rooted addressedFinal.rooted refused refusedFinal]
  obtain ⟨path, leads⟩ := Option.ne_none_iff_exists'.mp (mt refuses.mp refused)
  obtain ⟨other, leadsOther⟩ := Option.ne_none_iff_exists'.mp (mt refusesFinal.mp refusedFinal)
  rw [leads, leadsOther, Option.map_some, Option.map_some, Option.some.injEq, Option.some.injEq,
    NosUrl.mk.injEq]

/-! ### Every URL of the main loop -/

section Addressed

variable {State : Type} {env : Env Answer State} {state middle : State}
  {trace : List (Event Answer)}

/-- The current URL and the URLs of the history have a host, and a path from the root that fits. -/
structure MainState.Addressed (st : MainState) : Prop where
  current : st.current.Addressed
  history : ∀ url ∈ st.history.items, url.Addressed

theorem addressed_homepage : (localPage "/homepage").Addressed := by
  constructor <;> decide

theorem addressed_bookmarks : (localPage "/bookmarks").Addressed := by
  constructor <;> decide

theorem addressed_of_parseUserUrl {input : Text} {url : NosUrl}
    (parsed : parseUserUrl input = some url) : url.Addressed := by
  unfold parseUserUrl at parsed
  split at parsed
  · exact (nosUrlParse_wellFormed parsed).addressed
  split at parsed
  · cases parsed
  split at parsed
  · cases parsed
  · exact (nosUrlParse_wellFormed parsed).addressed

theorem MainState.Addressed.goTo {st : MainState} {target : NosUrl} (addressed : st.Addressed)
    (reached : target.Addressed) : (st.goTo target).Addressed where
  current := reached
  history := by
    rw [MainState.goTo]
    by_cases room : st.history.items.length < nosNavMax
    · rw [nosNavPush_items room]
      exact List.forall_mem_cons.mpr ⟨addressed.current, addressed.history⟩
    · rw [nosNavPush_full (not_lt.mp room)]
      exact addressed.history

theorem MainState.Addressed.navigates {st moved : MainState} {input : Text}
    (addressed : st.Addressed) (navigates : Navigates st trace input moved) : moved.Addressed := by
  cases navigates with
  | home => exact addressed.goTo addressed_homepage
  | bookmarks => exact addressed.goTo addressed_bookmarks
  | link _ _ resolved => exact addressed.goTo (addressed.current.nosUrlResolve resolved)
  | typed _ _ parsed => exact addressed.goTo (addressed_of_parseUserUrl parsed)

theorem MainState.Addressed.turn {fuel pageLines : Nat} {here next : MainState}
    (addressed : here.Addressed)
    (run : Steps env state (Nosgem.turn fuel pageLines here) trace middle (.ret (.inl next))) :
    next.Addressed := by
  obtain ⟨links, input, _, _, _, _, _, rfl, _, _, done⟩ := turn_next run
  have atPrompt : ({ here with links } : MainState).Addressed :=
    ⟨addressed.current, addressed.history⟩
  rcases command_next done with rfl | ⟨url, history, _, popped, rfl⟩ | navigates
  · exact atPrompt
  · have all := addressed.history
    rw [show here.history.items = url :: history.items from nosNavPop_eq_some.mp popped,
      List.forall_mem_cons] at all
    exact ⟨all.1, all.2⟩
  · exact atPrompt.navigates navigates

/-- The URL that a page of the main loop was asked for, and the one it came from. -/
theorem AtPrompt.addressed {fuel pageLines : Nat} {raw : Text} {home : NosUrl} {state start : State}
    {before page ending : List (Event Answer)} {here : MainState} {links : Option NosRenderCtx}
    {last : StreamState NosBodyState} {result : Int × StreamState NosBodyState}
    (parsed : nosUrlParse raw = some home)
    (prompt : AtPrompt env fuel pageLines home state before here start page links)
    (fetched : Fetched env fuel pageLines here.current start page last ending result) :
    here.current.Addressed ∧ last.current.Addressed := by
  obtain ⟨_, turns⟩ := prompt.turns
  obtain ⟨_, _, _, _, _, _, _, _, _, _, _, _, iterates, _⟩ := fetched
  have initial : (MainState.initial home).Addressed :=
    ⟨(nosUrlParse_wellFormed parsed).addressed, fun _ member => nomatch member⟩
  have current := (turns.invariant MainState.Addressed
    (fun addressed run => addressed.turn run) initial).current
  exact ⟨current, addressed_of_iterates iterates current⟩

end Addressed

/-! ### The number command -/

/-- Going to where a link leads, or the report that it leads nowhere. -/
def followTarget (st : MainState) : Option NosUrl → Io (MainState ⊕ Unit)
  | some next => return .inl (st.goTo next)
  | none => do
    invoke (.print (text "Failed to resolve link\n"))
    return .inl st

theorem followTarget_inj {st : MainState} {target other : Option NosUrl} :
    followTarget st target = followTarget st other ↔ target = other := by
  constructor
  · intro same
    cases target with
    | none =>
      cases other with
      | none => rfl
      | some next => cases same
    | some next =>
      cases other with
      | none => cases same
      | some next' =>
        injection same with same
        injection same with same
        exact congrArg some (congrArg MainState.current same)
  · exact congrArg _

/-- No command word is a number, so a number follows a link. -/
theorem command_isNumber (st : MainState) {input : Text} (number : isNumber input) :
    command st input = (followLink st (atoi input) >>= fun st => return .inl st) := by
  have other : ∀ {word : Text}, isNumber word = false → ¬ input = word := by
    rintro word notNumber rfl
    rw [number] at notNumber
    cases notNumber
  unfold command
  rw [if_neg (other rfl), if_neg (other rfl), if_neg (other rfl), if_neg (other rfl),
    if_neg (other rfl), if_neg (other rfl), if_neg (other rfl), if_pos number]

/-- The number of a link of the table resolves the link against the current URL and goes there. -/
theorem command_number {st : MainState} {table : NosRenderCtx} {input : Text} {link : NosLink}
    (defined : st.links = some table) (number : isNumber input) (positive : 0 < atoi input)
    (linked : table.links[atoi input - 1]? = some link) :
    command st input = followTarget st (nosUrlResolve st.current link.url) := by
  have inTable : ¬ (atoi input = 0 ∨ atoi input > table.links.length) := by
    have less := (List.getElem?_eq_some_iff.mp linked).1
    omega
  rw [command_isNumber st number]
  unfold followLink linkCount linkUrl
  simp only [defined, Option.bind_some, linked, pure_eq, ret_bind, if_neg inTable]
  cases nosUrlResolve st.current link.url <;> rfl

section Fetches

variable {State : Type} {env : Env Answer State}

/-- The events of a turn decide where its fetch ended and with what. -/
theorem Fetched.unique {fuel pageLines : Nat} {url : NosUrl} {start : State}
    {page : List (Event Answer)} {last last' : StreamState NosBodyState}
    {ending ending' : List (Event Answer)} {result result' : Int × StreamState NosBodyState}
    (fetched : Fetched env fuel pageLines url start page last ending result)
    (fetched' : Fetched env fuel pageLines url start page last' ending' result') :
    last = last' ∧ ending = ending' ∧ result = result' := by
  obtain ⟨_, _, _, _, _, rfl, _, _, _, _, _, rfl, iterates, turn⟩ := fetched
  obtain ⟨_, _, _, _, _, equal, _, _, _, _, _, rfl, iterates', turn'⟩ := fetched'
  rw [List.cons.injEq, List.append_assoc, List.append_assoc] at equal
  exact iterates.unique turn iterates' turn' equal.2

variable {fuel pageLines : Nat} {home : NosUrl} {state start : State}
  {before page ending : List (Event Answer)} {here : MainState} {links : Option NosRenderCtx}
  {last : StreamState NosBodyState} {result : Int × StreamState NosBodyState} {input : Text}
  {link : NosLink}

/-- A number that was typed on a fetched gemtext page resolves the link of that number against the
URL that was asked for. -/
theorem numberCommand_resolves
    (prompt : AtPrompt env fuel pageLines home state before here start page links)
    (fetched : Fetched env fuel pageLines here.current start page last ending result)
    (gemtext : GemtextBody ending result) (number : isNumber input) (positive : 0 < atoi input)
    (linked : (pageLinks (chunksIn ending).flatten)[atoi input - 1]? = some link) :
    command { here with links } input =
      followTarget { here with links } (nosUrlResolve here.current link.url) := by
  obtain ⟨_, displayed⟩ := prompt.displays
  obtain ⟨table, _, _, _, defined, fetched', entries, _⟩ := display_fetched fetched.1 displayed
  obtain ⟨_, rfl, rfl⟩ := fetched.unique fetched'
  rw [← entries gemtext] at linked
  exact command_number defined number positive linked

/-- At every prompt of every run of the main loop from a home URL that parses, on a fetched gemtext
page, a number that is typed resolves the link of that number against the URL that the page came
from exactly when the link leads to the same place from there and from the URL that was asked
for. -/
theorem numberCommand_iff {raw : Text} (parsed : nosUrlParse raw = some home)
    (prompt : AtPrompt env fuel pageLines home state before here start page links)
    (fetched : Fetched env fuel pageLines here.current start page last ending result)
    (gemtext : GemtextBody ending result) (number : isNumber input) (positive : 0 < atoi input)
    (linked : (pageLinks (chunksIn ending).flatten)[atoi input - 1]? = some link) :
    command { here with links } input =
        followTarget { here with links } (nosUrlResolve last.current link.url) ↔
      LeadsAlike here.current last.current link.url := by
  obtain ⟨addressed, addressedLast⟩ := prompt.addressed parsed fetched
  rw [numberCommand_resolves prompt fetched gemtext number positive linked, followTarget_inj,
    nosUrlResolve_eq_iff addressed addressedLast]

end Fetches

/-! ### The page on the screen -/

theorem finishBody_run (st : NosBodyState) :
    ∃ trace table, Steps anyEnv () (finishBody st) trace () (.ret table) := by
  unfold finishBody
  cases st.kind with
  | undecided => exact ⟨[⟨.print _, ()⟩], _, .any (.refl _ _)⟩
  | raw => exact ⟨[], _, .refl _ _⟩
  | gem rstream =>
    dsimp only
    rcases nosRenderStreamFlush rstream with ⟨rc, out, after⟩
    obtain ⟨trace, shown⟩ := showOut_run out
    by_cases refused : rc ≠ 0
    · refine ⟨trace ++ [⟨.print (text "Render failed\n"), ()⟩], after.ctx, shown.bind ?_⟩
      rw [if_pos refused]
      exact .any (.refl _ _)
    · refine ⟨trace ++ [], after.ctx, shown.bind ?_⟩
      rw [if_neg refused]
      exact .refl _ _

/-- The page of a request that got a 2x response is displayed up to the prompt of its turn. -/
theorem displayFetched_run {fuel : Nat} {url : NosUrl} {trace : List (Event Answer)}
    {done : StreamState NosBodyState}
    (success : 20 ≤ done.resp.status ∧ done.resp.status < 30)
    (requested : Steps anyEnv () (nosGeminiRequestStream fuel url bodyCb (.start 24)) trace ()
      (.ret (0, done))) :
    ∃ banner told links, Steps anyEnv () (displayFetched fuel 24 url)
      (⟨.print banner, ()⟩ :: (trace ++ told)) () (.ret links) := by
  obtain ⟨screen, shown⟩ := showOut_run done.user.screen
  obtain ⟨flushed, table, finished⟩ := finishBody_run done.user
  have fetched : Steps anyEnv () (fetchAndRender fuel url 24)
      (trace ++ (screen ++ (flushed ++ [⟨.userAbort, false⟩,
        ⟨.print (text "\n--- End ---\n"), ()⟩]))) () (.ret (0, table)) := by
    unfold fetchAndRender
    refine requested.bind (shown.bind ?_)
    rw [if_neg (show ¬ (0 : Int) ≠ 0 by decide), if_pos success]
    refine finished.bind (.any ?_)
    exact .any (.refl _ _)
  exact ⟨_, _, some table, .any (fetched.bind_left _)⟩

/-- The URL of a page that a server has moved to `movedUrl`. -/
def askedUrl : NosUrl := ⟨text "h", 1965, text "/a"⟩

def movedUrl : NosUrl := ⟨text "h", 1965, text "/b/c"⟩

/-- A document behind a redirect is displayed up to the prompt, when the renderer takes it. -/
theorem atPrompt_moved (document : Text) (nonempty : document ≠ []) (short : document.length ≤ 512)
    (rendered : (nosRenderStreamFeed (nosRenderStreamInit (bodyCtx 24)) document).1 = 0) :
    ∃ page links last ending result,
      AtPrompt anyEnv 2 24 askedUrl () [] (.initial askedUrl) () page links ∧
      Fetched anyEnv 2 24 askedUrl () page last ending result ∧ GemtextBody ending result ∧
      chunksIn ending = [document] ∧ last.current = movedUrl := by
  have known := findKnownHost_knownStore
  let start : StreamState NosBodyState := .initial askedUrl (.start 24)
  let moved : StreamState NosBodyState :=
    { start with resp := ⟨30, text "/b/c"⟩, redirects := 1, current := movedUrl }
  obtain ⟨asking, _, ask⟩ := exchange_run 1 bodyCb start (text "30 /b/c" ++ [cr, lf]) known
    (by decide) (by decide) (by decide)
    (show parseHeader _ _ _ = (0, ⟨30, text "/b/c"⟩) by decide)
  obtain ⟨leaving, _, redirect⟩ := respond_redirect 2 bodyCb
    { start with resp := ⟨30, text "/b/c"⟩ } (by decide) (by decide)
    (show nosUrlResolve askedUrl (text "/b/c") = some movedUrl by decide)
  have first : Steps anyEnv () (exchange 2 bodyCb start) (asking ++ leaving) ()
    (.ret (.inl moved)) := ask.append redirect
  obtain ⟨asking', noChunk, ask'⟩ := exchange_run 1 bodyCb moved
    (text "20 text/gemini" ++ [cr, lf]) known (by decide) (by decide) (by decide)
    (show parseHeader _ _ _ = (0, ⟨20, text "text/gemini"⟩) by decide)
  have took : (bodyCb ⟨20, text "text/gemini"⟩ (.start 24) document).1 = 0 := by
    show (if (nosRenderStreamFeed (nosRenderStreamInit (bodyCtx 24)) document).1 ≠ 0
      then (-1 : Int) else 0) = 0
    rw [rendered]
    rfl
  obtain ⟨reading, done, chunks, _, resp, _, read⟩ := respond_body 0 bodyCb
    { moved with resp := ⟨20, text "text/gemini"⟩ } .closeNotify (by decide) nonempty short
    (Prod.ext took rfl)
  have second : Steps anyEnv () (exchange 2 bodyCb moved) (asking' ++ reading) ()
    (.ret (.inr (0, done))) := ask'.append read
  have requested : Steps anyEnv () (nosGeminiRequestStream 2 askedUrl bodyCb (.start 24))
      ((asking ++ leaving) ++ (asking' ++ reading)) () (.ret (0, done)) :=
    first.bind (second.bind_left _)
  have success : 20 ≤ done.resp.status ∧ done.resp.status < 30 := by
    rw [resp]
    decide
  obtain ⟨banner, told, links, displayed⟩ := displayFetched_run success requested
  refine ⟨_, links, moved, asking' ++ reading, (0, done), ⟨⟨[], .refl _ _⟩, (), displayed⟩,
    ?_, ?_, ?_, rfl⟩
  · exact ⟨by decide, banner, (), _, trivial, rfl, [start], _, told, (), (), rfl,
      List.append_nil (asking ++ leaving) ▸ .step first (.refl _ _), second⟩
  · refine ⟨rfl, success, ?_, ?_⟩
    · rw [resp]
      decide
    · rw [chunksIn_append, noChunk, chunks]
      exact List.cons_ne_nil _ _
  · rw [chunksIn_append, noChunk, chunks]
    rfl

/-- A link that climbs out of the directory that the redirect leads into. -/
theorem numberCommand_iff_up :
    ∃ page links last ending result,
      AtPrompt anyEnv 2 24 askedUrl () [] (.initial askedUrl) () page links ∧
      Fetched anyEnv 2 24 askedUrl () page last ending result ∧ last.current = movedUrl ∧
      command { MainState.initial askedUrl with links } (text "1") =
        followTarget { MainState.initial askedUrl with links }
          (nosUrlResolve last.current (text "../x")) := by
  obtain ⟨page, links, last, ending, result, prompt, fetched, gemtext, chunks, current⟩ :=
    atPrompt_moved (text "=> ../x") (by decide) (by decide) (by decide)
  refine ⟨page, links, last, ending, result, prompt, fetched, current, ?_⟩
  have linked : (pageLinks (chunksIn ending).flatten)[atoi (text "1") - 1]? =
      some ⟨text "../x", text "../x"⟩ := by
    rw [chunks]
    decide
  have leads {path : Text} (few : (directory path ++ text "../x").length + 1 < 2 * maxSegments) :
      Shallow [] (directory path ++ text "../x") := shallow_of_short few
  have follows {path : Text} (few : (directory path ++ text "../x").length + 1 < 2 * maxSegments) :
      ¬ RefusedFrom path (text "../x") := by
    rw [RefusedFrom, keptPart_relative (by decide) (by decide) (by decide)]
    rintro (long | ⟨_, _, deep⟩)
    · exact absurd (long.trans_lt (Nat.lt_of_succ_lt few)) (by decide)
    · exact deep (leads few)
  have alike : LeadsAlike askedUrl movedUrl (text "../x") :=
    .inr ⟨iff_of_false (follows (by decide)) (follows (by decide)), fun _ =>
      ⟨rfl, rfl, fun empty => absurd empty (by decide), .inr (.inr (.inr ⟨by decide, by decide,
        iff_of_true (leads (by decide)) (leads (by decide)), fun _ => by decide⟩))⟩⟩
  refine (numberCommand_iff (show nosUrlParse (text "gemini://h/a") = some askedUrl by decide)
    prompt fetched gemtext (by decide) (by decide) linked).mpr ?_
  rw [current]
  exact alike

/-- A relative link is resolved against the URL in front of the redirect. -/
theorem numberCommand_misses :
    ∃ page links last ending result,
      AtPrompt anyEnv 2 24 askedUrl () [] (.initial askedUrl) () page links ∧
      Fetched anyEnv 2 24 askedUrl () page last ending result ∧ GemtextBody ending result ∧
      last.current = movedUrl ∧
      (pageLinks (chunksIn ending).flatten)[0]? = some ⟨text "x", text "x"⟩ ∧
      nosUrlResolve last.current (text "x") = some ⟨text "h", 1965, text "/b/x"⟩ ∧
      command { MainState.initial askedUrl with links } (text "1") =
        followTarget { MainState.initial askedUrl with links }
          (some ⟨text "h", 1965, text "/x"⟩) ∧
      command { MainState.initial askedUrl with links } (text "1") ≠
        followTarget { MainState.initial askedUrl with links }
          (nosUrlResolve last.current (text "x")) := by
  obtain ⟨page, links, last, ending, result, prompt, fetched, gemtext, chunks, current⟩ :=
    atPrompt_moved (text "=> x") (by decide) (by decide) (by decide)
  have linked : (pageLinks (chunksIn ending).flatten)[0]? = some ⟨text "x", text "x"⟩ := by
    rw [chunks]
    decide
  have followed := numberCommand_resolves prompt fetched gemtext
    (show isNumber (text "1") by decide) (by decide) linked
  have resolved : nosUrlResolve last.current (text "x") = some ⟨text "h", 1965, text "/b/x"⟩ := by
    rw [current]
    decide
  refine ⟨page, links, last, ending, result, prompt, fetched, gemtext, current, linked, resolved,
    followed, ?_⟩
  rw [followed, resolved, ne_eq, followTarget_inj]
  decide

end Nosgem
