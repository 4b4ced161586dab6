import BoardGamesEmpire.GameSearchCache

set_option autoImplicit false

/-!
# A replayed search is the live one

Only complete lists reach the cache, each under the key of what was asked for
it, so a search answered from the cache sends the games the DataGateway would.
-/
namespace BoardGamesEmpire.GameSearch
open JsText UriComponent

section Tracking

variable {ρ : Type} {convertToMarkdown : Option Text → Option ContentFormat → Option Text}

def gamesOf (events : List (StreamEvent ρ)) : List (Game ρ) :=
  events.filterMap fun event => match event with
    | .frame result _ => if result.status = .result then result.game else none
    | .failed _ | .completed => none

def resultGames (frames : List (SearchGameResult ρ)) : List (Game ρ) :=
  frames.filterMap fun frame => if frame.status = .result then frame.game else none

def matching (filter : ResultFilter ℤ) (games : List (Game ρ)) :
    List (Game ρ) := games.filter (matchesFilter · filter)

/-- A frame with a game or the end of the list, whose lookup, if it takes one,
    is answered. -/
def StreamEvent.Quiet (filter : ResultFilter ℤ) : StreamEvent ρ → Prop
  | .frame result lookup => result.status.isProblem = false ∧
   (result.status = .result → ∀ game, result.game = some game →
      matchesFilter game filter = true → ∃ dedup, lookup = .ok dedup)
  | .failed _ | .completed => False

def CompleteStream (filter : ResultFilter ℤ) (events : List (StreamEvent ρ)) : Prop :=
  ∃ before done lookup, events = before ++ [.frame done lookup] ∧ done.status = .sourceDone ∧
   ∀ e ∈ before, e.Quiet filter

structure Tracks (convertToMarkdown : Option Text → Option ContentFormat → Option Text)
    (live : LiveSearch ρ) : Prop where
  games : live.accumulator.games = gamesOf live.events
  quiet : live.ended = false → live.accumulator.isPartial = false →
   ∀ e ∈ live.events, e.Quiet live.resultFilter
  sends : live.ended = false → resultGames live.delivered =
    (matching live.resultFilter (gamesOf live.events)).map (sent convertToMarkdown live.contentFormat)

theorem gamesOf_append (events : List (StreamEvent ρ)) (event : StreamEvent ρ) :
  gamesOf (events ++ [event]) = gamesOf events ++ gamesOf [event] := List.filterMap_append

theorem resultGames_append (frames : List (SearchGameResult ρ)) (frame : SearchGameResult ρ) :
  resultGames (frames ++ [frame]) = resultGames frames ++ resultGames [frame] := List.filterMap_append

theorem matching_cons (filter : ResultFilter ℤ) (game : Game ρ) (games : List (Game ρ)) :
  matching filter (game :: games) =
  if matchesFilter game filter then game :: matching filter games else matching filter games :=
   List.filter_cons

structure SameSearch (live live' : LiveSearch ρ) : Prop where
  gatewayId : live'.gatewayId = live.gatewayId
  asked : live'.asked = live.asked
  cacheKey : live'.cacheKey = live.cacheKey
  resultFilter : live'.resultFilter = live.resultFilter
  contentFormat : live'.contentFormat = live.contentFormat

def LiveSearch.keep (live : LiveSearch ρ) (game : Game ρ) : LiveSearch ρ :=
  { live with accumulator := { live.accumulator with games := live.accumulator.games ++ [game] } }

inductive FrameOutcome (convertToMarkdown : Option Text → Option ContentFormat → Option Text)
    (result : GatewaySearchResult ρ)
    (lookup : Except Text Dedup) (live : LiveSearch ρ) :
     LiveSearch ρ × Option (Text × List (Game ρ)) → Prop where
  | problem (frame : SearchGameResult ρ) (h : result.status.isProblem = true) (hframe : frame.status ≠ .result) :
      FrameOutcome convertToMarkdown result lookup live
        ({ live with accumulator := { live.accumulator with isPartial := true } }.emit frame, none)
  | skipped (h : result.status = .result) (hgame : result.game = none) :
      FrameOutcome convertToMarkdown result lookup live (live, none)
  | excluded (game : Game ρ) (h : result.status = .result) (hgame : result.game = some game)
      (hmatch : matchesFilter game live.resultFilter = false) :
       FrameOutcome convertToMarkdown result lookup live (live.keep game, none)
  | sent (game : Game ρ) (dedup : Dedup) (h : result.status = .result) (hgame : result.game = some game)
      (hmatch : matchesFilter game live.resultFilter = true) (hlookup : lookup = .ok dedup) :
      FrameOutcome convertToMarkdown result lookup live ((live.keep game).emit
        (toResultFrame convertToMarkdown live.gatewayId result.correlationId game live.contentFormat
         dedup), none)
  | failed (game : Game ρ) (message : Text) (h : result.status = .result) (hgame : result.game = some game)
      (hmatch : matchesFilter game live.resultFilter = true) (hlookup : lookup = .error message) :
      FrameOutcome convertToMarkdown result lookup live ((live.keep game).fail message, none)
  | done (h : result.status = .sourceDone) : FrameOutcome convertToMarkdown result lookup live
      (live.emit (sourceDone live.gatewayId result.correlationId),
        if live.accumulator.isPartial then none else some (live.cacheKey, live.accumulator.games))

variable (convertToMarkdown) in
theorem mapGatewayResult_outcome (result : GatewaySearchResult ρ) (lookup : Except Text Dedup)
  (live : LiveSearch ρ) :
  FrameOutcome convertToMarkdown result lookup live
   (mapGatewayResult convertToMarkdown result lookup live) := by
 unfold mapGatewayResult
 cases hstatus : result.status with
 | result =>
  simp only [show ResultStatus.result.isProblem = false from rfl, if_neg Bool.false_ne_true]
  cases hgame : result.game with
  | none => exact .skipped hstatus hgame
  | some game =>
   dsimp only
   split
   · next hmatch =>
     cases lookup with
     | ok dedup => exact .sent game dedup hstatus hgame hmatch rfl
     | error message => exact .failed game message hstatus hgame hmatch rfl
   · next hmatch => exact .excluded game hstatus hgame (Bool.eq_false_iff.2 hmatch)
 | sourceDone => exact .done hstatus
 | rateLimited => exact .problem _ (by rw [hstatus]; rfl) fun h => by cases h
 | unavailable => exact .problem _ (by rw [hstatus]; rfl) fun h => by cases h
 | error => exact .problem _ (by rw [hstatus]; rfl) fun h => by cases h
 | unspecified => exact .problem _ (by rw [hstatus]; rfl) fun h => by cases h
 | unfilterable => exact .problem _ (by rw [hstatus]; rfl) fun h => by cases h
 | unrecognized value => exact .problem _ (by rw [hstatus]; rfl) fun h => by cases h

theorem FrameOutcome.same {result : GatewaySearchResult ρ} {lookup : Except Text Dedup}
  {live : LiveSearch ρ} {taken : LiveSearch ρ × Option (Text × List (Game ρ))}
  (h : FrameOutcome convertToMarkdown result lookup live taken) :
  SameSearch live taken.1 ∧ taken.1.events = live.events := by
 cases h with
 | problem | skipped | excluded | sent | failed | done => exact ⟨⟨rfl, rfl, rfl, rfl, rfl⟩, rfl⟩

variable (convertToMarkdown) in
theorem take_same (event : StreamEvent ρ) (live : LiveSearch ρ) :
  SameSearch live (live.take convertToMarkdown event).1 ∧
  (live.take convertToMarkdown event).1.events = live.events ++ [event] := by
 cases event with
 | frame result lookup =>
  obtain ⟨hsame, hevents⟩ := (mapGatewayResult_outcome convertToMarkdown result lookup
   { live with events := live.events ++ [.frame result lookup] }).same
  exact ⟨⟨hsame.1, hsame.2, hsame.3, hsame.4, hsame.5⟩, hevents⟩
 | failed message => exact ⟨⟨rfl, rfl, rfl, rfl, rfl⟩, rfl⟩
 | completed => exact ⟨⟨rfl, rfl, rfl, rfl, rfl⟩, rfl⟩

theorem gamesOf_frame {result : GatewaySearchResult ρ} (h : result.status = .result)
  (lookup : Except Text Dedup) :
  gamesOf [.frame result lookup] = result.game.toList := by
 cases hgame : result.game <;> simp [gamesOf, h, hgame]

theorem gamesOf_other {result : GatewaySearchResult ρ} (h : result.status ≠ .result)
  (lookup : Except Text Dedup) :
  gamesOf [.frame result lookup] = [] := by
 simp [gamesOf, h]

theorem resultGames_other {frame : SearchGameResult ρ} (h : frame.status ≠ .result) :
  resultGames [frame] = [] := by
 simp [resultGames, h]

theorem isProblem_ne {status : ResultStatus} (h : status.isProblem = true) : status ≠ .result := by
 rintro rfl
 cases h

theorem Tracks.next {live live' : LiveSearch ρ} {event : StreamEvent ρ} (h : Tracks convertToMarkdown live)
  (hlive : live.ended = false) (hsame : SameSearch live live')
   (hevents : live'.events = live.events ++ [event])
  (hgames : live'.accumulator.games = live.accumulator.games ++ gamesOf [event])
  (hquiet : live'.ended = false → live'.accumulator.isPartial = false →
   live.accumulator.isPartial = false ∧ event.Quiet live.resultFilter)
  (hsends : live'.ended = false → resultGames live'.delivered = resultGames live.delivered ++
   (matching live.resultFilter (gamesOf [event])).map (sent convertToMarkdown live.contentFormat)) :
  Tracks convertToMarkdown live' where
 games := by rw [hgames, hevents, gamesOf_append, h.games]
 quiet hended hhalf e he := by
  obtain ⟨hbefore, hevent⟩ := hquiet hended hhalf
  rw [hevents, List.mem_append, List.mem_singleton] at he
  rw [hsame.resultFilter]
  rcases he with hold | rfl
  · exact h.quiet hlive hbefore e hold
  · exact hevent
 sends hended := by
  rw [hsends hended, h.sends hlive, hsame.resultFilter, hsame.contentFormat, hevents, gamesOf_append]
  simp only [matching, List.filter_append, List.map_append]

theorem tracks_take {live : LiveSearch ρ} (hlive : live.ended = false) (event : StreamEvent ρ)
  (h : Tracks convertToMarkdown live) :
  Tracks convertToMarkdown (live.take convertToMarkdown event).1 := by
 obtain ⟨hsame, hevents⟩ := take_same convertToMarkdown event live
 cases event with
 | failed message =>
  exact h.next hlive hsame hevents (List.append_nil _).symm (fun hended => by cases hended)
   fun hended => by cases hended
 | completed =>
  exact h.next hlive hsame hevents (List.append_nil _).symm (fun hended => by cases hended)
   fun hended => by cases hended
 | frame result lookup =>
  have houtcome := mapGatewayResult_outcome convertToMarkdown result lookup
   { live with events := live.events ++ [.frame result lookup] }
  have htake : live.take convertToMarkdown (.frame result lookup) =
   mapGatewayResult convertToMarkdown result lookup
    { live with events := live.events ++ [.frame result lookup] } := rfl
  rw [htake] at hsame hevents ⊢
  generalize mapGatewayResult convertToMarkdown result lookup
   { live with events := live.events ++ [.frame result lookup] } =
   taken at houtcome hsame hevents ⊢
  cases houtcome with
  | problem frame hproblem hframe =>
   have hother := gamesOf_other (isProblem_ne hproblem) lookup
   refine h.next hlive hsame hevents ?_ (fun _ hhalf => by cases hhalf) fun _ => ?_
   · rw [hother]
     exact (List.append_nil _).symm
   · rw [hother]
     exact (resultGames_append _ _).trans (congrArg _ (resultGames_other hframe))
  | skipped hstatus hgame =>
   have hnone : gamesOf [.frame result lookup] = [] := by rw [gamesOf_frame hstatus, hgame]; rfl
   refine h.next hlive hsame hevents ?_ (fun _ hhalf => ⟨hhalf, ?_⟩) fun _ => ?_
   · rw [hnone]
     exact (List.append_nil _).symm
   · exact ⟨by rw [hstatus]; rfl, fun _ game hsome => by rw [hgame] at hsome; cases hsome⟩
   · rw [hnone]
     exact (List.append_nil _).symm
  | excluded game hstatus hgame hmatch =>
   have hone : gamesOf [.frame result lookup] = [game] := by rw [gamesOf_frame hstatus, hgame]; rfl
   refine h.next hlive hsame hevents ?_ (fun _ hhalf => ⟨hhalf, ?_⟩) fun _ => ?_
   · rw [hone]
     rfl
   · refine ⟨by rw [hstatus]; rfl, fun _ game' hsome hmatches => ?_⟩
     obtain rfl := Option.some.inj (hgame.symm.trans hsome)
     exact absurd hmatches (Bool.eq_false_iff.1 hmatch)
   · rw [hone, matching_cons, if_neg (Bool.eq_false_iff.1 hmatch)]
     exact (List.append_nil _).symm
  | sent game dedup hstatus hgame hmatch hlookup =>
   have hone : gamesOf [.frame result lookup] = [game] := by rw [gamesOf_frame hstatus, hgame]; rfl
   refine h.next hlive hsame hevents ?_ (fun _ hhalf => ⟨hhalf, ?_⟩) fun _ => ?_
   · rw [hone]
     rfl
   · exact ⟨by rw [hstatus]; rfl, fun _ _ _ _ => ⟨dedup, hlookup⟩⟩
   · rw [hone, matching_cons, if_pos hmatch]
     exact resultGames_append _ _
  | failed game message hstatus hgame hmatch hlookup =>
   have hone : gamesOf [.frame result lookup] = [game] := by rw [gamesOf_frame hstatus, hgame]; rfl
   refine h.next hlive hsame hevents ?_ (fun hended => by cases hended) fun hended => by cases hended
   rw [hone]
   rfl
  | done hstatus =>
   have hother :=
    gamesOf_other (show result.status ≠ .result by rw [hstatus]; exact fun h => by cases h) lookup
   refine h.next hlive hsame hevents ?_ (fun _ hhalf => ⟨hhalf, ?_⟩) fun _ => ?_
   · rw [hother]
     exact (List.append_nil _).symm
   · exact ⟨by rw [hstatus]; rfl, fun hresult => by rw [hstatus] at hresult; cases hresult⟩
   · rw [hother]
     exact resultGames_append _ _

end Tracking

section Runs

variable {ρ : Type} {convertToMarkdown : Option Text → Option ContentFormat → Option Text}

def Sourced (lives : List (LiveSearch ρ)) (key : Text) (games : List (Game ρ)) : Prop :=
  ∃ live ∈ lives, live.cacheKey = key ∧ ∃ before rest, live.events = before ++ rest ∧
    CompleteStream live.resultFilter before ∧ games = gamesOf before

def Keyed (live : LiveSearch ρ) : Prop :=
  match live.asked with
  | .search request => (∃ r axes, request = gatewayRequest r axes) ∧
   live.cacheKey = buildSearchCacheKey live.gatewayId request
  | .expansions baseExternalId locale => live.cacheKey = buildExpansionsCacheKey live.gatewayId
   baseExternalId locale

structure CacheKept (convertToMarkdown : Option Text → Option ContentFormat → Option Text)
    (s : SearchState ρ) : Prop where
  tracked : ∀ live ∈ s.lives, Tracks convertToMarkdown live
  keyed : ∀ live ∈ s.lives, Keyed live
  cached : ∀ key games, s.cache key = some games → Sourced s.lives key games
  writing : ∀ key games, (key, games) ∈ s.writes → Sourced s.lives key games

variable {live : LiveSearch ρ}

theorem take_writes {event : StreamEvent ρ} {key : Text} {games : List (Game ρ)}
  (h : (live.take convertToMarkdown event).2 = some (key, games)) :
  (∃ done lookup, event = .frame done lookup ∧
   done.status = .sourceDone) ∧ live.accumulator.isPartial = false ∧ key = live.cacheKey ∧
    games = live.accumulator.games := by
 cases event with
 | failed message => cases h
 | completed => cases h
 | frame result lookup =>
  have houtcome := mapGatewayResult_outcome convertToMarkdown result lookup
   { live with events := live.events ++ [.frame result lookup] }
  have htaken : (mapGatewayResult convertToMarkdown result lookup
   { live with events := live.events ++ [.frame result lookup] }).2 = some (key, games) := h
  generalize mapGatewayResult convertToMarkdown result lookup
   { live with events := live.events ++ [.frame result lookup] } =
   taken at houtcome htaken
  cases houtcome with
  | done hstatus =>
   cases hhalf : live.accumulator.isPartial with
   | true => rw [if_pos hhalf] at htaken; cases htaken
   | false =>
    rw [if_neg (Bool.eq_false_iff.1 hhalf)] at htaken
    cases htaken
    exact ⟨⟨result, lookup, rfl, hstatus⟩, rfl, rfl, rfl⟩
  | problem | skipped | excluded | sent | failed => cases htaken

theorem Sourced.mono {lives lives' : List (LiveSearch ρ)} {key : Text} {games : List (Game ρ)}
  (h : ∀ live ∈ lives, ∃ live' ∈ lives', SameSearch live live' ∧
   ∃ more, live'.events = live.events ++ more)
  (hs : Sourced lives key games) : Sourced lives' key games := by
 obtain ⟨live, hmem, hkey, before, rest, hevents, hcomplete, hgames⟩ := hs
 obtain ⟨live', hmem', hsame, more, hmore⟩ := h live hmem
 refine ⟨live', hmem', hsame.cacheKey.trans hkey, before, rest ++ more, ?_, ?_, hgames⟩
 · rw [hmore, hevents, List.append_assoc]
 · rw [hsame.resultFilter]
   exact hcomplete

theorem Keyed.same {live live' : LiveSearch ρ} (h : SameSearch live live') (hk : Keyed live) :
  Keyed live' := by
 rw [Keyed, h.asked, h.cacheKey, h.gatewayId]
 exact hk

theorem Sourced.more {lives : List (LiveSearch ρ)} {new : LiveSearch ρ} {key : Text}
  {games : List (Game ρ)} (hs : Sourced lives key games) : Sourced (lives ++ [new]) key games :=
 hs.mono fun live hmem => ⟨live, List.mem_append_left _ hmem, ⟨rfl, rfl, rfl, rfl, rfl⟩, [],
  (List.append_nil _).symm⟩

variable {s : SearchState ρ}

theorem CacheKept.begin (h : CacheKept convertToMarkdown s) {new : LiveSearch ρ}
  (hnew : Tracks convertToMarkdown new) (hkeyed : Keyed new) :
  CacheKept convertToMarkdown { s with lives := s.lives ++ [new] } where
 tracked live hmem := by
  rcases List.mem_append.1 hmem with hold | hone
  · exact h.tracked live hold
  · exact List.mem_singleton.1 hone ▸ hnew
 keyed live hmem := by
  rcases List.mem_append.1 hmem with hold | hone
  · exact h.keyed live hold
  · exact List.mem_singleton.1 hone ▸ hkeyed
 cached key games hkey := (h.cached key games hkey).more
 writing key games hwrite := (h.writing key games hwrite).more

theorem CacheKept.event (h : CacheKept convertToMarkdown s) {i : ℕ}
  (hlive : s.lives[i]? = some live) (hended : live.ended = false) (event : StreamEvent ρ) :
  CacheKept convertToMarkdown { s with
   lives := s.lives.set i (live.take convertToMarkdown event).1
   writes := s.writes ++ (live.take convertToMarkdown event).2.toList } := by
 obtain ⟨hsame, hevents⟩ := take_same convertToMarkdown event live
 obtain ⟨hi, hget⟩ := List.getElem?_eq_some_iff.1 hlive
 have hmem : live ∈ s.lives := List.mem_of_getElem? hlive
 have hgrow : ∀ old ∈ s.lives, ∃ live' ∈ s.lives.set i (live.take convertToMarkdown event).1,
  SameSearch old live' ∧
   ∃ more, live'.events = old.events ++ more := by
  intro old hold
  obtain ⟨j, hj, rfl⟩ := List.getElem_of_mem hold
  by_cases hji : i = j
  · subst hji
    rw [hget]
    exact ⟨_, List.mem_set hi _, hsame, [event], hevents⟩
  · refine ⟨s.lives[j], List.mem_of_getElem? (i := j) ?_, ⟨rfl, rfl, rfl, rfl, rfl⟩, [],
     (List.append_nil _).symm⟩
    rw [List.getElem?_set_ne hji, List.getElem?_eq_getElem hj]
 refine ⟨fun live' hlive' => ?_, fun live' hlive' => ?_, fun key games hkey => ?_,
  fun key games hwrite => ?_⟩
 · rcases List.mem_or_eq_of_mem_set hlive' with hold | rfl
   · exact h.tracked live' hold
   · exact tracks_take hended event (h.tracked live hmem)
 · rcases List.mem_or_eq_of_mem_set hlive' with hold | rfl
   · exact h.keyed live' hold
   · exact (h.keyed live hmem).same hsame
 · exact (h.cached key games hkey).mono hgrow
 · rcases List.mem_append.1 hwrite with hold | hnew
   · exact (h.writing key games hold).mono hgrow
   · obtain ⟨⟨done, lookup, rfl, hdone⟩, hhalf, rfl, rfl⟩ := take_writes (Option.mem_toList.1 hnew)
     have htracks := h.tracked live hmem
     refine ⟨_, List.mem_set hi _, hsame.cacheKey, live.events ++ [.frame done lookup], [], ?_, ?_, ?_⟩
     · rw [hevents, List.append_nil]
     · exact ⟨live.events, done, lookup, rfl, hdone, hsame.resultFilter ▸ htracks.quiet hended hhalf⟩
     · have hother :=
        gamesOf_other (show done.status ≠ .result by rw [hdone]; exact fun h => by cases h) lookup
       rw [gamesOf_append, hother, List.append_nil, htracks.games]

theorem tracks_start (hgames : live.accumulator.games = []) (hevents : live.events = [])
  (hdelivered : live.delivered = []) : Tracks convertToMarkdown live where
 games := by rw [hgames, hevents]; rfl
 quiet _ _ e he := by rw [hevents] at he; cases he
 sends _ := by rw [hdelivered, hevents]; rfl

theorem cacheKept_step {s s' : SearchState ρ} {a : SearchAction ρ}
  (h : CacheKept convertToMarkdown s) (hstep : searchStep convertToMarkdown s a = some s') :
  CacheKept convertToMarkdown s' := by
 cases a with
 | ask gatewayId request axes format =>
  rw [searchStep] at hstep
  split at hstep
  · cases hstep
    exact h.begin (tracks_start rfl rfl rfl) ⟨⟨request, axes, rfl⟩, rfl⟩
  · cases hstep
 | askExpansions gatewayId baseExternalId correlationId locale format =>
  cases hstep
  exact h.begin (tracks_start rfl rfl rfl) rfl
 | event i event =>
  obtain ⟨live, hlive, rfl⟩ := Option.map_eq_some_iff.1 hstep
  obtain ⟨hget, hended⟩ := Option.filter_eq_some_iff.1 hlive
  exact h.event hget (by simpa using hended) event
 | written i =>
  obtain ⟨write, hwrite, rfl⟩ := Option.map_eq_some_iff.1 hstep
  refine ⟨h.tracked, h.keyed, fun key games hkey => ?_, fun key games hmem =>
   h.writing key games (List.mem_of_mem_eraseIdx hmem)⟩
  by_cases hsame : key = write.1
  · have hnew : Function.update s.cache write.1 (some write.2) key = some games := hkey
    rw [hsame, Function.update_self] at hnew
    rw [hsame, ← Option.some.inj hnew]
    exact h.writing write.1 write.2 (List.mem_of_getElem? hwrite)
  · exact h.cached key games ((Function.update_of_ne hsame _ _).symm.trans hkey)
 | lost i =>
  rw [searchStep] at hstep
  split at hstep
  · cases hstep
    exact ⟨h.tracked, h.keyed, h.cached, fun key games hmem =>
     h.writing key games (List.mem_of_mem_eraseIdx hmem)⟩
  · cases hstep
 | expired key' =>
  cases hstep
  refine ⟨h.tracked, h.keyed, fun key games hkey => ?_, h.writing⟩
  by_cases hsame : key = key'
  · have hnew : Function.update s.cache key' none key = some games := hkey
    rw [hsame, Function.update_self] at hnew
    cases hnew
  · exact h.cached key games ((Function.update_of_ne hsame _ _).symm.trans hkey)

theorem reachable_cacheKept (h : SearchReachable convertToMarkdown s) :
  CacheKept convertToMarkdown s := by
 induction h with
 | start =>
  exact ⟨fun _ hmem => (by cases hmem), fun _ hmem => (by cases hmem), fun _ _ hkey => (by cases hkey),
   fun _ _ hmem => (by cases hmem)⟩
 | step a _ hstep ih => exact cacheKept_step ih hstep

def liveRun (convertToMarkdown : Option Text → Option ContentFormat → Option Text) (live : LiveSearch ρ)
    (events : List (StreamEvent ρ)) : LiveSearch ρ :=
  events.foldl (fun live event => (live.take convertToMarkdown event).1) live

def lastStatus (frames : List (SearchGameResult ρ)) : Option ResultStatus := frames.getLast?.map (·.status)

variable (convertToMarkdown) in
theorem take_quiet {event : StreamEvent ρ} (hlive : live.ended = false)
  (h : event.Quiet live.resultFilter) : (live.take convertToMarkdown event).1.ended = false := by
 cases event with
 | failed message => exact h.elim
 | completed => exact h.elim
 | frame result lookup =>
  have houtcome := mapGatewayResult_outcome convertToMarkdown result lookup
   { live with events := live.events ++ [.frame result lookup] }
  have htake : live.take convertToMarkdown (.frame result lookup) =
   mapGatewayResult convertToMarkdown result lookup
    { live with events := live.events ++ [.frame result lookup] } := rfl
  rw [htake]
  generalize mapGatewayResult convertToMarkdown result lookup
   { live with events := live.events ++ [.frame result lookup] } =
   taken at houtcome ⊢
  cases houtcome with
  | failed game message hstatus hgame hmatch hlookup =>
   obtain ⟨dedup, hok⟩ := h.2 hstatus game hgame hmatch
   rw [hlookup] at hok
   cases hok
  | problem | skipped | excluded | sent | done => exact hlive

theorem liveRun_quiet (events : List (StreamEvent ρ)) : ∀ live : LiveSearch ρ, live.ended = false →
  Tracks convertToMarkdown live → (∀ e ∈ events, e.Quiet live.resultFilter) →
   (liveRun convertToMarkdown live events).ended = false ∧
    Tracks convertToMarkdown (liveRun convertToMarkdown live events) ∧
    SameSearch live (liveRun convertToMarkdown live events) ∧
     (liveRun convertToMarkdown live events).events = live.events ++ events := by
 induction events with
 | nil => exact fun live hlive htracks _ => ⟨hlive, htracks, ⟨rfl, rfl, rfl, rfl, rfl⟩, (List.append_nil _).symm⟩
 | cons event events ih =>
  intro live hlive htracks hquiet
  obtain ⟨hsame, hevents⟩ := take_same convertToMarkdown event live
  have hended := take_quiet convertToMarkdown hlive (hquiet event List.mem_cons_self)
  have hrest : ∀ e ∈ events, e.Quiet (live.take convertToMarkdown event).1.resultFilter := by
   rw [hsame.resultFilter]
   exact fun e he => hquiet e (List.mem_cons_of_mem _ he)
  obtain ⟨hended', htracks', hsame', hevents'⟩ := ih _ hended (tracks_take hlive event htracks) hrest
  refine ⟨hended', htracks',
   ⟨hsame'.1.trans hsame.1, hsame'.2.trans hsame.2, hsame'.3.trans hsame.3, hsame'.4.trans hsame.4,
   hsame'.5.trans hsame.5⟩, ?_⟩
  rw [List.append_cons, ← hevents]
  exact hevents'

variable (convertToMarkdown) in
theorem liveRun_complete {events : List (StreamEvent ρ)} (hlive : live.ended = false)
  (hstart : live.events = []) (htracks : Tracks convertToMarkdown live)
  (h : CompleteStream live.resultFilter events) :
  resultGames (liveRun convertToMarkdown live events).delivered =
    (matching live.resultFilter (gamesOf events)).map (sent convertToMarkdown live.contentFormat) ∧
   lastStatus (liveRun convertToMarkdown live events).delivered = some .sourceDone := by
 obtain ⟨before, done, lookup, rfl, hdone, hquiet⟩ := h
 have hend : (StreamEvent.frame done lookup).Quiet live.resultFilter :=
  ⟨by rw [hdone]; rfl, fun hresult => by rw [hdone] at hresult; cases hresult⟩
 have hall : ∀ e ∈ before ++ [.frame done lookup], e.Quiet live.resultFilter := by
  intro e he
  rcases List.mem_append.1 he with hold | hone
  · exact hquiet e hold
  · exact List.mem_singleton.1 hone ▸ hend
 obtain ⟨hended, htracks', hsame, hevents⟩ :=
  liveRun_quiet (before ++ [.frame done lookup]) live hlive htracks hall
 refine ⟨?_, ?_⟩
 · rw [htracks'.sends hended, hsame.resultFilter, hsame.contentFormat, hevents, hstart, List.nil_append]
 · have hlast : liveRun convertToMarkdown live (before ++ [.frame done lookup]) =
     ((liveRun convertToMarkdown live before).take convertToMarkdown (.frame done lookup)).1 :=
      List.foldl_append
   rw [hlast]
   have houtcome := mapGatewayResult_outcome convertToMarkdown done lookup
    { liveRun convertToMarkdown live before with events := (liveRun convertToMarkdown live before).events ++ [.frame done lookup] }
   have htake : (liveRun convertToMarkdown live before).take convertToMarkdown (.frame done lookup) =
    mapGatewayResult convertToMarkdown done lookup { liveRun convertToMarkdown live before with
     events := (liveRun convertToMarkdown live before).events ++ [.frame done lookup] } := rfl
   rw [htake]
   generalize mapGatewayResult convertToMarkdown done lookup { liveRun convertToMarkdown live before with
     events := (liveRun convertToMarkdown live before).events ++ [.frame done lookup] } = taken at houtcome ⊢
   cases houtcome with
   | done => simp [lastStatus, LiveSearch.emit, sourceDone]
   | problem frame hproblem => rw [hdone] at hproblem; cases hproblem
   | skipped hstatus => rw [hdone] at hstatus; cases hstatus
   | excluded game hstatus => rw [hdone] at hstatus; cases hstatus
   | sent game dedup hstatus => rw [hdone] at hstatus; cases hstatus
   | failed game message hstatus => rw [hdone] at hstatus; cases hstatus

variable (convertToMarkdown) in
theorem replayed (gatewayId correlationId : Text) (format : Option ContentFormat)
  (arrivals : List (Game ρ × Except Text Dedup)) (h : ∀ a ∈ arrivals, ∃ dedup, a.2 = .ok dedup) :
  resultGames (emitCachedResults convertToMarkdown gatewayId correlationId format arrivals) =
    (arrivals.map Prod.fst).map (sent convertToMarkdown format) ∧
   lastStatus (emitCachedResults convertToMarkdown gatewayId correlationId format arrivals) = some
    .sourceDone := by
 induction arrivals with
 | nil => exact ⟨rfl, rfl⟩
 | cons arrival arrivals ih =>
  obtain ⟨game, lookup⟩ := arrival
  obtain ⟨dedup, hok⟩ := h (game, lookup) List.mem_cons_self
  obtain rfl : lookup = .ok dedup := hok
  obtain ⟨hgames, hlast⟩ := ih fun a ha => h a (List.mem_cons_of_mem _ ha)
  refine ⟨congrArg (sent convertToMarkdown format game :: ·) hgames, ?_⟩
  rw [emitCachedResults, lastStatus, List.getLast?_cons, Option.map_some]
  cases hrest : (emitCachedResults convertToMarkdown gatewayId correlationId format arrivals).getLast? with
  | none => rw [lastStatus, hrest] at hlast; cases hlast
  | some frame =>
   rw [lastStatus, hrest] at hlast
   exact hlast

/-- A gateway that answers what is asked alike with one list, in every stream
    it completed. -/
structure Answers (answer : Text → GatewaySearchRequest → List (Game ρ)) (s : SearchState ρ) : Prop where
  alike : ∀ gatewayId request request', AskedAlike request request' →
   answer gatewayId request = answer gatewayId request'
  whole : ∀ live ∈ s.lives, ∀ request, live.asked = .search request →
   ∀ before rest, live.events = before ++ rest →
    CompleteStream live.resultFilter before → gamesOf before = answer live.gatewayId request

theorem cached_answer (h : CacheKept convertToMarkdown s)
  {answer : Text → GatewaySearchRequest → List (Game ρ)} (hanswer : Answers answer s)
  {gatewayId : Text} {request : SearchGamesRequest} {axes : List SearchFilterAxis}
  {cached : List (Game ρ)}
  (hkey : s.cache (buildSearchCacheKey gatewayId (gatewayRequest request axes)) = some cached) :
  cached = answer gatewayId (gatewayRequest request axes) := by
 obtain ⟨live, hmem, hsame, before, rest, hevents, hcomplete, rfl⟩ := h.cached _ _ hkey
 have hkeyed := h.keyed live hmem
 unfold Keyed at hkeyed
 cases hasked : live.asked with
 | expansions baseExternalId locale =>
  rw [hasked] at hkeyed
  exact absurd (hkeyed.symm.trans hsame) (expansionsCacheKey_ne _ _ _ _ _)
 | search asked =>
  rw [hasked] at hkeyed
  obtain ⟨⟨request', axes', rfl⟩, hkey'⟩ := hkeyed
  obtain ⟨hgateway, halike⟩ := searchCacheKey_inj (fun _ => filterFor_proper) (fun _ => filterFor_proper)
   (hkey'.symm.trans hsame)
  rw [hanswer.whole live hmem _ hasked before rest hevents hcomplete, hgateway, hanswer.alike _ _ _ halike]

theorem plan_replay {cache : Text → Option (List (Game ρ))} {readable : Bool} {gatewayId : Text}
  {request : SearchGamesRequest}
  {axes : List SearchFilterAxis} {format format' : Option ContentFormat} {cached : List (Game ρ)}
  (h : searchGateway cache readable gatewayId request (.covers axes format) = .replay cached format') :
  cache (buildSearchCacheKey gatewayId (gatewayRequest request axes)) = some cached := by
 rw [searchGateway] at h
 split at h
 · cases h
 · cases readable with
   | false => cases h
   | true =>
    cases hkey : cache (buildSearchCacheKey gatewayId (gatewayRequest request axes)) with
    | none => rw [if_pos rfl, hkey] at h; cases h
    | some games => rw [if_pos rfl, hkey] at h; cases h; rfl

def KeysTellApart : Prop :=
  ∀ gatewayId request request' axes axes',
    buildSearchCacheKey gatewayId (gatewayRequest request axes) = buildSearchCacheKey gatewayId
     (gatewayRequest request' axes') ↔
      AskedAlike (gatewayRequest request axes) (gatewayRequest request' axes')

def CachedWhole (s : SearchState ρ) : Prop := ∀ key games, s.cache key = some games →
    Sourced s.lives key games

/-- A replay whose lookups are answered sends on, in some order, the games a
    live search that completes would, each matching the filter, and ends as it
    does. -/
def ReplaysAsLive (convertToMarkdown : Option Text → Option ContentFormat → Option Text)
    (s : SearchState ρ) : Prop :=
  ∀ answer, Answers answer s → ∀ readable gatewayId request axes format cached,
    searchGateway s.cache readable gatewayId request (.covers axes format) = .replay cached format →
    ∀ arrivals : List (Game ρ × Except Text Dedup), (∀ a ∈ arrivals, ∃ dedup, a.2 = .ok dedup) →
      (arrivals.map Prod.fst).Perm (matching (toResultFilter request.filter) cached) →
    ∀ events, CompleteStream (toResultFilter request.filter) events →
      gamesOf events = answer gatewayId (gatewayRequest request axes) →
    let replay := emitCachedResults convertToMarkdown gatewayId request.correlationId format arrivals
    let live := (liveRun convertToMarkdown (startSearch gatewayId request axes format) events).delivered
    (resultGames replay).Perm (resultGames live) ∧
    (∀ game ∈ resultGames replay, matchesFilter game (toResultFilter request.filter) = true) ∧
    lastStatus replay = some .sourceDone ∧ lastStatus live = some .sourceDone

theorem replaysAsLive (hkept : CacheKept convertToMarkdown s) :
  ReplaysAsLive convertToMarkdown s := by
 intro answer hanswer readable gatewayId request axes format cached hplan arrivals hlookups harrivals events hcomplete hevents
 have hcached := cached_answer hkept hanswer (plan_replay hplan)
 have hstart : Tracks convertToMarkdown (startSearch (ρ := ρ) gatewayId request axes format) :=
  tracks_start rfl rfl rfl
 obtain ⟨hlive, hlast⟩ := liveRun_complete convertToMarkdown rfl rfl hstart hcomplete
 obtain ⟨hreplay, hlast'⟩ :=
  replayed convertToMarkdown gatewayId request.correlationId format arrivals hlookups
 refine ⟨?_, fun game hgame => ?_, hlast', hlast⟩
 · rw [hlive, hreplay, hevents, ← hcached]
   exact harrivals.map _
 · rw [hreplay] at hgame
   obtain ⟨game', hmem, rfl⟩ := List.mem_map.1 hgame
   exact (List.mem_filter.1 (harrivals.mem_iff.1 hmem)).2

theorem search_cache_transparent {s : SearchState ρ} (h : SearchReachable convertToMarkdown s) :
    KeysTellApart ∧ CachedWhole s ∧ ReplaysAsLive convertToMarkdown s :=
 ⟨searchCacheKey_iff, (reachable_cacheKept h).cached, replaysAsLive (reachable_cacheKept h)⟩

end Runs

section Samples

def searchRun {ρ : Type} (convertToMarkdown : Option Text → Option ContentFormat →
    Option Text) (s : SearchState ρ)
    (actions : List (SearchAction ρ)) : Option (SearchState ρ) :=
     actions.foldlM (searchStep convertToMarkdown) s

theorem reachable_of_searchRun {ρ : Type}
  {convertToMarkdown : Option Text → Option ContentFormat → Option Text}
  {actions : List (SearchAction ρ)} :
  ∀ {s s' : SearchState ρ}, SearchReachable convertToMarkdown s →
   searchRun convertToMarkdown s actions = some s' → SearchReachable convertToMarkdown s' := by
 induction actions with
 | nil =>
  intro s s' hs h
  obtain rfl := Option.some.inj h
  exact hs
 | cons a actions ih =>
  intro s s' hs h
  obtain ⟨mid, hmid, hrest⟩ := Option.bind_eq_some_iff.1 h
  exact ih (hs.step a hmid) hrest

def sampleRequest : SearchGamesRequest := ⟨"c1".toList, "crokinole".toList, none, some 20, none, none⟩

def sampleKey : Text := buildSearchCacheKey "bgg".toList (gatewayRequest sampleRequest [])

def sampleSearch : List (SearchAction Unit) :=
  [.ask "bgg".toList sampleRequest [] none,
    .event 0 (.frame ⟨"c1".toList, .result, some sampleResult, none, none⟩ (.ok ⟨false, none⟩)),
    .event 0 (.frame ⟨"c1".toList, .sourceDone, none, none, none⟩ (.error [])), .written 0]

theorem search_cache_transparent_sample : ∃ s : SearchState Unit,
    (s.cache sampleKey).map (·.map (·.externalId)) = some ["188".toList] ∧
      KeysTellApart ∧ CachedWhole s ∧ ReplaysAsLive (fun summary _ => summary) s := by
 have hrun : (searchRun (fun summary _ => summary) emptyCache sampleSearch).map
   (fun s => (s.cache sampleKey).map (·.map (·.externalId))) = some
    (some ["188".toList]) := by decide +kernel
 obtain ⟨s, hs, hcached⟩ := Option.map_eq_some_iff.1 hrun
 exact ⟨s, hcached, search_cache_transparent (reachable_of_searchRun .start hs)⟩

/-- An empty locale is sent, and keyed as none; and a replay whose lookup
    fails ends in an error, its game left out. -/
theorem empty_locale_and_failed_lookup :
    (¬ ∀ gatewayId request request' axes axes',
      buildSearchCacheKey gatewayId (gatewayRequest request axes) = buildSearchCacheKey gatewayId
       (gatewayRequest request' axes') ↔
        { gatewayRequest request axes with correlationId := request'.correlationId }
         = gatewayRequest request' axes') ∧
    ¬ ∀ arrivals : List (Game Unit × Except Text Dedup),
      (arrivals.map Prod.fst).Perm (matching (toResultFilter sampleRequest.filter) [sampleResult]) →
        lastStatus (emitCachedResults (fun summary _ => summary) "bgg".toList "c1".toList none
         arrivals) = some .sourceDone := by
 refine ⟨fun h => ?_, fun h => ?_⟩
 · have hsame := (h "bgg".toList sampleRequest { sampleRequest with locale := some [] } [] []).1 rfl
   have hlocale : none = some [] := congrArg GatewaySearchRequest.locale hsame
   cases hlocale
 · have hlast := h [(sampleResult, .error "timeout".toList)] (List.Perm.refl _)
   have herror : some ResultStatus.error = some .sourceDone := hlast
   cases herror

end Samples

end BoardGamesEmpire.GameSearch
