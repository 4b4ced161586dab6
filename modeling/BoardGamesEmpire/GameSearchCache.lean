import BoardGamesEmpire.GameSearchKey

set_option autoImplicit false

/-!
# The search of a DataGateway and its cache

`GatewayGameSearchService`: live streams, each read frame by frame, the lists
they leave in the cache, and the searches answered from it. Streams overlap and
the cache's writes land when they will.
-/
namespace BoardGamesEmpire.GameSearch
open JsText UriComponent

section Frames

inductive ResultStatus where
  | unspecified
  | result
  | sourceDone
  | error
  | rateLimited
  | unavailable
  | unfilterable
  | unrecognized (value : ℤ)
deriving DecidableEq

def ResultStatus.text : ResultStatus → Text
  | .unspecified => "RESULT_STATUS_UNSPECIFIED".toList
  | .result => "RESULT_STATUS_RESULT".toList
  | .sourceDone => "RESULT_STATUS_SOURCE_DONE".toList
  | .error => "RESULT_STATUS_ERROR".toList
  | .rateLimited => "RESULT_STATUS_RATE_LIMITED".toList
  | .unavailable => "RESULT_STATUS_UNAVAILABLE".toList
  | .unfilterable => "RESULT_STATUS_UNFILTERABLE".toList
  | .unrecognized value => numberText value

inductive ContentFormat where
  | plainText
  | html
  | bbcode
  | markdown
deriving DecidableEq

variable (ρ : Type)

abbrev Game : Type := GameSearchData ℤ ρ

structure GatewaySearchResult where
  correlationId : Text
  status : ResultStatus
  game : Option (Game ρ)
  message : Option Text
  retryAfter : Option ℤ

structure Dedup where
  inSystem : Bool
  gameId : Option Text

structure SearchGameResult where
  correlationId : Text
  gatewayId : Text
  status : ResultStatus
  game : Option (Game ρ)
  dedup : Option Dedup
  message : Option Text
  retryAfter : Option ℤ

/-- A live stream's games so far, and whether a status frame came between. -/
structure SearchAccumulator where
  games : List (Game ρ)
  isPartial : Bool

/-- What a stream brings: a frame, with what its game's lookup will answer, an
    error, or its end. -/
inductive StreamEvent where
  | frame (result : GatewaySearchResult ρ) (lookup : Except Text Dedup)
  | failed (message : Text)
  | completed

inductive Asked where
  | search (request : GatewaySearchRequest)
  | expansions (baseExternalId : Text) (locale : Option Text)

/-- A live stream: what was asked, what it brought and what was sent on. -/
structure LiveSearch where
  gatewayId : Text
  correlationId : Text
  asked : Asked
  cacheKey : Text
  resultFilter : ResultFilter ℤ
  contentFormat : Option ContentFormat
  accumulator : SearchAccumulator ρ
  events : List (StreamEvent ρ)
  delivered : List (SearchGameResult ρ)
  ended : Bool

end Frames

section Streams

variable {ρ : Type} (convertToMarkdown : Option Text → Option ContentFormat → Option Text)

def errorGameSearchResult (gatewayId correlationId message : Text) (status : ResultStatus) :
    SearchGameResult ρ :=
  ⟨correlationId, gatewayId, status, none, none, some message, none⟩

def sourceDone (gatewayId correlationId : Text) : SearchGameResult ρ :=
  ⟨correlationId, gatewayId, .sourceDone, none, none, none, none⟩

def sent (contentFormat : Option ContentFormat) (game : Game ρ) : Game ρ :=
  { game with summary := convertToMarkdown game.summary contentFormat }

def toResultFrame (gatewayId correlationId : Text) (game : Game ρ)
    (contentFormat : Option ContentFormat) (dedup : Dedup) :
    SearchGameResult ρ :=
  ⟨correlationId, gatewayId, .result, some (sent convertToMarkdown contentFormat game), some dedup,
   none, none⟩

def LiveSearch.emit (live : LiveSearch ρ) (frame : SearchGameResult ρ) : LiveSearch ρ :=
  { live with delivered := live.delivered ++ [frame] }

def LiveSearch.fail (live : LiveSearch ρ) (message : Text) : LiveSearch ρ :=
  { live.emit (errorGameSearchResult live.gatewayId live.correlationId message .error) with ended := true }

def ResultStatus.isProblem (status : ResultStatus) : Bool := status != .result && status != .sourceDone

def mapGatewayResult (result : GatewaySearchResult ρ) (lookup : Except Text Dedup) (live : LiveSearch ρ) :
    LiveSearch ρ × Option (Text × List (Game ρ)) :=
  let accumulator := live.accumulator
  let live := if result.status.isProblem then
   { live with accumulator := { accumulator with isPartial := true } } else live
  match result.status with
  | .result => match result.game with
    | none => (live, none)
    | some game =>
      let live := { live with accumulator := { live.accumulator with games := live.accumulator.games ++ [game] } }
      if matchesFilter game live.resultFilter then match lookup with
        | .ok dedup =>
          (live.emit (toResultFrame convertToMarkdown live.gatewayId result.correlationId game
           live.contentFormat dedup), none)
        | .error message => (live.fail message, none)
      else (live, none)
  | .sourceDone => (live.emit (sourceDone live.gatewayId result.correlationId),
      if live.accumulator.isPartial then none else some (live.cacheKey, live.accumulator.games))
  | .rateLimited =>
   (live.emit ⟨result.correlationId, live.gatewayId, .rateLimited, none, none, result.message,
    result.retryAfter⟩,
      none)
  | .unavailable =>
   (live.emit ⟨result.correlationId, live.gatewayId, .unavailable, none, none, result.message, none⟩, none)
  | .error => (live.emit (errorGameSearchResult live.gatewayId result.correlationId
      (result.message.getD "Unknown error".toList) .error), none)
  | .unspecified | .unfilterable | .unrecognized _ =>
   (live.emit (errorGameSearchResult live.gatewayId result.correlationId
      ("Unknown status ".toList ++ result.status.text) .error), none)

def LiveSearch.take (event : StreamEvent ρ) (live : LiveSearch ρ) :
    LiveSearch ρ × Option (Text × List (Game ρ)) :=
  let live := { live with events := live.events ++ [event] }
  match event with
  | .frame result lookup => mapGatewayResult convertToMarkdown result lookup live
  | .failed message => (live.fail message, none)
  | .completed => ({ live with ended := true }, none)

def unfilterableAxes (filter : ResultFilter ℤ) (filterableAxes : List SearchFilterAxis) :
    List SearchFilterAxis :=
  [(SearchFilterAxis.playerCount, filter.playerCount), (.playTime, filter.playTime)].filterMap
   fun (axis, range) =>
    if range.any (fun range => !range.includeUnknown) && !filterableAxes.contains axis then some
     axis else none

def startSearch (gatewayId : Text) (request : SearchGamesRequest) (filterableAxes : List SearchFilterAxis)
    (contentFormat : Option ContentFormat) : LiveSearch ρ :=
  let gatewayRequest := gatewayRequest request filterableAxes
  ⟨gatewayId, request.correlationId, .search gatewayRequest, buildSearchCacheKey gatewayId gatewayRequest,
    toResultFilter request.filter, contentFormat, ⟨[], false⟩, [], [], false⟩

def startExpansions (gatewayId baseExternalId correlationId : Text) (locale : Option Text)
    (contentFormat : Option ContentFormat) : LiveSearch ρ :=
  ⟨gatewayId, correlationId, .expansions baseExternalId locale,
   buildExpansionsCacheKey gatewayId baseExternalId locale,
    ⟨none, none, none, none, none⟩, contentFormat, ⟨[], false⟩, [], [], false⟩

/-- Cached games as they are replayed, in the order their lookups answer, up
    to one that fails. -/
def emitCachedResults (gatewayId correlationId : Text) (contentFormat : Option ContentFormat) :
    List (Game ρ × Except Text Dedup) → List (SearchGameResult ρ)
  | [] => [sourceDone gatewayId correlationId]
  | (game, .ok dedup) :: rest => toResultFrame convertToMarkdown gatewayId correlationId game
   contentFormat dedup ::
      emitCachedResults gatewayId correlationId contentFormat rest
  | (_, .error message) :: _ => [errorGameSearchResult gatewayId correlationId message .error]

end Streams

section Service

variable {ρ : Type}

inductive SearchRoute where
  | unroutable
  | uncovered
  | covers (filterableAxes : List SearchFilterAxis) (contentFormat : Option ContentFormat)

/-- How a search of a DataGateway goes on: it is resolved afresh, answered
    without being asked, asked by its route, or answered from the cache. -/
inductive SearchPlan (ρ : Type) where
  | resolve
  | answered (frame : SearchGameResult ρ)
  | ask (filterableAxes : List SearchFilterAxis) (contentFormat : Option ContentFormat)
  | replay (cached : List (Game ρ)) (contentFormat : Option ContentFormat)

/-- `searchGateway`; a cache that can't be read is missed. -/
def searchGateway (cache : Text → Option (List (Game ρ))) (readable : Bool) (gatewayId : Text)
    (request : SearchGamesRequest) :
    SearchRoute → SearchPlan ρ
  | .unroutable => .resolve
  | .uncovered => .answered (sourceDone gatewayId request.correlationId)
  | .covers filterableAxes contentFormat =>
    if unfilterableAxes (toResultFilter request.filter) filterableAxes ≠ [] then
      .answered ⟨request.correlationId, gatewayId, .unfilterable, none, none, none, none⟩
    else
      match if readable then cache
       (buildSearchCacheKey gatewayId (gatewayRequest request filterableAxes)) else none with
      | none => .ask filterableAxes contentFormat
      | some cached => .replay cached contentFormat

/-- The cache, its writes under way and the live streams, the ended ones too. -/
structure SearchState (ρ : Type) where
  cache : Text → Option (List (Game ρ))
  writes : List (Text × List (Game ρ))
  lives : List (LiveSearch ρ)

def emptyCache : SearchState ρ := ⟨fun _ => none, [], []⟩

/-- A live search starts by either path; a write lands or is lost; an entry
    expires. -/
inductive SearchAction (ρ : Type) where
  | ask (gatewayId : Text) (request : SearchGamesRequest) (filterableAxes : List SearchFilterAxis)
      (contentFormat : Option ContentFormat)
  | askExpansions (gatewayId baseExternalId correlationId : Text) (locale : Option Text)
   (contentFormat : Option ContentFormat)
  | event (i : ℕ) (event : StreamEvent ρ)
  | written (i : ℕ)
  | lost (i : ℕ)
  | expired (key : Text)

variable (convertToMarkdown : Option Text → Option ContentFormat → Option Text)

def searchStep (s : SearchState ρ) : SearchAction ρ → Option (SearchState ρ)
  | .ask gatewayId request filterableAxes contentFormat =>
    if unfilterableAxes (toResultFilter request.filter) filterableAxes = [] then
      some { s with lives := s.lives ++ [startSearch gatewayId request filterableAxes contentFormat] }
    else none
  | .askExpansions gatewayId baseExternalId correlationId locale contentFormat =>
    some { s with lives := s.lives ++ [startExpansions gatewayId baseExternalId correlationId locale contentFormat] }
  | .event i event => (s.lives[i]?.filter fun live => !live.ended).map fun live =>
      let taken := live.take convertToMarkdown event
      { s with lives := s.lives.set i taken.1, writes := s.writes ++ taken.2.toList }
  | .written i => s.writes[i]?.map fun write =>
      { s with cache := Function.update s.cache write.1 (some write.2), writes := s.writes.eraseIdx i }
  | .lost i => if i < s.writes.length then some { s with writes := s.writes.eraseIdx i } else none
  | .expired key => some { s with cache := Function.update s.cache key none }

inductive SearchReachable : SearchState ρ → Prop where
  | start : SearchReachable emptyCache
  | step {s s' : SearchState ρ} (a : SearchAction ρ) (h : SearchReachable s)
   (hstep : searchStep convertToMarkdown s a = some s') :
      SearchReachable s'

end Service

end BoardGamesEmpire.GameSearch
