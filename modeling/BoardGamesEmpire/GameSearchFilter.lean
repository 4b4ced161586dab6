import BoardGamesEmpire.JsText
import BoardGamesEmpire.SqlTruth

set_option autoImplicit false

/-!
# A search filter, here and at the gateways

The filter of a game search as conditions on the stored games, and as the
request a DataGateway's results are matched against. Both select alike.
-/
namespace BoardGamesEmpire.GameSearch
open JsText SqlTruth

section Enums

inductive PlatformType where
  | tabletop
  | console
  | portable
  | pc
  | mobile
  | arcade
  | other
deriving DecidableEq

inductive ContentType where
  | accessory
  | baseGame
  | bundle
  | dlc
  | expandedEdition
  | expansion
  | mod
  | port
  | remake
  | remaster
  | standaloneExpansion
  | unknown
deriving DecidableEq

namespace Proto

inductive PlatformType where
  | unspecified
  | console
  | pc
  | portable
  | mobile
  | arcade
  | other
  | tabletop
  | unrecognized (value : ℤ)
deriving DecidableEq

inductive ContentType where
  | unspecified
  | baseGame
  | expansion
  | dlc
  | standaloneExpansion
  | accessory
  | bundle
  | remake
  | remaster
  | expandedEdition
  | port
  | mod
  | unrecognized (value : ℤ)
deriving DecidableEq

end Proto

def toStoredPlatformType : Proto.PlatformType → Option PlatformType
  | .console => some .console
  | .pc => some .pc
  | .portable => some .portable
  | .mobile => some .mobile
  | .arcade => some .arcade
  | .tabletop => some .tabletop
  | .other => some .other
  | .unspecified | .unrecognized _ => none

def toStoredContentType : Proto.ContentType → Option ContentType
  | .baseGame => some .baseGame
  | .expansion => some .expansion
  | .dlc => some .dlc
  | .standaloneExpansion => some .standaloneExpansion
  | .accessory => some .accessory
  | .bundle => some .bundle
  | .remake => some .remake
  | .remaster => some .remaster
  | .expandedEdition => some .expandedEdition
  | .port => some .port
  | .mod => some .mod
  | .unspecified | .unrecognized _ => none

def toProtoPlatformType : PlatformType → Option Proto.PlatformType
  | .console => some .console
  | .pc => some .pc
  | .portable => some .portable
  | .mobile => some .mobile
  | .arcade => some .arcade
  | .tabletop => some .tabletop
  | .other => some .other

def toProtoContentType : ContentType → Option Proto.ContentType
  | .baseGame => some .baseGame
  | .expansion => some .expansion
  | .dlc => some .dlc
  | .standaloneExpansion => some .standaloneExpansion
  | .accessory => some .accessory
  | .bundle => some .bundle
  | .remake => some .remake
  | .remaster => some .remaster
  | .expandedEdition => some .expandedEdition
  | .port => some .port
  | .mod => some .mod
  | .unknown => none

theorem toStored_toProto_platform {t : PlatformType} {p : Proto.PlatformType}
  (h : toProtoPlatformType t = some p) :
  toStoredPlatformType p = some t := by
 cases t <;> cases h <;> rfl

theorem toStored_toProto_content {t : ContentType} {p : Proto.ContentType}
  (h : toProtoContentType t = some p) :
  toStoredContentType p = some t := by
 cases t <;> cases h <;> rfl

end Enums

section Filters

variable (α : Type)

structure GameSearchFilter where
  platformTypes : Option (List PlatformType)
  contentTypes : Option (List ContentType)
  publishYearMin : Option α
  publishYearMax : Option α
  publishYearIncludeUnknown : Option Bool
  playerCountMin : Option α
  playerCountMax : Option α
  playerCountIncludeUnknown : Option Bool
  playTimeMin : Option α
  playTimeMax : Option α
  playTimeIncludeUnknown : Option Bool

structure IntRange where
  min : Option α
  max : Option α
  includeUnknown : Option Bool
deriving DecidableEq

structure SearchFilter where
  platformTypes : List Proto.PlatformType
  contentTypes : List Proto.ContentType
  publishYear : Option (IntRange α)
  playerCount : Option (IntRange α)
  playTime : Option (IntRange α)
deriving DecidableEq

structure RangeFilter where
  min : Option α
  max : Option α
  includeUnknown : Bool

structure ResultFilter where
  platformTypes : Option (List PlatformType)
  contentTypes : Option (List ContentType)
  publishYear : Option (RangeFilter α)
  playerCount : Option (RangeFilter α)
  playTime : Option (RangeFilter α)

/-- A game as a DataGateway sends it, with what is only passed on in `rest`. -/
structure GameSearchData (ρ : Type) where
  externalId : Text
  contentType : Proto.ContentType
  summary : Option Text
  yearPublished : Option α
  minPlayers : Option α
  maxPlayers : Option α
  availablePlatforms : Option (List Proto.PlatformType)
  minPlaytime : Option α
  maxPlaytime : Option α
  rest : ρ

structure StoredGame where
  contentType : ContentType
  /-- Of the platforms its platform games are on. -/
  platformTypes : List PlatformType
  publishYear : Option α
  minPlayers : Option α
  maxPlayers : Option α
  minPlayTime : Option α
  maxPlayTime : Option α

end Filters

section Gateway

variable {α ρ : Type}

def rangeOf (minimum maximum : Option α) (includeUnknown : Option Bool) : Option (IntRange α) :=
  if minimum.isNone && maximum.isNone then none
  else some ⟨minimum, maximum, if includeUnknown = some true then some true else none⟩

def GameSearchFilter.publishYear (filter : GameSearchFilter α) : Option (IntRange α) :=
  rangeOf filter.publishYearMin filter.publishYearMax filter.publishYearIncludeUnknown

def GameSearchFilter.playerCount (filter : GameSearchFilter α) : Option (IntRange α) :=
  rangeOf filter.playerCountMin filter.playerCountMax filter.playerCountIncludeUnknown

def GameSearchFilter.playTime (filter : GameSearchFilter α) : Option (IntRange α) :=
  rangeOf filter.playTimeMin filter.playTimeMax filter.playTimeIncludeUnknown

def toProtoSearchFilter (filter : GameSearchFilter α) : Option (SearchFilter α) :=
  let platformTypes := filter.platformTypes.getD []
  let contentTypes := filter.contentTypes.getD []
  if platformTypes.isEmpty && contentTypes.isEmpty && filter.publishYear.isNone &&
   filter.playerCount.isNone &&
      filter.playTime.isNone then none
  else some {
    platformTypes := platformTypes.map fun type => (toProtoPlatformType type).getD .unspecified
    contentTypes := contentTypes.map fun type => (toProtoContentType type).getD .unspecified
    publishYear := filter.publishYear
    playerCount := filter.playerCount
    playTime := filter.playTime }

def storedSet {P T : Type} (values : Option (List P)) (toStored : P → Option T) : Option (List T) :=
  match values.getD [] with
  | [] => none
  | value :: more => some ((value :: more).filterMap toStored)

def toRangeFilter (range : Option (IntRange α)) : Option (RangeFilter α) :=
  let min := range.bind (·.min)
  let max := range.bind (·.max)
  if min.isNone && max.isNone then none else some ⟨min, max, range.bind (·.includeUnknown) = some true⟩

def toResultFilter (filter : Option (SearchFilter α)) : ResultFilter α where
  platformTypes := storedSet (filter.map (·.platformTypes)) toStoredPlatformType
  contentTypes := storedSet (filter.map (·.contentTypes)) toStoredContentType
  publishYear := toRangeFilter (filter.bind (·.publishYear))
  playerCount := toRangeFilter (filter.bind (·.playerCount))
  playTime := toRangeFilter (filter.bind (·.playTime))

variable [LE α] [DecidableLE α]

def inYearRange (year : Option α) (range : RangeFilter α) : Bool :=
  match year with
  | some year => range.min.all (· ≤ year) && range.max.all (year ≤ ·)
  | none => range.includeUnknown

def supportsPlayerCount (minPlayers maxPlayers : Option α) (range : RangeFilter α) : Bool :=
  match minPlayers, maxPlayers with
  | some gameMin, some gameMax =>
    (range.min.or range.max).all (gameMin ≤ ·) && (range.max.or range.min).all (· ≤ gameMax)
  | none, _ | some _, none => range.includeUnknown

def fitsPlayTime (minPlaytime maxPlaytime : Option α) (range : RangeFilter α) : Bool :=
  match minPlaytime.or maxPlaytime, maxPlaytime.or minPlaytime with
  | some gameMin, some gameMax => range.min.all (· ≤ gameMin) && range.max.all (gameMax ≤ ·)
  | none, _ | some _, none => range.includeUnknown

def matchesFilter (game : GameSearchData α ρ) (filter : ResultFilter α) : Bool :=
  filter.contentTypes.all (fun types => (toStoredContentType game.contentType).any (types.contains ·)) &&
  filter.platformTypes.all (fun types =>
    (game.availablePlatforms.getD []).any fun platform =>
     (toStoredPlatformType platform).any (types.contains ·)) &&
  filter.publishYear.all (inYearRange game.yearPublished) &&
  filter.playerCount.all (supportsPlayerCount game.minPlayers game.maxPlayers) &&
  filter.playTime.all (fitsPlayTime game.minPlaytime game.maxPlaytime)

end Gateway

section Local

variable {α ρ : Type}

inductive Column where
  | publishYear
  | minPlayers
  | maxPlayers
  | minPlayTime
  | maxPlayTime

/-- A condition on one column, or on the platforms of a game's platform games.
    A bound left out is no condition. -/
inductive GameTest (α : Type) where
  | contentTypeIn (types : List ContentType)
  | platformTypeIn (types : List PlatformType)
  | gte (column : Column) (bound : Option α)
  | lte (column : Column) (bound : Option α)
  | null (column : Column)

abbrev GameWhereInput (α : Type) : Type := Where (GameTest α)

def StoredGame.value (game : StoredGame α) : Column → Option α
  | .publishYear => game.publishYear
  | .minPlayers => game.minPlayers
  | .maxPlayers => game.maxPlayers
  | .minPlayTime => game.minPlayTime
  | .maxPlayTime => game.maxPlayTime

def GameTest.truth [LE α] [DecidableLE α] (game : StoredGame α) : GameTest α → Truth
  | .contentTypeIn types => .of (types.contains game.contentType)
  | .platformTypeIn types => .of (game.platformTypes.any (types.contains ·))
  | .gte column (some bound) => compared (bound ≤ ·) (game.value column)
  | .lte column (some bound) => compared (· ≤ bound) (game.value column)
  | .gte _ none | .lte _ none => .yes
  | .null column => isNull (game.value column)

namespace Local

def orUnknown (range : IntRange α) (known unknown : GameWhereInput α) : GameWhereInput α :=
  if range.includeUnknown = some true then .any known unknown else known

def inYearRange (range : IntRange α) : GameWhereInput α :=
  orUnknown range (.all (.test (.gte .publishYear range.min)) (.test (.lte .publishYear range.max)))
    (.test (.null .publishYear))

def supportsPlayerCount (range : IntRange α) : GameWhereInput α :=
  let lo := range.min.or range.max
  let hi := range.max.or range.min
  orUnknown range (.all (.test (.lte .minPlayers lo)) (.test (.gte .maxPlayers hi)))
    (.any (.test (.null .minPlayers)) (.test (.null .maxPlayers)))

def fitsPlayTime (range : IntRange α) : GameWhereInput α :=
  let starts : GameWhereInput α := .any (.test (.gte .minPlayTime range.min))
    (.all (.test (.null .minPlayTime)) (.test (.gte .maxPlayTime range.min)))
  let upTo : GameWhereInput α := .any (.test (.lte .maxPlayTime range.max))
    (.all (.test (.null .maxPlayTime)) (.test (.lte .minPlayTime range.max)))
  let known := if range.min.isNone then upTo else if range.max.isNone then starts else .all starts upTo
  orUnknown range known (.all (.test (.null .minPlayTime)) (.test (.null .maxPlayTime)))

end Local

def localFilterConditions (filter : GameSearchFilter α) : List (GameWhereInput α) :=
  let platformTypes := filter.platformTypes.getD []
  let contentTypes := filter.contentTypes.getD []
  (if contentTypes.isEmpty then [] else [.test (.contentTypeIn contentTypes)]) ++
  (if platformTypes.isEmpty then [] else [.test (.platformTypeIn platformTypes)]) ++
  (filter.publishYear.map Local.inYearRange).toList ++
  (filter.playerCount.map Local.supportsPlayerCount).toList ++
  (filter.playTime.map Local.fitsPlayTime).toList

def Selected [LE α] [DecidableLE α] (filter : GameSearchFilter α) (game : StoredGame α) : Prop :=
  ∀ condition ∈ localFilterConditions filter, condition.truth (GameTest.truth game) = .yes

end Local

section Agreement

variable {α ρ : Type} [LE α] [DecidableLE α] (range : IntRange α) (game : StoredGame α)

def IntRange.filter {α : Type} (range : IntRange α) : RangeFilter α :=
  ⟨range.min, range.max, range.includeUnknown = some true⟩

theorem holds_orUnknown (known unknown : GameWhereInput α) :
  (Local.orUnknown range known unknown).truth (GameTest.truth game) = .yes ↔
   known.truth (GameTest.truth game) = .yes ∨
    range.includeUnknown = some true ∧ unknown.truth (GameTest.truth game) = .yes := by
 unfold Local.orUnknown
 split
 · next h => rw [Where.truth_any, and_iff_right h]
 · next h => rw [or_iff_left fun hu => h hu.1]

theorem holds_inYearRange (h : range.min ≠ none ∨ range.max ≠ none) :
  (Local.inYearRange range).truth (GameTest.truth game) = .yes ↔
   inYearRange game.publishYear range.filter = true := by
 obtain ⟨min, max, unknown⟩ := range
 rw [Local.inYearRange, holds_orUnknown]
 cases hyear : game.publishYear <;> cases min <;> cases max <;>
  simp_all [GameTest.truth, StoredGame.value, inYearRange, IntRange.filter]

theorem holds_supportsPlayerCount (h : range.min ≠ none ∨ range.max ≠ none) :
  (Local.supportsPlayerCount range).truth (GameTest.truth game) = .yes ↔
   supportsPlayerCount game.minPlayers game.maxPlayers range.filter = true := by
 obtain ⟨min, max, unknown⟩ := range
 rw [Local.supportsPlayerCount, holds_orUnknown]
 cases hmin : game.minPlayers <;> cases hmax : game.maxPlayers <;> cases min <;> cases max <;>
  simp_all [GameTest.truth, StoredGame.value, supportsPlayerCount, IntRange.filter]

theorem holds_fitsPlayTime (h : range.min ≠ none ∨ range.max ≠ none) :
  (Local.fitsPlayTime range).truth (GameTest.truth game) = .yes ↔
   fitsPlayTime game.minPlayTime game.maxPlayTime range.filter = true := by
 obtain ⟨min, max, unknown⟩ := range
 rw [Local.fitsPlayTime, holds_orUnknown]
 cases hmin : game.minPlayTime <;> cases hmax : game.maxPlayTime <;> cases min <;> cases max <;>
  simp_all [GameTest.truth, StoredGame.value, fitsPlayTime, IntRange.filter]

theorem rangeOf_bound {α : Type} {min max : Option α} {unknown : Option Bool} {range : IntRange α}
  (h : rangeOf min max unknown = some range) : range.min ≠ none ∨ range.max ≠ none := by
 unfold rangeOf at h
 split at h
 · cases h
 · next hbound =>
   cases h
   simp only [Bool.and_eq_true, Option.isNone_iff_eq_none, not_and_or] at hbound
   exact hbound

theorem toRangeFilter_rangeOf {α : Type} (min max : Option α) (unknown : Option Bool) :
  toRangeFilter (rangeOf min max unknown) = (rangeOf min max unknown).map IntRange.filter := by
 cases hrange : rangeOf min max unknown with
 | none => rfl
 | some range =>
  have hbound : ¬ ((range.min.isNone && range.max.isNone) = true) := by
   simp only [Bool.and_eq_true, Option.isNone_iff_eq_none, not_and_or]
   exact rangeOf_bound hrange
  unfold toRangeFilter
  simp only [Option.bind_some, if_neg hbound, Option.map_some]
  rfl

theorem storedSet_sent {P T : Type} {toProto : T → Option P} {toStored : P → Option T}
  {unspecified : P} {types : List T}
  (hround : ∀ t p, toProto t = some p → toStored p = some t) (h : ∀ t ∈ types, (toProto t).isSome) :
  storedSet (some (types.map fun t => (toProto t).getD unspecified)) toStored
   = if types.isEmpty then none else some types := by
 have hback : (types.map fun t => (toProto t).getD unspecified).filterMap toStored = types := by
  rw [List.filterMap_map]
  refine (List.filterMap_congr fun t ht => ?_).trans List.filterMap_some
  obtain ⟨p, hp⟩ := Option.isSome_iff_exists.1 (h t ht)
  rw [Function.comp_apply, hp, Option.getD_some]
  exact hround t p hp
 cases types with
 | nil => rfl
 | cons t ts => exact congrArg some hback

theorem toResultFilter_sent {α : Type} {filter : GameSearchFilter α}
  (hcontent : ∀ t ∈ filter.contentTypes.getD [], (toProtoContentType t).isSome)
  (hplatform : ∀ t ∈ filter.platformTypes.getD [], (toProtoPlatformType t).isSome) :
  toResultFilter (toProtoSearchFilter filter) =
   { platformTypes := if (filter.platformTypes.getD []).isEmpty then none else some (filter.platformTypes.getD [])
     contentTypes :=
      if (filter.contentTypes.getD []).isEmpty then none else some (filter.contentTypes.getD [])
     publishYear := filter.publishYear.map IntRange.filter
     playerCount := filter.playerCount.map IntRange.filter
     playTime := filter.playTime.map IntRange.filter } := by
 unfold toProtoSearchFilter
 dsimp only
 split
 · next hempty =>
   simp only [Bool.and_eq_true, Option.isNone_iff_eq_none] at hempty
   obtain ⟨⟨⟨⟨hplatforms, hcontents⟩, hyear⟩, hcount⟩, htime⟩ := hempty
   rw [hplatforms, hcontents, hyear, hcount, htime]
   rfl
 · simp only [toResultFilter, Option.map_some, Option.bind_some]
   rw [storedSet_sent (fun _ _ => toStored_toProto_content) hcontent,
    storedSet_sent (fun _ _ => toStored_toProto_platform) hplatform]
   simp only [GameSearchFilter.publishYear, GameSearchFilter.playerCount, GameSearchFilter.playTime,
    toRangeFilter_rangeOf]

structure Corresponds {α ρ : Type} (result : GameSearchData α ρ) (game : StoredGame α) : Prop where
  contentType : toStoredContentType result.contentType = some game.contentType
  platforms : ∀ platform ∈ result.availablePlatforms.getD [], (toStoredPlatformType platform).isSome
  platformTypes : ∀ type, type ∈ game.platformTypes ↔
    ∃ platform ∈ result.availablePlatforms.getD [], toStoredPlatformType platform = some type
  publishYear : game.publishYear = result.yearPublished
  minPlayers : game.minPlayers = result.minPlayers
  maxPlayers : game.maxPlayers = result.maxPlayers
  minPlayTime : game.minPlayTime = result.minPlaytime
  maxPlayTime : game.maxPlayTime = result.maxPlaytime

theorem holds_range {range : Option (IntRange α)} {condition : IntRange α → GameWhereInput α}
  {keeps : RangeFilter α → Bool}
  (h : ∀ r, range = some r → ((condition r).truth (GameTest.truth game) = .yes ↔ keeps r.filter = true)) :
  (∀ c ∈ (range.map condition).toList, c.truth (GameTest.truth game) = .yes) ↔
   (range.map IntRange.filter).all keeps = true := by
 cases range with
 | none => simp
 | some r => simpa using h r rfl

variable {ρ : Type} {filter : GameSearchFilter α} {result : GameSearchData α ρ} {game}

/-- The local search selects a stored game exactly if the server keeps the
    result of a DataGateway that stands for it. -/
theorem selected_iff_matchesFilter (h : Corresponds result game)
    (hcontent : ∀ t ∈ filter.contentTypes.getD [], (toProtoContentType t).isSome)
    (hplatform : ∀ t ∈ filter.platformTypes.getD [], (toProtoPlatformType t).isSome) :
    Selected filter game ↔ matchesFilter result (toResultFilter (toProtoSearchFilter filter)) = true := by
 have hcontents : (∀ c ∈ (if (filter.contentTypes.getD []).isEmpty then []
   else [Where.test (.contentTypeIn (filter.contentTypes.getD []))] : List (GameWhereInput α)),
    c.truth (GameTest.truth game) = .yes) ↔
   (if (filter.contentTypes.getD []).isEmpty then none else some (filter.contentTypes.getD [])).all
    (fun types => (toStoredContentType result.contentType).any (types.contains ·)) = true := by
  split
  · simp
  · simp [GameTest.truth, h.contentType]
 have hplatforms : (∀ c ∈ (if (filter.platformTypes.getD []).isEmpty then []
   else [Where.test (.platformTypeIn (filter.platformTypes.getD []))] : List (GameWhereInput α)),
    c.truth (GameTest.truth game) = .yes) ↔
   (if (filter.platformTypes.getD []).isEmpty then none else some (filter.platformTypes.getD [])).all
    (fun types => (result.availablePlatforms.getD []).any fun platform =>
     (toStoredPlatformType platform).any (types.contains ·)) = true := by
  split
  · simp
  · simp only [List.mem_singleton, forall_eq, Where.truth_test, GameTest.truth, Truth.of_eq_yes,
     Option.all_some,
     List.any_eq_true, h.platformTypes, List.contains_iff_mem, Option.any_eq_true]
    constructor
    · rintro ⟨type, ⟨platform, hmem, htype⟩, hlisted⟩
      exact ⟨platform, hmem, type, htype, hlisted⟩
    · rintro ⟨platform, hmem, type, htype, hlisted⟩
      exact ⟨type, ⟨platform, hmem, htype⟩, hlisted⟩
 have hyear := holds_range game fun r (hr : filter.publishYear = some r) => holds_inYearRange r game
  (rangeOf_bound hr)
 have hcount := holds_range game fun r (hr : filter.playerCount = some r) =>
  holds_supportsPlayerCount r game (rangeOf_bound hr)
 have htime :=
  holds_range game fun r (hr : filter.playTime = some r) => holds_fitsPlayTime r game (rangeOf_bound hr)
 rw [toResultFilter_sent hcontent hplatform]
 simp only [Selected, localFilterConditions, List.forall_mem_append, matchesFilter, Bool.and_eq_true]
 rw [← h.publishYear, ← h.minPlayers, ← h.maxPlayers, ← h.minPlayTime, ← h.maxPlayTime]
 exact and_congr (and_congr (and_congr (and_congr hcontents hplatforms) hyear) hcount) htime

def sampleFilter : GameSearchFilter ℤ where
  platformTypes := some [.tabletop]
  contentTypes := none
  publishYearMin := none
  publishYearMax := some 2010
  publishYearIncludeUnknown := some true
  playerCountMin := some 5
  playerCountMax := none
  playerCountIncludeUnknown := none
  playTimeMin := none
  playTimeMax := some 60
  playTimeIncludeUnknown := some false

def sampleResult : GameSearchData ℤ Unit :=
  ⟨"188".toList, .baseGame, none, none, some 2, some 6, some [.tabletop], some 45, none, ()⟩

def sampleGame : StoredGame ℤ := ⟨.baseGame, [.tabletop], none, some 2, some 6, some 45, none⟩

theorem selected_iff_matchesFilter_sample : Selected sampleFilter sampleGame ∧
    (Selected sampleFilter sampleGame ↔
      matchesFilter sampleResult (toResultFilter (toProtoSearchFilter sampleFilter)) = true) := by
 have hcorresponds : Corresponds sampleResult sampleGame :=
  ⟨rfl, by decide, fun type => by cases type <;> decide, rfl, rfl, rfl, rfl, rfl⟩
 have hiff : Selected sampleFilter sampleGame ↔
   matchesFilter sampleResult (toResultFilter (toProtoSearchFilter sampleFilter)) = true :=
  selected_iff_matchesFilter hcorresponds (by decide) (by decide)
 exact ⟨hiff.2 (by decide), hiff⟩

end Agreement

end BoardGamesEmpire.GameSearch
