import BoardGamesEmpire.GameSearchKey

set_option autoImplicit false

/-!
# What a DataGateway is asked for

A DataGateway is sent the axes of a filter that it narrows by, and is skipped
when its coverage misses the filter. Neither loses a result that the filter
keeps.
-/
namespace BoardGamesEmpire.GameSearch
open JsText

section Coverage

structure StoredCoverage where
  coveragePlatformTypes : List PlatformType
  coverageContentTypes : List ContentType

structure CoverageFilter where
  platformTypes : Option (List PlatformType)
  contentTypes : Option (List ContentType)

def toCoverageFilter {α : Type} (filter : Option (SearchFilter α)) : CoverageFilter where
  platformTypes := storedSet (filter.map (·.platformTypes)) toStoredPlatformType
  contentTypes := storedSet (filter.map (·.contentTypes)) toStoredContentType

def covers {T : Type} [BEq T] (covered : List T) (named : Option (List T)) : Bool :=
  named.all fun types => covered.any (types.contains ·)

def coverageOverlaps (coverage : StoredCoverage) (filter : CoverageFilter) : Bool :=
  covers coverage.coveragePlatformTypes filter.platformTypes && covers coverage.coverageContentTypes
   filter.contentTypes

structure Covered {α ρ : Type} (coverage : StoredCoverage) (game : GameSearchData α ρ) : Prop where
  contentType : ∀ type, toStoredContentType game.contentType = some type →
   type ∈ coverage.coverageContentTypes
  platformTypes :
   ∀ platform ∈ game.availablePlatforms.getD [], ∀ type, toStoredPlatformType platform = some type →
    type ∈ coverage.coveragePlatformTypes

theorem covers_of_mem {T : Type} [BEq T] [LawfulBEq T] {covered types : List T}
  {named : Option (List T)} {type : T} (hnamed : named = some types) (hcovered : type ∈ covered)
  (hmem : types.contains type = true) :
  covers covered named = true := by
 rw [covers, hnamed, Option.all_some]
 exact List.any_eq_true.2 ⟨type, hcovered, hmem⟩

theorem overlaps_of_matches {α ρ : Type} [LE α] [DecidableLE α] {coverage : StoredCoverage}
  {game : GameSearchData α ρ} {filter : Option (SearchFilter α)} (hcovered : Covered coverage game)
  (h : matchesFilter game (toResultFilter filter) = true) :
   coverageOverlaps coverage (toCoverageFilter filter) = true := by
 simp only [matchesFilter, Bool.and_eq_true] at h
 obtain ⟨⟨⟨⟨hcontent, hplatform⟩, -⟩, -⟩, -⟩ := h
 refine Bool.and_eq_true_iff.2 ⟨?_, ?_⟩
 · cases hnamed : (toCoverageFilter filter).platformTypes with
   | none => rfl
   | some types =>
    have hset : (toResultFilter filter).platformTypes = some types := hnamed
    rw [hset, Option.all_some, List.any_eq_true] at hplatform
    obtain ⟨platform, hmem, htype⟩ := hplatform
    obtain ⟨type, hstored, hlisted⟩ := (Option.any_eq_true _ _).1 htype
    exact covers_of_mem rfl (hcovered.platformTypes platform hmem type hstored) hlisted
 · cases hnamed : (toCoverageFilter filter).contentTypes with
   | none => rfl
   | some types =>
    have hset : (toResultFilter filter).contentTypes = some types := hnamed
    rw [hset, Option.all_some] at hcontent
    obtain ⟨type, hstored, hlisted⟩ := (Option.any_eq_true _ _).1 hcontent
    exact covers_of_mem rfl (hcovered.contentType type hstored) hlisted

end Coverage

section Types

variable {P T : Type} [DecidableEq P] {text : P → Text}

theorem mem_normalized {values : List P} {p : P} : p ∈ normalized text values ↔ p ∈ values := by
 rw [normalized, (List.mergeSort_perm _ _).mem_iff, List.mem_eraseDups]

theorem normalized_eq_nil {values : List P} : normalized text values = [] ↔ values = [] := by
 constructor
 · intro h
   refine List.eq_nil_iff_forall_not_mem.2 fun p hp => ?_
   exact List.eq_nil_iff_forall_not_mem.1 h p (mem_normalized.2 hp)
 · rintro rfl
   rw [normalized, List.eraseDups_nil, List.mergeSort_nil]

theorem sorted_normalized (text : P → Text) (values : List P) :
  (normalized text values).Pairwise fun p q => decide (text p ≤ text q) = true := by
 apply List.pairwise_mergeSort
 · intro p q r hpq hqr
   exact decide_eq_true (le_trans (of_decide_eq_true hpq) (of_decide_eq_true hqr))
 · intro p q
   rcases le_total (text p) (text q) with h | h
   · simp [h]
   · simp [h]

theorem nodup_normalized (text : P → Text) (values : List P) : (normalized text values).Nodup :=
 (List.mergeSort_perm _ _).nodup_iff.2 (nodup_eraseDups _)

theorem normalized_normalized (values : List P) :
  normalized text (normalized text values) = normalized text values := by
 rw [normalized, eraseDups_of_nodup (nodup_normalized text values)]
 exact List.mergeSort_of_pairwise (sorted_normalized text values)

omit [DecidableEq P] in
theorem storedSet_all {values : Option (List P)} {toStored : P → Option T} {keeps : List T → Bool} :
  (storedSet values toStored).all keeps = true ↔
   values.getD [] = [] ∨ keeps ((values.getD []).filterMap toStored) = true := by
 unfold storedSet
 cases values.getD [] with
 | nil => simp
 | cons value more => simp

def Asks (keeps : List T → Bool) : Prop := ∀ types types', (∀ type, type ∈ types ↔ type ∈ types') →
    keeps types = keeps types'

def sentTypes (text : P → Text) (declared : Bool) (values : List P) : List P :=
  if declared then normalized text values else []

theorem storedSet_normalized {values : Option (List P)} {toStored : P → Option T}
  {keeps : List T → Bool} (hkeeps : Asks keeps) :
  (storedSet (some (normalized text (values.getD []))) toStored).all keeps =
   (storedSet values toStored).all keeps := by
 rw [Bool.eq_iff_iff, storedSet_all, storedSet_all, Option.getD_some, normalized_eq_nil]
 have hsame : keeps ((normalized text (values.getD [])).filterMap toStored) = keeps
  ((values.getD []).filterMap toStored) := by
  refine hkeeps _ _ fun type => ?_
  simp only [List.mem_filterMap, mem_normalized]
 rw [hsame]

theorem storedSet_sentTypes {values : Option (List P)} {toStored : P → Option T}
  {keeps : List T → Bool} (hkeeps : Asks keeps)
  (declared : Bool) (h : (storedSet values toStored).all keeps = true) :
  (storedSet (some (sentTypes text declared (values.getD []))) toStored).all keeps = true := by
 cases declared with
 | true => exact (storedSet_normalized hkeeps).trans h
 | false => rfl

theorem sentTypes_sentTypes (declared : Bool) (values : List P) :
  sentTypes text declared (sentTypes text declared values) = sentTypes text declared values := by
 cases declared with
 | true => exact normalized_normalized values
 | false => rfl

end Types

section Narrowing

def sentFilter (platformTypes : List Proto.PlatformType) (contentTypes : List Proto.ContentType)
    (publishYear playerCount playTime : Option (RangeFilter ℤ)) : Option (SearchFilter ℤ) :=
  if platformTypes.isEmpty && contentTypes.isEmpty && publishYear.isNone && playerCount.isNone &&
   playTime.isNone then none
  else some ⟨platformTypes, contentTypes, publishYear.map toSentRange, playerCount.map fun range =>
   toSentRange (bothBounds range),
    playTime.map toSentRange⟩

def sentRange (declared : Bool) (range : Option (IntRange ℤ)) : Option (RangeFilter ℤ) :=
  if declared then toRangeFilter range else none

theorem filterFor_eq (filter : Option (SearchFilter ℤ)) (axes : List SearchFilterAxis) :
  filterFor filter axes = sentFilter
   (sentTypes Proto.PlatformType.text (axes.contains .platformType)
    ((filter.map (·.platformTypes)).getD []))
   (sentTypes Proto.ContentType.text (axes.contains .contentType) ((filter.map (·.contentTypes)).getD []))
   (sentRange (axes.contains .publishYear) (filter.bind (·.publishYear)))
   (sentRange (axes.contains .playerCount) (filter.bind (·.playerCount)))
   (sentRange (axes.contains .playTime) (filter.bind (·.playTime))) := rfl

theorem sentRange_bound {declared : Bool} {range : Option (IntRange ℤ)} {sent : RangeFilter ℤ}
  (h : sentRange declared range = some sent) : sent.min ≠ none ∨ sent.max ≠ none := by
 cases declared with
 | true => exact toRangeFilter_bound h
 | false => cases h

theorem toRangeFilter_toSentRange {range : RangeFilter ℤ} (h : range.min ≠ none ∨ range.max ≠ none) :
  toRangeFilter (some (toSentRange range)) = some range := by
 obtain ⟨min, max, unknown⟩ := range
 cases min with
 | some least => cases unknown <;> rfl
 | none =>
  cases max with
  | some most => cases unknown <;> rfl
  | none => exact absurd (h.resolve_left fun hmin => hmin rfl) fun hmax => hmax rfl

theorem bothBounds_bothBounds (range : RangeFilter ℤ) :
  bothBounds (bothBounds range) = bothBounds range := by
 obtain ⟨min, max, unknown⟩ := range
 cases min <;> cases max <;> rfl

theorem toRangeFilter_sent {range : Option (RangeFilter ℤ)}
  (h : ∀ r, range = some r → r.min ≠ none ∨ r.max ≠ none) :
  toRangeFilter (range.map toSentRange) = range := by
 cases range with
 | none => rfl
 | some r => exact toRangeFilter_toSentRange (h r rfl)

variable {platformTypes : List Proto.PlatformType} {contentTypes : List Proto.ContentType}
  {publishYear playerCount playTime : Option (RangeFilter ℤ)}

theorem toResultFilter_sentFilter (hyear : ∀ r, publishYear = some r → r.min ≠ none ∨ r.max ≠ none)
  (hcount : ∀ r, playerCount = some r → r.min ≠ none ∨ r.max ≠ none)
  (htime : ∀ r, playTime = some r → r.min ≠ none ∨ r.max ≠ none) :
  toResultFilter (sentFilter platformTypes contentTypes publishYear playerCount playTime) =
   ⟨storedSet (some platformTypes) toStoredPlatformType,
    storedSet (some contentTypes) toStoredContentType, publishYear,
    playerCount.map bothBounds, playTime⟩ := by
 have hboth : ∀ r, playerCount.map bothBounds = some r → r.min ≠ none ∨ r.max ≠ none := by
  intro r hr
  obtain ⟨range, hrange, rfl⟩ := Option.map_eq_some_iff.1 hr
  exact bothBounds_bound (hcount range hrange)
 unfold sentFilter
 split
 · next hempty =>
   simp only [Bool.and_eq_true, List.isEmpty_iff, Option.isNone_iff_eq_none] at hempty
   obtain ⟨⟨⟨⟨rfl, rfl⟩, rfl⟩, rfl⟩, rfl⟩ := hempty
   rfl
 · have hcounts : (playerCount.map fun range => toSentRange (bothBounds range)) =
    (playerCount.map bothBounds).map toSentRange := by
    rw [Option.map_map]
    rfl
   simp only [toResultFilter, Option.map_some, Option.bind_some, toRangeFilter_sent hyear,
    toRangeFilter_sent htime]
   rw [hcounts, toRangeFilter_sent hboth]

theorem supportsPlayerCount_bothBounds (minPlayers maxPlayers : Option ℤ) (range : RangeFilter ℤ) :
  supportsPlayerCount minPlayers maxPlayers (bothBounds range) = supportsPlayerCount minPlayers
   maxPlayers range := by
 obtain ⟨min, max, unknown⟩ := range
 cases min <;> cases max <;> rfl

theorem sentRange_all {range : Option (IntRange ℤ)} {keeps : RangeFilter ℤ → Bool} (declared : Bool)
  (h : (toRangeFilter range).all keeps = true) : (sentRange declared range).all keeps = true := by
 cases declared with
 | true => exact h
 | false => rfl

theorem playerCount_all {range : Option (RangeFilter ℤ)} {minPlayers maxPlayers : Option ℤ} :
  (range.map bothBounds).all (supportsPlayerCount minPlayers maxPlayers) = range.all
   (supportsPlayerCount minPlayers maxPlayers) := by
 cases range with
 | none => rfl
 | some r => exact supportsPlayerCount_bothBounds minPlayers maxPlayers r

variable {ρ : Type}

theorem asks_contentType (game : GameSearchData ℤ ρ) :
  Asks fun types => (toStoredContentType game.contentType).any (types.contains ·) := by
 intro types types' h
 cases toStoredContentType game.contentType with
 | none => rfl
 | some type =>
  simp only [Option.any_some]
  rw [Bool.eq_iff_iff, List.contains_iff_mem, List.contains_iff_mem]
  exact h type

theorem asks_platformTypes (game : GameSearchData ℤ ρ) :
  Asks fun types => (game.availablePlatforms.getD []).any fun platform =>
   (toStoredPlatformType platform).any (types.contains ·) := by
 intro types types' h
 refine List.any_congr rfl fun platform => ?_
 cases toStoredPlatformType platform with
 | none => rfl
 | some type =>
  simp only [Option.any_some]
  rw [Bool.eq_iff_iff, List.contains_iff_mem, List.contains_iff_mem]
  exact h type

theorem matches_filterFor_iff (game : GameSearchData ℤ ρ) (filter : Option (SearchFilter ℤ))
  (axes : List SearchFilterAxis) :
  matchesFilter game (toResultFilter (filterFor filter axes)) = true ↔
   (storedSet (some (sentTypes Proto.ContentType.text (axes.contains .contentType)
    ((filter.map (·.contentTypes)).getD [])))
    toStoredContentType).all
     (fun types => (toStoredContentType game.contentType).any (types.contains ·)) = true ∧
   (storedSet (some (sentTypes Proto.PlatformType.text (axes.contains .platformType)
    ((filter.map (·.platformTypes)).getD [])))
    toStoredPlatformType).all (fun types => (game.availablePlatforms.getD []).any fun platform =>
     (toStoredPlatformType platform).any (types.contains ·)) = true ∧
   (sentRange (axes.contains .publishYear) (filter.bind (·.publishYear))).all
    (inYearRange game.yearPublished) = true ∧
   (sentRange (axes.contains .playerCount) (filter.bind (·.playerCount))).all
    (supportsPlayerCount game.minPlayers game.maxPlayers) = true ∧
   (sentRange (axes.contains .playTime) (filter.bind (·.playTime))).all
    (fitsPlayTime game.minPlaytime game.maxPlaytime) = true := by
 rw [filterFor_eq, toResultFilter_sentFilter (fun _ => sentRange_bound) (fun _ => sentRange_bound)
  (fun _ => sentRange_bound)]
 simp only [matchesFilter, Bool.and_eq_true, playerCount_all, and_assoc]

theorem matches_filterFor {game : GameSearchData ℤ ρ} {filter : Option (SearchFilter ℤ)}
  (axes : List SearchFilterAxis) (h : matchesFilter game (toResultFilter filter) = true) :
  matchesFilter game (toResultFilter (filterFor filter axes)) = true := by
 simp only [matchesFilter, Bool.and_eq_true, and_assoc] at h
 obtain ⟨hcontent, hplatform, hyear, hcount, htime⟩ := h
 exact (matches_filterFor_iff game filter axes).2 ⟨storedSet_sentTypes (asks_contentType game) _ hcontent,
  storedSet_sentTypes (asks_platformTypes game) _ hplatform, sentRange_all _ hyear,
   sentRange_all _ hcount, sentRange_all _ htime⟩

theorem matches_filterFor_all (game : GameSearchData ℤ ρ) (filter : Option (SearchFilter ℤ))
  {axes : List SearchFilterAxis} (hall : ∀ axis, axis ∈ axes) :
  matchesFilter game (toResultFilter (filterFor filter axes)) = matchesFilter game
   (toResultFilter filter) := by
 have hdeclared : ∀ axis, axes.contains axis = true := fun axis => List.contains_iff_mem.2 (hall axis)
 rw [Bool.eq_iff_iff, matches_filterFor_iff]
 simp only [hdeclared, sentTypes, sentRange, if_true, storedSet_normalized (asks_contentType game),
  storedSet_normalized (asks_platformTypes game)]
 simp only [matchesFilter, Bool.and_eq_true, and_assoc]
 rfl

theorem filterFor_sentFilter (axes : List SearchFilterAxis) :
  filterFor (sentFilter platformTypes contentTypes publishYear playerCount playTime) axes = sentFilter
   (sentTypes Proto.PlatformType.text (axes.contains .platformType) platformTypes)
   (sentTypes Proto.ContentType.text (axes.contains .contentType) contentTypes)
   (sentRange (axes.contains .publishYear) (publishYear.map toSentRange))
   (sentRange (axes.contains .playerCount) ((playerCount.map bothBounds).map toSentRange))
   (sentRange (axes.contains .playTime) (playTime.map toSentRange)) := by
 have hcounts : (playerCount.map bothBounds).map toSentRange = playerCount.map fun range =>
  toSentRange (bothBounds range) := by
  rw [Option.map_map]
  rfl
 rw [filterFor_eq, hcounts]
 unfold sentFilter
 split
 · next hempty =>
   simp only [Bool.and_eq_true, List.isEmpty_iff, Option.isNone_iff_eq_none] at hempty
   obtain ⟨⟨⟨⟨rfl, rfl⟩, rfl⟩, rfl⟩, rfl⟩ := hempty
   rfl
 · rfl

theorem sentRange_sent (declared : Bool) {range : Option (RangeFilter ℤ)}
  (hbound : ∀ r, range = some r → r.min ≠ none ∨ r.max ≠ none)
  (hdeclared : declared = false → range = none) :
  sentRange declared (range.map toSentRange) = range := by
 cases declared with
 | true => exact toRangeFilter_sent hbound
 | false => rw [hdeclared rfl]; rfl

theorem sentFilter_bothBounds :
  sentFilter platformTypes contentTypes publishYear (playerCount.map bothBounds) playTime =
  sentFilter platformTypes contentTypes publishYear playerCount playTime := by
 cases playerCount with
 | none => rfl
 | some range => simp only [sentFilter, Option.map_some, bothBounds_bothBounds]; rfl

theorem filterFor_filterFor (filter : Option (SearchFilter ℤ)) (axes : List SearchFilterAxis) :
  filterFor (filterFor filter axes) axes = filterFor filter axes := by
 have hleft : ∀ {declared : Bool} {range : Option (IntRange ℤ)}, declared = false →
  sentRange declared range = none := by
  rintro declared range rfl
  rfl
 rw [filterFor_eq filter axes, filterFor_sentFilter, sentTypes_sentTypes, sentTypes_sentTypes,
  sentRange_sent _ (fun _ => sentRange_bound) hleft, sentRange_sent _ (fun _ => sentRange_bound) hleft,
  sentRange_sent _ ?_ ?_, sentFilter_bothBounds]
 · intro r hr
   obtain ⟨range, hrange, rfl⟩ := Option.map_eq_some_iff.1 hr
   exact bothBounds_bound (sentRange_bound hrange)
 · intro hdeclared
   rw [hleft hdeclared]
   rfl

/-- What a DataGateway is sent keeps every result that the search's filter
    keeps, and one whose coverage misses the filter has no result to keep. -/
theorem narrowing_loses_nothing (filter : Option (SearchFilter ℤ)) (axes : List SearchFilterAxis) :
    (∀ game : GameSearchData ℤ ρ, matchesFilter game (toResultFilter filter) = true →
      matchesFilter game (toResultFilter (filterFor filter axes)) = true) ∧
    ((∀ axis, axis ∈ axes) → ∀ game : GameSearchData ℤ ρ,
      matchesFilter game (toResultFilter (filterFor filter axes)) = matchesFilter game
       (toResultFilter filter)) ∧
    filterFor (filterFor filter axes) axes = filterFor filter axes ∧
    ∀ coverage, coverageOverlaps coverage (toCoverageFilter filter) = false → ∀ game : GameSearchData ℤ ρ,
      Covered coverage game → matchesFilter game (toResultFilter filter) = false := by
 refine ⟨fun game => matches_filterFor axes, fun hall game => matches_filterFor_all game filter hall,
  filterFor_filterFor filter axes, fun coverage hmisses game hcovered => ?_⟩
 rw [← Bool.not_eq_true]
 intro hmatches
 rw [overlaps_of_matches hcovered hmatches] at hmisses
 cases hmisses

end Narrowing

end BoardGamesEmpire.GameSearch
