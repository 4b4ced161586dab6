import BoardGamesEmpire.GameSearchFilter
import BoardGamesEmpire.UriComponent

set_option autoImplicit false

/-!
# What a DataGateway is asked, and the key its answer is cached by

The key has every part of the request that is sent, so two requests share an
entry only if the DataGateway is asked the same. An empty locale counts as none.
-/
namespace BoardGamesEmpire.GameSearch
open JsText UriComponent

section Requests

inductive SearchFilterAxis where
  | platformType
  | contentType
  | publishYear
  | playerCount
  | playTime
deriving DecidableEq

def numberText (n : ℤ) : Text := if n < 0 then '-' :: toText 10 n.natAbs else toText 10 n.natAbs

def Proto.PlatformType.text : Proto.PlatformType → Text
  | .unspecified => "PLATFORM_TYPE_UNSPECIFIED".toList
  | .console => "PLATFORM_TYPE_CONSOLE".toList
  | .pc => "PLATFORM_TYPE_PC".toList
  | .portable => "PLATFORM_TYPE_PORTABLE".toList
  | .mobile => "PLATFORM_TYPE_MOBILE".toList
  | .arcade => "PLATFORM_TYPE_ARCADE".toList
  | .other => "PLATFORM_TYPE_OTHER".toList
  | .tabletop => "PLATFORM_TYPE_TABLETOP".toList
  | .unrecognized value => numberText value

def Proto.ContentType.text : Proto.ContentType → Text
  | .unspecified => "CONTENT_TYPE_UNSPECIFIED".toList
  | .baseGame => "CONTENT_TYPE_BASE_GAME".toList
  | .expansion => "CONTENT_TYPE_EXPANSION".toList
  | .dlc => "CONTENT_TYPE_DLC".toList
  | .standaloneExpansion => "CONTENT_TYPE_STANDALONE_EXPANSION".toList
  | .accessory => "CONTENT_TYPE_ACCESSORY".toList
  | .bundle => "CONTENT_TYPE_BUNDLE".toList
  | .remake => "CONTENT_TYPE_REMAKE".toList
  | .remaster => "CONTENT_TYPE_REMASTER".toList
  | .expandedEdition => "CONTENT_TYPE_EXPANDED_EDITION".toList
  | .port => "CONTENT_TYPE_PORT".toList
  | .mod => "CONTENT_TYPE_MOD".toList
  | .unrecognized value => numberText value

structure SearchGamesRequest where
  correlationId : Text
  query : Text
  locale : Option Text
  limit : Option ℤ
  offset : Option ℤ
  filter : Option (SearchFilter ℤ)

structure GatewaySearchRequest where
  correlationId : Text
  query : Text
  limit : Option ℤ
  offset : Option ℤ
  locale : Option Text
  filter : Option (SearchFilter ℤ)

def normalized {P : Type} [DecidableEq P] (text : P → Text) (values : List P) : List P :=
  values.eraseDups.mergeSort fun v w => decide (text v ≤ text w)

/-- A range as it is sent: `includeUnknown` only when set. -/
def toSentRange (range : RangeFilter ℤ) : IntRange ℤ :=
  ⟨range.min, range.max, if range.includeUnknown then some true else none⟩

def bothBounds (range : RangeFilter ℤ) : RangeFilter ℤ :=
  ⟨range.min.or range.max, range.max.or range.min, range.includeUnknown⟩

def filterFor (filter : Option (SearchFilter ℤ)) (filterableAxes : List SearchFilterAxis) :
    Option (SearchFilter ℤ) :=
  let declared (axis : SearchFilterAxis) (range : Option (IntRange ℤ)) : Option (RangeFilter ℤ) :=
    if filterableAxes.contains axis then toRangeFilter range else none
  let platformTypes := if filterableAxes.contains .platformType then
    normalized Proto.PlatformType.text ((filter.map (·.platformTypes)).getD []) else []
  let contentTypes := if filterableAxes.contains .contentType then
    normalized Proto.ContentType.text ((filter.map (·.contentTypes)).getD []) else []
  let publishYear := declared .publishYear (filter.bind (·.publishYear))
  let playerCount := declared .playerCount (filter.bind (·.playerCount))
  let playTime := declared .playTime (filter.bind (·.playTime))
  if platformTypes.isEmpty && contentTypes.isEmpty && publishYear.isNone && playerCount.isNone &&
   playTime.isNone then none
  else some {
    platformTypes := platformTypes
    contentTypes := contentTypes
    publishYear := publishYear.map toSentRange
    playerCount := playerCount.map fun range => toSentRange (bothBounds range)
    playTime := playTime.map toSentRange }

def gatewayRequest (request : SearchGamesRequest) (filterableAxes : List SearchFilterAxis) :
    GatewaySearchRequest where
  correlationId := request.correlationId
  query := request.query
  limit := request.limit
  offset := request.offset
  locale := request.locale
  filter := filterFor request.filter filterableAxes

def numberOr (n : Option ℤ) : Text := (n.map numberText).getD []

/-- The parts of a range: its bounds, and a mark if it keeps unknown values. -/
def rangeParts (range : Option (IntRange ℤ)) : List Text :=
  [numberOr (range.bind (·.min)), numberOr (range.bind (·.max)),
    if range.bind (·.includeUnknown) = some true then "u".toList else []]

def searchCachePrefix : Text := "bge:search".toList

def expansionsCachePrefix : Text := "bge:expansions".toList

def searchParts (request : GatewaySearchRequest) : List Text :=
  [encodeURIComponent request.query, encodeURIComponent (request.locale.getD []), numberOr request.limit,
    numberOr request.offset,
    [','].intercalate (((request.filter.map (·.platformTypes)).getD []).map Proto.PlatformType.text),
    [','].intercalate (((request.filter.map (·.contentTypes)).getD []).map Proto.ContentType.text)] ++
  rangeParts (request.filter.bind (·.publishYear)) ++ rangeParts (request.filter.bind (·.playerCount)) ++
  rangeParts (request.filter.bind (·.playTime))

def buildSearchCacheKey (gatewayId : Text) (request : GatewaySearchRequest) : Text :=
  [':'].intercalate (searchCachePrefix :: gatewayId :: searchParts request)

def buildExpansionsCacheKey (gatewayId baseExternalId : Text) (locale : Option Text) : Text :=
  [':'].intercalate [expansionsCachePrefix, gatewayId, encodeURIComponent baseExternalId,
    encodeURIComponent (locale.getD []), [], []]

end Requests

section Texts

theorem toText_ne_nil (n : ℕ) : toText 10 n ≠ [] := by
 obtain ⟨ds, hds, hne, -, -⟩ := toText_digits (by decide : 1 < 10) (by decide) n
 rw [hds]
 simpa using hne

theorem toText_plain {n : ℕ} {c : Char} (h : c ∈ toText 10 n) :
  c ≠ ':' ∧ c ≠ ',' ∧ c ≠ '-' ∧ c ≠ 'P' ∧ c ≠ 'C' := by
 obtain ⟨d, hd, rfl⟩ := toText_chars (by decide : 1 < 10) (by decide) n c h
 have hplain : ∀ d < 16, Nat.digitChar d ≠ ':' ∧ Nat.digitChar d ≠ ',' ∧ Nat.digitChar d ≠ '-' ∧
  Nat.digitChar d ≠ 'P' ∧
  Nat.digitChar d ≠ 'C' := by decide
 exact hplain d hd

theorem numberText_plain {n : ℤ} {c : Char} (h : c ∈ numberText n) :
  c ≠ ':' ∧ c ≠ ',' ∧ c ≠ 'P' ∧ c ≠ 'C' := by
 unfold numberText at h
 split at h
 · rcases List.mem_cons.1 h with rfl | hdigit
   · decide
   · exact ⟨(toText_plain hdigit).1, (toText_plain hdigit).2.1, (toText_plain hdigit).2.2.2⟩
 · exact ⟨(toText_plain h).1, (toText_plain h).2.1, (toText_plain h).2.2.2⟩

theorem numberText_ne_nil (n : ℤ) : numberText n ≠ [] := by
 unfold numberText
 split
 · exact List.cons_ne_nil _ _
 · exact toText_ne_nil _

theorem numberText_inj {m n : ℤ} (h : numberText m = numberText n) : m = n := by
 have hsign : ∀ {a b : ℕ}, '-' :: toText 10 a ≠ toText 10 b := by
  intro a b hsame
  exact (toText_plain (hsame ▸ List.mem_cons_self)).2.2.1 rfl
 unfold numberText at h
 split at h <;> split at h
 · have habs := toText_injective (List.cons.inj h).2
   omega
 · exact absurd h hsign
 · exact absurd h.symm hsign
 · have habs := toText_injective h
   omega

theorem numberOr_inj {m n : Option ℤ} (h : numberOr m = numberOr n) : m = n := by
 cases m with
 | none =>
  cases n with
  | none => rfl
  | some n => exact absurd h.symm (numberText_ne_nil n)
 | some m =>
  cases n with
  | none => exact absurd h (numberText_ne_nil m)
  | some n => exact congrArg some (numberText_inj h)

theorem colon_notMem_numberOr (n : Option ℤ) : ':' ∉ numberOr n := by
 cases n with
 | none => exact List.not_mem_nil
 | some n => exact fun h => (numberText_plain h).1 rfl

theorem platform_text_plain (p : Proto.PlatformType) :
  ':' ∉ p.text ∧ ',' ∉ p.text ∧ p.text ≠ [] := by
 cases p with
 | unrecognized value =>
  exact ⟨fun h => (numberText_plain h).1 rfl, fun h => (numberText_plain h).2.1 rfl,
   numberText_ne_nil value⟩
 | unspecified | console | pc | portable | mobile | arcade | other | tabletop =>
  exact ⟨by decide, by decide, by decide⟩

theorem content_text_plain (c : Proto.ContentType) : ':' ∉ c.text ∧ ',' ∉ c.text ∧ c.text ≠ [] := by
 cases c with
 | unrecognized value =>
  exact ⟨fun h => (numberText_plain h).1 rfl, fun h => (numberText_plain h).2.1 rfl,
   numberText_ne_nil value⟩
 | unspecified | baseGame | expansion | dlc | standaloneExpansion | accessory | bundle | remake | remaster
 | expandedEdition | port | mod => exact ⟨by decide, by decide, by decide⟩

theorem text_inj {P : Type} (text : P → Text) (unrecognized : ℤ → P) (named : List P)
  (hnodup : (named.map text).Nodup) (hall : ∀ p, p ∈ named ∨ ∃ n, p = unrecognized n)
  (hnumber : ∀ n, text (unrecognized n) = numberText n)
  (hname : ∀ p ∈ named, 'P' ∈ text p ∨ 'C' ∈ text p) {p q : P} (h : text p = text q) : p = q := by
 have hother : ∀ p ∈ named, ∀ n, text p ≠ numberText n := by
  intro p hp n hsame
  rcases hname p hp with hmem | hmem
  · exact (numberText_plain (hsame ▸ hmem)).2.2.1 rfl
  · exact (numberText_plain (hsame ▸ hmem)).2.2.2 rfl
 rcases hall p with hp | ⟨m, rfl⟩
 · rcases hall q with hq | ⟨n, rfl⟩
   · exact List.inj_on_of_nodup_map hnodup hp hq h
   · exact absurd (h.trans (hnumber n)) (hother p hp n)
 · rcases hall q with hq | ⟨n, rfl⟩
   · exact absurd (h.symm.trans (hnumber m)) (hother q hq m)
   · rw [numberText_inj ((hnumber m).symm.trans (h.trans (hnumber n)))]

theorem platform_text_inj {p q : Proto.PlatformType} (h : p.text = q.text) : p = q := by
 refine text_inj Proto.PlatformType.text .unrecognized
  [.unspecified, .console, .pc, .portable, .mobile, .arcade, .other,
  .tabletop] (by decide) (fun p => ?_) (fun _ => rfl) (by decide) h
 cases p with
 | unrecognized value => exact .inr ⟨value, rfl⟩
 | unspecified | console | pc | portable | mobile | arcade | other | tabletop => exact .inl (by simp)

theorem content_text_inj {c d : Proto.ContentType} (h : c.text = d.text) : c = d := by
 refine text_inj Proto.ContentType.text .unrecognized [.unspecified, .baseGame, .expansion, .dlc,
  .standaloneExpansion,
  .accessory, .bundle, .remake, .remaster, .expandedEdition, .port,
   .mod] (by decide +kernel) (fun c => ?_) (fun _ => rfl) (by decide +kernel) h
 cases c with
 | unrecognized value => exact .inr ⟨value, rfl⟩
 | unspecified | baseGame | expansion | dlc | standaloneExpansion | accessory | bundle | remake | remaster
 | expandedEdition | port | mod => exact .inl (by simp)

theorem joined_inj {P : Type} {text : P → Text}
  (hplain : ∀ p, ':' ∉ text p ∧ ',' ∉ text p ∧ text p ≠ [])
  (hinj : ∀ {p q}, text p = text q → p = q) {ps qs : List P}
  (h : [','].intercalate (ps.map text) = [','].intercalate (qs.map text)) : ps = qs := by
 have hparts : ∀ rs : List P, ∀ part ∈ rs.map text, ',' ∉ part ∧ part ≠ [] := by
  intro rs part hpart
  obtain ⟨r, -, rfl⟩ := List.mem_map.1 hpart
  exact (hplain r).2
 exact List.map_injective_iff.2 (fun _ _ => hinj) (intercalate_injective_of_ne (hparts ps) (hparts qs) h)

theorem colon_notMem_joined {P : Type} {text : P → Text}
  (hplain : ∀ p, ':' ∉ text p ∧ ',' ∉ text p ∧ text p ≠ []) (ps : List P) :
  ':' ∉ [','].intercalate (ps.map text) := by
 intro h
 rcases mem_join h with hcomma | ⟨part, hpart, hmem⟩
 · exact absurd hcomma (by decide)
 · obtain ⟨p, -, rfl⟩ := List.mem_map.1 hpart
   exact (hplain p).1 hmem

end Texts

section Keys

/-- A range as it is sent: it has a bound, and its mark is set or left out. -/
def IntRange.Proper (range : IntRange ℤ) : Prop :=
  (range.min ≠ none ∨ range.max ≠ none) ∧ (range.includeUnknown = none ∨ range.includeUnknown = some true)

structure SearchFilter.Proper (filter : SearchFilter ℤ) : Prop where
  names : filter.platformTypes ≠ [] ∨ filter.contentTypes ≠ [] ∨ filter.publishYear ≠ none ∨
   filter.playerCount ≠ none ∨
    filter.playTime ≠ none
  publishYear : ∀ range, filter.publishYear = some range → range.Proper
  playerCount : ∀ range, filter.playerCount = some range → range.Proper
  playTime : ∀ range, filter.playTime = some range → range.Proper

theorem toSentRange_proper {range : RangeFilter ℤ} (h : range.min ≠ none ∨ range.max ≠ none) :
  (toSentRange range).Proper := by
 refine ⟨h, ?_⟩
 cases hunknown : range.includeUnknown
 · exact .inl (by simp [toSentRange, hunknown])
 · exact .inr (by simp [toSentRange, hunknown])

theorem toRangeFilter_bound {range : Option (IntRange ℤ)} {filter : RangeFilter ℤ}
  (h : toRangeFilter range = some filter) :
  filter.min ≠ none ∨ filter.max ≠ none := by
 unfold toRangeFilter at h
 dsimp only at h
 split at h
 · cases h
 · next hbound =>
   cases h
   simp only [Bool.and_eq_true, Option.isNone_iff_eq_none, not_and_or] at hbound
   exact hbound

theorem bothBounds_bound {filter : RangeFilter ℤ} (h : filter.min ≠ none ∨ filter.max ≠ none) :
  (bothBounds filter).min ≠ none ∨ (bothBounds filter).max ≠ none := by
 obtain ⟨min, max, unknown⟩ := filter
 cases min <;> cases max <;> simp_all [bothBounds]

theorem proper_of_sent {platformTypes : List Proto.PlatformType} {contentTypes : List Proto.ContentType}
  {publishYear playerCount playTime : Option (RangeFilter ℤ)} {sent : SearchFilter ℤ}
  (hyear : ∀ r, publishYear = some r → r.min ≠ none ∨ r.max ≠ none)
  (hcount : ∀ r, playerCount = some r → r.min ≠ none ∨ r.max ≠ none)
  (htime : ∀ r, playTime = some r → r.min ≠ none ∨ r.max ≠ none)
  (h : (if platformTypes.isEmpty && contentTypes.isEmpty && publishYear.isNone && playerCount.isNone
   && playTime.isNone then
    none
   else some (⟨platformTypes, contentTypes, publishYear.map toSentRange,
    playerCount.map fun range => toSentRange (bothBounds range), playTime.map toSentRange⟩ :
     SearchFilter ℤ)) = some sent) :
  sent.Proper := by
 split at h
 · cases h
 · next hnames =>
   cases h
   refine ⟨?_, fun range hrange => ?_, fun range hrange => ?_, fun range hrange => ?_⟩
   · simpa only [Bool.and_eq_true, List.isEmpty_iff, Option.isNone_iff_eq_none, not_and_or, or_assoc, Ne,
      Option.map_eq_none_iff] using hnames
   · obtain ⟨r, hr, rfl⟩ := Option.map_eq_some_iff.1 hrange
     exact toSentRange_proper (hyear r hr)
   · obtain ⟨r, hr, rfl⟩ := Option.map_eq_some_iff.1 hrange
     exact toSentRange_proper (bothBounds_bound (hcount r hr))
   · obtain ⟨r, hr, rfl⟩ := Option.map_eq_some_iff.1 hrange
     exact toSentRange_proper (htime r hr)

theorem filterFor_proper {filter : Option (SearchFilter ℤ)} {axes : List SearchFilterAxis}
  {sent : SearchFilter ℤ} (h : filterFor filter axes = some sent) : sent.Proper := by
 have hdeclared : ∀ axis range (r : RangeFilter ℤ),
  (if axes.contains axis then toRangeFilter range else none) = some r →
   r.min ≠ none ∨ r.max ≠ none := by
  intro axis range r hr
  split at hr
  · exact toRangeFilter_bound hr
  · cases hr
 exact proper_of_sent (hdeclared .publishYear _) (hdeclared .playerCount _) (hdeclared .playTime _) h

theorem rangeParts_inj {range range' : Option (IntRange ℤ)}
  (hproper : ∀ r, range = some r → r.Proper) (hproper' : ∀ r, range' = some r → r.Proper)
  (h : rangeParts range = rangeParts range') : range = range' := by
 have hparts := h
 simp only [rangeParts, List.cons.injEq, and_true] at hparts
 obtain ⟨hmin, hmax, hunknown⟩ := hparts
 have hmin' := numberOr_inj hmin
 have hmax' := numberOr_inj hmax
 have hnone : ∀ {r r' : Option (IntRange ℤ)}, (∀ x, r = some x → x.Proper) →
  r.bind (·.min) = r'.bind (·.min) →
   r.bind (·.max) = r'.bind (·.max) → r' = none → r = none := by
  rintro r r' hr hminr hmaxr rfl
  cases r with
  | none => rfl
  | some x =>
   rcases (hr x rfl).1 with hbound | hbound
   · exact absurd hminr hbound
   · exact absurd hmaxr hbound
 cases range with
 | none => exact (hnone hproper' hmin'.symm hmax'.symm rfl).symm
 | some r =>
  cases range' with
  | none => exact hnone hproper hmin' hmax' rfl
  | some r' =>
   obtain ⟨min, max, unknown⟩ := r
   obtain ⟨min', max', unknown'⟩ := r'
   have hmark := (hproper _ rfl).2
   have hmark' := (hproper' _ rfl).2
   simp only [Option.bind_some] at hmin' hmax' hunknown hmark hmark'
   rcases hmark with rfl | rfl <;> rcases hmark' with rfl | rfl
   · rw [hmin', hmax']
   · simp at hunknown
   · simp at hunknown
   · rw [hmin', hmax']

theorem filter_inj {filter filter' : Option (SearchFilter ℤ)}
  (hproper : ∀ f, filter = some f → f.Proper) (hproper' : ∀ f, filter' = some f → f.Proper)
  (hplatforms : (filter.map (·.platformTypes)).getD [] = (filter'.map (·.platformTypes)).getD [])
  (hcontents : (filter.map (·.contentTypes)).getD [] = (filter'.map (·.contentTypes)).getD [])
  (hyear : filter.bind (·.publishYear) = filter'.bind (·.publishYear))
  (hcount : filter.bind (·.playerCount) = filter'.bind (·.playerCount))
  (htime : filter.bind (·.playTime) = filter'.bind (·.playTime)) : filter = filter' := by
 have hnone : ∀ f : SearchFilter ℤ, f.Proper → f.platformTypes = [] → f.contentTypes = [] →
  f.publishYear = none →
   f.playerCount = none → f.playTime = none → False := by
  intro f hf h1 h2 h3 h4 h5
  rcases hf.names with h | h | h | h | h
  · exact h h1
  · exact h h2
  · exact h h3
  · exact h h4
  · exact h h5
 cases filter with
 | none =>
  cases filter' with
  | none => rfl
  | some f' => exact (hnone f' (hproper' f' rfl) hplatforms.symm hcontents.symm hyear.symm
   hcount.symm htime.symm).elim
 | some f =>
  cases filter' with
  | none => exact (hnone f (hproper f rfl) hplatforms hcontents hyear hcount htime).elim
  | some f' =>
   obtain ⟨p, c, y, n, t⟩ := f
   obtain ⟨p', c', y', n', t'⟩ := f'
   simp only [Option.map_some, Option.getD_some, Option.bind_some] at hplatforms hcontents hyear hcount htime
   rw [hplatforms, hcontents, hyear, hcount, htime]

/-- The same request apart from the correlation, and from a locale that is
    empty or missing. -/
structure AskedAlike (request request' : GatewaySearchRequest) : Prop where
  query : request.query = request'.query
  limit : request.limit = request'.limit
  offset : request.offset = request'.offset
  locale : request.locale.getD [] = request'.locale.getD []
  filter : request.filter = request'.filter

theorem colon_notMem_rangeParts (range : Option (IntRange ℤ)) :
  ∀ part ∈ rangeParts range, ':' ∉ part := by
 intro part hpart
 simp only [rangeParts, List.mem_cons, List.not_mem_nil, or_false] at hpart
 rcases hpart with rfl | rfl | rfl
 · exact colon_notMem_numberOr _
 · exact colon_notMem_numberOr _
 · split
   · decide
   · exact List.not_mem_nil

theorem colon_notMem_searchParts (request : GatewaySearchRequest) :
  ∀ part ∈ searchParts request, ':' ∉ part := by
 intro part hpart
 simp only [searchParts, List.mem_append, List.mem_cons, List.not_mem_nil, or_false] at hpart
 rcases hpart with (((rfl | rfl | rfl | rfl | rfl | rfl) | hyear) | hcount) | htime
 · exact colon_notMem_encodeURIComponent _
 · exact colon_notMem_encodeURIComponent _
 · exact colon_notMem_numberOr _
 · exact colon_notMem_numberOr _
 · exact colon_notMem_joined platform_text_plain _
 · exact colon_notMem_joined content_text_plain _
 · exact colon_notMem_rangeParts _ part hyear
 · exact colon_notMem_rangeParts _ part hcount
 · exact colon_notMem_rangeParts _ part htime

theorem buildSearchCacheKey_eq (gatewayId : Text) (request : GatewaySearchRequest) :
  buildSearchCacheKey gatewayId request =
  (searchCachePrefix ++ ':' :: gatewayId) ++ (searchParts request).flatMap (':' :: ·) := by
 rw [buildSearchCacheKey, intercalate_cons, List.flatMap_cons, List.append_assoc]

theorem askedAlike_of_parts {request request' : GatewaySearchRequest}
  (hproper : ∀ f, request.filter = some f → f.Proper)
  (hproper' : ∀ f, request'.filter = some f → f.Proper)
  (h : searchParts request = searchParts request') :
  AskedAlike request request' := by
 obtain ⟨hfront, htime⟩ := List.append_inj h rfl
 obtain ⟨hfront, hcount⟩ := List.append_inj hfront rfl
 obtain ⟨hfront, hyear⟩ := List.append_inj hfront rfl
 simp only [List.cons.injEq, and_true] at hfront
 obtain ⟨hquery, hlocale, hlimit, hoffset, hplatforms, hcontents⟩ := hfront
 have hrange : ∀ {filter : Option (SearchFilter ℤ)} {range : SearchFilter ℤ → Option (IntRange ℤ)},
   (∀ f, filter = some f → ∀ r, range f = some r → r.Proper) → ∀ r, filter.bind range = some r →
    r.Proper := by
  intro filter range hf r hr
  obtain ⟨f, hfilter, hrange⟩ := Option.bind_eq_some_iff.1 hr
  exact hf f hfilter r hrange
 refine ⟨encodeURIComponent_injective hquery, numberOr_inj hlimit, numberOr_inj hoffset,
  encodeURIComponent_injective hlocale,
   filter_inj hproper hproper' (joined_inj platform_text_plain platform_text_inj hplatforms)
   (joined_inj content_text_plain content_text_inj hcontents) ?_ ?_ ?_⟩
 · exact rangeParts_inj (hrange fun f hf => (hproper f hf).publishYear)
    (hrange fun f hf => (hproper' f hf).publishYear) hyear
 · exact rangeParts_inj (hrange fun f hf => (hproper f hf).playerCount)
    (hrange fun f hf => (hproper' f hf).playerCount) hcount
 · exact rangeParts_inj (hrange fun f hf => (hproper f hf).playTime)
    (hrange fun f hf => (hproper' f hf).playTime) htime

theorem parts_of_askedAlike {request request' : GatewaySearchRequest}
  (h : AskedAlike request request') :
  searchParts request = searchParts request' := by
 rw [searchParts, searchParts, h.query, h.limit, h.offset, h.locale, h.filter]

theorem searchCacheKey_inj {gatewayId gatewayId' : Text} {request request' : GatewaySearchRequest}
  (hproper : ∀ f, request.filter = some f → f.Proper)
  (hproper' : ∀ f, request'.filter = some f → f.Proper)
  (h : buildSearchCacheKey gatewayId request = buildSearchCacheKey gatewayId' request') :
  gatewayId = gatewayId' ∧ AskedAlike request request' := by
 rw [buildSearchCacheKey_eq, buildSearchCacheKey_eq] at h
 have hlength : (searchParts request).length = (searchParts request').length := rfl
 obtain ⟨hhead, hparts⟩ :=
  append_parts_inj (searchParts request) hlength (colon_notMem_searchParts request)
  (colon_notMem_searchParts request') h
 exact ⟨(List.cons.inj (List.append_cancel_left hhead)).2, askedAlike_of_parts hproper hproper' hparts⟩

theorem searchCacheKey_iff (gatewayId : Text) (request request' : SearchGamesRequest)
  (axes axes' : List SearchFilterAxis) :
  buildSearchCacheKey gatewayId (gatewayRequest request axes) = buildSearchCacheKey gatewayId
   (gatewayRequest request' axes') ↔
   AskedAlike (gatewayRequest request axes) (gatewayRequest request' axes') := by
 constructor
 · exact fun h => (searchCacheKey_inj (fun _ => filterFor_proper) (fun _ => filterFor_proper) h).2
 · intro h
   rw [buildSearchCacheKey_eq, buildSearchCacheKey_eq, parts_of_askedAlike h]

theorem expansionsCacheKey_ne (gatewayId gatewayId' baseExternalId : Text) (locale : Option Text)
  (request : GatewaySearchRequest) :
  buildExpansionsCacheKey gatewayId baseExternalId locale ≠ buildSearchCacheKey gatewayId' request := by
 intro h
 rw [buildExpansionsCacheKey, buildSearchCacheKey, intercalate_cons, intercalate_cons] at h
 have hfirst : some 'e' = some 's' := congrArg (fun key : Text => key[4]?) h
 cases hfirst

end Keys

end BoardGamesEmpire.GameSearch
