import BoardGamesEmpire.JsMap

set_option autoImplicit false

/-!
# The releases of an imported game

`upsertReleases`: each release is stored under its edition and region, and in a
second pass parents are applied through two maps, one from an edition to the
edition it names as its parent and one from an edition to a stored release.
-/
namespace BoardGamesEmpire.GameImport
open JsText

section Releases

inductive ReleaseRegion where
  | worldwide
  | northAmerica
  | europe
  | japan
  | australia
  | asia
  | brazil
  | korea
deriving DecidableEq

structure LocalizationData where
  regionCode : Option Text

/-- `details` are the status, the date and the edition fields, which are written
    alike on both paths of the upsert. -/
structure GameReleaseData (π φ : Type) where
  externalId : Text
  platform : Option π
  localizations : List LocalizationData
  parentEditionExternalId : Option Text
  details : φ

variable {π φ : Type}

def defaultEditionKey : Text := ['d', 'e', 'f', 'a', 'u', 'l', 't']

def toEditionKey (externalId : Text) : Text :=
    if trim externalId ≠ [] then externalId else defaultEditionKey

def regionCodeMap : List (Text × ReleaseRegion) :=
  [(['w', 'w'], .worldwide), (['u', 's'], .northAmerica), (['e', 'u'], .europe),
   (['j', 'p'], .japan), (['a', 'u'], .australia),
    (['a', 's'], .asia), (['b', 'r'], .brazil), (['k', 'r'], .korea)]

/-- The names that every object inherits, with a value that is no region. -/
def inheritedNames : List Text :=
  ["constructor", "__defineGetter__", "__defineSetter__", "hasOwnProperty", "__lookupGetter__",
   "__lookupSetter__",
    "isPrototypeOf", "propertyIsEnumerable", "toString", "valueOf", "__proto__",
     "toLocaleString"].map String.toList

/-- `none` is a value that the database refuses. -/
def toReleaseRegion (localizations : List LocalizationData) : Option ReleaseRegion :=
  match localizations with
  | [] => some .worldwide
  | localization :: _ =>
    let first := (localizations.find? fun l => l.regionCode = some ['w', 'w']).getD localization
    match first.regionCode with
    | none => some .worldwide
    | some code => if inheritedNames.contains code then none else some
     ((regionCodeMap.lookup code).getD .worldwide)

structure ReleaseRow (φ : Type) where
  id : ℕ
  platformGameId : ℕ
  editionKey : Text
  region : ReleaseRegion
  parentReleaseId : Option ℕ
  details : φ

structure ReleaseTable (φ : Type) where
  rows : List (ReleaseRow φ)
  nextId : ℕ

def noReleases : ReleaseTable φ := ⟨[], 0⟩

def ReleaseRow.isAt (row : ReleaseRow φ) (platformGameId : ℕ) (editionKey : Text)
    (region : ReleaseRegion) : Bool :=
  decide (row.platformGameId = platformGameId) && decide (row.editionKey = editionKey) && decide
   (row.region = region)

def upsertSingleRelease (platformGameId : ℕ) (editionKey : Text) (region : ReleaseRegion)
    (details : φ) (table : ReleaseTable φ) :
    ℕ × ReleaseTable φ :=
  match table.rows.find? (·.isAt platformGameId editionKey region) with
  | some row =>
   (row.id, { table with rows := table.rows.map fun r => if r.id = row.id then { r with details } else r })
  | none => (table.nextId,
   ⟨table.rows ++ [⟨table.nextId, platformGameId, editionKey, region, none, details⟩], table.nextId + 1⟩)

def editionKeyOf (release : GameReleaseData π φ) : Text := toEditionKey release.externalId

/-- The `set` calls of the parent map. -/
def preResolve (releases : List (GameReleaseData π φ)) : List (Text × Text) :=
  releases.filterMap fun release =>
    match release.parentEditionExternalId with
    | none => none
    | some parent =>
      if parent = [] then none
      else if !(releases.map editionKeyOf).contains parent then none
      else if parent = editionKeyOf release then none
      else some (editionKeyOf release, parent)

/-- One round of the first pass, with the `set` calls of the id map. -/
def upsertRelease (platformGameId : ℕ) (stored : ReleaseTable φ × List (Text × ℕ))
    (release : GameReleaseData π φ) :
    Option (ReleaseTable φ × List (Text × ℕ)) :=
  (toReleaseRegion release.localizations).map fun region =>
    let persisted :=
     upsertSingleRelease platformGameId (editionKeyOf release) region release.details stored.1
    (persisted.2, stored.2 ++ [(editionKeyOf release, persisted.1)])

def setParent (table : ReleaseTable φ) (link : ℕ × ℕ) : ReleaseTable φ :=
  { table with rows := table.rows.map fun row => if row.id = link.1 then { row with parentReleaseId := some link.2 } else row }

def parentLinks (releaseIdMap : List (Text × ℕ)) (parentMap : List (Text × Text)) : List (ℕ × ℕ) :=
  (mapEntries parentMap).filterMap fun entry =>
    match mapGet releaseIdMap entry.1, mapGet releaseIdMap entry.2 with
    | some childId, some parentId => some (childId, parentId)
    | _, _ => none

def applyParentHierarchy (releaseIdMap : List (Text × ℕ)) (parentMap : List (Text × Text))
    (table : ReleaseTable φ) : ReleaseTable φ :=
  (parentLinks releaseIdMap parentMap).foldl setParent table

def upsertBatch (table : ReleaseTable φ) (batch : ℕ × List (GameReleaseData π φ)) :
    Option (ReleaseTable φ) :=
  (batch.2.foldlM (upsertRelease batch.1) (table, [])).map fun stored =>
    applyParentHierarchy stored.2 (preResolve batch.2) stored.1

def pushRelease (platformGameId : ℕ) (release : GameReleaseData π φ) :
    List (ℕ × List (GameReleaseData π φ)) → List (ℕ × List (GameReleaseData π φ))
  | [] => [(platformGameId, [release])]
  | group :: rest =>
    if group.1 = platformGameId then (group.1, group.2 ++ [release]) :: rest else
     group :: pushRelease platformGameId release rest

/-- The stored game that a release is for, if its platform is resolved and has one. -/
def platformGameOf (resolvePlatform : π → Option ℕ) (platformGameMap : List (ℕ × ℕ))
    (release : GameReleaseData π φ) : Option ℕ :=
  (release.platform.bind resolvePlatform).bind (mapGet platformGameMap)

def groupReleasesByPlatformGame (resolvePlatform : π → Option ℕ) (platformGameMap : List (ℕ × ℕ))
    (releases : List (GameReleaseData π φ)) : List (ℕ × List (GameReleaseData π φ)) :=
  releases.foldl (fun grouped release =>
    match platformGameOf resolvePlatform platformGameMap release with
    | some platformGameId => pushRelease platformGameId release grouped
    | none => grouped) []

def upsertReleases (resolvePlatform : π → Option ℕ) (platformGameMap : List (ℕ × ℕ))
    (releases : List (GameReleaseData π φ))
    (table : ReleaseTable φ) : Option (ReleaseTable φ) :=
  (groupReleasesByPlatformGame resolvePlatform platformGameMap releases).foldlM upsertBatch table

theorem upsertReleases_one {resolvePlatform : π → Option ℕ} {platformGameMap : List (ℕ × ℕ)}
  {releases : List (GameReleaseData π φ)}
  {platformGameId : ℕ} (h : ∀ release ∈ releases, platformGameOf resolvePlatform platformGameMap
   release = some platformGameId)
  (table : ReleaseTable φ) :
  upsertReleases resolvePlatform platformGameMap releases table = upsertBatch table
   (platformGameId, releases) := by
 have hgroup : releases ≠ [] →
   groupReleasesByPlatformGame resolvePlatform platformGameMap releases =
    [(platformGameId, releases)] := by
  induction releases using List.reverseRecOn with
  | nil => exact fun hne => absurd rfl hne
  | append_singleton releases release ih =>
   intro _
   rw [groupReleasesByPlatformGame, List.foldl_append, List.foldl_cons, List.foldl_nil,
    ← groupReleasesByPlatformGame,
    h release (List.mem_append_right _ List.mem_cons_self)]
   by_cases hempty : releases = []
   · rw [hempty]
     rfl
   · rw [ih (fun r hr => h r (List.mem_append_left _ hr)) hempty]
     simp [pushRelease]
 cases releases with
 | nil => rfl
 | cons release rest =>
  rw [upsertReleases, hgroup (List.cons_ne_nil _ _)]
  simp [List.foldlM_cons]

end Releases

section Stored

variable {π φ : Type} {table table' : ReleaseTable φ} {row : ReleaseRow φ}

theorem isAt_iff {platformGameId : ℕ} {editionKey : Text} {region : ReleaseRegion} :
  row.isAt platformGameId editionKey region = true ↔
   row.platformGameId = platformGameId ∧ row.editionKey = editionKey ∧ row.region = region := by
 rw [ReleaseRow.isAt, Bool.and_eq_true, Bool.and_eq_true, decide_eq_true_eq, decide_eq_true_eq,
  decide_eq_true_eq, and_assoc]

def ReleaseRow.bare (row : ReleaseRow φ) : ReleaseRow Unit := { row with details := () }

def ReleaseTable.bare (table : ReleaseTable φ) : List (ReleaseRow Unit) := table.rows.map ReleaseRow.bare

structure ReleaseTable.Sound (table : ReleaseTable φ) : Prop where
  fresh : ∀ row ∈ table.bare, row.id < table.nextId
  ids : (table.bare.map ReleaseRow.id).Nodup
  places : ∀ row ∈ table.bare, ∀ other ∈ table.bare,
   other.isAt row.platformGameId row.editionKey row.region = true → row = other

theorem upsertSingleRelease_spec (h : table.Sound) (platformGameId : ℕ) (editionKey : Text)
  (region : ReleaseRegion) (details : φ) :
  (upsertSingleRelease platformGameId editionKey region details table).2.Sound ∧
  (∃ row ∈ (upsertSingleRelease platformGameId editionKey region details table).2.bare,
   row.isAt platformGameId editionKey region = true ∧
   row.id = (upsertSingleRelease platformGameId editionKey region details table).1) ∧
  ((upsertSingleRelease platformGameId editionKey region details table).2.bare = table.bare ∨
   (∀ row ∈ table.bare, row.isAt platformGameId editionKey region = false) ∧
   (upsertSingleRelease platformGameId editionKey region details table).2.bare =
    table.bare ++ [⟨table.nextId, platformGameId, editionKey, region, none, ()⟩]) := by
 unfold upsertSingleRelease
 cases hfind : table.rows.find? (·.isAt platformGameId editionKey region) with
 | some row =>
  have hbare : (table.rows.map fun r => if r.id = row.id then { r with details } else r).map
   ReleaseRow.bare = table.bare := by
   rw [List.map_map]
   refine List.map_congr_left fun r _ => ?_
   by_cases hid : r.id = row.id
   · simp [ReleaseRow.bare, hid]
   · simp [hid]
  have hsame : ReleaseTable.bare
   { table with rows := table.rows.map fun r => if r.id = row.id then { r with details } else r }
    = table.bare := hbare
  refine ⟨⟨?_, ?_, ?_⟩, ?_, .inl hsame⟩
  · rw [hsame]; exact h.fresh
  · rw [hsame]; exact h.ids
  · rw [hsame]; exact h.places
  · rw [hsame]
    have hat := List.find?_some hfind
    exact ⟨row.bare, List.mem_map_of_mem (List.mem_of_find?_eq_some hfind), hat, rfl⟩
 | none =>
  have habsent : ∀ row ∈ table.bare, row.isAt platformGameId editionKey region = false := by
   intro row hrow
   obtain ⟨full, hfull, rfl⟩ := List.mem_map.1 hrow
   exact Bool.not_eq_true _ ▸ List.find?_eq_none.1 hfind full hfull
  have hbare : ReleaseTable.bare
    ⟨table.rows ++ [⟨table.nextId, platformGameId, editionKey, region, none, details⟩], table.nextId + 1⟩ =
    table.bare ++ [⟨table.nextId, platformGameId, editionKey, region, none, ()⟩] := by
   rw [ReleaseTable.bare, List.map_append]
   rfl
  refine ⟨⟨fun row hrow => ?_, ?_, fun row hrow other hother hat => ?_⟩, ?_, .inr ⟨habsent, hbare⟩⟩
  · rw [hbare, List.mem_append, List.mem_singleton] at hrow
    rcases hrow with hrow | rfl
    · exact Nat.lt_succ_of_lt (h.fresh row hrow)
    · exact Nat.lt_succ_self _
  · rw [hbare, List.map_append, List.nodup_append]
    refine ⟨h.ids, List.nodup_singleton _, fun id hid other hother => ?_⟩
    obtain ⟨row, hrow, rfl⟩ := List.mem_map.1 hid
    rw [List.map_singleton, List.mem_singleton] at hother
    have hlt := h.fresh row hrow
    rw [hother]
    exact Nat.ne_of_lt hlt
  · rw [hbare, List.mem_append, List.mem_singleton] at hrow hother
    rcases hrow with hrow | rfl
    · rcases hother with hother | rfl
      · exact h.places row hrow other hother hat
      · have hback : row.isAt platformGameId editionKey region = true := by
         obtain ⟨hgame, hkey, hregion⟩ := isAt_iff.1 hat
         exact isAt_iff.2 ⟨hgame.symm, hkey.symm, hregion.symm⟩
        rw [habsent row hrow] at hback
        cases hback
    · rcases hother with hother | rfl
      · have hat' : other.isAt platformGameId editionKey region = true := hat
        rw [habsent other hother] at hat'
        cases hat'
      · rfl
  · rw [hbare]
    exact ⟨_, List.mem_append_right _ (List.mem_singleton_self _), isAt_iff.2 ⟨rfl, rfl, rfl⟩, rfl⟩

/-- The first pass over a batch: rows are added at the places it names, and the
    id map gives each edition the row of its last release. -/
structure Stored (platformGameId : ℕ) (start table : ReleaseTable φ)
    (batch : List (GameReleaseData π φ)) (ids : List (Text × ℕ)) : Prop where
  sound : table.Sound
  added : ∃ added, table.bare = start.bare ++ added ∧ ∀ row ∈ added, row.parentReleaseId = none ∧
    ∃ release ∈ batch, ∃ region, toReleaseRegion release.localizations = some region ∧
      row.isAt platformGameId (editionKeyOf release) region = true
  present : ∀ release ∈ batch, ∃ region, toReleaseRegion release.localizations = some region ∧
    ∃ row ∈ table.bare, row.isAt platformGameId (editionKeyOf release) region = true
  ids : ∀ key id, mapGet ids key = some id ↔ ∃ release region,
   findLast (fun r => editionKeyOf r = key) batch = some release ∧
    toReleaseRegion release.localizations = some region ∧ ∃ row ∈ table.bare, row.id = id ∧
     row.isAt platformGameId key region = true

theorem Stored.concat {platformGameId : ℕ} {start : ReleaseTable φ}
  {batch : List (GameReleaseData π φ)} {ids : List (Text × ℕ)}
  (h : Stored platformGameId start table batch ids) {release : GameReleaseData π φ}
  {stored : ReleaseTable φ × List (Text × ℕ)}
  (hupsert : upsertRelease platformGameId (table, ids) release = some stored) :
  Stored platformGameId start stored.1 (batch ++ [release]) stored.2 := by
 obtain ⟨region, hregion, rfl⟩ := Option.map_eq_some_iff.1 hupsert
 obtain ⟨hsound, ⟨row, hrow, hat, hid⟩, hbare⟩ :=
  upsertSingleRelease_spec h.sound platformGameId (editionKeyOf release) region release.details
 generalize upsertSingleRelease platformGameId (editionKeyOf release) region release.details table
  = persisted at hsound hrow hid hbare ⊢
 have hkept : ∀ other ∈ table.bare, other ∈ persisted.2.bare := by
  intro other hother
  rcases hbare with hsame | ⟨-, hnew⟩
  · rwa [hsame]
  · rw [hnew]
    exact List.mem_append_left _ hother
 refine ⟨hsound, ?_, fun sent hsent => ?_, fun key id => ?_⟩
 · obtain ⟨added, hadded, hrows⟩ := h.added
   rcases hbare with hsame | ⟨-, hnew⟩
   · refine ⟨added, hsame.trans hadded, fun other hother => ?_⟩
     obtain ⟨hparent, sent, hsent, hplace⟩ := hrows other hother
     exact ⟨hparent, sent, List.mem_append_left _ hsent, hplace⟩
   · refine ⟨added ++ [⟨table.nextId, platformGameId, editionKeyOf release, region, none, ()⟩], ?_,
      fun other hother => ?_⟩
     · rw [hnew, hadded, List.append_assoc]
     · rcases List.mem_append.1 hother with hmem | hmem
       · obtain ⟨hparent, sent, hsent, hplace⟩ := hrows other hmem
         exact ⟨hparent, sent, List.mem_append_left _ hsent, hplace⟩
       · rw [List.mem_singleton.1 hmem]
         exact ⟨rfl, release, List.mem_append_right _ (List.mem_singleton_self _), region, hregion,
          isAt_iff.2 ⟨rfl, rfl, rfl⟩⟩
 · rcases List.mem_append.1 hsent with hmem | hmem
   · obtain ⟨region', hregion', other, hother, hplace⟩ := h.present sent hmem
     exact ⟨region', hregion', other, hkept other hother, hplace⟩
   · rw [List.mem_singleton.1 hmem]
     exact ⟨region, hregion, row, hrow, hat⟩
 · rw [mapGet_concat]
   by_cases hkey : editionKeyOf release = key
   · rw [if_pos hkey]
     constructor
     · rintro hgot
       cases hgot
       exact ⟨release,
        region, by rw [findLast_concat, if_pos (decide_eq_true hkey)], hregion, row, hrow, hid, hkey ▸ hat⟩
     · rintro ⟨last, region', hlast, hregion', other, hother, rfl, hplace⟩
       rw [findLast_concat, if_pos (decide_eq_true hkey)] at hlast
       cases hlast
       rw [hregion] at hregion'
       cases hregion'
       obtain ⟨hgame, hedition, hin⟩ := isAt_iff.1 hat
       have hsame := hsound.places row hrow other hother (by rw [hgame, hedition, hin, hkey]; exact hplace)
       rw [← hid, hsame]
   · rw [if_neg hkey, h.ids key id]
     refine exists_congr fun last => exists_congr fun region' => ?_
     rw [findLast_concat, if_neg (by simpa using hkey)]
     refine and_congr_right fun _ => and_congr_right fun _ => ?_
     constructor
     · rintro ⟨other, hother, hplace⟩
       exact ⟨other, hkept other hother, hplace⟩
     · rintro ⟨other, hother, hid', hplace⟩
       rcases hbare with hsame | ⟨-, hnew⟩
       · exact ⟨other, hsame ▸ hother, hid', hplace⟩
       · rw [hnew, List.mem_append, List.mem_singleton] at hother
         rcases hother with hmem | rfl
         · exact ⟨other, hmem, hid', hplace⟩
         · exact absurd (isAt_iff.1 hplace).2.1 hkey

theorem stored_batch {platformGameId : ℕ} {start : ReleaseTable φ} (hstart : start.Sound)
  {batch : List (GameReleaseData π φ)} {stored : ReleaseTable φ × List (Text × ℕ)}
  (h : batch.foldlM (upsertRelease platformGameId) (start, []) = some stored) :
  Stored platformGameId start stored.1 batch stored.2 := by
 induction batch using List.reverseRecOn generalizing stored with
 | nil =>
  cases h
  refine ⟨hstart, ⟨[], (List.append_nil _).symm, fun _ hrow => absurd hrow List.not_mem_nil⟩,
   fun _ hsent => absurd hsent List.not_mem_nil, fun key id => iff_of_false nofun ?_⟩
  rintro ⟨_, _, hlast, -⟩
  cases hlast
 | append_singleton batch release ih =>
  rw [List.foldlM_append] at h
  obtain ⟨before, hbefore, hlast⟩ := Option.bind_eq_some_iff.1 h
  simp only [List.foldlM_cons, List.foldlM_nil, bind_pure] at hlast
  exact (ih hbefore).concat hlast

end Stored

end BoardGamesEmpire.GameImport
