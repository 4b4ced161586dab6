import BoardGamesEmpire.ReleaseImport

set_option autoImplicit false

/-!
# The editions of an imported game

What the second pass of `upsertReleases` makes of the parents that were sent:
whether they are a forest, and whether every release has its parent.
-/
namespace BoardGamesEmpire.GameImport
open JsText

section Parents

variable {π φ : Type} {releases : List (GameReleaseData π φ)}

def parentEdition (releases : List (GameReleaseData π φ)) (release : GameReleaseData π φ) : Option Text :=
  release.parentEditionExternalId.filter fun parent =>
    decide (parent ≠ editionKeyOf release) && (releases.map editionKeyOf).contains parent

def Refers (releases : List (GameReleaseData π φ)) (key parent : Text) : Prop :=
  (findLast (fun release => decide (editionKeyOf release = key) &&
   (parentEdition releases release).isSome) releases).bind
    (parentEdition releases) = some parent

instance (releases : List (GameReleaseData π φ)) (key parent : Text) :
    Decidable (Refers releases key parent) := by
  unfold Refers
  exact inferInstance

theorem toEditionKey_ne_nil (externalId : Text) : toEditionKey externalId ≠ [] := by
 unfold toEditionKey
 split
 · next hkey =>
   rintro rfl
   exact hkey rfl
 · exact List.cons_ne_nil _ _

theorem parentEdition_some {release : GameReleaseData π φ} {parent : Text}
  (h : parentEdition releases release = some parent) :
  parent ≠ editionKeyOf release ∧ parent ∈ releases.map editionKeyOf := by
 obtain ⟨-, hkept⟩ := Option.filter_eq_some_iff.1 h
 rw [Bool.and_eq_true, decide_eq_true_eq, List.contains_iff_mem] at hkept
 exact hkept

theorem preResolve_eq (releases : List (GameReleaseData π φ)) : preResolve releases =
  releases.filterMap fun release => (parentEdition releases release).map fun parent =>
   (editionKeyOf release, parent) := by
 refine List.filterMap_congr fun release _ => ?_
 unfold parentEdition
 cases release.parentEditionExternalId with
 | none => rfl
 | some parent =>
  dsimp only
  by_cases hempty : parent = []
  · have hunknown : (releases.map editionKeyOf).contains parent = false := by
     rw [← Bool.not_eq_true, List.contains_iff_mem, hempty]
     intro hmem
     obtain ⟨sent, -, hkey⟩ := List.mem_map.1 hmem
     exact toEditionKey_ne_nil sent.externalId hkey
    rw [if_pos hempty, Option.filter_some, hunknown, Bool.and_false]
    rfl
  · rw [if_neg hempty, Option.filter_some]
    cases (releases.map editionKeyOf).contains parent with
    | false => simp
    | true =>
     by_cases hself : parent = editionKeyOf release
     · simp [hself]
     · simp [hself]

theorem mapGet_filterMap {α : Type} (key : α → Text) (value : α → Option Text) (l : List α)
  (k : Text) :
  mapGet (l.filterMap fun x => (value x).map fun v => (key x, v)) k =
   (findLast (fun x => decide (key x = k) && (value x).isSome) l).bind value := by
 induction l using List.reverseRecOn with
 | nil => rfl
 | append_singleton l x ih =>
  rw [List.filterMap_append, findLast_concat]
  cases hvalue : value x with
  | none => simpa [hvalue] using ih
  | some v =>
   have hlast : [x].filterMap (fun x => (value x).map fun v => (key x, v)) =
    [(key x, v)] := by simp [hvalue]
   rw [hlast, mapGet_concat]
   by_cases hkey : key x = k
   · simp [hkey, hvalue]
   · simpa [hkey] using ih

theorem mapGet_preResolve (key parent : Text) :
  mapGet (preResolve releases) key = some parent ↔ Refers releases key parent := by
 rw [preResolve_eq, mapGet_filterMap]
 rfl

theorem refers_mem {key parent : Text} (h : Refers releases key parent) :
  key ∈ releases.map editionKeyOf ∧ parent ∈ releases.map editionKeyOf := by
 obtain ⟨release, hlast, hparent⟩ := Option.bind_eq_some_iff.1 h
 obtain ⟨hmem, hkeeps⟩ := findLast_some hlast
 rw [Bool.and_eq_true, decide_eq_true_eq] at hkeeps
 exact ⟨List.mem_map.2 ⟨release, hmem, hkeeps.1⟩, (parentEdition_some hparent).2⟩

def relink (links : List (ℕ × ℕ)) (row : ReleaseRow Unit) : ReleaseRow Unit :=
  { row with parentReleaseId := (mapGet links row.id).or row.parentReleaseId }

theorem foldl_setParent (table : ReleaseTable φ) (links : List (ℕ × ℕ)) :
  (links.foldl setParent table).bare = table.bare.map (relink links) ∧
   (links.foldl setParent table).nextId = table.nextId := by
 induction links using List.reverseRecOn with
 | nil => exact ⟨(List.map_id' _).symm, rfl⟩
 | append_singleton links link ih =>
  obtain ⟨childId, parentId⟩ := link
  rw [List.foldl_append, List.foldl_cons, List.foldl_nil]
  refine ⟨?_, ih.2⟩
  have hset : ∀ t : ReleaseTable φ, (setParent t (childId, parentId)).bare =
    t.bare.map fun row => if row.id = childId then
     { row with parentReleaseId := some parentId } else row := by
   intro t
   rw [ReleaseTable.bare, ReleaseTable.bare, setParent, List.map_map, List.map_map]
   refine List.map_congr_left fun row _ => ?_
   by_cases hid : row.id = childId
   · simp [ReleaseRow.bare, hid]
   · simp [ReleaseRow.bare, hid]
  rw [hset, ih.1, List.map_map]
  refine List.map_congr_left fun row _ => ?_
  by_cases hid : row.id = childId
  · simp [relink, mapGet_concat, hid]
  · simp [relink, mapGet_concat, hid, Ne.symm hid]

end Parents

section Hierarchy

variable {π φ : Type} {table start : ReleaseTable φ} {releases : List (GameReleaseData π φ)}
  {ids : List (Text × ℕ)} {platformGameId : ℕ}

theorem Stored.row_of_id (h : Stored platformGameId start table releases ids) {key : Text} {id : ℕ}
  (hid : mapGet ids key = some id) :
  ∃ row ∈ table.bare, row.id = id ∧ row.editionKey = key ∧ row.platformGameId = platformGameId := by
 obtain ⟨_, _, -, -, row, hrow, hrowId, hat⟩ := (h.ids key id).1 hid
 obtain ⟨hgame, hkey, -⟩ := isAt_iff.1 hat
 exact ⟨row, hrow, hrowId, hkey, hgame⟩

theorem ReleaseTable.Sound.eq_of_id (h : table.Sound) {row other : ReleaseRow Unit}
  (hrow : row ∈ table.bare) (hother : other ∈ table.bare) (hid : row.id = other.id) : row = other :=
 List.inj_on_of_nodup_map h.ids hrow hother hid

theorem Stored.ids_injective (h : Stored platformGameId start table releases ids) {key key' : Text}
  {id : ℕ} (hkey : mapGet ids key = some id) (hkey' : mapGet ids key' = some id) : key = key' := by
 obtain ⟨row, hrow, hid, rfl, -⟩ := h.row_of_id hkey
 obtain ⟨row', hrow', hid', rfl, -⟩ := h.row_of_id hkey'
 rw [h.sound.eq_of_id hrow hrow' (hid.trans hid'.symm)]

theorem Stored.ids_edition (h : Stored platformGameId start table releases ids) {key : Text}
  (hkey : key ∈ releases.map editionKeyOf) :
  ∃ id, mapGet ids key = some id := by
 obtain ⟨release, hrelease, rfl⟩ := List.mem_map.1 hkey
 obtain ⟨last, hlast⟩ := findLast_isSome (fun r => decide (editionKeyOf r = editionKeyOf release))
  hrelease (decide_eq_true rfl)
 obtain ⟨hmem, hkeeps⟩ := findLast_some hlast
 obtain ⟨region, hregion, row, hrow, hat⟩ := h.present last hmem
 rw [of_decide_eq_true hkeeps] at hat
 exact ⟨row.id, (h.ids _ _).2 ⟨last, region, hlast, hregion, row, hrow, rfl, hat⟩⟩

theorem Stored.linked_iff (h : Stored platformGameId start table releases ids)
  (childId parentId : ℕ) :
  mapGet (parentLinks ids (preResolve releases)) childId = some parentId ↔
   ∃ key parent, Refers releases key parent ∧ mapGet ids key = some childId ∧
    mapGet ids parent = some parentId := by
 have hmem : ∀ child parent, (child, parent) ∈ parentLinks ids (preResolve releases) ↔
   ∃ key edition, Refers releases key edition ∧ mapGet ids key = some child ∧
    mapGet ids edition = some parent := by
  intro child parent
  rw [parentLinks, List.mem_filterMap]
  constructor
  · rintro ⟨⟨key, edition⟩, hentry, hlink⟩
    dsimp only at hlink
    split at hlink
    · next c p hc hp =>
      cases hlink
      exact ⟨key, edition, (mapGet_preResolve key edition).1 (mem_mapEntries.1 hentry), hc, hp⟩
    · cases hlink
  · rintro ⟨key, edition, hrefers, hc, hp⟩
    refine ⟨(key, edition), mem_mapEntries.2 ((mapGet_preResolve key edition).2 hrefers), ?_⟩
    dsimp only
    rw [hc, hp]
 rw [mapGet_iff fun child parent parent' hfirst hsecond => ?_, hmem]
 obtain ⟨key, edition, hrefers, hc, hp⟩ := (hmem child parent).1 hfirst
 obtain ⟨key', edition', hrefers', hc', hp'⟩ := (hmem child parent').1 hsecond
 obtain rfl := h.ids_injective hc hc'
 have hedition : edition = edition' := Option.some.inj (hrefers.symm.trans hrefers')
 rw [hedition, hp'] at hp
 exact (Option.some.inj hp).symm

theorem upsertBatch_cases {result : ReleaseTable φ} (hstart : start.Sound)
  (h : upsertBatch start (platformGameId, releases) = some result) :
   ∃ table ids, Stored platformGameId start table releases ids ∧
   result.bare = table.bare.map (relink (parentLinks ids (preResolve releases))) ∧
    result.nextId = table.nextId := by
 obtain ⟨⟨table, ids⟩, hstored, rfl⟩ := Option.map_eq_some_iff.1 h
 exact ⟨table, ids, stored_batch hstart hstored, foldl_setParent table _⟩

theorem upsertBatch_some (start : ReleaseTable φ) (platformGameId : ℕ)
  (hregions : ∀ release ∈ releases, toReleaseRegion release.localizations ≠ none) :
  ∃ result, upsertBatch start (platformGameId, releases) = some result := by
 have hpass : ∀ stored : ReleaseTable φ × List (Text × ℕ), ∃ result,
  releases.foldlM (upsertRelease platformGameId) stored = some result := by
  induction releases with
  | nil => exact fun stored => ⟨stored, rfl⟩
  | cons release rest ih =>
   intro stored
   obtain ⟨region, hregion⟩ := Option.ne_none_iff_exists'.1 (hregions release List.mem_cons_self)
   have hnext : upsertRelease platformGameId stored release ≠ none := by
    rw [upsertRelease, hregion]
    exact nofun
   obtain ⟨next, hnext⟩ := Option.ne_none_iff_exists'.1 hnext
   obtain ⟨result, hresult⟩ := ih (fun r hr => hregions r (List.mem_cons_of_mem _ hr)) next
   exact ⟨result, by rw [List.foldlM_cons, hnext]; exact hresult⟩
 obtain ⟨stored, hstored⟩ := hpass (start, [])
 exact ⟨_, by rw [upsertBatch, hstored]; rfl⟩

theorem relink_bare_sound {result : ReleaseTable φ} (h : table.Sound) {links : List (ℕ × ℕ)}
  (hbare : result.bare = table.bare.map (relink links)) (hnext : result.nextId = table.nextId) :
  result.Sound := by
 refine ⟨fun row hrow => ?_, ?_, fun row hrow other hother hat => ?_⟩
 · rw [hbare] at hrow
   obtain ⟨before, hbefore, rfl⟩ := List.mem_map.1 hrow
   rw [hnext]
   exact h.fresh before hbefore
 · rw [hbare, List.map_map]
   exact h.ids
 · rw [hbare] at hrow hother
   obtain ⟨before, hbefore, rfl⟩ := List.mem_map.1 hrow
   obtain ⟨before', hbefore', rfl⟩ := List.mem_map.1 hother
   rw [h.places before hbefore before' hbefore' hat]

def HasParent (table : ReleaseTable φ) (child parent : ℕ) : Prop :=
  ∃ row ∈ table.rows, row.id = child ∧ row.parentReleaseId = some parent

def Acyclic (table : ReleaseTable φ) : Prop := ∀ id, ¬ Relation.TransGen (HasParent table) id id

def lastSent (releases : List (GameReleaseData π φ)) (editionKey : Text) (region : ReleaseRegion) :
    Option (GameReleaseData π φ) :=
  findLast (fun release => decide (editionKeyOf release = editionKey) &&
    decide (toReleaseRegion release.localizations = some region)) releases

/-- Every row that was sent with a parent among the batch's other editions has a
    release of that edition as its parent. -/
def Complete (releases : List (GameReleaseData π φ)) (table : ReleaseTable φ) : Prop :=
  ∀ row ∈ table.rows, ∀ release, lastSent releases row.editionKey row.region = some release →
   ∀ edition, parentEdition releases release = some edition →
    ∃ parent ∈ table.rows, row.parentReleaseId = some parent.id ∧ parent.editionKey = edition ∧
      parent.platformGameId = row.platformGameId

def NoMutualReference (releases : List (GameReleaseData π φ)) :
    Prop := ∀ key, ¬ Relation.TransGen (Refers releases) key key

/-- A release that names a parent, and is the last sent for its edition and
    region, has the region of the last sent for its edition. -/
def LastNamesParent (releases : List (GameReleaseData π φ)) : Prop :=
  ∀ release region, toReleaseRegion release.localizations = some region →
    lastSent releases (editionKeyOf release) region = some release →
     parentEdition releases release ≠ none →
    ∃ last, findLast (fun other => editionKeyOf other = editionKeyOf release) releases = some last ∧
      toReleaseRegion last.localizations = some region

theorem sound_noReleases : (noReleases : ReleaseTable φ).Sound where
 fresh _ hrow := absurd hrow List.not_mem_nil
 ids := List.nodup_nil
 places _ hrow := absurd hrow List.not_mem_nil

structure Imported (platformGameId : ℕ) (releases : List (GameReleaseData π φ))
    (table : ReleaseTable φ) (ids : List (Text × ℕ))
    (result : ReleaseTable φ) : Prop where
  stored : Stored platformGameId (noReleases : ReleaseTable φ) table releases ids
  bare : result.bare = table.bare.map (relink (parentLinks ids (preResolve releases)))
  nextId : result.nextId = table.nextId

theorem mem_bare {row : ReleaseRow Unit} :
  row ∈ table.bare ↔ ∃ full ∈ table.rows, full.bare = row := List.mem_map

variable {result : ReleaseTable φ}

theorem Imported.fresh_row (h : Imported platformGameId releases table ids result)
  {row : ReleaseRow Unit} (hrow : row ∈ table.bare) :
  row.parentReleaseId = none ∧
   ∃ release ∈ releases, ∃ region, toReleaseRegion release.localizations = some region ∧
   row.isAt platformGameId (editionKeyOf release) region = true := by
 obtain ⟨added, hadded, hrows⟩ := h.stored.added
 exact hrows row ((hadded.trans (List.nil_append _)) ▸ hrow)

theorem Imported.row_cases (h : Imported platformGameId releases table ids result)
  {row : ReleaseRow φ} (hrow : row ∈ result.rows) :
  ∃ before ∈ table.bare, before.id = row.id ∧ before.editionKey = row.editionKey ∧
   before.region = row.region ∧
   before.platformGameId = row.platformGameId ∧
    row.parentReleaseId = mapGet (parentLinks ids (preResolve releases)) row.id := by
 have hbare : row.bare ∈ result.bare := mem_bare.2 ⟨row, hrow, rfl⟩
 rw [h.bare] at hbare
 obtain ⟨before, hbefore, heq⟩ := List.mem_map.1 hbare
 have hid : before.id = row.id := congrArg ReleaseRow.id heq
 refine ⟨before, hbefore, hid, congrArg ReleaseRow.editionKey heq, congrArg ReleaseRow.region heq,
  congrArg ReleaseRow.platformGameId heq, ?_⟩
 have hparent : (mapGet (parentLinks ids (preResolve releases)) before.id).or before.parentReleaseId
  = row.parentReleaseId :=
  congrArg ReleaseRow.parentReleaseId heq
 rw [← hparent, (h.fresh_row hbefore).1, Option.or_none, hid]

theorem Imported.row_of_bare (h : Imported platformGameId releases table ids result)
  {before : ReleaseRow Unit} (hbefore : before ∈ table.bare) :
  ∃ row ∈ result.rows, row.id = before.id ∧ row.editionKey = before.editionKey ∧
   row.region = before.region ∧
   row.platformGameId = before.platformGameId := by
 have hmem : relink (parentLinks ids (preResolve releases)) before ∈ result.bare := h.bare ▸
  List.mem_map_of_mem hbefore
 obtain ⟨row, hrow, heq⟩ := mem_bare.1 hmem
 exact ⟨row, hrow, congrArg ReleaseRow.id heq, congrArg ReleaseRow.editionKey heq,
  congrArg ReleaseRow.region heq,
  congrArg ReleaseRow.platformGameId heq⟩

theorem Imported.hasParent_iff (h : Imported platformGameId releases table ids result)
  (child parent : ℕ) :
  HasParent result child parent ↔ ∃ key edition, Refers releases key edition ∧
   mapGet ids key = some child ∧ mapGet ids edition = some parent := by
 rw [← h.stored.linked_iff]
 constructor
 · rintro ⟨row, hrow, rfl, hparent⟩
   obtain ⟨before, -, -, -, -, -, hlink⟩ := h.row_cases hrow
   rw [← hlink, hparent]
 · intro hlink
   obtain ⟨key, edition, -, hkey, -⟩ := (h.stored.linked_iff child parent).1 hlink
   obtain ⟨before, hbefore, rfl, -⟩ := h.stored.row_of_id hkey
   obtain ⟨row, hrow, hid, -⟩ := h.row_of_bare hbefore
   obtain ⟨-, -, -, -, -, -, hparent⟩ := h.row_cases hrow
   exact ⟨row, hrow, hid, by rw [hparent, hid, hlink]⟩

theorem Imported.refers_of_ancestor (h : Imported platformGameId releases table ids result)
  {child ancestor : ℕ} (hancestor : Relation.TransGen (HasParent result) child ancestor) :
  ∃ key edition, mapGet ids key = some child ∧ mapGet ids edition = some ancestor ∧
   Relation.TransGen (Refers releases) key edition := by
 induction hancestor with
 | single hparent =>
  obtain ⟨key, edition, hrefers, hkey, hedition⟩ := (h.hasParent_iff _ _).1 hparent
  exact ⟨key, edition, hkey, hedition, .single hrefers⟩
 | tail _ hparent ih =>
  obtain ⟨key, edition, hkey, hedition, hrefers⟩ := ih
  obtain ⟨edition', next, hnext, hedition', hnextId⟩ := (h.hasParent_iff _ _).1 hparent
  obtain rfl := h.stored.ids_injective hedition hedition'
  exact ⟨key, next, hkey, hnextId, hrefers.tail hnext⟩

theorem Imported.acyclic_iff (h : Imported platformGameId releases table ids result) :
  Acyclic result ↔ NoMutualReference releases := by
 constructor
 · intro hacyclic key hrefers
   refine hacyclic ((mapGet ids key).getD 0)
    (hrefers.lift (fun key => (mapGet ids key).getD 0) fun child parent hparent => ?_)
   obtain ⟨hchild, hedition⟩ := refers_mem hparent
   obtain ⟨childId, hchildId⟩ := h.stored.ids_edition hchild
   obtain ⟨parentId, hparentId⟩ := h.stored.ids_edition hedition
   show HasParent result ((mapGet ids child).getD 0) ((mapGet ids parent).getD 0)
   rw [hchildId, hparentId]
   exact (h.hasParent_iff childId parentId).2 ⟨child, parent, hparent, hchildId, hparentId⟩
 · intro hmutual id hancestor
   obtain ⟨key, edition, hkey, hedition, hrefers⟩ := h.refers_of_ancestor hancestor
   obtain rfl := h.stored.ids_injective hkey hedition
   exact hmutual key hrefers

theorem Imported.complete (h : Imported platformGameId releases table ids result)
  (hlast : LastNamesParent releases) :
  Complete releases result := by
 intro row hrow release hsent edition hedition
 obtain ⟨before, hbefore, hid, hkey, hregion, hgame, hparent⟩ := h.row_cases hrow
 obtain ⟨-, hkeeps⟩ := findLast_some hsent
 rw [Bool.and_eq_true, decide_eq_true_eq, decide_eq_true_eq] at hkeeps
 obtain ⟨hsentKey, hsentRegion⟩ := hkeeps
 rw [← hsentKey] at hsent
 obtain ⟨last, hfound, hlastRegion⟩ :=
  hlast release row.region hsentRegion hsent (by rw [hedition]; exact nofun)
 -- the row's own release is the last of its edition
 have hlastKey := of_decide_eq_true (findLast_some hfound).2
 have hsame : last = release := by
  have hstrong : lastSent releases (editionKeyOf release) row.region = some last := by
   refine findLast_of_imp (fun other hother => (Bool.and_eq_true_iff.1 hother).1) hfound ?_
   rw [Bool.and_eq_true, decide_eq_true_eq, decide_eq_true_eq]
   exact ⟨hlastKey, hlastRegion⟩
  exact Option.some.inj (hstrong.symm.trans hsent)
 subst hsame
 obtain ⟨-, sent, -, region, -, hat⟩ := h.fresh_row hbefore
 have hpg := (isAt_iff.1 hat).1
 have hrowId : mapGet ids (editionKeyOf last) = some row.id := (h.stored.ids _ _).2
  ⟨last, row.region, hfound, hlastRegion, before, hbefore, hid,
   isAt_iff.2 ⟨hpg, hkey.trans hsentKey.symm, hregion⟩⟩
 have hrefers : Refers releases (editionKeyOf last) edition := by
  have hnames :
   (decide (editionKeyOf last = editionKeyOf last) && (parentEdition releases last).isSome) = true := by
   rw [hedition]
   simp
  have hlastNames :
   findLast (fun other => decide (editionKeyOf other = editionKeyOf last) &&
    (parentEdition releases other).isSome)
    releases = some last :=
     findLast_of_imp (fun other hother => (Bool.and_eq_true_iff.1 hother).1) hfound hnames
  rw [Refers, hlastNames, Option.bind_some, hedition]
 obtain ⟨parentId, hparentId⟩ := h.stored.ids_edition (refers_mem hrefers).2
 have hlink := (h.stored.linked_iff row.id parentId).2 ⟨_, _, hrefers, hrowId, hparentId⟩
 obtain ⟨parentRow, hparentRow, hparentRowId, hparentKey, hparentGame⟩ := h.stored.row_of_id hparentId
 obtain ⟨parent, hparentMem, hid', hkey', -, hgame'⟩ := h.row_of_bare hparentRow
 refine ⟨parent, hparentMem, ?_, hkey'.trans hparentKey, ?_⟩
 · rw [hparent, hlink, hid', hparentRowId]
 · rw [hgame', hparentGame, ← hgame, hpg]

theorem Imported.lastNamesParent (h : Imported platformGameId releases table ids result)
  (hcomplete : Complete releases result) :
  LastNamesParent releases := by
 intro release region hregion hsent hnames
 obtain ⟨edition, hedition⟩ := Option.ne_none_iff_exists'.1 hnames
 obtain ⟨region', hregion', before, hbefore, hat⟩ := h.stored.present release (findLast_some hsent).1
 rw [hregion] at hregion'
 cases hregion'
 obtain ⟨hgame, hkey, hin⟩ := isAt_iff.1 hat
 obtain ⟨row, hrow, hid, hrowKey, hrowRegion, -⟩ := h.row_of_bare hbefore
 have hsentFor : lastSent releases row.editionKey row.region = some release := by
  rw [hrowKey, hkey, hrowRegion, hin]
  exact hsent
 obtain ⟨parent, -, hparent, -⟩ := hcomplete row hrow release hsentFor edition hedition
 obtain ⟨-, -, -, -, -, -, hlink⟩ := h.row_cases hrow
 obtain ⟨key, edition', -, hkeyId, -⟩ :=
  (h.stored.linked_iff row.id parent.id).1 (by rw [← hlink, hparent])
 obtain ⟨last, lastRegion, hlast, hlastRegion, row', hrow', hid', hat'⟩ :=
  (h.stored.ids key row.id).1 hkeyId
 obtain ⟨-, hkey', hin'⟩ := isAt_iff.1 hat'
 obtain rfl := h.stored.sound.eq_of_id hrow' hbefore (hid'.trans hid)
 rw [← hkey', hkey] at hlast
 rw [← hin', hin] at hlastRegion
 exact ⟨last, hlast, hlastRegion⟩

theorem Imported.again (h : Imported platformGameId releases table ids result)
  {again : ReleaseTable φ} (hagain : upsertBatch result (platformGameId, releases) = some again) :
  again.bare = result.bare := by
 have hsound := relink_bare_sound h.stored.sound h.bare h.nextId
 obtain ⟨table', ids', hstored, hbare, -⟩ := upsertBatch_cases hsound hagain
 have hrows : ∀ row, row ∈ result.bare ↔ ∃ before ∈ table.bare,
  relink (parentLinks ids (preResolve releases)) before = row := by
  intro row
  rw [h.bare, List.mem_map]
 have hsame : table'.bare = result.bare := by
  obtain ⟨added, hadded, hplaces⟩ := hstored.added
  cases added with
  | nil => rw [hadded, List.append_nil]
  | cons row rest =>
   -- a row that was added has a place that the first import filled
   obtain ⟨-, release, hrelease, region, hregion, hat⟩ := hplaces row List.mem_cons_self
   obtain ⟨region', hregion', before, hbefore, hat'⟩ := h.stored.present release hrelease
   rw [hregion] at hregion'
   cases hregion'
   have hold : relink (parentLinks ids (preResolve releases)) before ∈ result.bare := (hrows _).2
    ⟨before, hbefore, rfl⟩
   have hnew : row ∈ table'.bare := hadded ▸ List.mem_append_right _ List.mem_cons_self
   obtain ⟨hgame, hkey, hin⟩ := isAt_iff.1 hat
   have heq := hstored.sound.places row hnew _ (hadded ▸ List.mem_append_left _ hold)
    (by rw [hgame, hkey, hin]; exact hat')
   have hids := hstored.sound.ids
   rw [hadded, List.map_append, List.nodup_append] at hids
   exact absurd (congrArg ReleaseRow.id heq.symm)
    (hids.2.2 _ (List.mem_map_of_mem hold) _ (List.mem_map_of_mem List.mem_cons_self))
 have hids : ∀ key id, mapGet ids' key = some id ↔ mapGet ids key = some id := by
  intro key id
  rw [hstored.ids, h.stored.ids]
  refine exists_congr fun release => exists_congr fun region => and_congr_right fun _ =>
   and_congr_right fun _ => ?_
  rw [hsame]
  constructor
  · rintro ⟨row, hrow, hid, hat⟩
    obtain ⟨before, hbefore, rfl⟩ := (hrows row).1 hrow
    exact ⟨before, hbefore, hid, hat⟩
  · rintro ⟨before, hbefore, hid, hat⟩
    exact ⟨_, (hrows _).2 ⟨before, hbefore, rfl⟩, hid, hat⟩
 have hlinks : ∀ id, mapGet (parentLinks ids' (preResolve releases)) id = mapGet
  (parentLinks ids (preResolve releases)) id := by
  intro id
  refine Option.ext fun parent => ?_
  rw [hstored.linked_iff, h.stored.linked_iff]
  simp only [hids]
 rw [hbare, hsame, h.bare, List.map_map]
 refine List.map_congr_left fun row _ => ?_
 simp only [Function.comp_apply, relink, hlinks]
 cases mapGet (parentLinks ids (preResolve releases)) row.id with
 | none => rfl
 | some parent => rfl

end Hierarchy

section Forest

variable {π φ : Type}

/-- The parents of a first import are a complete forest just where no edition
    leads back to itself and the last release of every edition speaks for all
    its regions. -/
theorem upsertReleases_forest (resolvePlatform : π → Option ℕ) (platformGameMap : List (ℕ × ℕ))
  (releases : List (GameReleaseData π φ)) (platformGameId : ℕ)
  (hsent : ∀ release ∈ releases, platformGameOf resolvePlatform platformGameMap release = some
   platformGameId) :
    (upsertReleases resolvePlatform platformGameMap releases noReleases = none ↔
      ∃ release ∈ releases, toReleaseRegion release.localizations = none) ∧
    ∀ table, upsertReleases resolvePlatform platformGameMap releases noReleases = some table →
      (Acyclic table ∧ Complete releases table ∧
        (∃ again, upsertReleases resolvePlatform platformGameMap releases table = some again ∧
          again.rows.map (fun row => (row.id, row.parentReleaseId)) = table.rows.map fun row =>
           (row.id, row.parentReleaseId)) ↔
      NoMutualReference releases ∧ LastNamesParent releases) := by
 have himported : ∀ table, upsertBatch noReleases (platformGameId, releases) = some table →
   ∃ stored ids, Imported platformGameId releases stored ids table := by
  intro table htable
  obtain ⟨stored, ids, hstored, hbare, hnext⟩ := upsertBatch_cases sound_noReleases htable
  exact ⟨stored, ids, hstored, hbare, hnext⟩
 simp only [upsertReleases_one hsent]
 refine ⟨?_, fun table htable => ?_⟩
 · constructor
   · intro hrefused
     by_contra hregions
     push Not at hregions
     obtain ⟨table, htable⟩ := upsertBatch_some noReleases platformGameId hregions
     rw [hrefused] at htable
     cases htable
   · rintro ⟨release, hrelease, hregion⟩
     rw [Option.eq_none_iff_forall_ne_some]
     intro table htable
     obtain ⟨stored, ids, h⟩ := himported table htable
     obtain ⟨region, hfound, -⟩ := h.stored.present release hrelease
     rw [hregion] at hfound
     cases hfound
 · obtain ⟨stored, ids, h⟩ := himported table htable
   constructor
   · rintro ⟨hacyclic, hcomplete, -⟩
     exact ⟨h.acyclic_iff.1 hacyclic, h.lastNamesParent hcomplete⟩
   · rintro ⟨hmutual, hlast⟩
     refine ⟨h.acyclic_iff.2 hmutual, h.complete hlast, ?_⟩
     have hregions : ∀ release ∈ releases, toReleaseRegion release.localizations ≠ none := by
      intro release hrelease hnone
      obtain ⟨region, hfound, -⟩ := h.stored.present release hrelease
      rw [hnone] at hfound
      cases hfound
     obtain ⟨again, hagain⟩ := upsertBatch_some table platformGameId hregions
     have hpairs : ∀ t : ReleaseTable φ, t.rows.map (fun row => (row.id, row.parentReleaseId)) =
       t.bare.map fun row => (row.id, row.parentReleaseId) := by
      intro t
      rw [ReleaseTable.bare, List.map_map]
      rfl
     exact ⟨again, hagain, by rw [hpairs, hpairs, h.again hagain]⟩

def deluxeOf : List (GameReleaseData Unit Unit) :=
  [⟨['b', 'a', 's', 'e'], some (), [], none, ()⟩,
   ⟨['d', 'l', 'x'], some (), [], some ['b', 'a', 's', 'e'], ()⟩]

theorem upsertReleases_forest_deluxe :
  (∀ release ∈ deluxeOf, platformGameOf (fun _ => some 0) [(0, 7)] release = some 7) ∧
    ∀ table, upsertReleases (fun _ => some 0) [(0, 7)] deluxeOf noReleases = some table →
     Acyclic table ∧ Complete deluxeOf table := by
 have hsent : ∀ release ∈ deluxeOf, platformGameOf (fun _ => some 0) [(0, 7)] release = some 7 := by decide
 refine ⟨hsent, fun table htable => ?_⟩
 have hrefers : ∀ key parent, Refers deluxeOf key parent → key = ['d', 'l', 'x'] ∧
  parent = ['b', 'a', 's', 'e'] := by
  intro key parent hrefers
  obtain ⟨hkey, hparent⟩ := refers_mem hrefers
  have hall : ∀ key ∈ deluxeOf.map editionKeyOf, ∀ parent ∈ deluxeOf.map editionKeyOf,
   Refers deluxeOf key parent →
    key = ['d', 'l', 'x'] ∧ parent = ['b', 'a', 's', 'e'] := by decide
  exact hall key hkey parent hparent hrefers
 have hmutual : NoMutualReference deluxeOf := by
  intro key hcycle
  obtain ⟨next, hfirst, -⟩ := Relation.TransGen.head'_iff.1 hcycle
  obtain ⟨before, -, hlast⟩ := Relation.TransGen.tail'_iff.1 hcycle
  obtain ⟨rfl, -⟩ := hrefers _ _ hfirst
  exact absurd (hrefers _ _ hlast).2 (by decide)
 have hnames : LastNamesParent deluxeOf := by
  intro release region hregion hlast _
  have hall : ∀ release ∈ deluxeOf, ∃ last,
   findLast (fun other => editionKeyOf other = editionKeyOf release) deluxeOf = some last ∧
    toReleaseRegion last.localizations = toReleaseRegion release.localizations := by
   intro release hrelease
   simp only [deluxeOf, List.mem_cons, List.not_mem_nil, or_false] at hrelease
   rcases hrelease with rfl | rfl
   · exact ⟨_, rfl, rfl⟩
   · exact ⟨_, rfl, rfl⟩
  obtain ⟨last, hfound, hsame⟩ := hall release (findLast_some hlast).1
  exact ⟨last, hfound, hsame.trans hregion⟩
 obtain ⟨hacyclic, hcomplete, -⟩ :=
  ((upsertReleases_forest (fun _ => some 0) [(0, 7)] deluxeOf 7 hsent).2 table htable).2 ⟨hmutual, hnames⟩
 exact ⟨hacyclic, hcomplete⟩

def mutualEditions : List (GameReleaseData Unit Unit) :=
  [⟨['a'], some (), [], some ['b'], ()⟩, ⟨['b'], some (), [], some ['a'], ()⟩]

def twoRegions : List (GameReleaseData Unit Unit) :=
  [⟨['b', 'a', 's', 'e'], some (), [], none, ()⟩,
   ⟨['d', 'l', 'x'], some (), [⟨some ['u', 's']⟩], some ['b', 'a', 's', 'e'], ()⟩,
    ⟨['d', 'l', 'x'], some (), [⟨some ['e', 'u']⟩], some ['b', 'a', 's', 'e'], ()⟩]

/-- Editions that name each other are each other's ancestors, and a release of
    an edition sent for two regions is left without its parent. -/
theorem upsertReleases_mutual :
    (∃ table, upsertReleases (fun _ => some 0) [(0, 7)] mutualEditions noReleases = some table ∧
     ¬ Acyclic table) ∧
    ∃ table, upsertReleases (fun _ => some 0) [(0, 7)] twoRegions noReleases = some table ∧
     ¬ Complete twoRegions table := by
 refine ⟨⟨_, rfl, fun hacyclic => hacyclic 0 ?_⟩, ⟨_, rfl, fun hcomplete => ?_⟩⟩
 · refine .tail (.single ⟨_, List.mem_cons_self, rfl, rfl⟩)
    ⟨_, List.mem_cons_of_mem _ List.mem_cons_self, rfl, rfl⟩
 · obtain ⟨parent, -, hparent, -⟩ := hcomplete _ (List.mem_cons_of_mem _ List.mem_cons_self) _ rfl
    ['b', 'a', 's', 'e'] rfl
   cases hparent

end Forest

end BoardGamesEmpire.GameImport
