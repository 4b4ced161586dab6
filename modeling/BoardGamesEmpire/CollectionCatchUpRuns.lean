import BoardGamesEmpire.CollectionCatchUp
import BoardGamesEmpire.JsonObject

set_option autoImplicit false

/-!
# What a catch-up sends

The served row of an entry is a function of the rows it embeds. Where none of
them was written since, it is the row that it was.
-/
namespace BoardGamesEmpire.CollectionCatchUp
open JsText JsonText StampedTables

variable {γ : Type}

section BaseGames

theorem linkOrder_ordered (collation : Collation) : TotalOrder (linkOrder (γ := γ) collation) :=
 (collation.ordered.comap fun a : GameExpansion × Game γ => a.2.title).thenBy
  (collation.ordered.comap fun a : GameExpansion × Game γ => a.1.baseGameId)

theorem mem_linksTo {db : Tables γ} {expansionGameIds : List Text} {baseGameWhere : Game γ → Bool}
  {link : GameExpansion} {baseGame : Game γ} :
  (link, baseGame) ∈ linksTo db expansionGameIds baseGameWhere ↔
   link ∈ db.links.rows ∧ link.expansionGameId ∈ expansionGameIds ∧
    db.games.find link.baseGameId = some baseGame ∧ baseGameWhere baseGame = true := by
 rw [linksTo, List.mem_filterMap]
 constructor
 · rintro ⟨other, hother, hsome⟩
   split at hsome
   · next hend =>
     obtain ⟨found, hfound, heq⟩ := Option.map_eq_some_iff.1 hsome
     obtain ⟨hfind, hwhere⟩ := Option.filter_eq_some_iff.1 hfound
     cases heq
     exact ⟨hother, hend, hfind, hwhere⟩
   · cases hsome
 · rintro ⟨hlink, hend, hfind, hwhere⟩
   refine ⟨link, hlink, ?_⟩
   rw [if_pos hend, hfind, Option.filter_some, if_pos hwhere]
   rfl

theorem nodup_linksTo (db : Tables γ) (expansionGameIds : List Text) (baseGameWhere : Game γ → Bool) :
  (linksTo db expansionGameIds baseGameWhere).Nodup := by
 refine db.links.nodup_rows.filterMap ?_
 intro link link' row hrow hrow'
 have hfst : ∀ {link : GameExpansion}, (if link.expansionGameId ∈ expansionGameIds then
     ((db.games.find link.baseGameId).filter baseGameWhere).map fun baseGame =>
      (link, baseGame) else none) = some row → link = row.1 := by
  intro link hsome
  split at hsome
  · obtain ⟨found, -, rfl⟩ := Option.map_eq_some_iff.1 hsome
    rfl
  · cases hsome
 exact (hfst hrow).trans (hfst hrow').symm

theorem linkOrder_antisymm (collation : Collation) (db : Database γ) {ids ids' : List Text}
  {keeps keeps' : Game γ → Bool} {a b : GameExpansion × Game γ}
  (ha : a ∈ linksTo db.toTables ids keeps) (hb : b ∈ linksTo db.toTables ids' keeps')
  (hend : a.1.expansionGameId = b.1.expansionGameId) (hab : linkOrder collation a b = true)
  (hba : linkOrder collation b a = true) : a = b := by
 obtain ⟨link, baseGame⟩ := a
 obtain ⟨link', baseGame'⟩ := b
 obtain ⟨hlink, -, hbase, -⟩ := mem_linksTo.1 ha
 obtain ⟨hlink', -, hbase', -⟩ := mem_linksTo.1 hb
 have hids := thenBy_both hab hba
 have hid : link.baseGameId = link'.baseGameId := collation.antisymm _ _ hids.1 hids.2
 have heq : link = link' := List.inj_on_of_nodup_map db.linkUnique hlink hlink' (Prod.ext hid hend)
 subst heq
 rw [hbase] at hbase'
 cases hbase'
 rfl

def baseGamesOf (collation : Collation) (db : Tables γ) (viewer : Viewer γ) (gameId : Text) :
    List ExpansionLink :=
  ((linksTo db [gameId] viewer.opens).mergeSort (linkOrder collation)).map expansionLink

theorem get_readBaseGameLinks (collation : Collation) (db : Database γ) (viewer : Viewer γ)
  {ids : List Text} {gameId : Text} (h : gameId ∈ ids) :
  (mapGet (readBaseGameLinks collation db.toTables ids viewer.opens) gameId).getD
   [] = baseGamesOf collation db.toTables viewer gameId := by
 have hne : ids.isEmpty = false := List.isEmpty_eq_false_iff.2 (List.ne_nil_of_mem h)
 have hown : ∀ {a}, a ∈ (linksTo db.toTables ids viewer.opens).filter
  (fun row => decide (row.1.expansionGameId = gameId)) →
     a ∈ linksTo db.toTables ids viewer.opens ∧ a.1.expansionGameId = gameId := by
  intro a ha
  exact ⟨(List.mem_filter.1 ha).1, of_decide_eq_true (List.mem_filter.1 ha).2⟩
 have hstrict : ∀ a ∈ (linksTo db.toTables ids viewer.opens).filter (fun row =>
  decide (row.1.expansionGameId = gameId)),
     ∀ b ∈ (linksTo db.toTables ids viewer.opens).filter (fun row =>
      decide (row.1.expansionGameId = gameId)),
     linkOrder collation a b = true → linkOrder collation b a = true → a = b := by
  intro a ha b hb
  exact linkOrder_antisymm collation db (hown ha).1 (hown hb).1 ((hown ha).2.trans (hown hb).2.symm)
 have hsame : ∀ a, a ∈ (linksTo db.toTables ids viewer.opens).filter
  (fun row => decide (row.1.expansionGameId = gameId)) ↔
     a ∈ linksTo db.toTables [gameId] viewer.opens := by
  rintro ⟨link, baseGame⟩
  rw [List.mem_filter, mem_linksTo, mem_linksTo, List.mem_singleton, decide_eq_true_iff]
  constructor
  · rintro ⟨⟨hlink, -, hfind⟩, hend⟩
    exact ⟨hlink, hend, hfind⟩
  · rintro ⟨hlink, hend, hfind⟩
    exact ⟨⟨hlink, by rw [hend]; exact h, hfind⟩, hend⟩
 rw [readBaseGameLinks, hne, if_neg (by decide), mapGet_setsGrouped,
  filter_mergeSort (linkOrder_ordered collation) _ hstrict,
  mergeSort_eq (linkOrder_ordered collation) ((nodup_linksTo _ _ _).filter _) (nodup_linksTo _ _ _)
   hsame hstrict]
 rfl

theorem rowsWithBaseGames_eq (collation : Collation) (db : Database γ) (viewer : Viewer γ)
  (rows : List GameCollectionWithRelations) :
  rowsWithBaseGames collation db.toTables viewer rows = rows.map fun row =>
   row.withGame ⟨row.platformGame.game,
    baseGamesOf collation db.toTables viewer row.platformGame.game.id⟩ := by
 refine List.map_congr_left ?_
 intro row hrow
 rw [get_readBaseGameLinks collation db viewer (List.mem_eraseDups.2 (List.mem_map.2 ⟨row, hrow, rfl⟩))]

theorem servedRow_eq (collation : Collation) (db : Database γ) (viewer : Viewer γ)
  (entry : GameCollection) :
  servedRow collation db.toTables viewer entry = (included db.toTables entry).map fun row =>
   row.withGame ⟨row.platformGame.game,
    baseGamesOf collation db.toTables viewer row.platformGame.game.id⟩ := by
 rw [servedRow]
 cases included db.toTables entry with
 | none => rfl
 | some row =>
   rw [Option.bind_some, rowWithBaseGames, rowsWithBaseGames_eq]
   rfl

theorem included_of_mem (db : Database γ) {entry : GameCollection} (h : entry ∈ db.collections.rows) :
  ∃ row, included db.toTables entry = some row := by
 obtain ⟨platformGame, hplatformGame⟩ := Option.isSome_iff_exists.1 (db.platformGameOf entry h)
 have hmem := (Table.find_mem hplatformGame).1
 obtain ⟨platform, hplatform⟩ := Option.isSome_iff_exists.1 (db.platformOf platformGame hmem)
 obtain ⟨game, hgame⟩ := Option.isSome_iff_exists.1 (db.gameOf platformGame hmem)
 simp [included, hplatformGame, hplatform, hgame]

end BaseGames

section Embedded

inductive Row (γ : Type) where
  | collection (row : GameCollection)
  | platformGame (row : PlatformGame)
  | platform (row : Platform)
  | game (row : Game γ)
  | link (row : GameExpansion)
  | release (row : GameRelease)

def Row.updatedAt : Row γ → ℤ
  | .collection row => row.updatedAt
  | .platformGame row => row.updatedAt
  | .platform row => row.updatedAt
  | .game row => row.updatedAt
  | .link row => row.updatedAt
  | .release row => row.updatedAt

/-- An entry, and the rows it embeds. A base game and the link to it count
    whether or not the viewer may open the game: what hides it is a write, too. -/
inductive Embeds (db : Tables γ) (entry : GameCollection) : Row γ → Prop where
  | entry : Embeds db entry (.collection entry)
  | platformGame {platformGame : PlatformGame} (h : db.platformGames.find entry.platformGameId = some platformGame) :
    Embeds db entry (.platformGame platformGame)
  | platform {platformGame : PlatformGame} {platform : Platform}
   (h : db.platformGames.find entry.platformGameId = some platformGame)
    (hplatform : db.platforms.find platformGame.platformId = some platform) :
     Embeds db entry (.platform platform)
  | game {platformGame : PlatformGame} {game : Game γ}
   (h : db.platformGames.find entry.platformGameId = some platformGame)
    (hgame : db.games.find platformGame.gameId = some game) : Embeds db entry (.game game)
  | link {platformGame : PlatformGame} {game : Game γ} {link : GameExpansion}
    (h : db.platformGames.find entry.platformGameId = some platformGame)
     (hgame : db.games.find platformGame.gameId = some game)
    (hlink : link ∈ db.links.rows) (hend : link.expansionGameId = game.id) : Embeds db entry (.link link)
  | baseGame {platformGame : PlatformGame} {game baseGame : Game γ} {link : GameExpansion}
    (h : db.platformGames.find entry.platformGameId = some platformGame)
     (hgame : db.games.find platformGame.gameId = some game)
    (hlink : link ∈ db.links.rows) (hend : link.expansionGameId = game.id)
    (hbase : db.games.find link.baseGameId = some baseGame) : Embeds db entry (.game baseGame)
  | release {releaseId : Text} {release : GameRelease} (hid : entry.releaseId = some releaseId)
    (h : db.releases.find releaseId = some release) : Embeds db entry (.release release)

theorem changedSince_iff {db : Tables γ} {since : ℤ} {entry : GameCollection} :
  changedSince db since entry = true ↔ ∃ row, Embeds db entry row ∧ since ≤ row.updatedAt := by
 simp only [changedSince, Bool.or_eq_true, Bool.and_eq_true, Option.any_eq_true, List.any_eq_true,
  decide_eq_true_eq, Option.bind_eq_some_iff]
 constructor
 · rintro ((hown | ⟨platformGame, h, (hchanged | ⟨platform, hplatform, hchanged⟩) | ⟨game, hgame, hchanged⟩⟩) |
     ⟨release, ⟨releaseId, hid, h⟩, hchanged⟩)
   · exact ⟨_, .entry, hown⟩
   · exact ⟨_, .platformGame h, hchanged⟩
   · exact ⟨_, .platform h hplatform, hchanged⟩
   · rcases hchanged with hchanged | ⟨link, hlink, hend, hchanged | ⟨baseGame, hbase, hchanged⟩⟩
     · exact ⟨_, .game h hgame, hchanged⟩
     · exact ⟨_, .link h hgame hlink hend, hchanged⟩
     · exact ⟨_, .baseGame h hgame hlink hend hbase, hchanged⟩
   · exact ⟨_, .release hid h, hchanged⟩
 · rintro ⟨row, hembeds, hchanged⟩
   cases hembeds with
   | entry => exact .inl (.inl hchanged)
   | platformGame h => exact .inl (.inr ⟨_, h, .inl (.inl hchanged)⟩)
   | platform h hplatform => exact .inl (.inr ⟨_, h, .inl (.inr ⟨_, hplatform, hchanged⟩)⟩)
   | game h hgame => exact .inl (.inr ⟨_, h, .inr ⟨_, hgame, .inl hchanged⟩⟩)
   | link h hgame hlink hend =>
    exact .inl (.inr ⟨_, h, .inr ⟨_, hgame, .inr ⟨_, hlink, hend, .inl hchanged⟩⟩⟩)
   | baseGame h hgame hlink hend hbase =>
     exact .inl (.inr ⟨_, h, .inr ⟨_, hgame, .inr ⟨_, hlink, hend, .inr ⟨_, hbase, hchanged⟩⟩⟩⟩)
   | release hid h => exact .inr ⟨_, ⟨_, hid, h⟩, hchanged⟩

end Embedded

section Unchanged

variable {since : ℤ} {before after : Tables γ} {entry : GameCollection}

def Unwritten (since : ℤ) (db : Tables γ) (entry : GameCollection) :
    Prop := ∀ row, Embeds db entry row → ¬since ≤ row.updatedAt

theorem Caught.included_eq (h : Caught since before after) (hnot : Unwritten since after entry) :
  included before entry = included after entry := by
 have hplatformGame :
  before.platformGames.find entry.platformGameId = after.platformGames.find entry.platformGameId :=
  h.platformGames.find_eq fun _ hfind => hnot _ (.platformGame hfind)
 have hrelease : entry.releaseId.bind before.releases.find = entry.releaseId.bind after.releases.find := by
  cases hid : entry.releaseId with
  | none => rfl
  | some releaseId => exact h.releases.find_eq fun _ hfind => hnot _ (.release hid hfind)
 unfold included
 rw [hplatformGame, hrelease]
 cases hfind : after.platformGames.find entry.platformGameId with
 | none => rfl
 | some platformGame =>
   have hplatform :
    before.platforms.find platformGame.platformId = after.platforms.find platformGame.platformId :=
    h.platforms.find_eq fun _ hplatform => hnot _ (.platform hfind hplatform)
   have hgame : before.games.find platformGame.gameId = after.games.find platformGame.gameId :=
    h.games.find_eq fun _ hgame => hnot _ (.game hfind hgame)
   simp only [Option.bind_eq_bind, Option.bind_some, hplatform, hgame]

theorem Caught.mem_linksTo_iff (h : Caught since before after) (hnot : Unwritten since after entry)
  {platformGame : PlatformGame} {game : Game γ}
  (hplatformGame : after.platformGames.find entry.platformGameId = some platformGame)
  (hgame : after.games.find platformGame.gameId = some game) (keeps : Game γ → Bool)
  (row : GameExpansion × Game γ) :
  row ∈ linksTo before [game.id] keeps ↔ row ∈ linksTo after [game.id] keeps := by
 obtain ⟨link, baseGame⟩ := row
 have hlinks : ∀ {link : GameExpansion}, link ∈ after.links.rows → link.expansionGameId = game.id →
     before.games.find link.baseGameId = after.games.find link.baseGameId := by
  intro link hlink hend
  exact h.games.find_eq fun _ hbase => hnot _ (.baseGame hplatformGame hgame hlink hend hbase)
 rw [mem_linksTo, mem_linksTo, List.mem_singleton]
 constructor
 · rintro ⟨hlink, hend, hbase, hkeeps⟩
   have hold := Table.find_key hlink
   obtain ⟨new, hnew, hcase⟩ := h.links.find_some hold
   have hnewEnd : new.expansionGameId = game.id := (h.linkEnds _ _ _ hold hnew).trans hend
   have hmem := (Table.find_mem hnew).1
   rcases hcase with heq | hwritten
   · rw [heq] at hmem
     exact ⟨hmem, hend, by rw [← hlinks hmem hend]; exact hbase, hkeeps⟩
   · exact absurd hwritten (hnot _ (.link hplatformGame hgame hmem hnewEnd))
 · rintro ⟨hlink, hend, hbase, hkeeps⟩
   have hold : before.links.find link.id = after.links.find link.id := by
    refine h.links.find_eq ?_
    intro found hfound
    rw [Table.find_key hlink] at hfound
    cases hfound
    exact hnot _ (.link hplatformGame hgame hlink hend)
   rw [Table.find_key hlink] at hold
   exact ⟨(Table.find_mem hold).1, hend, by rw [hlinks hlink hend]; exact hbase, hkeeps⟩

theorem Caught.baseGamesOf_eq {before after : Database γ}
  (h : Caught since before.toTables after.toTables) (hnot : Unwritten since after.toTables entry)
  {platformGame : PlatformGame} {game : Game γ}
  (hplatformGame : after.platformGames.find entry.platformGameId = some platformGame)
  (hgame : after.games.find platformGame.gameId = some game) (collation : Collation)
  (viewer : Viewer γ) :
  baseGamesOf collation before.toTables viewer game.id = baseGamesOf collation after.toTables viewer
   game.id := by
 have hstrict : ∀ a ∈ linksTo before.toTables [game.id] viewer.opens,
  ∀ b ∈ linksTo before.toTables [game.id] viewer.opens,
     linkOrder collation a b = true → linkOrder collation b a = true → a = b := by
  intro a ha b hb
  have hends : ∀ c ∈ linksTo before.toTables [game.id] viewer.opens, c.1.expansionGameId = game.id :=
   fun c hc => List.mem_singleton.1 (mem_linksTo.1 hc).2.1
  exact linkOrder_antisymm collation before ha hb ((hends a ha).trans (hends b hb).symm)
 rw [baseGamesOf, baseGamesOf, mergeSort_eq (linkOrder_ordered collation) (nodup_linksTo _ _ _)
  (nodup_linksTo _ _ _)
  (h.mem_linksTo_iff hnot hplatformGame hgame viewer.opens) hstrict]

theorem Caught.servedRow_eq {before after : Database γ}
  (h : Caught since before.toTables after.toTables) (hnot : Unwritten since after.toTables entry)
  (collation : Collation) (viewer : Viewer γ) :
  servedRow collation before.toTables viewer entry = servedRow collation after.toTables viewer entry := by
 rw [CollectionCatchUp.servedRow_eq, CollectionCatchUp.servedRow_eq, h.included_eq hnot]
 cases hplatformGame : after.platformGames.find entry.platformGameId with
 | none => simp [included, hplatformGame]
 | some platformGame =>
   cases hplatform : after.platforms.find platformGame.platformId with
   | none => simp [included, hplatformGame, hplatform]
   | some platform =>
     cases hgame : after.games.find platformGame.gameId with
     | none => simp [included, hplatformGame, hplatform, hgame]
     | some game =>
       have hbase := h.baseGamesOf_eq hnot hplatformGame hgame collation viewer
       simp [included, hplatformGame, hplatform, hgame, Game.select, hbase]

end Unchanged

section Pages

theorem exists_page {α : Type} {l : List α} {x : α} (h : x ∈ l) {size : ℕ} (hsize : 0 < size) :
  ∃ page, x ∈ (l.drop ((page - 1) * size)).take size := by
 obtain ⟨i, hi, rfl⟩ := List.getElem_of_mem h
 have hdiv : i / size * size + i % size = i := by rw [Nat.mul_comm]; exact Nat.div_add_mod i size
 have hmod := Nat.mod_lt i hsize
 refine ⟨i / size + 1, List.mem_iff_getElem.2 ⟨i % size, ?_, ?_⟩⟩
 · rw [List.length_take, List.length_drop, Nat.add_sub_cancel]
   omega
 · simp only [List.getElem_take, List.getElem_drop, Nat.add_sub_cancel, hdiv]

theorem mapM_included (db : Database γ) {entries : List GameCollection}
  (h : ∀ entry ∈ entries, entry ∈ db.collections.rows) :
  ∃ rows, entries.mapM (included db.toTables) = some rows ∧
   ∀ entry ∈ entries, ∃ row ∈ rows, included db.toTables entry = some row := by
 induction entries with
 | nil => exact ⟨[], rfl, List.forall_mem_nil _⟩
 | cons entry entries ih =>
   obtain ⟨row, hrow⟩ := included_of_mem db (h entry List.mem_cons_self)
   obtain ⟨rows, hrows, hall⟩ := ih fun entry hentry => h entry (List.mem_cons_of_mem _ hentry)
   refine ⟨row :: rows, by simp [List.mapM_cons, hrow, hrows], ?_⟩
   intro other hother
   rcases List.mem_cons.1 hother with rfl | hrest
   · exact ⟨row, List.mem_cons_self, hrow⟩
   · obtain ⟨found, hfound, heq⟩ := hall other hrest
     exact ⟨found, List.mem_cons_of_mem _ hfound, heq⟩

theorem listOwn_serves (collation : Collation) (db : Database γ) (viewer : Viewer γ)
  (query : ListGameCollectionsQuery) (hsize : 0 < query.pageSize) {entry : GameCollection}
  (hentry : entry ∈ db.collections.rows) (hwhere : ownWhere db.toTables viewer query entry = true) :
  ∃ page rows total, listOwn collation db.toTables viewer { query with page := page } = some
   (rows, total) ∧
   ∃ row ∈ rows, servedRow collation db.toTables viewer entry = some row := by
 let keeps := ownWhere db.toTables viewer query
 let entries := (db.collections.rows.filter keeps).mergeSort (newestFirst collation)
 have hmem : ∀ {other}, other ∈ entries ↔ other ∈ db.collections.rows.filter keeps :=
  (List.mergeSort_perm _ _).mem_iff
 obtain ⟨page, hpage⟩ := exists_page (hmem.2 (List.mem_filter.2 ⟨hentry, hwhere⟩)) hsize
 have hin : ∀ other ∈ (entries.drop ((page - 1) * query.pageSize)).take query.pageSize,
  other ∈ db.collections.rows :=
  fun other hother => (List.mem_filter.1 (hmem.1 (List.mem_of_mem_drop (List.mem_of_mem_take hother)))).1
 obtain ⟨found, hfound, hall⟩ := mapM_included db hin
 obtain ⟨row, hrow, hincluded⟩ := hall entry hpage
 have hread : listOwn collation db.toTables viewer { query with page := page } =
     some (rowsWithBaseGames collation db.toTables viewer found,
      (db.collections.rows.filter keeps).length) := by
  change Option.map _
   (((entries.drop ((page - 1) * query.pageSize)).take query.pageSize).mapM (included db.toTables)) = _
  rw [hfound]
  rfl
 refine ⟨page, _, _, hread, _, ?_, by rw [servedRow_eq, hincluded]; rfl⟩
 rw [rowsWithBaseGames_eq]
 exact List.mem_map.2 ⟨row, hrow, rfl⟩

end Pages

section CatchUp

def servedAs (collation : Collation) (db : Tables γ) (viewer : Viewer γ) (id : Text) :
    Option GameCollectionRow :=
  (db.collections.find id).bind (servedRow collation db viewer)

/-- An entry of the later state that is new in it, or served as another row than before. -/
def Differs (collation : Collation) (viewer : Viewer γ) (before after : Tables γ)
    (entry : GameCollection) : Prop :=
  before.collections.find entry.id = none ∨
   servedAs collation before viewer entry.id ≠ servedAs collation after viewer entry.id

/-- What asking for the entries changed since a time gives who last saw the earlier state. -/
structure CatchesUp (collation : Collation) (viewer : Viewer γ) (since : ℤ)
    (before after : Tables γ) : Prop where
  changed : ∀ entry ∈ after.collections.rows, Differs collation viewer before after entry →
   changedSince after since entry = true
  written : ∀ entry ∈ after.collections.rows, changedSince after since entry = true →
    ∃ row, Embeds after entry row ∧ since ≤ row.updatedAt
  sent : ∀ entry ∈ after.collections.rows, Differs collation viewer before after entry →
    ∀ query : ListGameCollectionsQuery, query.updatedSince = none → 0 < query.pageSize →
     ownWhere after viewer query entry = true →
      ∃ page rows total, listOwn collation after viewer
       { query with page := page, updatedSince := some since } = some (rows, total) ∧
        ∃ row ∈ rows, servedRow collation after viewer entry = some row

theorem Caught.changed {since : ℤ} {before after : Database γ}
  (h : Caught since before.toTables after.toTables) (collation : Collation)
  (viewer : Viewer γ) {entry : GameCollection} (hentry : entry ∈ after.collections.rows)
  (hdiffers : Differs collation viewer before.toTables after.toTables entry) :
   changedSince after.toTables since entry = true := by
 by_contra hchanged
 have hnot : Unwritten since after.toTables entry := fun row hembeds hwritten =>
  hchanged (changedSince_iff.2 ⟨row, hembeds, hwritten⟩)
 have hafter := Table.find_key hentry
 have hbefore : before.collections.find entry.id = some entry := by
  rw [← hafter]
  refine h.collections.find_eq ?_
  intro found hfound
  rw [hafter] at hfound
  cases hfound
  exact hnot _ .entry
 rcases hdiffers with hnew | hserved
 · rw [hbefore] at hnew
   cases hnew
 · apply hserved
   rw [servedAs, servedAs, hbefore, hafter]
   exact h.servedRow_eq hnot collation viewer

theorem changedSince_catches_up (collation : Collation) (viewer : Viewer γ) (since : ℤ)
    (before after : Database γ) (hrun : Relation.ReflTransGen (Write since) before after) :
    CatchesUp collation viewer since before.toTables after.toTables where
 changed entry hentry := (caught_of_run hrun).changed collation viewer hentry
 written entry hentry := changedSince_iff.1
 sent entry hentry hdiffers query hsince hsize hwhere := by
  have hchanged := (caught_of_run hrun).changed collation viewer hentry hdiffers
  refine listOwn_serves collation after viewer { query with updatedSince := some since } hsize hentry ?_
  simpa [ownWhere, hsince, hchanged] using hwhere

def shelf : Database Unit where
  collections :=
   ⟨[⟨['c'], ['u'], ['p'], none, .physical, 1, .privateReach, none, none, none, none, none, none,
    none, none, none, 0, 0⟩],
    by decide⟩
  platformGames := ⟨[⟨['p'], ['x'], ['t'], none, none, ⟨none, none, none, none⟩, 0⟩], by decide⟩
  platforms := ⟨[⟨['t'], ['T'], ['t'], .tabletop, 0⟩], by decide⟩
  games := ⟨[⟨['x'], ['X'], none, none, none, .expansion, none, ⟨none, none, none, none⟩, none, (), 0⟩,
    ⟨['b'], ['B'], none, none, none, .baseGame, none, ⟨none, none, none, none⟩, none, (), 0⟩], by decide⟩
  links := ⟨[⟨['l'], ['b'], ['x'], false, 0⟩], by decide⟩
  releases := ⟨[], by decide⟩
  platformGameOf := by decide
  platformOf := by decide
  gameOf := by decide
  linkUnique := by decide

def shelfWithoutBase : Database Unit where
  toTables := { shelf.toTables with
    games := shelf.games.put ⟨['b'], ['B'], none, none, none, .baseGame, none,
     ⟨none, none, none, none⟩, some 12, (), 12⟩ }
  platformGameOf := by decide
  platformOf := by decide
  gameOf := by decide
  linkUnique := by decide

def byCodeUnits : Collation where
  le := textLe
  ordered := ⟨fun _ _ _ => textLe_trans, textLe_total⟩
  antisymm _ _ := textLe_antisymm

theorem shelf_catches_up :
    CatchesUp byCodeUnits ⟨['u'], fun _ _ => true, fun _ => true⟩ 10 shelf.toTables
     shelfWithoutBase.toTables :=
 changedSince_catches_up byCodeUnits _ 10 shelf shelfWithoutBase (.single (.game _ (by decide) rfl))

end CatchUp

end BoardGamesEmpire.CollectionCatchUp
