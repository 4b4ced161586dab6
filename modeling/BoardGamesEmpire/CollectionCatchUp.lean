import BoardGamesEmpire.GameSearchFilter
import BoardGamesEmpire.JsMap
import BoardGamesEmpire.StampedTables

set_option autoImplicit false

/-!
# Catching up on a collection

A row of a collection embeds rows of six other tables, and its base games come
from a read of their own. A client catches up by asking for the entries changed
since a time. It is sent every entry whose row is another than it was, and none
without a row behind it that was written since.
-/
namespace BoardGamesEmpire.CollectionCatchUp
open JsText StampedTables

local instance : LawfulBEq Text := inferInstance

section Rows

inductive GameMedium where
  | physical
  | digital
deriving DecidableEq

inductive Reach where
  | friends
  | friendsOfFriends
  | privateReach
  | publicReach
deriving DecidableEq

inductive GameRemovalReason where
  | destroyed
  | gifted
  | lost
  | other
  | sold
  | stolen
  | traded
deriving DecidableEq

structure GameCollection where
  id : Text
  userId : Text
  platformGameId : Text
  releaseId : Option Text
  medium : GameMedium
  quantity : ℤ
  reach : Reach
  rating : Option ℤ
  playCount : Option ℤ
  playAgain : Option Bool
  favorite : Option Bool
  comment : Option Text
  lastPlayed : Option ℤ
  lastUpdated : Option ℤ
  deletedAt : Option ℤ
  deleteReason : Option GameRemovalReason
  createdAt : ℤ
  updatedAt : ℤ
deriving DecidableEq

structure PlayersAndPlayTime where
  minPlayers : Option ℤ
  maxPlayers : Option ℤ
  minPlayTime : Option ℤ
  maxPlayTime : Option ℤ
deriving DecidableEq

structure PlatformGame where
  id : Text
  gameId : Text
  platformId : Text
  image : Option Text
  thumbnail : Option Text
  playersAndPlayTime : PlayersAndPlayTime
  updatedAt : ℤ

structure Platform where
  id : Text
  name : Text
  slug : Text
  platformType : GameSearch.PlatformType
  updatedAt : ℤ

/-- A game; `columns` are those that no collection row shows, which a viewer's
    ceiling may read. -/
structure Game (γ : Type) where
  id : Text
  title : Text
  subtitle : Option Text
  image : Option Text
  thumbnail : Option Text
  contentType : GameSearch.ContentType
  publishYear : Option ℤ
  playersAndPlayTime : PlayersAndPlayTime
  deletedAt : Option ℤ
  columns : γ
  updatedAt : ℤ

structure GameExpansion where
  id : Text
  baseGameId : Text
  expansionGameId : Text
  isStandalone : Bool
  updatedAt : ℤ

structure GameRelease where
  id : Text
  editionName : Option Text
  releaseYear : Option ℤ
  updatedAt : ℤ

structure Tables (γ : Type) where
  collections : Table GameCollection.id
  platformGames : Table PlatformGame.id
  platforms : Table Platform.id
  games : Table (Game.id (γ := γ))
  links : Table GameExpansion.id
  releases : Table GameRelease.id

structure Database (γ : Type) extends Tables γ where
  platformGameOf : ∀ entry ∈ collections.rows, (platformGames.find entry.platformGameId).isSome = true
  platformOf : ∀ platformGame ∈ platformGames.rows, (platforms.find platformGame.platformId).isSome = true
  gameOf : ∀ platformGame ∈ platformGames.rows, (games.find platformGame.gameId).isSome = true
  linkUnique : (links.rows.map fun link => (link.baseGameId, link.expansionGameId)).Nodup

end Rows

section Served

variable {γ : Type}

structure SelectedPlatform where
  id : Text
  name : Text
  slug : Text
  platformType : GameSearch.PlatformType
deriving DecidableEq

structure SelectedGame where
  id : Text
  title : Text
  subtitle : Option Text
  image : Option Text
  thumbnail : Option Text
  contentType : GameSearch.ContentType
  publishYear : Option ℤ
  playersAndPlayTime : PlayersAndPlayTime
deriving DecidableEq

structure SelectedRelease where
  id : Text
  editionName : Option Text
  releaseYear : Option ℤ
deriving DecidableEq

structure SelectedPlatformGame (σ : Type) where
  id : Text
  image : Option Text
  thumbnail : Option Text
  playersAndPlayTime : PlayersAndPlayTime
  platform : SelectedPlatform
  game : σ
deriving DecidableEq

/-- An entry with its relations, its game shown as `σ`. -/
structure CollectionRow (σ : Type) where
  entry : GameCollection
  platformGame : SelectedPlatformGame σ
  release : Option SelectedRelease
deriving DecidableEq

structure ExpansionLink where
  gameId : Text
  isStandalone : Bool
deriving DecidableEq

structure GameWithBaseGames where
  game : SelectedGame
  baseGames : List ExpansionLink
deriving DecidableEq

abbrev GameCollectionWithRelations := CollectionRow SelectedGame
abbrev GameCollectionRow := CollectionRow GameWithBaseGames

def Platform.select (platform : Platform) :
    SelectedPlatform := ⟨platform.id, platform.name, platform.slug, platform.platformType⟩

def Game.select (game : Game γ) : SelectedGame :=
  ⟨game.id, game.title, game.subtitle, game.image, game.thumbnail, game.contentType,
   game.publishYear, game.playersAndPlayTime⟩

def GameRelease.select (release : GameRelease) :
    SelectedRelease := ⟨release.id, release.editionName, release.releaseYear⟩

/-- `COLLECTION_INCLUDE`: an entry is not read where a row it needs is missing. -/
def included (db : Tables γ) (entry : GameCollection) : Option GameCollectionWithRelations := do
  let platformGame ← db.platformGames.find entry.platformGameId
  let platform ← db.platforms.find platformGame.platformId
  let game ← db.games.find platformGame.gameId
  some ⟨entry, ⟨platformGame.id, platformGame.image, platformGame.thumbnail,
   platformGame.playersAndPlayTime, platform.select, game.select⟩,
    (entry.releaseId.bind db.releases.find).map GameRelease.select⟩

def changedSince (db : Tables γ) (since : ℤ) (entry : GameCollection) : Bool :=
  decide (since ≤ entry.updatedAt) ||
    ((db.platformGames.find entry.platformGameId).any fun platformGame =>
      decide (since ≤ platformGame.updatedAt) ||
        ((db.platforms.find platformGame.platformId).any fun platform =>
         decide (since ≤ platform.updatedAt)) ||
        ((db.games.find platformGame.gameId).any fun game =>
          decide (since ≤ game.updatedAt) ||
            db.links.rows.any fun link =>
              decide (link.expansionGameId = game.id) &&
                (decide (since ≤ link.updatedAt) ||
                  (db.games.find link.baseGameId).any fun baseGame =>
                   decide (since ≤ baseGame.updatedAt)))) ||
    ((entry.releaseId.bind db.releases.find).any fun release => decide (since ≤ release.updatedAt))

structure Collation where
  le : Text → Text → Bool
  ordered : TotalOrder le
  antisymm : ∀ a b, le a b = true → le b a = true → a = b

/-- A viewer of its own collection, with its ceilings on entries and on games. -/
structure Viewer (γ : Type) where
  userId : Text
  mayRead : Tables γ → GameCollection → Bool
  mayOpen : Game γ → Bool

variable (collation : Collation)

def linkOrder : GameExpansion × Game γ → GameExpansion × Game γ → Bool :=
  thenBy (fun a b => collation.le a.2.title b.2.title) fun a b =>
   collation.le a.1.baseGameId b.1.baseGameId

/-- The links of some expansions to the base games that a filter keeps. -/
def linksTo (db : Tables γ) (expansionGameIds : List Text) (baseGameWhere : Game γ → Bool) :
    List (GameExpansion × Game γ) :=
  db.links.rows.filterMap fun link =>
    if link.expansionGameId ∈ expansionGameIds then
      ((db.games.find link.baseGameId).filter baseGameWhere).map fun baseGame => (link, baseGame)
    else none

def expansionLink (row : GameExpansion × Game γ) : ExpansionLink := ⟨row.1.baseGameId, row.1.isStandalone⟩

def readBaseGameLinks (db : Tables γ) (expansionGameIds : List Text) (baseGameWhere : Game γ → Bool)
    : List (Text × List ExpansionLink) :=
  if expansionGameIds.isEmpty then []
  else
    setsGrouped (fun row => row.1.expansionGameId) expansionLink
      ((linksTo db expansionGameIds baseGameWhere).mergeSort (linkOrder collation))

def Viewer.opens (viewer : Viewer γ) (game : Game γ) : Bool := viewer.mayOpen game && game.deletedAt.isNone

def CollectionRow.withGame {σ σ' : Type} (row : CollectionRow σ) (game : σ') : CollectionRow σ' :=
  ⟨row.entry, ⟨row.platformGame.id, row.platformGame.image, row.platformGame.thumbnail,
   row.platformGame.playersAndPlayTime,
    row.platformGame.platform, game⟩, row.release⟩

def rowsWithBaseGames (db : Tables γ) (viewer : Viewer γ) (rows : List GameCollectionWithRelations)
    : List GameCollectionRow :=
  let links := readBaseGameLinks collation db
   (rows.map fun row => row.platformGame.game.id).eraseDups viewer.opens
  rows.map fun row => row.withGame ⟨row.platformGame.game, (mapGet links row.platformGame.game.id).getD []⟩

def rowWithBaseGames (db : Tables γ) (viewer : Viewer γ) (row : GameCollectionWithRelations) :
    Option GameCollectionRow :=
  (rowsWithBaseGames collation db viewer [row]).head?

def servedRow (db : Tables γ) (viewer : Viewer γ) (entry : GameCollection) : Option GameCollectionRow :=
  (included db entry).bind (rowWithBaseGames collation db viewer)

structure ListGameCollectionsQuery where
  page : ℕ
  limit : Option ℕ
  includeDeleted : Bool
  deletedOnly : Bool
  medium : Option GameMedium
  favorite : Option Bool
  updatedSince : Option ℤ

def defaultPageSize : ℕ := 25

def ListGameCollectionsQuery.pageSize (query : ListGameCollectionsQuery) : ℕ :=
    query.limit.getD defaultPageSize

def ListGameCollectionsQuery.skip (query : ListGameCollectionsQuery) : ℕ :=
    (query.page - 1) * query.pageSize

/-- What `listOwn` asks of an entry: the composed scope, and the caller's filters. -/
def ownWhere (db : Tables γ) (viewer : Viewer γ) (query : ListGameCollectionsQuery)
    (entry : GameCollection) : Bool :=
  (viewer.mayRead db entry && decide (entry.userId = viewer.userId)) &&
    ((if query.deletedOnly then entry.deletedAt.isSome else query.includeDeleted
     || entry.deletedAt.isNone) &&
      (query.medium.all fun medium => decide (entry.medium = medium)) &&
      (query.favorite.all fun favorite => decide (entry.favorite = some favorite)) &&
      query.updatedSince.all fun since => changedSince db since entry)

def newestFirst : GameCollection → GameCollection → Bool :=
  thenBy (fun a b => decide (b.updatedAt ≤ a.updatedAt)) fun a b => collation.le b.id a.id

def paginate (db : Tables γ) (viewer : Viewer γ) (keeps : GameCollection →
    Bool) (query : ListGameCollectionsQuery) :
    Option (List GameCollectionRow × ℕ) :=
  let entries := (db.collections.rows.filter keeps).mergeSort (newestFirst collation)
  (((entries.drop query.skip).take query.pageSize).mapM (included db)).map fun rows =>
    (rowsWithBaseGames collation db viewer rows, (db.collections.rows.filter keeps).length)

def listOwn (db : Tables γ) (viewer : Viewer γ) (query : ListGameCollectionsQuery) :
    Option (List GameCollectionRow × ℕ) :=
  paginate collation db viewer (ownWhere db viewer query) query

end Served

section Writes

variable {γ : Type}

/-- A create or an update of one row, which takes a time at or after `since`.
    No link moves to another expansion. -/
inductive Write (since : ℤ) (before after : Database γ) : Prop where
  | collection (row : GameCollection) (hstamp : since ≤ row.updatedAt)
    (h : after.toTables = { before.toTables with collections := before.collections.put row })
  | platformGame (row : PlatformGame) (hstamp : since ≤ row.updatedAt)
    (h : after.toTables = { before.toTables with platformGames := before.platformGames.put row })
  | platform (row : Platform) (hstamp : since ≤ row.updatedAt)
    (h : after.toTables = { before.toTables with platforms := before.platforms.put row })
  | game (row : Game γ) (hstamp : since ≤ row.updatedAt)
    (h : after.toTables = { before.toTables with games := before.games.put row })
  | link (row : GameExpansion) (hstamp : since ≤ row.updatedAt)
    (hend : ∀ old, before.links.find row.id = some old → row.expansionGameId = old.expansionGameId)
    (h : after.toTables = { before.toTables with links := before.links.put row })
  | release (row : GameRelease) (hstamp : since ≤ row.updatedAt)
    (h : after.toTables = { before.toTables with releases := before.releases.put row })

structure Caught (since : ℤ) (before after : Tables γ) : Prop where
  collections : WrittenSince GameCollection.updatedAt since before.collections after.collections
  platformGames : WrittenSince PlatformGame.updatedAt since before.platformGames after.platformGames
  platforms : WrittenSince Platform.updatedAt since before.platforms after.platforms
  games : WrittenSince Game.updatedAt since before.games after.games
  links : WrittenSince GameExpansion.updatedAt since before.links after.links
  releases : WrittenSince GameRelease.updatedAt since before.releases after.releases
  linkEnds : ∀ id old new, before.links.find id = some old → after.links.find id = some new →
   new.expansionGameId = old.expansionGameId

theorem Caught.refl (since : ℤ) (db : Tables γ) : Caught since db db where
 collections := .refl _ _ _
 platformGames := .refl _ _ _
 platforms := .refl _ _ _
 games := .refl _ _ _
 links := .refl _ _ _
 releases := .refl _ _ _
 linkEnds _ old new hold hnew := by
  rw [hold] at hnew
  cases hnew
  rfl

theorem Caught.trans {since : ℤ} {a b c : Tables γ} (h : Caught since a b) (h' : Caught since b c) :
  Caught since a c where
 collections := h.collections.trans h'.collections
 platformGames := h.platformGames.trans h'.platformGames
 platforms := h.platforms.trans h'.platforms
 games := h.games.trans h'.games
 links := h.links.trans h'.links
 releases := h.releases.trans h'.releases
 linkEnds id old new hold hnew := by
  obtain ⟨mid, hmid, -⟩ := h.links.find_some hold
  exact (h'.linkEnds id mid new hmid hnew).trans (h.linkEnds id old mid hold hmid)

theorem Write.caught {since : ℤ} {before after : Database γ} (h : Write since before after) :
  Caught since before.toTables after.toTables := by
 have hrefl := Caught.refl since before.toTables
 cases h with
 | collection row hstamp h =>
   rw [h]
   exact { hrefl with collections := .put _ hstamp }
 | platformGame row hstamp h =>
   rw [h]
   exact { hrefl with platformGames := .put _ hstamp }
 | platform row hstamp h =>
   rw [h]
   exact { hrefl with platforms := .put _ hstamp }
 | game row hstamp h =>
   rw [h]
   exact { hrefl with games := .put _ hstamp }
 | release row hstamp h =>
   rw [h]
   exact { hrefl with releases := .put _ hstamp }
 | link row hstamp hend h =>
   rw [h]
   refine { hrefl with links := .put _ hstamp, linkEnds := ?_ }
   intro id old new hold hnew
   rw [Table.find_put] at hnew
   split at hnew
   · next heq =>
     cases hnew
     exact hend old (by rw [heq]; exact hold)
   · rw [hold] at hnew
     cases hnew
     rfl

theorem caught_of_run {since : ℤ} {before after : Database γ}
  (h : Relation.ReflTransGen (Write since) before after) :
  Caught since before.toTables after.toTables := by
 induction h with
 | refl => exact .refl since _
 | tail _ hwrite ih => exact ih.trans hwrite.caught

end Writes

end BoardGamesEmpire.CollectionCatchUp
