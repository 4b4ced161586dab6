import BoardGamesEmpire.JsonObject

set_option autoImplicit false

/-!
# Friend requests

`FriendshipService`, call by call. A call reads, decides on what it read, and
writes one row; between its reads and its write the calls of others go on. The
scope conditions admit the two participants of a row.
-/
namespace BoardGamesEmpire.FriendshipService
open JsText JsonText

inductive FriendshipStatus where
  | accepted | blocked | declined | pending | withdrawn
deriving DecidableEq

inductive RespondableFriendshipStatus where
  | accepted | declined | withdrawn | blocked
deriving DecidableEq

def RespondableFriendshipStatus.status : RespondableFriendshipStatus → FriendshipStatus
  | .accepted => .accepted
  | .declined => .declined
  | .withdrawn => .withdrawn
  | .blocked => .blocked

structure Friendship where
  id : ℕ
  requesterId : Text
  addresseeId : Text
  pairKey : Text
  status : FriendshipStatus
  message : Option Text
  respondedAt : Option ℕ
deriving DecidableEq

/-- `[a, b].sort().join(':')`. -/
def pairKey (a b : Text) : Text :=
  if textLe a b then a ++ ':' :: b else b ++ ':' :: a

inductive Refusal where
  | selfRequest | userNotFound | requestsDisabled | alreadyFriends | alreadyPending | cannotRequest
  | alreadyExists | notFound | onlyRecipientResponds | onlySenderWithdraws | notPending | alreadyBlocked
  | cannotRemoveBlocker | forbiddenModify
deriving DecidableEq

inductive Request where
  | create (addresseeId : Text) (message : Option Text)
  | respond (id : ℕ) (status : RespondableFriendshipStatus)
  | remove (id : ℕ)
deriving DecidableEq

/-- Where a call stands: before its reads, between the two reads of a create,
    before its write with what it read, or answered. -/
inductive Phase where
  | begun
  | addresseeRead
  | pairRead
  | rowRead (seen : Friendship)
  | answered (refusal : Option Refusal)
deriving DecidableEq

structure Call where
  userId : Text
  request : Request
  phase : Phase
deriving DecidableEq

/-- One write: who made it, for which request, and the row before and after. -/
structure WriteRecord where
  userId : Text
  request : Request
  before : Option Friendship
  after : Option Friendship
deriving DecidableEq

/-- The table, the calls under way, and every write so far; the clock also
    gives the fresh ids. -/
structure System where
  rows : List Friendship
  calls : List Call
  clock : ℕ
  history : List WriteRecord

def participates (userId : Text) (row : Friendship) : Bool :=
  row.requesterId == userId || row.addresseeId == userId

section Decisions

/-- The switch of `create` over the row between the two users. -/
def createRefusal : Option Friendship → Option Refusal
  | none => none
  | some row =>
    match row.status with
    | .accepted => some .alreadyFriends
    | .pending => some .alreadyPending
    | .blocked => some .cannotRequest
    | .declined | .withdrawn => none

/-- The switch of `respond` over the row it loaded. -/
def respondRefusal (userId : Text) (status : RespondableFriendshipStatus) (row : Friendship) :
    Option Refusal :=
  match status with
  | .accepted | .declined =>
    if row.addresseeId ≠ userId then some .onlyRecipientResponds
    else if row.status ≠ .pending then some .notPending
    else none
  | .withdrawn =>
    if row.requesterId ≠ userId then some .onlySenderWithdraws
    else if row.status ≠ .pending then some .notPending
    else none
  | .blocked => if row.status = .blocked then some .alreadyBlocked else none

def removeRefusal (userId : Text) (row : Friendship) : Option Refusal :=
  if row.status = .blocked ∧ row.requesterId ≠ userId then some .cannotRemoveBlocker else none

def refusal (userId : Text) : Request → Friendship → Option Refusal
  | .create _ _, _ => none
  | .respond _ status, row => respondRefusal userId status row
  | .remove _, row => removeRefusal userId row

end Decisions

section Writes

def repurposable (row : Friendship) : Bool := row.status == .declined || row.status == .withdrawn

def findBetween (rows : List Friendship) (a b : Text) : Option Friendship :=
  rows.find? fun row => row.pairKey == pairKey a b

def findById (rows : List Friendship) (id : ℕ) : Option Friendship := rows.find? fun row => row.id == id

def replaceRow (rows : List Friendship) (next : Friendship) : List Friendship :=
  rows.map fun row => if row.id = next.id then next else row

def reactivated (requesterId addresseeId : Text) (message : Option Text) (row : Friendship) : Friendship :=
  { row with requesterId, addresseeId, status := .pending, message, respondedAt := none }

/-- What `respond` writes over the row, given the row it loaded. A block turns
    the row so that the blocker is its requester. -/
def responded (userId : Text) (status : RespondableFriendshipStatus) (seen : Friendship) (now : ℕ)
    (row : Friendship) : Friendship :=
  match status with
  | .blocked =>
    { row with
      requesterId := userId
      addresseeId := if seen.addresseeId = userId then seen.requesterId else seen.addresseeId
      status := .blocked
      respondedAt := some now }
  | .accepted | .declined | .withdrawn => { row with status := status.status, respondedAt := some now }

structure Outcome where
  refusal : Option Refusal
  rows : List Friendship
  record : Option (Option Friendship × Option Friendship)

/-- The `upsert` of `create`: its update branch takes only a repurposable row,
    and its create branch meets the unique key. -/
def writeCreate (userId addresseeId : Text) (message : Option Text) (rows : List Friendship) (clock : ℕ) :
    Outcome :=
  match findBetween rows userId addresseeId with
  | some row =>
    if repurposable row then
      ⟨none, replaceRow rows (reactivated userId addresseeId message row),
        some (some row, some (reactivated userId addresseeId message row))⟩
    else ⟨some .alreadyExists, rows, none⟩
  | none =>
    let row : Friendship :=
     ⟨clock, userId, addresseeId, pairKey userId addresseeId, .pending, message, none⟩
    ⟨none, rows ++ [row], some (none, some row)⟩

/-- `updateScoped`. -/
def writeRespond (userId : Text) (id : ℕ) (status : RespondableFriendshipStatus) (seen : Friendship)
    (rows : List Friendship) (clock : ℕ) : Outcome :=
  match findById rows id with
  | some row =>
    if participates userId row then
      ⟨none, replaceRow rows (responded userId status seen clock row),
        some (some row, some (responded userId status seen clock row))⟩
    else ⟨some .forbiddenModify, rows, none⟩
  | none => ⟨some .forbiddenModify, rows, none⟩

/-- The `delete` of `remove`. -/
def writeRemove (userId : Text) (id : ℕ) (rows : List Friendship) : Outcome :=
  match findById rows id with
  | some row =>
    if participates userId row then ⟨none, rows.filter (·.id ≠ id), some (some row, none)⟩
    else ⟨some .forbiddenModify, rows, none⟩
  | none => ⟨some .forbiddenModify, rows, none⟩

end Writes

section Steps

/-- The users, by id: whether they exist, and the preference row if they have
    one. Other services change it, so it is read at a time. -/
abbrev Directory := ℕ → Text → Option (Option Bool)

def firstRead (directory : Directory) (s : System) (userId : Text) : Request → Phase
  | .create addresseeId _ =>
    if userId = addresseeId then .answered (some .selfRequest)
    else
      match directory s.clock addresseeId with
      | none => .answered (some .userNotFound)
      | some preferences =>
        if preferences = some false then .answered (some .requestsDisabled) else .addresseeRead
  | .respond id status =>
    match (findById s.rows id).filter (participates userId) with
    | none => .answered (some .notFound)
    | some row =>
      match respondRefusal userId status row with
      | some reason => .answered (some reason)
      | none => .rowRead row
  | .remove id =>
    match (findById s.rows id).filter (participates userId) with
    | none => .answered (some .notFound)
    | some row =>
      match removeRefusal userId row with
      | some reason => .answered (some reason)
      | none => .rowRead row

/-- The second read of `create`. -/
def secondRead (s : System) (userId : Text) : Request → Phase
  | .create addresseeId _ =>
    match createRefusal (findBetween s.rows userId addresseeId) with
    | some reason => .answered (some reason)
    | none => .pairRead
  | .respond _ _ | .remove _ => .answered none

def outcome (s : System) (userId : Text) : Request → Phase → Outcome
  | .create addresseeId message, .pairRead => writeCreate userId addresseeId message s.rows s.clock
  | .respond id status, .rowRead seen => writeRespond userId id status seen s.rows s.clock
  | .remove id, .rowRead _ => writeRemove userId id s.rows
  | _, _ => ⟨none, s.rows, none⟩

inductive Action where
  | begin (userId : Text) (request : Request)
  | advance (i : ℕ)
deriving DecidableEq

def setPhase (s : System) (i : ℕ) (call : Call) (phase : Phase) : System :=
  { s with calls := s.calls.set i { call with phase }, clock := s.clock + 1 }

def advance (directory : Directory) (s : System) (i : ℕ) (call : Call) : Option System :=
  match call.phase with
  | .begun => some (setPhase s i call (firstRead directory s call.userId call.request))
  | .addresseeRead => some (setPhase s i call (secondRead s call.userId call.request))
  | .pairRead | .rowRead _ =>
    let result := outcome s call.userId call.request call.phase
    some { setPhase s i call (.answered result.refusal) with
      rows := result.rows
      history := s.history ++
        (result.record.map fun r => ⟨call.userId, call.request, r.1, r.2⟩ : Option WriteRecord).toList }
  | .answered _ => none

def step (directory : Directory) (s : System) : Action → Option System
  | .begin userId request =>
    some { s with calls := s.calls ++ [⟨userId, request, .begun⟩], clock := s.clock + 1 }
  | .advance i => s.calls[i]?.bind (advance directory s i)

def initial : System := ⟨[], [], 0, []⟩

inductive ReachableBy (directory : Directory) (allowed : System → Action → Prop) : System → Prop where
  | start : ReachableBy directory allowed initial
  | step {s s' : System} (a : Action) (h : ReachableBy directory allowed s) (hallowed : allowed s a)
      (hstep : step directory s a = some s') : ReachableBy directory allowed s'

end Steps

end BoardGamesEmpire.FriendshipService
