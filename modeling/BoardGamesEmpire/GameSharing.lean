import BoardGamesEmpire.ReadCommittedSection

set_option autoImplicit false

/-!
# Sharing a game into a household

`GameShareService` and `HouseholdGameShareService`, beside the requests that
move a household's roster and those that delete a household and take it back.
Who may do what is the actor's ability, a function of what it is asked about.
-/
namespace BoardGamesEmpire.GameSharing
open ReadCommitted ReadCommittedProtocol

section Rows

structure Household where
  deletedAt : Option ℕ
deriving DecidableEq

/-- The names of household roles; the catalog may hold variants of its own. -/
inductive HouseholdRole where
  | householdOwner | householdAdmin | householdMember | householdGuest
  | variant (name : ℕ)
deriving DecidableEq

inductive AssignableHouseholdRole where
  | householdAdmin | householdMember | householdGuest
deriving DecidableEq

def AssignableHouseholdRole.role : AssignableHouseholdRole → HouseholdRole
  | .householdAdmin => .householdAdmin
  | .householdMember => .householdMember
  | .householdGuest => .householdGuest

inductive MemberSharePolicy where
  | off | needsApproval | direct
deriving DecidableEq

structure Game where
  deletedAt : Option ℕ
  createdById : Option ℕ
deriving DecidableEq

structure User where
  isServiceAccount : Bool
  isAnonymous : Option Bool
deriving DecidableEq

/-- `HUMAN_USER_WHERE`. -/
def User.isHuman (user : User) : Bool := !user.isServiceAccount && user.isAnonymous != some true

inductive Recipient where
  | user (userId : ℕ)
  | household (householdId : ℕ)
deriving DecidableEq

def Recipient.householdId : Recipient → Option ℕ
  | .user _ => none
  | .household householdId => some householdId

structure GameShare where
  gameId : ℕ
  recipient : Recipient
  sharedById : Option ℕ
  approvedById : Option ℕ
  approvedAt : Option ℕ
  createdAt : ℕ
deriving DecidableEq

/-- `shareIndex` is the unique index on a share's game and recipient; `block`
    is a blocked friendship, by the side that asked and the one it asked. -/
inductive Key where
  | household (id : ℕ)
  | settings (householdId : ℕ)
  | member (householdId memberId : ℕ)
  | householdRole (householdId memberId : ℕ)
  | role (name : HouseholdRole)
  | game (id : ℕ)
  | user (id : ℕ)
  | block (requesterId addresseeId : ℕ)
  | share (id : ℕ)
  | shareIndex (gameId : ℕ) (recipient : Recipient)
deriving DecidableEq

/-- A member's row holds its user, an index entry the share it leads to. -/
abbrev Row : Key → Type
  | .household _ => Household
  | .settings _ => MemberSharePolicy
  | .member _ _ => ℕ
  | .householdRole _ _ => HouseholdRole
  | .role _ => Unit
  | .game _ => Game
  | .user _ => User
  | .block _ _ => Unit
  | .share _ => GameShare
  | .shareIndex _ _ => ℕ

abbrev Db := AList Row

/-- The rows of other services: settings, the catalog, games, users, blocks. -/
def outside : Key → Bool
  | .settings _ | .role _ | .game _ | .user _ | .block _ _ => true
  | .household _ | .member _ _ | .householdRole _ _ | .share _ | .shareIndex _ _ => false

abbrev household? (v : Db) (id : ℕ) : Option Household := v.lookup (.household id)

abbrev settings? (v : Db) (householdId : ℕ) : Option MemberSharePolicy := v.lookup (.settings householdId)

abbrev member? (v : Db) (householdId memberId : ℕ) : Option ℕ := v.lookup (.member householdId memberId)

abbrev householdRole? (v : Db) (householdId memberId : ℕ) : Option HouseholdRole :=
  v.lookup (.householdRole householdId memberId)

abbrev role? (v : Db) (name : HouseholdRole) : Option Unit := v.lookup (.role name)

abbrev game? (v : Db) (id : ℕ) : Option Game := v.lookup (.game id)

abbrev user? (v : Db) (id : ℕ) : Option User := v.lookup (.user id)

abbrev block? (v : Db) (requesterId addresseeId : ℕ) : Option Unit :=
    v.lookup (.block requesterId addresseeId)

abbrev share? (v : Db) (id : ℕ) : Option GameShare := v.lookup (.share id)

abbrev index? (v : Db) (gameId : ℕ) (recipient : Recipient) : Option ℕ :=
    v.lookup (.shareIndex gameId recipient)

def isLive (v : Db) (householdId : ℕ) : Bool := (household? v householdId).any (·.deletedAt.isNone)

structure RosterRow where
  userId : ℕ
  role : Option HouseholdRole
deriving DecidableEq

def asMember (v : Db) (householdId : ℕ) : (k : Key) → Row k → Option (ℕ × RosterRow)
  | .member id memberId, userId =>
    if id = householdId then some (memberId, ⟨userId, householdRole? v id memberId⟩) else none
  | _, _ => none

def membersOf (v : Db) (householdId : ℕ) : List (ℕ × RosterRow) := select (asMember v householdId) v

def roster (v : Db) (householdId : ℕ) : Finset RosterRow := ((membersOf v householdId).map (·.2)).toFinset

end Rows

section Abilities

structure ShareAuthority where
  settings : Option MemberSharePolicy
  members : Finset RosterRow
deriving DecidableEq

structure HouseholdShareSubject where
  householdId : ℕ
  approvedAt : Option ℕ
  game : Game
  household : ShareAuthority
deriving DecidableEq

def householdGameShareSubject (householdId : ℕ) (approvedAt : Option ℕ) (game : Game)
    (authority : ShareAuthority) :
    HouseholdShareSubject :=
  ⟨householdId, approvedAt, game, authority⟩

/-- What an ability is asked. A delete may leave the roster out, and a member is
    asked about with the role it has or is to have. -/
inductive Question where
  | createForUser (userId : ℕ) (game : Game)
  | createForHousehold (subject : HouseholdShareSubject)
  | approve (shareId householdId : ℕ) (members : Finset RosterRow)
  | delete (shareId : ℕ) (sharedById householdId : Option ℕ) (members : Option (Finset RosterRow))
  | manageMember (memberId householdId userId : ℕ) (role : Option HouseholdRole) (members : Finset RosterRow)
deriving DecidableEq

abbrev Ability := Question → Bool

structure Actor where
  userId : ℕ
  can : Ability

/-- The actor's conditions on the members of a household, as a query applies them. -/
abbrev MemberConditions := Db → ℕ → Bool

end Abilities

section Transactions

inductive Mutation where
  | shareCreated (actor : Actor) (id : ℕ) (share : GameShare) (game : Game) (settings : Option MemberSharePolicy)
  | shareApproved (actor : Actor) (householdId shareId now : ℕ)
  | shareDeleted (shareId : ℕ)
  | roleUpdated (householdId memberId : ℕ)
  | ownershipTransferred (householdId previousId memberId : ℕ)
  | memberRemoved (householdId memberId : ℕ) (endedShares : List ℕ)
  | householdDeleted (householdId : ℕ)
  | householdRestored (householdId : ℕ)

abbrev ShareProgram := Code Row Empty Mutation

def refuse : ShareProgram := .rollback .halt

def lockHousehold (exclusive : Bool) (householdId : ℕ) (next : ShareProgram) : ShareProgram :=
  .lock (fun v => if isLive v householdId then [⟨.row (.household householdId), exclusive⟩] else [])
   fun _ v =>
    if isLive v householdId then next else refuse

/-- `FOR SHARE`. -/
def lockLiveHousehold (householdId : ℕ) (next : ShareProgram) : ShareProgram :=
    lockHousehold false householdId next

/-- `FOR NO KEY UPDATE`. -/
def lockHouseholdForRoleTransition (householdId : ℕ) (next : ShareProgram) : ShareProgram :=
  lockHousehold true householdId next

section Create

/-- `recipientRequestOf`. -/
def recipientRequestOf : Option ℕ → Option ℕ → Option Recipient
  | some userId, none => some (.user userId)
  | none, some householdId => some (.household householdId)
  | _, _ => none

/-- The rows of an insert, if both unique keys are free and what it refers to
    is there. -/
def insertable (id : ℕ) (share : GameShare) (v : Db) : Bool :=
  (share? v id).isNone && (index? v share.gameId share.recipient).isNone &&
   (game? v share.gameId).isSome &&
    match share.recipient with
    | .user userId => (user? v userId).isSome
    | .household householdId => (household? v householdId).isSome

def insertWrites (id : ℕ) (share : GameShare) : List (Write Row) :=
  [⟨.share id, some share⟩, ⟨.shareIndex share.gameId share.recipient, some id⟩]

def insertShare (actor : Actor) (share : GameShare) (game : Game) (settings : Option MemberSharePolicy) :
    ShareProgram :=
  .execute (fun clock v => if insertable clock share v then insertWrites clock share else [])
   fun clock v =>
    if insertable clock share v then .commit (.shareCreated actor clock share game settings)
     .halt else refuse

def shareAuthorityOf (v : Db) (householdId sharerId : ℕ) : Option ShareAuthority :=
  if (household? v householdId).isSome ∧ ∃ member ∈ roster v householdId, member.userId = sharerId then
    some ⟨settings? v householdId, roster v householdId⟩
  else none

/-- How a share into the household opens: in effect, waiting, or not at all. -/
def approvalUnder (actor : Actor) (authority : ShareAuthority) (game : Game) (householdId now : ℕ) :
    Option (Option ℕ) :=
  if actor.can (.createForHousehold (householdGameShareSubject householdId (some now) game authority)) then
    some (some now)
  else if actor.can
   (.createForHousehold (householdGameShareSubject householdId none game authority)) then some none
  else none

def askApproval (actor : Actor) (game : Game) (householdId now : ℕ)
    (next : Option ℕ → ShareAuthority → ShareProgram) : ShareProgram :=
  .query fun _ v =>
    match shareAuthorityOf v householdId actor.userId with
    | none => refuse
    | some authority =>
      match approvalUnder actor authority game householdId now with
      | none => refuse
      | some approvedAt => next approvedAt authority

def approvalForHouseholdShare (actor : Actor) (game : Game) (householdId now : ℕ)
    (next : Option ℕ → ShareAuthority → ShareProgram) : ShareProgram :=
  askApproval actor game householdId now fun _ _ =>
    lockLiveHousehold householdId <| askApproval actor game householdId now next

def approvalForUserShare (actor : Actor) (game : Game) (userId : ℕ) (next : ShareProgram) : ShareProgram :=
  .query fun _ v =>
    if (user? v userId).any User.isHuman then
      if userId = actor.userId then refuse
      else
        .query fun _ v =>
          if (block? v userId actor.userId).isSome || (block? v actor.userId userId).isSome then refuse
          else if actor.can (.createForUser userId game) then next
          else refuse
    else refuse

def create (actor : Actor) (now gameId : ℕ) (userId householdId : Option ℕ) : ShareProgram :=
  match recipientRequestOf userId householdId with
  | none => .halt
  | some recipient =>
    .query fun _ v =>
      match (game? v gameId).filter fun game => game.deletedAt.isNone && game.createdById == some
       actor.userId with
      | none => refuse
      | some game =>
        match recipient with
        | .user userId =>
          approvalForUserShare actor game userId <|
            insertShare actor ⟨gameId, .user userId, some actor.userId, none, some now, now⟩ game none
        | .household householdId =>
          approvalForHouseholdShare actor game householdId now fun approvedAt authority =>
            insertShare actor ⟨gameId, .household householdId, some actor.userId, none, approvedAt,
             now⟩ game
              authority.settings

end Create

section Delete

def removalWrites (v : Db) (id : ℕ) : List (Write Row) :=
  match share? v id with
  | some share => [⟨.share id, none⟩, ⟨.shareIndex share.gameId share.recipient, none⟩]
  | none => []

def deleteShare (id : ℕ) : ShareProgram :=
  .execute (fun _ v => removalWrites v id) fun _ v =>
    if (share? v id).isSome then .commit (.shareDeleted id) .halt else refuse

def assertMayRemoveFromHousehold (actor : Actor) (id : ℕ) (share : GameShare) (householdId : ℕ)
    (next : ShareProgram) :
    ShareProgram :=
  .query fun _ v =>
    if actor.can (.delete id share.sharedById (some householdId) (some (roster v householdId))) then
     next else refuse

def delete (actor : Actor) (gameId shareId : ℕ) : ShareProgram :=
  .query fun _ v =>
    match (share? v shareId).filter fun share => share.gameId == gameId with
    | none => refuse
    | some share =>
      if actor.can (.delete shareId share.sharedById share.recipient.householdId none) then
       deleteShare shareId
      else
        match share.recipient.householdId with
        | none => refuse
        | some householdId =>
          assertMayRemoveFromHousehold actor shareId share householdId <|
            lockLiveHousehold householdId <|
              assertMayRemoveFromHousehold actor shareId share householdId <| deleteShare shareId

end Delete

section Approve

-- the ability of another user, as the transaction loads it
variable (userAbilityWithin : ℕ → Db → ℕ → Ability)

def assertShareAuthority (actor : Actor) (householdId shareId : ℕ) (next : Finset RosterRow →
    ShareProgram) :
    ShareProgram :=
  .query fun _ v =>
    if actor.can (.approve shareId householdId (roster v householdId)) then next
     (roster v householdId) else refuse

def sharerCouldStillShare (householdId : ℕ) (share : GameShare) (members : Finset RosterRow) (now : ℕ)
    (next : ShareProgram) : ShareProgram :=
  match share.sharedById with
  | none => refuse
  | some sharerId =>
    if ∃ member ∈ members, member.userId = sharerId then
      .query fun _ v =>
        let settings := settings? v householdId
        .query fun _ v =>
          match game? v share.gameId with
          | none => refuse
          | some game =>
            .query fun clock v =>
              let couldShare := fun approvedAt => userAbilityWithin clock v sharerId
                (.createForHousehold
                 (householdGameShareSubject householdId approvedAt game ⟨settings, members⟩))
              if couldShare (some now) || couldShare none then next else refuse
    else refuse

def awaiting (v : Db) (householdId shareId : ℕ) : Option GameShare :=
  (share? v shareId).filter fun share => share.recipient = .household householdId &&
   share.approvedAt.isNone

def approvedShare (actor : Actor) (now : ℕ) (share : GameShare) : GameShare :=
  { share with approvedAt := some now, approvedById := some actor.userId }

def approvalWrites (actor : Actor) (now householdId shareId : ℕ) (v : Db) : List (Write Row) :=
  ((awaiting v householdId shareId).map fun share =>
    (⟨.share shareId, some (approvedShare actor now share)⟩ : Write Row)).toList

def approve (actor : Actor) (now householdId shareId : ℕ) : ShareProgram :=
  assertShareAuthority actor householdId shareId fun _ =>
    lockLiveHousehold householdId <|
      assertShareAuthority actor householdId shareId fun members =>
        .execute (fun _ v => approvalWrites actor now householdId shareId v) fun _ v =>
          let count := (awaiting v householdId shareId).toList.length
          .query fun _ v =>
            match (share? v shareId).filter fun share => share.recipient = .household householdId with
            | none => refuse
            | some share =>
              if count = 0 then refuse
              else
                sharerCouldStillShare userAbilityWithin householdId share members now <|
                  .commit (.shareApproved actor householdId shareId now) .halt

end Approve

section Roster

def isOwner (member : ℕ × RosterRow) : Bool := member.2.role == some .householdOwner

def ownersOf (v : Db) (householdId : ℕ) : List ℕ := ((membersOf v householdId).filter isOwner).map (·.1)

/-- `FOR UPDATE OF hr`: the owners' role rows. -/
def lockHouseholdOwnerRows (householdId : ℕ) (next : List ℕ → ShareProgram) : ShareProgram :=
  .lock (fun v => (ownersOf v householdId).map fun memberId =>
   ⟨.row (.householdRole householdId memberId), true⟩)
    fun _ v => next (ownersOf v householdId)

def upsertRole (householdId memberId : ℕ) (role : HouseholdRole) (next : ShareProgram) : ShareProgram :=
  .execute (fun _ _ => [⟨.householdRole householdId memberId, some role⟩]) fun _ _ => next

def updateMemberRole (actor : Actor) (conditions : MemberConditions) (householdId memberId : ℕ)
    (role : AssignableHouseholdRole) : ShareProgram :=
  .query fun _ v =>
    if isLive v householdId then
      .query fun _ v =>
        match (member? v householdId memberId).filter fun _ => conditions v memberId with
        | none => refuse
        | some userId =>
          if userId = actor.userId then refuse
          else
            lockHouseholdForRoleTransition householdId <|
              .query fun _ v =>
                let members := roster v householdId
                let locked := householdRole? v householdId memberId
                let mayManageAs :=
                 fun role => actor.can (.manageMember memberId householdId userId role members)
                if (member? v householdId memberId).isNone then refuse
                else if locked = some .householdOwner then refuse
                else if mayManageAs locked && mayManageAs (some role.role) then
                  .query fun _ v =>
                    if (role? v role.role).isSome then
                      upsertRole householdId memberId role.role <| .commit
                       (.roleUpdated householdId memberId) .halt
                    else refuse
                else refuse
    else .halt

def memberOf (v : Db) (householdId userId : ℕ) : Option ℕ :=
  ((membersOf v householdId).find? fun member => member.2.userId == userId).map (·.1)

def transferOwnership (actor : Actor) (conditions : MemberConditions) (householdId memberId : ℕ) :
    ShareProgram :=
  .query fun _ v =>
    if isLive v householdId then
      .query fun _ v =>
        if (memberOf v householdId actor.userId).isSome then
          .query fun _ v =>
            if (role? v .householdOwner).isSome && (role? v .householdAdmin).isSome then
              lockHouseholdForRoleTransition householdId <|
                lockHouseholdOwnerRows householdId fun ownerMemberIds =>
                  .query fun _ v =>
                    match (memberOf v householdId actor.userId).filter (conditions v) with
                    | none => refuse
                    | some actorId =>
                      if ownerMemberIds.contains actorId then
                        .query fun _ v =>
                          if (member? v householdId memberId).isSome && conditions v memberId then
                            if memberId = actorId then refuse
                            else if ownerMemberIds.contains memberId then refuse
                            else
                              upsertRole householdId memberId .householdOwner <|
                                upsertRole householdId actorId .householdAdmin <|
                                  .commit (.ownershipTransferred householdId actorId memberId) .halt
                          else refuse
                      else refuse
            else .halt
        else .halt
    else .halt

def asShareOf (v : Db) (householdId userId : ℕ) : (k : Key) → Row k → Option ℕ
  | .share id, share =>
    if share.recipient = .household householdId ∧
     (game? v share.gameId).any (·.createdById == some userId) then some id
    else none
  | _, _ => none

def endShares (next : List ℕ → ShareProgram) : List ℕ → List ℕ → ShareProgram
  | ended, [] => next ended
  | ended, id :: ids =>
    .execute (fun _ v => removalWrites v id) fun _ v =>
      endShares next (if (share? v id).isSome then ended ++ [id] else ended) ids

def endGameSharesWithin (householdId userId : ℕ) (next : List ℕ → ShareProgram) : ShareProgram :=
  .query fun _ v => endShares next [] (select (asShareOf v householdId userId) v)

/-- `find` is the unscoped target of the request, by id or by user. -/
def deleteMembershipWithin (conditions : MemberConditions) (householdId : ℕ) (find : Db →
    Option ℕ) : ShareProgram :=
  .query fun _ v =>
    match (find v).filter (conditions v) with
    | none => refuse
    | some memberId =>
      match member? v householdId memberId with
      | none => refuse
      | some userId =>
        lockHouseholdForRoleTransition householdId <|
          lockHouseholdOwnerRows householdId fun ownerMemberIds =>
            .query fun _ v =>
              if (member? v householdId memberId).isSome && conditions v memberId then
                if ownerMemberIds.contains memberId && decide (ownerMemberIds.length ≤ 1) then refuse
                else
                  endGameSharesWithin householdId userId fun endedShares =>
                    .execute (fun _ _ => [⟨.householdRole householdId memberId, none⟩]) fun _ _ =>
                      .execute (fun _ _ => [⟨.member householdId memberId, none⟩]) fun _ _ =>
                        .commit (.memberRemoved householdId memberId endedShares) .halt
              else refuse

def removeMember (conditions : MemberConditions) (householdId memberId : ℕ) : ShareProgram :=
  .query fun _ v =>
    if isLive v householdId then
      deleteMembershipWithin conditions householdId fun v =>
       (member? v householdId memberId).map fun _ => memberId
    else .halt

def leaveHousehold (actor : Actor) (conditions : MemberConditions) (householdId : ℕ) : ShareProgram :=
  .query fun _ v =>
    if isLive v householdId then
      deleteMembershipWithin conditions householdId fun v => memberOf v householdId actor.userId
    else .halt

end Roster

section Household

def deleteHousehold (conditions : Db → Bool) (now householdId : ℕ) : ShareProgram :=
  .query fun _ v =>
    if isLive v householdId then
      Code.updateRow (.household householdId)
       (fun v household => household.deletedAt.isNone && conditions v)
        (fun _ => ⟨some now⟩) fun _ => .commit (.householdDeleted householdId) .halt
    else .halt

def restoreHousehold (conditions : Db → Bool) (householdId : ℕ) : ShareProgram :=
  Code.updateRow (.household householdId) (fun v household => household.deletedAt.isSome && conditions v)
    (fun _ => ⟨none⟩) fun _ => .commit (.householdRestored householdId) .halt

end Household

inductive Request where
  | create (actor : Actor) (now gameId : ℕ) (userId householdId : Option ℕ)
  | delete (actor : Actor) (gameId shareId : ℕ)
  | approve (actor : Actor) (now householdId shareId : ℕ)
  | updateMemberRole (actor : Actor) (conditions : MemberConditions) (householdId memberId : ℕ)
      (role : AssignableHouseholdRole)
  | transferOwnership (actor : Actor) (conditions : MemberConditions) (householdId memberId : ℕ)
  | removeMember (conditions : MemberConditions) (householdId memberId : ℕ)
  | leaveHousehold (actor : Actor) (conditions : MemberConditions) (householdId : ℕ)
  | deleteHousehold (conditions : Db → Bool) (now householdId : ℕ)
  | restoreHousehold (conditions : Db → Bool) (householdId : ℕ)

def program (userAbilityWithin : ℕ → Db → ℕ → Ability) : Request → ShareProgram
  | .create actor now gameId userId householdId => create actor now gameId userId householdId
  | .delete actor gameId shareId => delete actor gameId shareId
  | .approve actor now householdId shareId => approve userAbilityWithin actor now householdId shareId
  | .updateMemberRole actor conditions householdId memberId role =>
    updateMemberRole actor conditions householdId memberId role
  | .transferOwnership actor conditions householdId memberId =>
   transferOwnership actor conditions householdId memberId
  | .removeMember conditions householdId memberId => removeMember conditions householdId memberId
  | .leaveHousehold actor conditions householdId => leaveHousehold actor conditions householdId
  | .deleteHousehold conditions now householdId => deleteHousehold conditions now householdId
  | .restoreHousehold conditions householdId => restoreHousehold conditions householdId

end Transactions

end BoardGamesEmpire.GameSharing
