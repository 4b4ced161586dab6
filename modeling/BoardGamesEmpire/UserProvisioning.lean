import BoardGamesEmpire.JsText
import BoardGamesEmpire.ReadCommittedSection

set_option autoImplicit false

/-!
# User provisioning

`UserProvisioningService.provisionNewUser` over the rows it reads and writes:
the user, their preferences, profile and global roles, and the role catalog.
The election of the Owner holds a transaction-scoped advisory lock. The first
human is also given the service account, in a transaction of its own.
-/
namespace BoardGamesEmpire.UserProvisioning
open JsText ReadCommitted ReadCommittedProtocol

inductive SystemRole where
  | owner | admin | moderator | user | anonymousUser
  | householdOwner | householdAdmin | householdMember | householdGuest
  | eventHost | eventCoHost | eventOrganizer | eventModerator | eventParticipant | eventGuest | eventSpectator
deriving DecidableEq

def SystemRole.text : SystemRole → Text
  | .owner => "Owner".toList
  | .admin => "Admin".toList
  | .moderator => "Moderator".toList
  | .user => "User".toList
  | .anonymousUser => "AnonymousUser".toList
  | .householdOwner => "HouseholdOwner".toList
  | .householdAdmin => "HouseholdAdmin".toList
  | .householdMember => "HouseholdMember".toList
  | .householdGuest => "HouseholdGuest".toList
  | .eventHost => "EventHost".toList
  | .eventCoHost => "EventCoHost".toList
  | .eventOrganizer => "EventOrganizer".toList
  | .eventModerator => "EventModerator".toList
  | .eventParticipant => "EventParticipant".toList
  | .eventGuest => "EventGuest".toList
  | .eventSpectator => "EventSpectator".toList

inductive Theme where
  | light | dark | system
deriving DecidableEq

structure User where
  username : Text
  email : Text
  firstName : Option Text
  lastName : Option Text
  image : Option Text
  isAnonymous : Option Bool
  isServiceAccount : Bool
  banned : Option Bool
  emailVerified : Bool
  role : Option Text
deriving DecidableEq

structure UserPreferences where
  theme : Theme
deriving DecidableEq

structure UserProfile where
  displayName : Text
  avatarUrl : Option Text
deriving DecidableEq

structure Role where
  name : Text
deriving DecidableEq

/-- Preferences and profiles are unique by user, roles by user and role. -/
inductive Key where
  | user (id : ℕ)
  | preferences (userId : ℕ)
  | profile (userId : ℕ)
  | userRole (userId roleId : ℕ)
  | role (id : ℕ)
deriving DecidableEq

def Row : Key → Type
  | .user _ => User
  | .preferences _ => UserPreferences
  | .profile _ => UserProfile
  | .userRole _ _ => Unit
  | .role _ => Role

inductive Event where
  | provisioned (userId : ℕ) (elected : Bool)
  | serviceAccountEnsured
deriving DecidableEq

abbrev Db := AList Row
abbrev Program := Code Row Text Event

def ownerElectionLock : Lock Key Text := ⟨.advisory "bge:owner-election".toList, true⟩

section Reads

def asUser : (k : Key) → Row k → Option (ℕ × User)
  | .user id, row => some (id, row)
  | .preferences _, _ | .profile _, _ | .userRole _ _, _ | .role _, _ => none

def asUserRole : (k : Key) → Row k → Option (ℕ × ℕ)
  | .userRole userId roleId, _ => some (userId, roleId)
  | .user _, _ | .preferences _, _ | .profile _, _ | .role _, _ => none

def asRole : (k : Key) → Row k → Option (ℕ × Role)
  | .role id, row => some (id, row)
  | .user _, _ | .preferences _, _ | .profile _, _ | .userRole _ _, _ => none

/-- `HUMAN_USER_WHERE`: a NULL `isAnonymous` is a person. -/
def isHuman (row : User) : Bool :=
  !row.isServiceAccount && (row.isAnonymous == some false || row.isAnonymous == none)

/-- `PROVISIONED_HUMAN_WHERE`. -/
def isProvisionedHuman (v : Db) (id : ℕ) (row : User) : Bool :=
  isHuman row && (select asUserRole v).any fun assignment => assignment.1 == id

def ownerSeatTaken (v : Db) : Bool :=
  (select asUser v).any fun (id, row) => isProvisionedHuman v id row

end Reads

section Profile

def trimEnd (s : Text) : Text := (s.reverse.dropWhile whitespace).reverse

def displayNameMaxLength : ℕ := 64

/-- The first and last name, each trimmed, or the username when neither holds
    anything but spaces. -/
def displayNameOf (row : User) : Text :=
  let parts := ([row.firstName, row.lastName].filterMap fun part => part.map trim).filter (· ≠ [])
  let joined := List.intercalate [' '] parts
  let name := if joined = [] then row.username else joined
  trimEnd (name.take displayNameMaxLength)

def avatarUrlOf (row : User) : Option Text := (row.image.map trim).filter (· ≠ [])

end Profile

section Assignments

inductive ResolutionError where
  | repeated (names : List SystemRole)
  | missing (name : SystemRole)
deriving DecidableEq

def ResolutionError.message (userId : Text) : ResolutionError → Text
  | .repeated names =>
    "Cannot provision user ".toList ++ userId ++ ": role(s) requested more than once: ".toList ++
      List.intercalate ", ".toList (names.map SystemRole.text) ++
      ". Each role must appear at most once in a provisioned role set.".toList
  | .missing name =>
    "Cannot provision user ".toList ++ userId ++ ": role '".toList ++ name.text ++
      "' is missing from the catalog. The roles seed (libs/database/src/lib/seeds/roles-permissions.seed.ts) ".toList ++
      "has not run against this database.".toList

def repeatedNames (names : List SystemRole) : List SystemRole :=
  ((names.zipIdx.filter fun (name, index) => names.idxOf name ≠ index).map Prod.fst).eraseDups

/-- `roleIdsByName.get(name)`: of two rows of one name the map keeps the last. -/
def roleIdOf (v : Db) (name : SystemRole) : Option ℕ :=
  (((select asRole v).filter fun (_, row) => row.name == name.text).getLast?).map Prod.fst

def resolveRole (v : Db) (name : SystemRole) : Except ResolutionError ℕ :=
  match roleIdOf v name with
  | some roleId => .ok roleId
  | none => .error (.missing name)

/-- `resolveRoleAssignments`, in the order of the names. -/
def resolveRoleAssignments (v : Db) (roleNames : List SystemRole) : Except ResolutionError (List ℕ) :=
  if repeatedNames roleNames ≠ [] then .error (.repeated (repeatedNames roleNames))
  else roleNames.mapM (resolveRole v)

def baseRoleNames (isAnonymous : Bool) : List SystemRole :=
    if isAnonymous then [.anonymousUser] else [.user]

def firstHumanRoleNames : List SystemRole := [.user, .owner]

end Assignments

section Writes

def newPreferences : UserPreferences := ⟨.system⟩

def newProfile (row : User) : UserProfile := ⟨displayNameOf row, avatarUrlOf row⟩

/-- `SystemRole.Admin.toLowerCase()`. -/
def adminRole : Text := "admin".toList

def crowned (row : User) : User := { row with role := some adminRole, emailVerified := true }

def assignmentWrites (userId : ℕ) (roleIds : List ℕ) : List (Write Row) :=
  roleIds.map fun roleId => ⟨.userRole userId roleId, some ()⟩

/-- `userRole.createMany`: one statement, which the unique index may refuse. -/
def createUserRoles (userId : ℕ) (roleIds : List ℕ) (next : Program) : Program :=
  .execute
    (fun _ v =>
      if roleIds.all fun roleId => (v.lookup (.userRole userId roleId)).isNone then assignmentWrites
       userId roleIds
      else [])
    fun _ v =>
      if roleIds.all fun roleId => (v.lookup (.userRole userId roleId)).isNone then next
      else .rollback .halt

end Writes

section ServiceAccount

def serviceAccountUsername : Text := "__system__".toList

def serviceAccountEmail : Text := "system@bge.local".toList

def reserved (row : User) : User :=
  { row with isServiceAccount := true, banned := some true, emailVerified := true }

def newServiceAccount : User :=
  ⟨serviceAccountUsername, serviceAccountEmail, none, none, none, some false, true, some true, true, none⟩

def findByUsername (v : Db) (username : Text) : Option (ℕ × User) :=
  (select asUser v).find? fun (_, row) => row.username == username

def emailTaken (v : Db) (email : Text) : Bool := (select asUser v).any fun (_, row) => row.email == email

def freshUserId (v : Db) : ℕ := ((select asUser v).map Prod.fst).foldr max 0 + 1

def upserted (v : Db) : Option (ℕ × User) :=
  match findByUsername v serviceAccountUsername with
  | some (id, row) => some (id, reserved row)
  | none => if emailTaken v serviceAccountEmail then none else some (freshUserId v, newServiceAccount)

/-- `ServiceAccountService.ensure`. -/
def ensureServiceAccount : Program :=
  .start .halt <| .execute
    (fun _ v => ((upserted v).map fun (id, row) => (⟨.user id, some row⟩ : Write Row)).toList)
    fun _ v => if (upserted v).isSome then .commit .serviceAccountEnsured .halt else .rollback .halt

end ServiceAccount

section Provisioning

def writeProvisioned (userId : ℕ) (row : User) (roleIds : List ℕ) (elected : Bool) : Program :=
  Code.insertRow (fun _ => .preferences userId) (fun _ => newPreferences) fun _ =>
  Code.insertRow (fun _ => .profile userId) (fun _ => newProfile row) fun _ =>
  createUserRoles userId roleIds <|
    if elected then
      Code.updateRow (.user userId) (fun _ _ => true) crowned fun _ =>
        .commit (.provisioned userId true) ensureServiceAccount
    else .commit (.provisioned userId false) .halt

/-- `holdOwnerElection`: the lock, then the look. -/
def holdOwnerElection (next : Bool → Program) : Program :=
  .lock (fun _ => [ownerElectionLock]) fun _ _ =>
  .query fun _ v => next !ownerSeatTaken v

def inTransaction (userId : ℕ) (row : User) (base : List ℕ) : Option (List ℕ) → Program
  | none => writeProvisioned userId row base false
  | some firstHuman => holdOwnerElection fun elected =>
    writeProvisioned userId row (if elected then firstHuman else base) elected

def resolving (roleNames : List SystemRole) (next : List ℕ → Program) : Program :=
  .query fun _ v =>
    match resolveRoleAssignments v roleNames with
    | .ok roleIds => next roleIds
    | .error _ => .halt

def provisionRoles (userId : ℕ) (row : User) (isAnonymous seatMayBeOpen : Bool) : Program :=
  resolving (baseRoleNames isAnonymous) fun base =>
    if seatMayBeOpen then
      resolving firstHumanRoleNames fun firstHuman =>
       .start .halt (inTransaction userId row base (some firstHuman))
    else .start .halt (inTransaction userId row base none)

def provisionNewUser (userId : ℕ) : Program :=
  .query fun _ v =>
    match v.lookup (Key.user userId) with
    | none => .halt
    | some row =>
      let isAnonymous := row.isAnonymous == some true
      if isAnonymous then provisionRoles userId row true false
      else .query fun _ v => provisionRoles userId row false !ownerSeatTaken v

end Provisioning

end BoardGamesEmpire.UserProvisioning
