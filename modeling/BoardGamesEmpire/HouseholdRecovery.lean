import BoardGamesEmpire.ReadCommittedSection

set_option autoImplicit false

/-!
# Deleting a household and taking it back

An owner's delete grants every owner a recovery permission for a while, a
restore revokes them all, and a delete by staff grants none. Every request
builds its conditions from the grants it finds when it begins; its transaction
comes later.
-/
namespace BoardGamesEmpire.HouseholdRecovery
open ReadCommitted ReadCommittedProtocol

section Rows

/-- The columns of a household that a delete and a restore read and write. -/
structure Household where
  deletedAt : Option ℕ
deriving DecidableEq

inductive HouseholdRole where
  | householdOwner | householdAdmin | householdMember | householdGuest
deriving DecidableEq

inductive StaffRole where
  | owner | admin
deriving DecidableEq

/-- A direct permission. `inverted` overrides the permission's polarity, and
    the restore permission is a grant. -/
structure UserPermission where
  inverted : Option Bool
  grantedById : ℕ
  expiresAt : Option ℕ
deriving DecidableEq

/-- One household's rows. `recoveryGrant` is the restore permission pinned to
    this household; `denial` is an operator's denial of it pinned to none. -/
inductive Key where
  | household
  | member (userId : ℕ)
  | recoveryGrant (userId : ℕ)
  | denial (userId : ℕ)
  | staffRole (userId : ℕ) (role : StaffRole)
  | restorePermission
deriving DecidableEq

abbrev Row : Key → Type
  | .household => Household
  | .member _ => HouseholdRole
  | .recoveryGrant _ => UserPermission
  | .denial _ => Option ℕ
  | .staffRole _ _ => Unit
  | .restorePermission => Unit

abbrev Db := AList Row

/-- The rows of the operators and of the catalog. No operator row is on the
    key of a recovery grant. -/
def outside : Key → Bool
  | .denial _ | .staffRole _ _ | .restorePermission => true
  | .household | .member _ | .recoveryGrant _ => false

abbrev household? (v : Db) : Option Household := v.lookup .household

abbrev member? (v : Db) (userId : ℕ) : Option HouseholdRole := v.lookup (.member userId)

abbrev grant? (v : Db) (userId : ℕ) : Option UserPermission := v.lookup (.recoveryGrant userId)

abbrev denial? (v : Db) (userId : ℕ) : Option (Option ℕ) := v.lookup (.denial userId)

abbrev staffRole? (v : Db) (userId : ℕ) (role : StaffRole) : Option Unit :=
    v.lookup (.staffRole userId role)

abbrev restorePermission? (v : Db) : Option Unit := v.lookup .restorePermission

def isDeleted (v : Db) : Bool := (household? v).any (·.deletedAt.isSome)

def isLive (v : Db) : Bool := (household? v).any (·.deletedAt.isNone)

def asMember : (k : Key) → Row k → Option (ℕ × HouseholdRole)
  | .member userId, role => some (userId, role)
  | _, _ => none

def members (v : Db) : List (ℕ × HouseholdRole) := select asMember v

end Rows

section Abilities

inductive HouseholdAction where
  | update | delete
deriving DecidableEq

inductive Condition where
  | tombstone
  | membership (userId : ℕ) (roles : List HouseholdRole)
deriving DecidableEq

def Condition.holds (v : Db) : Condition → Bool
  | .tombstone => isDeleted v
  | .membership userId roles => (member? v userId).any fun role => roles.contains role

structure Rule where
  inverted : Bool
  condition : Option Condition
deriving DecidableEq

/-- `accessibleBy`, from the last rule on: a rule without a condition ends the
    walk. -/
def admits (v : Db) (matched : Bool) : List Rule → Bool
  | [] => matched
  | ⟨true, none⟩ :: _ => matched
  | ⟨false, none⟩ :: _ => true
  | ⟨true, some condition⟩ :: lower => !condition.holds v && admits v matched lower
  | ⟨false, some condition⟩ :: lower => admits v (matched || condition.holds v) lower

/-- `manage:all` of the server's owner, and what its admins may do. -/
def staffRules (v : Db) (userId : ℕ) (action : HouseholdAction) : List Rule :=
  (if (staffRole? v userId .owner).isSome then [⟨false, none⟩] else []) ++
    if (staffRole? v userId .admin).isSome then
      match action with
      | .update => [⟨false, some .tombstone⟩]
      | .delete => [⟨false, none⟩]
    else []

def membershipRules (v : Db) (userId : ℕ) (action : HouseholdAction) : List Rule :=
  if isLive v then
    match action, member? v userId with
    | .update, some .householdOwner | .update, some .householdAdmin =>
      [⟨false, some (.membership userId [.householdOwner, .householdAdmin])⟩]
    | .delete, some .householdOwner => [⟨false, some (.membership userId [.householdOwner])⟩]
    | _, _ => []
  else []

def unexpired (now : ℕ) (expiresAt : Option ℕ) : Bool := expiresAt.all fun time => decide (now < time)

/-- `applyUserPermissions`: grants before denials. -/
def directRules (v : Db) (now userId : ℕ) : HouseholdAction → List Rule
  | .delete => []
  | .update =>
    if (restorePermission? v).isSome then
      let own := ((grant? v userId).filter fun grant => unexpired now grant.expiresAt).toList
      let denials := ((denial? v userId).filter (unexpired now)).toList
      let denied := own.filter fun grant => grant.inverted.getD false
      let granted := own.filter fun grant => !grant.inverted.getD false
      granted.map (fun _ => ⟨false, some .tombstone⟩) ++
        (denied.map (fun _ => ⟨true, some .tombstone⟩) ++ denials.map fun _ => ⟨true, some .tombstone⟩)
    else []

/-- The rules of a user on this household, as `createForUser` adds them. -/
def rulesOf (v : Db) (now userId : ℕ) (action : HouseholdAction) : List Rule :=
  staffRules v userId action ++ membershipRules v userId action ++ directRules v now userId action

abbrev Ceiling := Db → Bool

/-- Who asks: a user, behind an API key perhaps, or an actor with no user. -/
inductive Actor where
  | user (userId : ℕ) (key : HouseholdAction → Ceiling)
  | system (ceiling : HouseholdAction → Ceiling)

def Actor.userId : Actor → Option ℕ
  | .user userId _ => some userId
  | .system _ => none

/-- `getCurrentResourceConditions`, on the grants as they stand. -/
def Actor.conditions (actor : Actor) (v : Db) (now : ℕ) (action : HouseholdAction) : Ceiling :=
  match actor with
  | .user userId key =>
    let rules := (rulesOf v now userId action).reverse
    fun row => admits row false rules && key action row
  | .system ceiling => ceiling action

end Abilities

section Service

inductive Mutation where
  | householdDeleted (actor : Option ℕ) (granted : List ℕ) (restorableUntil : Option ℕ)
  | householdRestored (actor : Option ℕ) (members : List ℕ)
deriving DecidableEq

abbrev HouseholdProgram := Code Row Empty Mutation

def HOUSEHOLD_RESTORE_WINDOW_DAYS : ℕ := 30

def HOUSEHOLD_RESTORE_WINDOW_MS : ℕ := HOUSEHOLD_RESTORE_WINDOW_DAYS * 24 * 60 * 60 * 1000

def recoveryGrant (grantedById now : ℕ) : UserPermission :=
  ⟨none, grantedById, some (now + HOUSEHOLD_RESTORE_WINDOW_MS)⟩

/-- The owners without a row on the key: `skipDuplicates`. -/
def withoutGrant (v : Db) (ownerUserIds : List ℕ) :
    List ℕ := ownerUserIds.filter fun userId => (grant? v userId).isNone

def grantWrites (created : List ℕ) (grant : UserPermission) : List (Write Row) :=
  created.map fun userId => ⟨.recoveryGrant userId, some grant⟩

section Clock

-- the time of day at each tick
variable (wall : ℕ → ℕ)

def grantRecovery (ownerUserIds : List ℕ) (grantedById : ℕ) (next : List ℕ → Option ℕ → HouseholdProgram) :
    HouseholdProgram :=
  .query fun clock v =>
    if (restorePermission? v).isSome then
      let now := wall clock
      .execute (fun _ v => grantWrites (withoutGrant v ownerUserIds)
       (recoveryGrant grantedById now)) fun _ v =>
        let created := withoutGrant v ownerUserIds
        if created.contains grantedById then
          .query fun _ v =>
            let deniedEverywhere := (denial? v grantedById).any (unexpired now)
            next created (if deniedEverywhere then none else some (now + HOUSEHOLD_RESTORE_WINDOW_MS))
        else next created none
    else .rollback .halt

def ownersAmong (members : List (ℕ × HouseholdRole)) : List ℕ :=
  (members.filter fun member => member.2 == .householdOwner).map (·.1)

def openWindows (actor : Actor) : HouseholdProgram :=
  .query fun _ v =>
    let ownerUserIds := ownersAmong (members v)
    match actor.userId with
    | some userId =>
      if ownerUserIds.contains userId then
        grantRecovery wall ownerUserIds userId fun created restorableUntil =>
          .commit (.householdDeleted (some userId) created restorableUntil) .halt
      else .commit (.householdDeleted (some userId) [] none) .halt
    | none => .commit (.householdDeleted none [] none) .halt

def deleteHousehold (actor : Actor) : HouseholdProgram :=
  .query fun clock v =>
    let conditions := actor.conditions v (wall clock) .delete
    .query fun clock v =>
      if isLive v then
        Code.updateRow .household (fun v household => household.deletedAt.isNone && conditions v)
          (fun _ => ⟨some (wall clock)⟩) fun _ => openWindows wall actor
      else .halt

def revokeGrants : RowChange Row
  | .recoveryGrant _, grant => if grant.inverted.getD false then none else some none
  | _, _ => none

def restoreHousehold (actor : Actor) : HouseholdProgram :=
  .query fun clock v =>
    let conditions := actor.conditions v (wall clock) .update
    Code.updateRow .household (fun v household => household.deletedAt.isSome && conditions v)
     (fun _ => ⟨none⟩) fun _ =>
      Code.updateMany revokeGrants <|
        .query fun _ v => .commit (.householdRestored actor.userId ((members v).map (·.1))) .halt

inductive Request where
  | deleteHousehold (actor : Actor)
  | restoreHousehold (actor : Actor)

def program : Request → HouseholdProgram
  | .deleteHousehold actor => deleteHousehold wall actor
  | .restoreHousehold actor => restoreHousehold wall actor

end Clock

end Service

section Windows

abbrev State := Shared Row Mutation

variable {σ : State} {m : Mutation} {db db' : Db}

def OwnerDeletion (entry : Entry Row Mutation) : Prop :=
  ∃ userId granted restorableUntil, entry.event = .householdDeleted (some userId) granted restorableUntil ∧
    member? entry.before userId = some .householdOwner

structure Deletion (entry : Entry Row Mutation) : Prop where
  deleted : isDeleted entry.after = true
  window : ∀ userId grant, grant? entry.after userId = some grant →
    grant? entry.before userId = none ∧ grant.inverted = none ∧ OwnerDeletion entry

inductive HouseholdStep (σ : State) : Mutation → Db → Prop where
  | deletes {actor : Option ℕ} {granted : List ℕ} {restorableUntil : Option ℕ} {db' : Db}
      (h : Deletion ⟨.householdDeleted actor granted restorableUntil, σ.clock, σ.db, db'⟩) :
      HouseholdStep σ (.householdDeleted actor granted restorableUntil) db'
  | restores {actor : Option ℕ} {members : List ℕ} {db' : Db} (hdeleted : isDeleted σ.db = true)
      (hlive : isDeleted db' = false) (hrevoked : ∀ userId, grant? db' userId = none) :
      HouseholdStep σ (.householdRestored actor members) db'

def Window : Key → Prop
  | .recoveryGrant _ => True
  | _ => False

/-- A live household has no window; the windows of a deleted one are those its
    last delete left. -/
structure Ordered (σ : State) : Prop where
  live : isDeleted σ.db = false → ∀ userId, grant? σ.db userId = none
  deleted : isDeleted σ.db = true → ∃ past deletion, σ.ledger = past ++ [deletion] ∧ Deletion deletion ∧
    Agree Window deletion.after σ.db

/-- The household, its roster and its windows change under its row lock. -/
def householdLocks : Discipline Row Empty where
  requires _ k _ _ := if outside k then [] else [⟨.row .household, true⟩]

def recovery : Protocol Row Empty Mutation where
  inv := Ordered
  effect := HouseholdStep
  guarantee := householdLocks.Respected
  outside := outside

theorem HouseholdStep.ordered (h : HouseholdStep σ m db') : Ordered (σ.commit m db') := by
 cases h with
 | deletes h =>
  constructor
  · intro hlive
    have hdeleted : isDeleted db' = true := h.deleted
    rw [Shared.commit] at hlive
    rw [hdeleted] at hlive
    cases hlive
  · exact fun _ => ⟨σ.ledger, _, rfl, h, .refl _ _⟩
 | restores hdeleted hlive hrevoked =>
  constructor
  · exact fun _ => hrevoked
  · intro hnow
    rw [Shared.commit] at hnow
    rw [hlive] at hnow
    cases hnow

theorem Ordered.outside (h : Ordered σ) {w : Write Row}
  (hw : HouseholdRecovery.outside w.key = true) :
  Ordered { σ.tick with db := applyWrite σ.db w } := by
 have hsame : ∀ k, HouseholdRecovery.outside k = false → (applyWrite σ.db w).lookup k = σ.db.lookup k := by
  intro k hk
  apply lookup_applyWrite_ne
  rintro rfl
  rw [hw] at hk
  cases hk
 have hstate : isDeleted (applyWrite σ.db w) = isDeleted
  σ.db := by rw [isDeleted, household?, hsame _ rfl, isDeleted]
 constructor
 · intro hlive userId
   exact (hsame _ rfl).trans (h.live (hstate ▸ hlive) userId)
 · intro hdeleted
   obtain ⟨past, deletion, hledger, hdeletion, hagree⟩ := h.deleted (hstate ▸ hdeleted)
   refine ⟨past, deletion, hledger, hdeletion, fun k hk => ?_⟩
   refine (hsame k ?_).trans (hagree k hk)
   cases k with
   | recoveryGrant userId => rfl
   | _ => exact hk.elim

end Windows

section Safety

def Inside (k : Key) : Prop := outside k = false

variable {db db' : Db} {known held : List (Lock Key Empty)} {σ : State} {log : List (Write Row)}

theorem keeps_inside (h : (⟨.row .household, true⟩ : Lock Key Empty) ∈ known) (db : Db) :
  Keeps recovery known fun σ => Agree Inside db σ.db := by
 refine keeps_agree (D := householdLocks) (fun _ _ _ h => h) (fun k hk => hk)
  (fun k hk _ old new _ => ?_) db
 refine ⟨⟨.row .household, true⟩, ?_, _, h, rfl, .inl rfl⟩
 have hinside : outside k = false := hk
 simp [householdLocks, hinside]

theorem respected (h : (⟨.row .household, true⟩ : Lock Key Empty) ∈ held) (db' : Db) :
  householdLocks.Respected held σ.db db' := by
 intro k _ l hl
 unfold householdLocks at hl
 by_cases hk : outside k = true
 · simp [hk] at hl
 · simp only [if_neg hk, List.mem_singleton] at hl
   rw [hl]
   exact covers_of_mem h

theorem isDeleted_congr (h : Agree Inside db db') : isDeleted db' = isDeleted db := by
 rw [isDeleted, household?, h .household rfl, isDeleted]

theorem household_applyLog (db : Db) (log : List (Write Row)) (row : Household)
  (h : ∀ w ∈ log, w.key ≠ .household) :
  household? (applyLog db (⟨.household, some row⟩ :: log)) = some row := by
 rw [household?, ← List.singleton_append, applyLog_append, lookup_applyLog_of_notMem _ h]
 exact lookup_applyWrite_self db .household (some row)

theorem grant_applyLog (row : Household) (userId : ℕ) :
  grant? (applyLog db (⟨.household, some row⟩ :: log)) userId = grant? (applyLog db log) userId := by
 by_cases hmem : ∃ w ∈ log, w.key = .recoveryGrant userId
 · rw [grant?, ← List.singleton_append, applyLog_append]
   exact lookup_applyLog_of_mem _ _ hmem
 · have hnot : ∀ w ∈ log, w.key ≠ .recoveryGrant userId := fun w hw heq => hmem ⟨w, hw, heq⟩
   refine Eq.trans ?_ (lookup_applyLog_of_notMem db hnot).symm
   apply lookup_applyLog_of_notMem
   intro w hw heq
   rcases List.mem_cons.1 hw with rfl | hw
   · cases heq
   · exact hnot w hw heq

variable {userId : ℕ}

theorem mem_members {v : Db} {role : HouseholdRole} :
  (userId, role) ∈ members v ↔ member? v userId = some role := by
 rw [members, mem_select]
 constructor
 · rintro ⟨k, row, hrow, hmember⟩
   cases k with
   | member id => cases hmember; exact hrow
   | _ => cases hmember
 · exact fun h => ⟨.member userId, role, h, rfl⟩

theorem owner_of_mem {v : Db} (h : (ownersAmong (members v)).contains userId = true) :
  member? v userId = some .householdOwner := by
 obtain ⟨⟨id, role⟩, hmem, rfl⟩ := List.mem_map.1 (List.contains_iff_mem.1 h)
 obtain ⟨hmember, howner⟩ := List.mem_filter.1 hmem
 rw [← eq_of_beq howner]
 exact mem_members.1 hmember

theorem step_deleted (hinv : Ordered σ) (hlive : isDeleted σ.db = false) {deletedAt : ℕ}
  {actor : Option ℕ} {granted created : List ℕ} {restorableUntil : Option ℕ}
  {grant : UserPermission} (hgrant : grant.inverted = none)
  (howner : created = [] ∨ ∃ userId, actor = some userId ∧ member? σ.db userId = some .householdOwner) :
  HouseholdStep σ (.householdDeleted actor granted restorableUntil)
   (applyLog σ.db (⟨.household, some ⟨some deletedAt⟩⟩ :: grantWrites created grant)) := by
 refine .deletes ⟨?_, fun userId found hfound => ?_⟩
 · have hhousehold := household_applyLog σ.db (grantWrites created grant) ⟨some deletedAt⟩ ?_
   · dsimp only
     rw [isDeleted, hhousehold]
     rfl
   · intro w hw
     obtain ⟨id, -, rfl⟩ := List.mem_map.1 hw
     exact nofun
 · have hnone : grant? σ.db userId = none := hinv.live hlive userId
   have hcreated : grant? (applyLog σ.db (grantWrites created grant)) userId = some found :=
    (grant_applyLog _ _).symm.trans hfound
   have hmem : ∃ w ∈ grantWrites created grant, w.key = .recoveryGrant userId := by
    by_contra hno
    have hold := lookup_applyLog_of_notMem σ.db fun w hw heq => hno ⟨w, hw, heq⟩
    cases (hold.symm.trans hcreated).symm.trans hnone
   refine ⟨hnone, ?_, ?_⟩
   · have hvalue : grant? (applyLog σ.db (grantWrites created grant)) userId = some grant := by
      refine lookup_applyLog_eq _ hmem fun w hw hkey => ?_
      obtain ⟨id, -, rfl⟩ := List.mem_map.1 hw
      cases hkey
      rfl
     rw [← Option.some.inj (hvalue.symm.trans hcreated)]
     exact hgrant
   · obtain ⟨w, hw, -⟩ := hmem
     obtain ⟨id, hid, -⟩ := List.mem_map.1 hw
     rcases howner with hnil | ⟨owner, rfl, hrole⟩
     · rw [hnil] at hid
       cases hid
     · exact ⟨owner, granted, restorableUntil, rfl, hrole⟩

variable (wall : ℕ → ℕ)

theorem safeOn_deleted (created : List ℕ) (grant : UserPermission) (hlive : isDeleted db = false)
  (hheld : (⟨.row .household, true⟩ : Lock Key Empty) ∈ known) {deletedAt : ℕ} {actor : Option ℕ}
  {granted : List ℕ} {restorableUntil : Option ℕ} (hgrant : grant.inverted = none)
  (howner : created = [] ∨ ∃ userId, actor = some userId ∧ member? db userId = some .householdOwner) :
  SafeOn recovery known (fun σ => Agree Inside db σ.db)
   (.commit (.householdDeleted actor granted restorableUntil) .halt)
   (⟨.household, some ⟨some deletedAt⟩⟩ :: grantWrites created grant) := by
 refine safeOn_commit (keeps_inside hheld db) (fun held σ hknown _ hinv hagree => ?_) safeOn_halt
 refine ⟨respected (hknown hheld) _, step_deleted hinv ((isDeleted_congr hagree).trans hlive) hgrant ?_⟩
 refine howner.imp_right fun ⟨userId, hactor, hrole⟩ => ⟨userId, hactor, ?_⟩
 exact (hagree (.member userId) rfl).trans hrole

theorem safeOn_grantRecovery (hlive : isDeleted db = false)
  (hheld : (⟨.row .household, true⟩ : Lock Key Empty) ∈ known) {deletedAt userId : ℕ}
  (ownerUserIds : List ℕ) (hrole : member? db userId = some .householdOwner) :
  SafeOn recovery known (fun σ => Agree Inside db σ.db)
   (grantRecovery wall ownerUserIds userId fun created restorableUntil =>
    .commit (.householdDeleted (some userId) created restorableUntil) .halt)
   [⟨.household, some ⟨some deletedAt⟩⟩] := by
 refine safeOn_query (keeps_inside hheld db) fun σ _ _ => ?_
 by_cases hpermission : (restorePermission? (view σ [⟨.household, some ⟨some deletedAt⟩⟩])).isSome = true
 · rw [if_pos hpermission]
   refine safeOn_stmt (keeps_inside hheld db) fun σ' _ _ hagree =>
    ⟨fun σ => Agree Inside db σ.db, hagree, ?_⟩
   rw [List.singleton_append]
   have hmore := List.mem_append_left (writeLocks (grantWrites
    (withoutGrant (view σ' [⟨.household, some ⟨some deletedAt⟩⟩]) ownerUserIds)
    (recoveryGrant userId (wall σ.clock)))) hheld
   have hcommit : ∀ created granted restorableUntil, SafeOn recovery _ (fun σ => Agree Inside db σ.db)
     (.commit (.householdDeleted (some userId) granted restorableUntil) .halt)
     (⟨.household, some ⟨some deletedAt⟩⟩ :: grantWrites created (recoveryGrant userId (wall σ.clock))) :=
    fun created _ _ => safeOn_deleted created _ hlive hmore rfl (.inr ⟨userId, rfl, hrole⟩)
   dsimp only
   by_cases hcreated :
    (withoutGrant (view σ' [⟨.household, some ⟨some deletedAt⟩⟩]) ownerUserIds).contains userId = true
   · rw [if_pos hcreated]
     exact safeOn_query (keeps_inside hmore db) fun _ _ _ => hcommit _ _ _
   · rw [if_neg hcreated]
     exact hcommit _ _ _
 · rw [if_neg hpermission]
   exact safeOn_refused (keeps_inside hheld db)

theorem safeOn_openWindows (hlive : isDeleted db = false)
  (hheld : (⟨.row .household, true⟩ : Lock Key Empty) ∈ known) (deletedAt : ℕ) (actor : Actor) :
  SafeOn recovery known (fun σ => Agree Inside db σ.db) (openWindows wall actor)
   [⟨.household, some ⟨some deletedAt⟩⟩] := by
 have hquiet : ∀ userId, SafeOn recovery known (fun σ => Agree Inside db σ.db)
   (.commit (.householdDeleted userId [] none) .halt) [⟨.household, some ⟨some deletedAt⟩⟩] :=
    fun userId =>
  safeOn_deleted [] (recoveryGrant 0 0) hlive hheld rfl (.inl rfl)
 -- the member rows are read under the household's lock
 refine safeOn_query (keeps_inside hheld db) fun σ' _ hagree => ?_
 cases actor.userId with
 | none => exact hquiet none
 | some userId =>
  dsimp only
  by_cases howner :
   (ownersAmong (members (view σ' [⟨.household, some ⟨some deletedAt⟩⟩]))).contains userId = true
  · rw [if_pos howner]
    refine safeOn_grantRecovery wall hlive hheld _ ?_
    have hview := owner_of_mem howner
    rw [member?, view, lookup_applyLog_of_notMem _ (by simp), hagree (.member userId) rfl] at hview
    exact hview
  · rw [if_neg howner]
    exact hquiet (some userId)

theorem safe_deleteHousehold (actor : Actor) (σ : State) :
  Safe recovery (deleteHousehold wall actor) [] [] σ := by
 apply safe_of_safeOn
 refine safeOn_query (keeps_const _ _ _) fun σ₁ _ _ => safeOn_query (keeps_const _ _ _) fun σ₂ _ _ => ?_
 by_cases hfound : isLive (view σ₂ []) = true
 · rw [if_pos hfound]
   refine safeOn_writeRow (keeps_const _ _ _) fun σ₃ _ _ _ household hrow hallowed => ?_
   refine ⟨fun σ => Agree Inside σ₃.db σ.db, .refl _ _, ?_⟩
   have hlive : isDeleted σ₃.db = false := by
    have hrow' : household? σ₃.db = some household := hrow
    have hnone : household.deletedAt = none := by simpa using (Bool.and_eq_true_iff.1 hallowed).1
    rw [isDeleted, hrow', Option.any_some, hnone]
    rfl
   exact safeOn_openWindows wall hlive (List.mem_singleton_self _) _ actor
 · rw [if_neg hfound]
   exact safeOn_halt

theorem revoked_none {grant : UserPermission} (h : grant.inverted = none) :
  applied revokeGrants (.recoveryGrant userId) (some grant) = none := by
 simp [applied, revokeGrants, h]

theorem safe_restoreHousehold (actor : Actor) (σ : State) :
  Safe recovery (restoreHousehold wall actor) [] [] σ := by
 apply safe_of_safeOn
 refine safeOn_query (keeps_const _ _ _) fun σ₁ _ _ => ?_
 refine safeOn_writeRow (keeps_const _ _ _) fun σ₂ _ _ _ household hrow hallowed => ?_
 refine ⟨fun σ => Agree Inside σ₂.db σ.db, .refl _ _, ?_⟩
 have hheld : (⟨.row .household, true⟩ : Lock Key Empty) ∈ [] ++ [⟨.row .household, true⟩] :=
  List.mem_singleton_self _
 have hdeleted : isDeleted σ₂.db = true := by
  have hrow' : household? σ₂.db = some household := hrow
  rw [isDeleted, hrow', Option.any_some]
  exact (Bool.and_eq_true_iff.1 hallowed).1
 have htouches : ∀ k row value, revokeGrants k row = some value → Window k := by
  intro k row value hchange
  cases k with
  | recoveryGrant userId => trivial
  | _ => cases hchange
 have hsettles : ∀ k row row', revokeGrants k row = some (some row') → revokeGrants k row' = none := by
  intro k row row' hchange
  cases k with
  | recoveryGrant userId => simp [revokeGrants] at hchange
  | _ => cases hchange
 have hfrozen : ∀ σ : State, Agree Inside σ₂.db σ.db → Agree Window σ₂.db σ.db := by
  intro σ hagree k hk
  cases k with
  | recoveryGrant userId => exact hagree _ rfl
  | _ => exact hk.elim
 refine safeOn_updateMany htouches hsettles (keeps_inside hheld _) hfrozen fun written hwritten hrows => ?_
 have hmore := List.mem_append_left (writeLocks written) hheld
 refine safeOn_query (keeps_inside hmore _) fun σ₃ _ _ => ?_
 refine safeOn_commit (keeps_inside hmore _) (fun held σ hknown _ hinv hagree => ?_) safeOn_halt
 refine ⟨respected (hknown hmore) _,
  .restores ((isDeleted_congr hagree).trans hdeleted) ?_ fun userId => ?_⟩
 · have hhousehold := household_applyLog σ.db written ⟨none⟩ fun w hw heq => by
    have hkey := hwritten w hw
    rw [heq] at hkey
    exact hkey
   rw [isDeleted, List.nil_append, List.singleton_append, hhousehold]
   rfl
 · rw [grant?, hagree.applyLog _ (.recoveryGrant userId) rfl, hrows (.recoveryGrant userId) trivial,
    List.nil_append]
   rw [lookup_applyLog_of_notMem _ (by simp), ← hagree (.recoveryGrant userId) rfl]
   obtain ⟨past, deletion, -, hdeletion, hwindow⟩ := hinv.deleted ((isDeleted_congr hagree).trans hdeleted)
   cases hgrant : σ.db.lookup (.recoveryGrant userId) with
   | none => rfl
   | some grant =>
    have hafter : grant? deletion.after userId = some grant :=
     (hwindow (.recoveryGrant userId) trivial).symm.trans hgrant
    exact revoked_none (hdeletion.window userId grant hafter).2.1

theorem recovery_sound : Sound recovery (program wall) where
 safe request σ _ := by
  cases request with
  | deleteHousehold actor => exact safe_deleteHousehold wall actor σ
  | restoreHousehold actor => exact safe_restoreHousehold wall actor σ
 tick _ h := ⟨h.live, h.deleted⟩
 commit _ _ _ _ heffect := heffect.ordered
 outside _ _ hinv hw := hinv.outside hw

end Safety

section Runs

variable {wall : ℕ → ℕ} {db : Db} {s : Sys Row Empty Mutation}

def Undeleted (db : Db) : Prop := isDeleted db = false ∧ ∀ userId, grant? db userId = none

abbrev HouseholdReachable (wall : ℕ → ℕ) (db : Db) (s : Sys Row Empty Mutation) : Prop :=
  Reachable (program wall) outside db s

def isStaff (v : Db) (userId : ℕ) : Bool :=
  (staffRole? v userId .owner).isSome || (staffRole? v userId .admin).isSome

/-- The rules of a user who is not staff, built again when the restore commits,
    still admit it. -/
def Current (wall : ℕ → ℕ) (entry : Entry Row Mutation) : Prop :=
  ∀ userId members, entry.event = .householdRestored (some userId) members →
   isStaff entry.before userId = false →
    admits entry.before false (rulesOf entry.before (wall entry.time) userId .update).reverse = true

/-- A restore by a user who is not staff undoes a delete by an owner, and the
    user holds an open window that this very delete created. -/
def Rightful (wall : ℕ → ℕ) (earlier : List (Entry Row Mutation)) (entry : Entry Row Mutation) : Prop :=
  ∀ userId members, entry.event = .householdRestored (some userId) members →
   isStaff entry.before userId = false →
    ∃ past deletion grant, earlier = past ++ [deletion] ∧ OwnerDeletion deletion ∧
      grant? deletion.before userId = none ∧ grant? deletion.after userId = some grant ∧
      grant? entry.before userId = some grant ∧ unexpired (wall entry.time) grant.expiresAt = true

theorem admits_rule {v : Db} {rules : List Rule} :
  ∀ {matched : Bool}, admits v matched rules = true →
  matched = true ∨ ∃ rule ∈ rules, rule.inverted = false := by
 induction rules with
 | nil => exact fun h => .inl h
 | cons rule lower ih =>
  intro matched h
  obtain ⟨inverted, condition⟩ := rule
  cases inverted with
  | false => exact .inr ⟨_, List.mem_cons_self, rfl⟩
  | true =>
   cases condition with
   | none => exact .inl h
   | some condition =>
    rw [admits, Bool.and_eq_true] at h
    exact (ih h.2).imp_right fun ⟨rule, hrule, hgrant⟩ => ⟨rule, List.mem_cons_of_mem _ hrule, hgrant⟩

theorem not_live {v : Db} (h : isDeleted v = true) : isLive v = false := by
 rw [isDeleted] at h
 rw [isLive]
 cases hrow : household? v with
 | none => rfl
 | some household =>
  rw [hrow, Option.any_some] at h
  rw [Option.any_some, Option.isNone_eq_false_iff]
  exact h

theorem grant_of_admits {v : Db} {now userId : ℕ} (hdeleted : isDeleted v = true)
  (hstaff : isStaff v userId = false)
  (h : admits v false (rulesOf v now userId .update).reverse = true) :
  ∃ grant, grant? v userId = some grant ∧ unexpired now grant.expiresAt = true := by
 obtain ⟨rule, hrule, hgrants⟩ := (admits_rule h).resolve_left (by simp)
 rw [List.mem_reverse] at hrule
 have hnobody : staffRules v userId .update = [] := by
  obtain ⟨howner, hadmin⟩ := Bool.or_eq_false_iff.1 hstaff
  simp [staffRules, howner, hadmin]
 have hgone : membershipRules v userId .update = [] := by
  simp [membershipRules, not_live hdeleted]
 rw [rulesOf, hnobody, hgone, List.nil_append, List.nil_append, directRules] at hrule
 by_cases hpermission : (restorePermission? v).isSome = true
 · rw [if_pos hpermission] at hrule
   rcases List.mem_append.1 hrule with hgranted | hdenied
   · obtain ⟨grant, hgrant, -⟩ := List.mem_map.1 hgranted
     have hown := Option.mem_toList.1 (List.mem_filter.1 hgrant).1
     exact ⟨grant, (Option.filter_eq_some_iff.1 hown).1, (Option.filter_eq_some_iff.1 hown).2⟩
   · rcases List.mem_append.1 hdenied with hdenied | hdenied
     all_goals
      obtain ⟨_, -, rfl⟩ := List.mem_map.1 hdenied
      cases hgrants
 · rw [if_neg hpermission] at hrule
   cases hrule

theorem HouseholdStep.rightful {σ : State} {m : Mutation} {db' : Db} (hinv : Ordered σ)
  (hstep : HouseholdStep σ m db') (hcurrent : Current wall ⟨m, σ.clock, σ.db, db'⟩) :
  Rightful wall σ.ledger ⟨m, σ.clock, σ.db, db'⟩ := by
 intro userId members hevent hstaff
 cases hstep with
 | deletes h => cases hevent
 | restores hdeleted hlive hrevoked =>
  obtain ⟨past, deletion, hledger, hdeletion, hwindow⟩ := hinv.deleted hdeleted
  obtain ⟨grant, hgrant, hopen⟩ := grant_of_admits hdeleted hstaff (hcurrent userId members hevent hstaff)
  have hafter : grant? deletion.after userId = some grant :=
   (hwindow (.recoveryGrant userId) trivial).symm.trans hgrant
  obtain ⟨hbefore, -, howner⟩ := hdeletion.window userId grant hafter
  exact ⟨past, deletion, grant, hledger, howner, hbefore, hafter, hgrant, hopen⟩

/-- In a run whose restores are still admitted when they commit, no restore
    but by staff undoes a moderation delete. -/
theorem restores_rightful (hdb : Undeleted db) (h : HouseholdReachable wall db s)
    (hcurrent : ∀ entry ∈ s.shared.ledger, Current wall entry) :
    ∀ earlier entry later, s.shared.ledger = earlier ++ entry :: later → Rightful wall earlier entry := by
 refine reachable_induction (P := recovery) (recovery_sound wall) ⟨fun _ => hdb.2, fun hdeleted => ?_⟩
  (fun σ => (∀ entry ∈ σ.ledger, Current wall entry) → ∀ earlier entry later,
   σ.ledger = earlier ++ entry :: later → Rightful wall earlier entry) ?_ ?_ h hcurrent
 · have hlive : isDeleted db = true := hdeleted
   rw [hdb.1] at hlive
   cases hlive
 · intro _ earlier entry later hsplit
   simp at hsplit
 · intro σ σ' hinv ih hmove
   cases hmove with
   | tick => exact ih
   | outside w hw => exact ih
   | commit m db' hstep =>
    intro hall earlier entry later hsplit
    have hsplit' : σ.ledger ++ [⟨m, σ.clock, σ.db, db'⟩] = earlier ++ entry :: later := hsplit
    rcases List.eq_nil_or_concat later with rfl | ⟨later', last, rfl⟩
    · obtain ⟨rfl, hlast⟩ := List.append_inj' hsplit' rfl
      obtain rfl := (List.cons.inj hlast).1.symm
      exact hstep.rightful hinv (hall _ (List.mem_append_right _ List.mem_cons_self))
    · rw [List.concat_eq_append, ← List.cons_append, ← List.append_assoc] at hsplit'
      obtain ⟨hold, -⟩ := List.append_inj' hsplit' rfl
      exact ih (fun entry hentry => hall entry (List.mem_append_left _ hentry)) earlier entry later' hold

end Runs

section Samples

def signedIn (userId : ℕ) : Actor := .user userId fun _ _ => true

def sampleHousehold : Db :=
  (((∅ : Db).insert .household ⟨none⟩ |>.insert (.member 1) .householdOwner).insert
   (.staffRole 9 .admin) ()).insert
    .restorePermission ()

def steps (i n : ℕ) : List (Action Row Request) := List.replicate n (.advance i)

def ownerDeletes : List (Action Row Request) := .spawn (.deleteHousehold (signedIn 1)) :: steps 0 8

def ownerUndoes : List (Action Row Request) :=
    ownerDeletes ++ .spawn (.restoreHousehold (signedIn 1)) :: steps 1 6

/-- A restore of the owner's begins inside the window. Staff restore the
    household and delete it again, and then it goes on. -/
def staleRestore : List (Action Row Request) :=
  ownerDeletes ++ .spawn (.restoreHousehold (signedIn 1)) :: steps 1 1 ++
    .spawn (.restoreHousehold (signedIn 9)) :: steps 2 6 ++ .spawn
     (.deleteHousehold (signedIn 9)) :: steps 3 5 ++
    steps 1 4

def current (wall : ℕ → ℕ) (entry : Entry Row Mutation) : Bool :=
  match entry.event with
  | .householdRestored (some userId) _ =>
    admits entry.before false (rulesOf entry.before (wall entry.time) userId .update).reverse
  | _ => true

theorem current_of_check {wall : ℕ → ℕ} {entry : Entry Row Mutation} (h : current wall entry = true) :
  Current wall entry := by
 intro userId members hevent _
 rw [current, hevent] at h
 exact h

theorem undeleted_sample : Undeleted sampleHousehold := by
 refine ⟨by decide, fun userId => ?_⟩
 have hinitial : ∀ k, k ≠ .household ∧ k ≠ .member 1 ∧ k ≠ .staffRole 9 .admin ∧ k ≠ .restorePermission →
   sampleHousehold.lookup k = none := by
  rintro k ⟨hhousehold, hmember, hstaff, hpermission⟩
  rw [sampleHousehold, AList.lookup_insert_ne hpermission, AList.lookup_insert_ne hstaff,
   AList.lookup_insert_ne hmember, AList.lookup_insert_ne hhousehold]
  rfl
 exact hinitial (.recoveryGrant userId) (by simp)

/-- The owner's own undo. -/
theorem restores_rightful_undo : ∃ s : Sys Row Empty Mutation,
    s.shared.ledger.map (·.event) =
        [.householdDeleted (some 1) [1] (some (5 + HOUSEHOLD_RESTORE_WINDOW_MS)),
         .householdRestored (some 1) [1]] ∧
      ∀ earlier entry later, s.shared.ledger = earlier ++ entry :: later → Rightful id earlier entry := by
 have hrun : (run (program id) outside (initial sampleHousehold) ownerUndoes).map
   (fun s => (s.shared.ledger.map (·.event), s.shared.ledger.all (current id))) =
    some ([.householdDeleted (some 1) [1] (some (5 + HOUSEHOLD_RESTORE_WINDOW_MS)),
     .householdRestored (some 1) [1]], true) := by
  decide +kernel
 obtain ⟨s, hs, hsample⟩ := Option.map_eq_some_iff.1 hrun
 obtain ⟨hledger, hcurrent⟩ := Prod.mk.inj hsample
 exact ⟨s, hledger, restores_rightful undeleted_sample (reachable_of_run hs)
  fun entry hentry => current_of_check (List.all_eq_true.1 hcurrent entry hentry)⟩

/-- The owner's restore undoes the delete by staff. -/
theorem stale_restore_undoes_moderation :
  ¬ ∀ (wall : ℕ → ℕ) (db : Db) (s : Sys Row Empty Mutation), Undeleted db →
    HouseholdReachable wall db s →
      ∀ earlier entry later, s.shared.ledger = earlier ++ entry :: later →
       Rightful wall earlier entry := by
 intro h
 have hrun : (run (program id) outside (initial sampleHousehold) staleRestore).map
   (fun s => s.shared.ledger.map fun entry =>
    (entry.event, isStaff entry.before 1, member? entry.before 9)) =
    some [(.householdDeleted (some 1) [1] (some (5 + HOUSEHOLD_RESTORE_WINDOW_MS)), false, none),
     (.householdRestored (some 9) [1], false, none), (.householdDeleted (some 9) [] none, false, none),
     (.householdRestored (some 1) [1], false, none)] := by
  decide +kernel
 obtain ⟨s, hs, hledger⟩ := Option.map_eq_some_iff.1 hrun
 obtain ⟨first, rest₁, hsplit, -, hrest₁⟩ := List.map_eq_cons_iff.1 hledger
 obtain ⟨second, rest₂, rfl, -, hrest₂⟩ := List.map_eq_cons_iff.1 hrest₁
 obtain ⟨third, rest₃, rfl, hthird, hrest₃⟩ := List.map_eq_cons_iff.1 hrest₂
 obtain ⟨fourth, rest₄, rfl, hfourth, -⟩ := List.map_eq_cons_iff.1 hrest₃
 have hrightful := h id sampleHousehold s undeleted_sample (reachable_of_run hs)
  [first, second, third] fourth rest₄ hsplit
 obtain ⟨past, deletion, grant, hpast, howner, -⟩ :=
  hrightful 1 [1] (congrArg (·.1) hfourth) (congrArg (·.2.1) hfourth)
 -- the last delete is the one by staff, who own nothing
 have hpast' : [first, second] ++ [third] = past ++ [deletion] := hpast
 obtain ⟨-, hlast⟩ := List.append_inj' hpast' rfl
 obtain rfl := (List.cons.inj hlast).1
 obtain ⟨userId, granted, restorableUntil, hevent, hrole⟩ := howner
 have hby : third.event = .householdDeleted (some 9) [] none := congrArg (·.1) hthird
 rw [hby] at hevent
 cases hevent
 have hnone : member? third.before 9 = none := congrArg (·.2.2) hthird
 rw [hnone] at hrole
 cases hrole

end Samples

end BoardGamesEmpire.HouseholdRecovery
