import BoardGamesEmpire.UserProvisioning

set_option autoImplicit false

/-!
# The Owner election, step by step

A look at the Owner seat that finds it taken stays right; a look that finds it
open stays right while the election lock is held, because a first human role is
only committed under it. The service account has to be nobody's account:
`ensure` makes the user who has its username one.
-/
namespace BoardGamesEmpire.UserProvisioning
open JsText ReadCommitted ReadCommittedProtocol

section Seat

def HasRole (db : Db) (userId roleId : ℕ) : Prop := (db.lookup (.userRole userId roleId)).isSome = true

def userOf (db : Db) (userId : ℕ) : Option User := db.lookup (Key.user userId)

def roleOf (db : Db) (roleId : ℕ) : Option Role := db.lookup (Key.role roleId)

def roleNameOf (db : Db) (roleId : ℕ) : Option Text := (roleOf db roleId).map Role.name

def HoldsRole (db : Db) (userId : ℕ) (name : SystemRole) : Prop :=
  ∃ roleId, HasRole db userId roleId ∧ roleNameOf db roleId = some name.text

def IsUser (db : Db) (userId : ℕ) (row : User) : Prop := userOf db userId = some row

def Person (db : Db) (userId : ℕ) : Prop := ∃ row, IsUser db userId row ∧ row.isServiceAccount = false

def Human (db : Db) (userId : ℕ) : Prop := ∃ row, IsUser db userId row ∧ isHuman row = true

def humanIn (db : Db) (userId : ℕ) : Bool := (userOf db userId).any isHuman

def SeatTaken (start db : Db) : Prop := ∃ userId, Human start userId ∧ ∃ roleId, HasRole db userId roleId

theorem mem_users {v : Db} {id : ℕ} {row : User} :
  (id, row) ∈ select asUser v ↔ IsUser v id row := by
 rw [mem_select]
 constructor
 · intro h
   obtain ⟨k, found, hfound, hrow⟩ := h
   cases k with
   | user u =>
    cases hrow
    exact hfound
   | preferences u => cases hrow
   | profile u => cases hrow
   | userRole u r => cases hrow
   | role r => cases hrow
 · intro h
   exact ⟨.user id, row, h, rfl⟩

theorem any_userRoles {v : Db} {id : ℕ} :
  ((select asUserRole v).any fun assignment => assignment.1 == id) = true ↔ ∃ roleId,
   HasRole v id roleId := by
 rw [List.any_eq_true]
 constructor
 · intro h
   obtain ⟨⟨userId, roleId⟩, hmem, hid⟩ := h
   obtain rfl : userId = id := by simpa using hid
   obtain ⟨k, found, hfound, hrow⟩ := mem_select.1 hmem
   cases k with
   | userRole u r =>
    cases hrow
    exact ⟨roleId, Option.isSome_iff_exists.2 ⟨found, hfound⟩⟩
   | user u => cases hrow
   | preferences u => cases hrow
   | profile u => cases hrow
   | role r => cases hrow
 · intro h
   obtain ⟨roleId, hrole⟩ := h
   obtain ⟨found, hfound⟩ := Option.isSome_iff_exists.1 hrole
   exact ⟨(id, roleId), mem_select.2 ⟨.userRole id roleId, found, hfound, rfl⟩, beq_self_eq_true id⟩

theorem ownerSeatTaken_iff {v : Db} :
  ownerSeatTaken v = true ↔ ∃ userId, Human v userId ∧ ∃ roleId, HasRole v userId roleId := by
 rw [ownerSeatTaken, List.any_eq_true]
 constructor
 · intro h
   obtain ⟨⟨id, row⟩, hmem, hseat⟩ := h
   obtain ⟨hhuman, hrole⟩ := (Bool.and_eq_true _ _).mp hseat
   exact ⟨id, ⟨row, mem_users.1 hmem, hhuman⟩, any_userRoles.1 hrole⟩
 · intro h
   obtain ⟨id, ⟨row, hrow, hhuman⟩, hrole⟩ := h
   exact ⟨(id, row), mem_users.2 hrow, (Bool.and_eq_true _ _).mpr ⟨hhuman, any_userRoles.2 hrole⟩⟩

theorem humanIn_iff {db : Db} {userId : ℕ} : humanIn db userId = true ↔ Human db userId := by
 rw [humanIn, Option.any_eq_true]
 exact Iff.rfl

end Seat

section Standing

/-- What no provisioning changes: the catalog, and who the users of the start
    are. A user who was not there at the start is no human. -/
structure Standing (start db : Db) : Prop where
  catalog : ∀ roleId, db.lookup (.role roleId) = start.lookup (.role roleId)
  people : ∀ userId row, IsUser start userId row → row.isServiceAccount = false →
    IsUser db userId row ∨ IsUser db userId (crowned row)
  humans : ∀ userId, Human db userId → Human start userId

def Reserved (start : Db) : Prop :=
  ∀ userId row, IsUser start userId row → row.isServiceAccount = false →
   row.username ≠ serviceAccountUsername

theorem Standing.refl (start : Db) : Standing start start :=
 ⟨fun _ => rfl, fun _ _ h _ => .inl h, fun _ h => h⟩

theorem isHuman_person {row : User} (h : isHuman row = true) : row.isServiceAccount = false := by
 have := (Bool.and_eq_true _ _).mp h
 simpa using this.1

theorem Standing.human_iff {start db : Db} (h : Standing start db) {userId : ℕ} :
  Human db userId ↔ Human start userId := by
 constructor
 · exact h.humans userId
 · intro hhuman
   obtain ⟨row, hrow, hhuman⟩ := hhuman
   rcases h.people userId row hrow (isHuman_person hhuman) with hsame | hcrowned
   · exact ⟨row, hsame, hhuman⟩
   · exact ⟨crowned row, hcrowned, hhuman⟩

theorem Standing.seat_iff {start db : Db} (h : Standing start db) :
  ownerSeatTaken db = true ↔ SeatTaken start db := by
 rw [ownerSeatTaken_iff]
 constructor
 · intro hseat
   obtain ⟨userId, hhuman, hrole⟩ := hseat
   exact ⟨userId, h.human_iff.1 hhuman, hrole⟩
 · intro hseat
   obtain ⟨userId, hhuman, hrole⟩ := hseat
   exact ⟨userId, h.human_iff.2 hhuman, hrole⟩

end Standing

section Steps

def ownerOf : Key → Option ℕ
  | .user id | .preferences id | .profile id | .userRole id _ => some id
  | .role _ => none

def roleNamesOf (row : User) (elected : Bool) : List SystemRole :=
  if elected then firstHumanRoleNames else baseRoleNames (row.isAnonymous == some true)

structure ProvisionStep (start before : Db) (userId : ℕ) (elected : Bool) (after : Db) : Prop where
  row : ∃ row, IsUser start userId row ∧ row.isServiceAccount = false ∧
    ∃ roleIds : List ℕ, (∀ roleId, HasRole after userId roleId ↔ HasRole before userId roleId ∨
     roleId ∈ roleIds) ∧
      roleIds.map (roleNameOf start) = (roleNamesOf row elected).map fun name => some name.text
  won : elected = true → Human start userId ∧ ¬ SeatTaken start before
  passed : elected = false → Human start userId → SeatTaken start before
  unprovisioned : before.lookup (.preferences userId) = none
  preferences : (after.lookup (.preferences userId)).isSome = true
  profile : (after.lookup (.profile userId)).isSome = true
  user : userOf after userId = if elected then (userOf before userId).map crowned else userOf before userId
  elsewhere : ∀ k, ownerOf k ≠ some userId → after.lookup k = before.lookup k

/-- `ensure` writes a service account over nobody, or over who has its name. -/
def EnsureStep (before after : Db) : Prop :=
  ∀ k, after.lookup k = before.lookup k ∨ ∃ userId row, k = .user userId ∧ IsUser after userId row ∧
    row.isServiceAccount = true ∧ ∀ old, IsUser before userId old → old.username = serviceAccountUsername

def ElectionStep (start before : Db) (event : Event) (after : Db) : Prop :=
  match event with
  | .provisioned userId elected => ProvisionStep start before userId elected after
  | .serviceAccountEnsured => EnsureStep before after

theorem ProvisionStep.roles_grow {start before after : Db} {userId : ℕ} {elected : Bool}
  (h : ProvisionStep start before userId elected after) {user roleId : ℕ}
  (hrole : HasRole before user roleId) :
  HasRole after user roleId := by
 by_cases heq : user = userId
 · subst heq
   obtain ⟨row, -, -, roleIds, hroles, -⟩ := h.row
   exact (hroles roleId).2 (.inl hrole)
 · have hkeep := h.elsewhere (.userRole user roleId) fun hsome => heq (Option.some.inj hsome)
   rw [HasRole, hkeep]
   exact hrole

theorem EnsureStep.elsewhere {before after : Db} (h : EnsureStep before after) {k : Key}
  (hk : ∀ userId, k ≠ .user userId) : after.lookup k = before.lookup k := by
 rcases h k with hsame | ⟨userId, row, hkey, -⟩
 · exact hsame
 · exact absurd hkey (hk userId)

theorem electionStep_roles {start before after : Db} {event : Event}
  (h : ElectionStep start before event after)
  {user roleId : ℕ} (hrole : HasRole before user roleId) : HasRole after user roleId := by
 cases event with
 | provisioned userId elected => exact ProvisionStep.roles_grow h hrole
 | serviceAccountEnsured =>
  have hkeep := EnsureStep.elsewhere h (k := .userRole user roleId) fun userId hkey => by cases hkey
  rw [HasRole, hkeep]
  exact hrole

theorem ProvisionStep.standing {start before after : Db} {userId : ℕ} {elected : Bool}
  (h : ProvisionStep start before userId elected after) (hbefore : Standing start before) :
  Standing start after := by
 have hrow : ∀ user row, IsUser after user row →
   IsUser before user row ∨ ∃ old, IsUser before user old ∧ row = crowned old := by
  intro user row hafter
  by_cases heq : user = userId
  · subst heq
    cases elected with
    | false =>
     left
     exact h.user.symm.trans hafter
    | true =>
     right
     obtain ⟨old, hold, hcrowned⟩ := Option.map_eq_some_iff.1 (h.user.symm.trans hafter)
     exact ⟨old, hold, hcrowned.symm⟩
  · left
    exact (h.elsewhere (.user user) fun hsome => heq (Option.some.inj hsome)).symm.trans hafter
 refine ⟨fun roleId => ?_, fun user row hstart hperson => ?_, fun user hhuman => ?_⟩
 · exact (h.elsewhere (.role roleId) fun hsome => by cases hsome).trans (hbefore.catalog roleId)
 · have hbefore := hbefore.people user row hstart hperson
   by_cases heq : user = userId
   · subst heq
     cases elected with
     | false => exact hbefore.imp h.user.trans h.user.trans
     | true =>
      right
      rcases hbefore with hsame | hcrowned
      · exact h.user.trans (congrArg (Option.map crowned) hsame)
      · exact h.user.trans (congrArg (Option.map crowned) hcrowned)
   · have hkeep := h.elsewhere (.user user) fun hsome => heq (Option.some.inj hsome)
     exact hbefore.imp hkeep.trans hkeep.trans
 · obtain ⟨row, hafter, hhuman⟩ := hhuman
   apply hbefore.humans
   rcases hrow user row hafter with hsame | ⟨old, hold, rfl⟩
   · exact ⟨row, hsame, hhuman⟩
   · exact ⟨old, hold, hhuman⟩

theorem EnsureStep.keeps_person {start before after : Db} (h : EnsureStep before after)
  (hreserved : Reserved start) (hbefore : Standing start before) {userId : ℕ}
  (hperson : Person start userId) :
  after.lookup (.user userId) = before.lookup (.user userId) := by
 obtain ⟨row, hstart, hservice⟩ := hperson
 rcases h (.user userId) with hsame | ⟨user, new, hkey, -, -, hold⟩
 · exact hsame
 · obtain rfl : userId = user := Key.user.inj hkey
   have hname := hreserved userId row hstart hservice
   rcases hbefore.people userId row hstart hservice with hrow | hrow
   · exact absurd (hold row hrow) hname
   · exact absurd (hold (crowned row) hrow) hname

theorem EnsureStep.standing {start before after : Db} (h : EnsureStep before after)
  (hreserved : Reserved start) (hbefore : Standing start before) : Standing start after := by
 refine ⟨fun roleId => ?_, fun user row hstart hservice => ?_, fun user hhuman => ?_⟩
 · exact (h.elsewhere fun userId hkey => by cases hkey).trans (hbefore.catalog roleId)
 · have hsame := h.keeps_person hreserved hbefore ⟨row, hstart, hservice⟩
   exact (hbefore.people user row hstart hservice).imp hsame.trans hsame.trans
 · obtain ⟨row, hafter, hhuman⟩ := hhuman
   rcases h (.user user) with hsame | ⟨userId, new, hkey, hnew, hservice, -⟩
   · exact hbefore.humans user ⟨row, hsame.symm.trans hafter, hhuman⟩
   · obtain rfl : user = userId := Key.user.inj hkey
     obtain rfl : new = row := Option.some.inj (hnew.symm.trans hafter)
     rw [isHuman_person hhuman] at hservice
     cases hservice

theorem ElectionStep.standing {start before after : Db} {event : Event}
  (h : ElectionStep start before event after) (hreserved : Reserved start)
  (hbefore : Standing start before) :
  Standing start after := by
 cases event with
 | provisioned userId elected => exact ProvisionStep.standing h hbefore
 | serviceAccountEnsured => exact EnsureStep.standing h hreserved hbefore

end Steps

section Protocol

def electionProtocol (start : Db) : Protocol Row Text Event where
  inv σ := Standing start σ.db
  effect σ event db := ElectionStep start σ.db event db
  guarantee held before after := ¬ SeatTaken start before → SeatTaken start after →
   ownerElectionLock ∈ held
  outside := fun _ => false

variable {start : Db} {known : List (Lock Key Text)}

theorem keeps_seatTaken (start : Db) (known : List (Lock Key Text)) :
  Keeps (electionProtocol start) known fun σ => SeatTaken start σ.db := by
 intro held hknown σ σ' hseat _ _ hrely
 cases hrely with
 | tick => exact hseat
 | outside w hkey hfree => cases hkey
 | commit other event db hfree hrows hguar heffect =>
  obtain ⟨userId, hhuman, roleId, hrole⟩ := hseat
  exact ⟨userId, hhuman, roleId, electionStep_roles heffect hrole⟩

theorem keeps_seatOpen (hlock : ownerElectionLock ∈ known) :
  Keeps (electionProtocol start) known fun σ => ¬ SeatTaken start σ.db := by
 intro held hknown σ σ' hopen _ _ hrely
 cases hrely with
 | tick => exact hopen
 | outside w hkey hfree => cases hkey
 | commit other event db hfree hrows hguar heffect =>
  intro hseat
  exact hfree _ (hknown hlock) _ (hguar hopen hseat) ⟨rfl, .inl rfl⟩

def Ruling (start : Db) (userId : ℕ) (elected : Bool) (σ : Shared Row Event) : Prop :=
  if elected then Human start userId ∧ ¬ SeatTaken start σ.db else Human start userId →
   SeatTaken start σ.db

theorem keeps_ruling {userId : ℕ} {elected : Bool}
  (hlock : elected = true → ownerElectionLock ∈ known) :
  Keeps (electionProtocol start) known (Ruling start userId elected) := by
 cases elected with
 | true => exact (keeps_const _ _ (Human start userId)).and (keeps_seatOpen (hlock rfl))
 | false =>
  intro held hknown σ σ' hruling hinv hinv' hrely hhuman
  exact keeps_seatTaken start known held hknown σ σ' (hruling hhuman) hinv hinv' hrely

def Writing (start : Db) (userId : ℕ) (elected : Bool) (σ : Shared Row Event) : Prop :=
  Ruling start userId elected σ ∧ σ.db.lookup (.preferences userId) = none

theorem keeps_writing {userId : ℕ} {elected : Bool}
  (hlock : elected = true → ownerElectionLock ∈ known)
  (hrow : (⟨.row (.preferences userId), true⟩ : Lock Key Text) ∈ known) :
  Keeps (electionProtocol start) known (Writing start userId elected) :=
 (keeps_ruling hlock).and (keeps_row _ hrow none)

end Protocol

section Logs

def provisioningLog (userId : ℕ) (row : User) (roleIds : List ℕ) : List (Write Row) :=
  ⟨.preferences userId, some newPreferences⟩ :: ⟨.profile userId, some (newProfile row)⟩ ::
    assignmentWrites userId roleIds

def crowningLog (userId : ℕ) (elected : Bool) (current : User) : List (Write Row) :=
  if elected then [⟨.user userId, some (crowned current)⟩] else []

variable {userId : ℕ} {row current : User} {roleIds : List ℕ} {elected : Bool} {w : Write Row}

theorem mem_log (hw : w ∈ provisioningLog userId row roleIds ++ crowningLog userId elected current) :
  w = ⟨.preferences userId, some newPreferences⟩ ∨ w = ⟨.profile userId, some (newProfile row)⟩ ∨
  (∃ roleId ∈ roleIds, w = ⟨.userRole userId roleId, some ()⟩) ∨
  (elected = true ∧ w = ⟨.user userId, some (crowned current)⟩) := by
 rcases List.mem_append.1 hw with hw | hw
 · rcases List.mem_cons.1 hw with rfl | hw
   · exact .inl rfl
   · rcases List.mem_cons.1 hw with rfl | hw
     · exact .inr (.inl rfl)
     · obtain ⟨roleId, hroleId, rfl⟩ := List.mem_map.1 hw
       exact .inr (.inr (.inl ⟨roleId, hroleId, rfl⟩))
 · cases elected with
   | false => exact absurd hw List.not_mem_nil
   | true => exact .inr (.inr (.inr ⟨rfl, List.mem_singleton.1 hw⟩))

theorem lookup_log_role (db : Db) (roleId : ℕ) :
  HasRole (applyLog db (provisioningLog userId row roleIds ++ crowningLog userId elected current))
   userId roleId ↔
   HasRole db userId roleId ∨ roleId ∈ roleIds := by
 by_cases hmem : roleId ∈ roleIds
 · have hlookup :
    (applyLog db (provisioningLog userId row roleIds ++ crowningLog userId elected current)).lookup
     (.userRole userId roleId) = some () := by
    refine lookup_applyLog_eq db
     ⟨⟨.userRole userId roleId, some ()⟩, List.mem_append_left _ (List.mem_cons_of_mem _
     (List.mem_cons_of_mem _ (List.mem_map_of_mem hmem))), rfl⟩ ?_
    intro w hw hkey
    rcases mem_log hw with rfl | rfl | ⟨r, -, rfl⟩ | ⟨-, rfl⟩
    · cases hkey
    · cases hkey
    · cases hkey
      rfl
    · cases hkey
   rw [HasRole, hlookup]
   exact ⟨fun _ => .inr hmem, fun _ => rfl⟩
 · have hlookup :
    (applyLog db (provisioningLog userId row roleIds ++ crowningLog userId elected current)).lookup
     (.userRole userId roleId) = db.lookup (.userRole userId roleId) := by
    refine lookup_applyLog_of_notMem db ?_
    intro w hw hkey
    rcases mem_log hw with rfl | rfl | ⟨r, hr, rfl⟩ | ⟨-, rfl⟩
    · cases hkey
    · cases hkey
    · cases hkey
      exact hmem hr
    · cases hkey
   rw [HasRole, hlookup]
   exact ⟨.inl, fun h => h.resolve_right hmem⟩

theorem lookup_log_user (db : Db) (hcurrent : elected = true → IsUser db userId current) :
  userOf (applyLog db (provisioningLog userId row roleIds ++ crowningLog userId elected current)) userId =
   if elected then (userOf db userId).map crowned else userOf db userId := by
 cases elected with
 | true =>
  rw [if_pos rfl, hcurrent rfl]
  refine lookup_applyLog_eq db ⟨⟨.user userId, some (crowned current)⟩, ?_, rfl⟩ fun w hw hkey => ?_
  · exact List.mem_append_right _ List.mem_cons_self
  · rcases mem_log hw with rfl | rfl | ⟨r, -, rfl⟩ | ⟨-, rfl⟩
    · cases hkey
    · cases hkey
    · cases hkey
    · rfl
 | false =>
  rw [if_neg Bool.false_ne_true]
  refine lookup_applyLog_of_notMem db fun w hw hkey => ?_
  rcases mem_log hw with rfl | rfl | ⟨r, -, rfl⟩ | ⟨hfalse, rfl⟩
  · cases hkey
  · cases hkey
  · cases hkey
  · cases hfalse

theorem provisionStep_log {start : Db} {σ : Shared Row Event} {found : User}
  (hfound : IsUser start userId found) (hperson : found.isServiceAccount = false)
  (hnames : roleIds.map (roleNameOf start) = (roleNamesOf found elected).map fun name => some name.text)
  (hruling : Ruling start userId elected σ) (hprefs : σ.db.lookup (.preferences userId) = none)
  (hcurrent : elected = true → IsUser σ.db userId current) :
  ProvisionStep start σ.db userId elected
   (applyLog σ.db (provisioningLog userId row roleIds ++ crowningLog userId elected current)) where
 row := ⟨found, hfound, hperson, roleIds, fun roleId => lookup_log_role σ.db roleId, hnames⟩
 won := by
  rintro rfl
  exact hruling
 passed := by
  rintro rfl
  exact hruling
 unprovisioned := hprefs
 preferences := by
  have hlookup :
   (applyLog σ.db (provisioningLog userId row roleIds ++ crowningLog userId elected current)).lookup
    (.preferences userId) = some newPreferences := by
   refine lookup_applyLog_eq σ.db ⟨_, List.mem_cons_self, rfl⟩ fun w hw hkey => ?_
   rcases mem_log hw with rfl | rfl | ⟨r, -, rfl⟩ | ⟨-, rfl⟩
   · rfl
   · cases hkey
   · cases hkey
   · cases hkey
  rw [hlookup]
  rfl
 profile := by
  have hlookup :
   (applyLog σ.db (provisioningLog userId row roleIds ++ crowningLog userId elected current)).lookup
    (.profile userId) = some (newProfile row) := by
   refine lookup_applyLog_eq σ.db ⟨_, List.mem_cons_of_mem _ List.mem_cons_self, rfl⟩ fun w hw hkey => ?_
   rcases mem_log hw with rfl | rfl | ⟨r, -, rfl⟩ | ⟨-, rfl⟩
   · cases hkey
   · rfl
   · cases hkey
   · cases hkey
  rw [hlookup]
  rfl
 user := lookup_log_user σ.db hcurrent
 elsewhere := by
  intro k hk
  refine lookup_applyLog_of_notMem σ.db fun w hw hkey => hk ?_
  rcases mem_log hw with rfl | rfl | ⟨r, -, rfl⟩ | ⟨-, rfl⟩
  all_goals exact hkey ▸ rfl

end Logs

section Programs

variable {start : Db} {known : List (Lock Key Text)}

variable {v : Db}

theorem roleIdOf_name {name : SystemRole} {roleId : ℕ} (h : roleIdOf v name = some roleId) :
  roleNameOf v roleId = some name.text := by
 obtain ⟨⟨id, row⟩, hlast, hid⟩ := Option.map_eq_some_iff.1 h
 obtain rfl : id = roleId := hid
 obtain ⟨hmem, hname⟩ := List.mem_filter.1 (List.mem_of_getLast? hlast)
 obtain ⟨k, found, hfound, hrow⟩ := mem_select.1 hmem
 cases k with
 | role r =>
  cases hrow
  rw [roleNameOf, roleOf, hfound]
  exact congrArg some (eq_of_beq hname)
 | user u => cases hrow
 | preferences u => cases hrow
 | profile u => cases hrow
 | userRole u r => cases hrow

theorem resolveRole_name {name : SystemRole} {roleId : ℕ} (h : resolveRole v name = .ok roleId) :
  roleNameOf v roleId = some name.text := by
 unfold resolveRole at h
 split at h
 · cases h
   exact roleIdOf_name (by assumption)
 · cases h

theorem mapM_names {names : List SystemRole} {roleIds : List ℕ}
  (h : names.mapM (resolveRole v) = .ok roleIds) :
  roleIds.map (roleNameOf v) = names.map fun name => some name.text := by
 induction names generalizing roleIds with
 | nil =>
  cases h
  rfl
 | cons name names ih =>
  rw [List.mapM_cons] at h
  cases hid : resolveRole v name with
  | error reason =>
   rw [hid] at h
   cases h
  | ok roleId =>
   rw [hid] at h
   cases hrest : names.mapM (resolveRole v) with
   | error reason =>
    rw [hrest] at h
    cases h
   | ok rest =>
    rw [hrest] at h
    cases h
    rw [List.map_cons, List.map_cons, resolveRole_name hid, ih hrest]

theorem resolve_names {names : List SystemRole} {roleIds : List ℕ}
  (h : resolveRoleAssignments v names = .ok roleIds) :
  roleIds.map (roleNameOf v) = names.map fun name => some name.text := by
 unfold resolveRoleAssignments at h
 split at h
 · cases h
 · exact mapM_names h

theorem safeOn_createUserRoles {Φ : Shared Row Event → Prop} {userId : ℕ} {roleIds : List ℕ}
  {next : Program}
  {log : List (Write Row)} (hkeeps : Keeps (electionProtocol start) known Φ)
  (hnext : SafeOn (electionProtocol start) (known ++ writeLocks (assignmentWrites userId roleIds)) Φ next
   (log ++ assignmentWrites userId roleIds)) :
  SafeOn (electionProtocol start) known Φ (createUserRoles userId roleIds next) log := by
 refine safeOn_stmt hkeeps fun σ hinv hΦ hΦ' => ?_
 by_cases hfree : (roleIds.all fun roleId => ((view σ log).lookup (.userRole userId roleId)).isNone) = true
 · rw [if_pos hfree, if_pos hfree]
   exact ⟨Φ, hΦ', hnext⟩
 · rw [if_neg hfree, if_neg hfree]
   exact ⟨fun _ => True, trivial, safeOn_refused (keeps_const _ _ True)⟩

theorem ProvisionStep.seat {before after : Db} {userId : ℕ} {elected : Bool}
  (h : ProvisionStep start before userId elected after) (hseat : SeatTaken start after) :
  SeatTaken start before ∨ elected = true := by
 obtain ⟨user, hhuman, roleId, hrole⟩ := hseat
 by_cases heq : user = userId
 · subst heq
   cases elected with
   | true => exact .inr rfl
   | false => exact .inl (h.passed rfl hhuman)
 · left
   have hkeep := h.elsewhere (.userRole user roleId) fun hsome => heq (Option.some.inj hsome)
   rw [HasRole, hkeep] at hrole
   exact ⟨user, hhuman, roleId, hrole⟩

theorem EnsureStep.seat {before after : Db} (h : EnsureStep before after)
  (hseat : SeatTaken start after) :
  SeatTaken start before := by
 obtain ⟨user, hhuman, roleId, hrole⟩ := hseat
 rw [HasRole, h.elsewhere fun userId hkey => by cases hkey] at hrole
 exact ⟨user, hhuman, roleId, hrole⟩

theorem upserted_some {userId : ℕ} {row : User} (h : upserted v = some (userId, row)) :
  row.isServiceAccount = true ∧ ∀ old, IsUser v userId old → old.username = serviceAccountUsername := by
 unfold upserted at h
 split at h
 · rename_i id old hfind
   cases h
   have hmem := mem_users.1 (List.mem_of_find?_eq_some hfind)
   have hname := List.find?_some hfind
   refine ⟨rfl, fun other hother => ?_⟩
   obtain rfl : old = other := Option.some.inj (hmem.symm.trans hother)
   exact eq_of_beq hname
 · split at h
   · cases h
   · cases h
     refine ⟨rfl, fun old hold => ?_⟩
     have hmem : freshUserId v ∈ (select asUser v).map Prod.fst := List.mem_map_of_mem (mem_users.2 hold)
     have hle : ∀ (ids : List ℕ), ∀ id ∈ ids, id ≤ ids.foldr max 0 := by
      intro ids
      induction ids with
      | nil => simp
      | cons head rest ih =>
       intro id hid
       rw [List.foldr_cons]
       rcases List.mem_cons.1 hid with rfl | hid
       · exact le_max_left _ _
       · exact (ih id hid).trans (le_max_right _ _)
     have hlarge := hle _ _ hmem
     simp only [freshUserId] at hlarge
     omega

theorem safeOn_start {Φ : Shared Row Event → Prop} {body : Program}
  (hkeeps : Keeps (electionProtocol start) known Φ)
  (hbody : SafeOn (electionProtocol start) known Φ body []) :
  SafeOn (electionProtocol start) known Φ (.start .halt body) [] := by
 intro held σ hknown hΦ
 refine safe_start ((hkeeps held hknown).and (hkeeps held hknown)) ⟨hΦ, hΦ⟩ fun σ' hinv h => ⟨?_, trivial⟩
 exact hbody held _ hknown (hkeeps held hknown σ' σ'.tick h.1 hinv hinv .tick)

theorem safeOn_ensureServiceAccount :
  SafeOn (electionProtocol start) [] (fun _ => True) ensureServiceAccount [] := by
 refine safeOn_start (keeps_const _ _ True) (safeOn_stmt (keeps_const _ _ True) fun σ _ _ _ => ?_)
 cases hup : upserted (view σ []) with
 | none => exact ⟨fun _ => True, trivial, safeOn_refused (keeps_const _ _ True)⟩
 | some found =>
  obtain ⟨userId, row⟩ := found
  refine ⟨fun later => later.db.lookup (.user userId) = σ.db.lookup (.user userId), rfl, ?_⟩
  refine safeOn_commit (keeps_row _ (List.mem_singleton.2 rfl) _) ?_ safeOn_halt
  intro held later _ _ _ hrow
  obtain ⟨hservice, hold⟩ := upserted_some hup
  have hstep : EnsureStep later.db (applyLog later.db [⟨.user userId, some row⟩]) := by
   intro k
   by_cases hk : k = .user userId
   · subst hk
     right
     exact ⟨userId, row, rfl, lookup_applyWrite_self later.db (.user userId) (some row), hservice,
      fun old h => hold old (hrow.symm.trans h)⟩
   · exact .inl (lookup_applyWrite_ne later.db (w := ⟨.user userId, some row⟩) hk)
  exact ⟨fun hopen hseat => absurd (hstep.seat hseat) hopen, hstep⟩

theorem safeOn_writeProvisioned {userId : ℕ} {row found : User} {roleIds : List ℕ} {elected : Bool}
  (hfound : IsUser start userId found) (hperson : found.isServiceAccount = false)
  (hnames : roleIds.map (roleNameOf start) = (roleNamesOf found elected).map fun name => some name.text)
  (hlock : elected = true → ownerElectionLock ∈ known) :
  SafeOn (electionProtocol start) known (Ruling start userId elected)
   (writeProvisioned userId row roleIds elected) [] := by
 refine safeOn_insertRow (keeps_ruling hlock) fun σ _ _ hruling hnone =>
  ⟨Writing start userId elected, ⟨hruling, hnone⟩, ?_⟩
 have hkeeps : Keeps (electionProtocol start) (known ++ [⟨.row (.preferences userId), true⟩])
   (Writing start userId elected) :=
  keeps_writing (fun h => List.mem_append_left _ (hlock h)) (List.mem_append_right _ List.mem_cons_self)
 refine safeOn_insertRow hkeeps fun σ _ _ hΦ _ => ⟨Writing start userId elected, hΦ, ?_⟩
 have hkeeps' := hkeeps.weaken (List.subset_append_left _ [⟨.row (.profile userId), true⟩])
 refine safeOn_createUserRoles hkeeps' ?_
 have hkeeps'' := hkeeps'.weaken (List.subset_append_left _ (writeLocks (assignmentWrites userId roleIds)))
 cases elected with
 | false =>
  refine safeOn_commit hkeeps'' ?_ safeOn_halt
  intro held σ _ _ _ hΦ
  have hstep : ProvisionStep start σ.db userId false
    (applyLog σ.db (provisioningLog userId row roleIds ++ crowningLog userId false row)) :=
   provisionStep_log hfound hperson hnames hΦ.1 hΦ.2 fun hfalse => by cases hfalse
  rw [crowningLog, if_neg Bool.false_ne_true, List.append_nil] at hstep
  refine ⟨fun hopen hseat => ?_, hstep⟩
  exact absurd ((hstep.seat hseat).resolve_right Bool.false_ne_true) hopen
 | true =>
  refine safeOn_writeRow hkeeps'' fun σ _ _ hΦ current hcurrent _ => ?_
  have hview : IsUser σ.db userId current := by
   refine (lookup_applyLog_of_notMem σ.db fun w hw hkey => ?_).symm.trans hcurrent
   have hmem : w ∈ provisioningLog userId row roleIds ++ crowningLog userId false current :=
    List.mem_append_left _ hw
   rcases mem_log hmem with rfl | rfl | ⟨r, -, rfl⟩ | ⟨hfalse, -⟩
   · cases hkey
   · cases hkey
   · cases hkey
   · cases hfalse
  refine ⟨fun later => Writing start userId true later ∧ later.db.lookup (.user userId) = some current,
   ⟨hΦ, hview⟩, ?_⟩
  refine safeOn_commit ((hkeeps''.weaken (List.subset_append_left _ _)).and
   (keeps_row _ (List.mem_append_right _ List.mem_cons_self) _)) ?_ safeOn_ensureServiceAccount
  intro held later hknown _ _ hΦ
  have hstep : ProvisionStep start later.db userId true
    (applyLog later.db (provisioningLog userId row roleIds ++ crowningLog userId true current)) :=
   provisionStep_log hfound hperson hnames hΦ.1.1 hΦ.1.2 fun _ => hΦ.2
  refine ⟨fun _ _ => hknown ?_, hstep⟩
  exact List.mem_append_left _
   (List.mem_append_left _ (List.mem_append_left _ (List.mem_append_left _ (hlock rfl))))

theorem safeOn_resolving {Φ : Shared Row Event → Prop} {names : List SystemRole} {next : List ℕ → Program}
  (hkeeps : Keeps (electionProtocol start) known Φ)
  (hnext : ∀ roleIds : List ℕ, (roleIds.map (roleNameOf start) = names.map fun name => some name.text) →
   SafeOn (electionProtocol start) known Φ (next roleIds) []) :
  SafeOn (electionProtocol start) known Φ (resolving names next) [] := by
 refine safeOn_query hkeeps fun σ hinv _ => ?_
 cases hresolve : resolveRoleAssignments (view σ []) names with
 | error reason => exact safeOn_halt
 | ok roleIds =>
  apply hnext
  have hcatalog : roleNameOf start = roleNameOf (view σ []) := by
   funext roleId
   exact congrArg (Option.map Role.name) (hinv.catalog roleId).symm
  rw [hcatalog]
  exact resolve_names hresolve

theorem safeOn_holdOwnerElection {userId : ℕ} {next : Bool → Program} (hhuman : Human start userId)
  (hnext : ∀ elected, SafeOn (electionProtocol start) [ownerElectionLock] (Ruling start userId elected)
   (next elected) []) :
  SafeOn (electionProtocol start) [] (fun _ => True) (holdOwnerElection next) [] := by
 refine safeOn_stmt (keeps_const _ _ True) fun σ _ _ _ => ⟨fun _ => True, trivial, ?_⟩
 refine safeOn_stmt (keeps_const _ _ True) fun σ hinv _ _ => ?_
 refine ⟨Ruling start userId !ownerSeatTaken σ.db, ?_, (hnext _).more (List.subset_append_left _ _)⟩
 cases htaken : ownerSeatTaken σ.db with
 | true => exact fun _ => hinv.seat_iff.1 htaken
 | false =>
  refine ⟨hhuman, fun hseat => ?_⟩
  rw [hinv.seat_iff.2 hseat] at htaken
  cases htaken

section Request

variable {userId : ℕ} {row found : User}

theorem safeOn_provisionRoles {isAnonymous mayBeOpen : Bool} (hfound : IsUser start userId found)
  (hperson : found.isServiceAccount = false)
  (hanonymous : (found.isAnonymous == some true) = isAnonymous)
  (hopen : mayBeOpen = true → Human start userId) :
  SafeOn (electionProtocol start) [] (fun σ => mayBeOpen = false → Ruling start userId false σ)
   (provisionRoles userId row isAnonymous mayBeOpen) [] := by
 subst hanonymous
 have hkeeps : Keeps (electionProtocol start) []
   fun σ => mayBeOpen = false → Ruling start userId false σ := by
  intro held hknown σ σ' h hinv hinv' hrely hfalse
  exact keeps_ruling (fun hcontra => by cases hcontra) held hknown σ σ' (h hfalse) hinv hinv' hrely
 refine safeOn_resolving hkeeps fun base hbase => ?_
 cases mayBeOpen with
 | false =>
  refine safeOn_start hkeeps (SafeOn.mono ?_ fun σ h => h rfl)
  exact safeOn_writeProvisioned hfound hperson hbase fun hcontra => by cases hcontra
 | true =>
  refine safeOn_resolving hkeeps fun firstHuman hfirst => safeOn_start hkeeps
   (SafeOn.mono ?_ fun _ _ => trivial)
  rw [inTransaction]
  refine safeOn_holdOwnerElection (hopen rfl) fun elected => ?_
  cases elected with
  | true => exact safeOn_writeProvisioned hfound hperson hfirst fun _ => List.mem_cons_self
  | false => exact safeOn_writeProvisioned hfound hperson hbase fun hcontra => by cases hcontra

theorem isHuman_of_person (hperson : found.isServiceAccount = false)
  (hanonymous : (found.isAnonymous == some true) = false) : isHuman found = true := by
 rw [isHuman, hperson]
 cases hflag : found.isAnonymous with
 | none => rfl
 | some flag =>
  rw [hflag] at hanonymous
  cases flag with
  | true => cases hanonymous
  | false => rfl

theorem safeOn_provisionNewUser (hfound : IsUser start userId found)
  (hperson : found.isServiceAccount = false) :
  SafeOn (electionProtocol start) [] (fun _ => True) (provisionNewUser userId) [] := by
 refine safeOn_query (keeps_const _ _ True) fun σ hinv _ => ?_
 cases hread : (view σ []).lookup (Key.user userId) with
 | none => exact safeOn_halt
 | some row =>
  have hsame : row.isAnonymous = found.isAnonymous := by
   rcases hinv.people userId found hfound hperson with h | h
   · rw [Option.some.inj (hread.symm.trans h)]
   · rw [Option.some.inj (hread.symm.trans h)]
     rfl
  by_cases hanonymous : (row.isAnonymous == some true) = true
  · dsimp only
    rw [if_pos hanonymous]
    rw [hsame] at hanonymous
    refine (safeOn_provisionRoles hfound hperson hanonymous fun hcontra => by cases hcontra).mono ?_
    intro σ _ _ hhuman
    obtain ⟨other, hother, hhuman⟩ := hhuman
    obtain rfl : found = other := Option.some.inj (hfound.symm.trans hother)
    simp only [isHuman, eq_of_beq hanonymous, Bool.and_eq_true, Bool.or_eq_true] at hhuman
    exact absurd hhuman.2 (by decide)
  · dsimp only
    rw [if_neg hanonymous]
    have hfalse : (found.isAnonymous == some true) = false := by
     rw [hsame] at hanonymous
     exact Bool.eq_false_iff.2 hanonymous
    refine safeOn_stmt (keeps_const _ _ True) fun σ hinv _ _ => ?_
    refine ⟨_, fun htaken => ?_, (safeOn_provisionRoles hfound hperson hfalse fun _ =>
     ⟨found, hfound, isHuman_of_person hperson hfalse⟩).more (List.nil_subset _)⟩
    have hseat : ownerSeatTaken (view σ []) = true := by simpa using htaken
    exact fun _ => hinv.seat_iff.1 hseat

end Request

def Candidate (start : Db) : Type := { userId : ℕ // Person start userId }

def provisionCandidate (start : Db) (candidate : Candidate start) : Program :=
    provisionNewUser candidate.val

theorem election_sound (hreserved : Reserved start) :
  Sound (electionProtocol start) (provisionCandidate start) where
 safe := by
  intro candidate σ _
  obtain ⟨userId, found, hfound, hperson⟩ := candidate
  exact safe_of_safeOn (safeOn_provisionNewUser hfound hperson) σ
 tick := fun _ h => h
 commit := fun _ _ _ hinv heffect => ElectionStep.standing heffect hreserved hinv
 outside := fun _ _ _ hkey => by cases hkey

end Programs

end BoardGamesEmpire.UserProvisioning
