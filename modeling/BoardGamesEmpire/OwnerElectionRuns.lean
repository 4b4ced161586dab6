import BoardGamesEmpire.OwnerElection

set_option autoImplicit false

/-!
# One Owner

The first human whose provisioning commits, and nobody else, holds the Owner
role, however provisionings overlap and fail.
-/
namespace BoardGamesEmpire.UserProvisioning
open JsText ReadCommitted ReadCommittedProtocol

section Runs

def provisionedUser : Event → Option ℕ
  | .provisioned userId _ => some userId
  | .serviceAccountEnsured => none

def committedUsers (ledger : List (Entry Row Event)) : List ℕ :=
  ledger.filterMap fun entry => provisionedUser entry.event

def firstHuman (start : Db) (ledger : List (Entry Row Event)) : Option ℕ :=
  (committedUsers ledger).find? (humanIn start)

structure Provisioned (start db : Db) (userId : ℕ) (elected : Bool) : Prop where
  row : ∃ row, IsUser start userId row ∧ row.isServiceAccount = false ∧
    IsUser db userId (if elected then crowned row else row) ∧
    ∃ roleIds : List ℕ, (∀ roleId, HasRole db userId roleId ↔ roleId ∈ roleIds) ∧
      roleIds.map (roleNameOf start) = (roleNamesOf row elected).map fun name => some name.text
  preferences : (db.lookup (.preferences userId)).isSome = true
  profile : (db.lookup (.profile userId)).isSome = true

structure History (start : Db) (σ : Shared Row Event) : Prop where
  untouched : ∀ userId, userId ∉ committedUsers σ.ledger → ∀ k, ownerOf k = some userId →
    (∀ id, k ≠ .user id) ∨ Person start userId → σ.db.lookup k = start.lookup k
  provisioned : ∀ userId ∈ committedUsers σ.ledger,
    Provisioned start σ.db userId (firstHuman start σ.ledger == some userId)
  seat : SeatTaken start σ.db ↔ (firstHuman start σ.ledger).isSome = true

structure Install (start : Db) : Prop where
  noHuman : ∀ userId, Human start userId → ∀ roleId, ¬ HasRole start userId roleId
  noOwner : ∀ userId, ¬ HoldsRole start userId .owner
  together : ∀ userId,
   ((start.lookup (.preferences userId)).isSome = true ↔ ∃ roleId, HasRole start userId roleId) ∧
    ((start.lookup (.profile userId)).isSome = true ↔ ∃ roleId, HasRole start userId roleId)

variable {start : Db} {σ : Shared Row Event}

theorem Provisioned.congr {db db' : Db} {userId : ℕ} {elected : Bool}
  (h : Provisioned start db userId elected)
  (hsame : ∀ k, ownerOf k = some userId → db'.lookup k = db.lookup k) :
  Provisioned start db' userId elected := by
 obtain ⟨row, hrow, hservice, huser, roleIds, hroles, hnames⟩ := h.row
 refine ⟨⟨row, hrow, hservice, (hsame (.user userId) rfl).trans huser, roleIds, fun roleId => ?_,
  hnames⟩, ?_, ?_⟩
 · rw [HasRole, hsame (.userRole userId roleId) rfl]
   exact hroles roleId
 · rw [hsame (.preferences userId) rfl]
   exact h.preferences
 · rw [hsame (.profile userId) rfl]
   exact h.profile

theorem Provisioned.person {db : Db} {userId : ℕ} {elected : Bool}
  (h : Provisioned start db userId elected) :
  Person start userId := by
 obtain ⟨row, hrow, hservice, -⟩ := h.row
 exact ⟨row, hrow, hservice⟩

theorem firstHuman_mem {ledger : List (Entry Row Event)} {userId : ℕ}
  (h : firstHuman start ledger = some userId) :
  userId ∈ committedUsers ledger ∧ Human start userId :=
 ⟨List.mem_of_find?_eq_some h, humanIn_iff.1 (List.find?_some h)⟩

theorem History.begin (hinstall : Install start) : History start ⟨start, 0, []⟩ := by
 refine ⟨fun _ _ _ _ _ => rfl, fun userId h => absurd h List.not_mem_nil, fun hseat => ?_, fun hsome => ?_⟩
 · obtain ⟨userId, hhuman, roleId, hrole⟩ := hseat
   exact absurd hrole (hinstall.noHuman userId hhuman roleId)
 · cases hsome

theorem History.ensured (h : History start σ) (hreserved : Reserved start)
  (hinv : Standing start σ.db) {db : Db} (hstep : EnsureStep σ.db db) :
  History start (σ.commit .serviceAccountEnsured db) := by
 have hsame : committedUsers (σ.commit .serviceAccountEnsured db).ledger = committedUsers σ.ledger := by
  simp [committedUsers, Shared.commit, provisionedUser]
 have hfirst :
  firstHuman start (σ.commit .serviceAccountEnsured db).ledger = firstHuman start σ.ledger := by
  rw [firstHuman, firstHuman, hsame]
 have hkeep : ∀ userId k, ownerOf k = some userId → (∀ id, k ≠ .user id) ∨ Person start userId →
   db.lookup k = σ.db.lookup k := by
  intro userId k hk hcase
  by_cases huser : k = .user userId
  · subst huser
    exact hstep.keeps_person hreserved hinv (hcase.resolve_left fun hne => hne userId rfl)
  · refine hstep.elsewhere fun other hother => huser ?_
    subst hother
    exact congrArg Key.user (Option.some.inj hk)
 refine ⟨fun userId hnot k hk hcase => ?_, fun userId hmem => ?_, ?_⟩
 · rw [hsame] at hnot
   exact (hkeep userId k hk hcase).trans (h.untouched userId hnot k hk hcase)
 · rw [hsame] at hmem
   rw [hfirst]
   have hprovisioned := h.provisioned userId hmem
   exact hprovisioned.congr fun k hk => hkeep userId k hk (.inr hprovisioned.person)
 · rw [hfirst, ← h.seat]
   refine ⟨hstep.seat, fun hseat => ?_⟩
   obtain ⟨userId, hhuman, roleId, hrole⟩ := hseat
   refine ⟨userId, hhuman, roleId, ?_⟩
   rw [HasRole]
   exact (congrArg Option.isSome (hstep.elsewhere fun id hkey => by cases hkey)).trans hrole

section Provisions

variable {userId : ℕ} {elected : Bool} {db : Db}

theorem committedUsers_provisioned (σ : Shared Row Event) (userId : ℕ) (elected : Bool) (db : Db) :
  committedUsers (σ.commit (.provisioned userId elected) db).ledger = committedUsers
   σ.ledger ++ [userId] := by
 simp [committedUsers, Shared.commit, provisionedUser]

theorem firstHuman_provisioned (σ : Shared Row Event) (userId : ℕ) (elected : Bool) (db : Db) :
  firstHuman start (σ.commit (.provisioned userId elected) db).ledger =
   (firstHuman start σ.ledger).or (if humanIn start userId then some userId else none) := by
 rw [firstHuman, firstHuman, committedUsers_provisioned, List.find?_append, List.find?_singleton]

theorem History.unseen (h : History start σ) (hstep : ProvisionStep start σ.db userId elected db) :
  userId ∉ committedUsers σ.ledger := by
 intro hmem
 have hprefs := (h.provisioned userId hmem).preferences
 rw [hstep.unprovisioned] at hprefs
 cases hprefs

theorem History.elects (h : History start σ) (hstep : ProvisionStep start σ.db userId elected db) :
  (firstHuman start (σ.commit (.provisioned userId elected) db).ledger == some userId) = elected := by
 rw [firstHuman_provisioned]
 cases elected with
 | true =>
  have hopen := (hstep.won rfl).2
  rw [h.seat] at hopen
  rw [Option.not_isSome_iff_eq_none.1 hopen, Option.none_or, if_pos (humanIn_iff.2 (hstep.won rfl).1)]
  exact beq_self_eq_true _
 | false =>
  rw [beq_eq_false_iff_ne]
  intro hwon
  by_cases hhuman : Human start userId
  · obtain ⟨first, hsome⟩ := Option.isSome_iff_exists.1 (h.seat.1 (hstep.passed rfl hhuman))
    rw [hsome, Option.some_or] at hwon
    exact h.unseen hstep (Option.some.inj hwon ▸ (firstHuman_mem hsome).1)
  · rw [if_neg fun hin => hhuman (humanIn_iff.1 hin), Option.or_none] at hwon
    exact h.unseen hstep (firstHuman_mem hwon).1

theorem History.elects_other (h : History start σ)
  (hstep : ProvisionStep start σ.db userId elected db) {other : ℕ}
  (hmem : other ∈ committedUsers σ.ledger) :
  (firstHuman start (σ.commit (.provisioned userId elected) db).ledger == some other) =
   (firstHuman start σ.ledger == some other) := by
 have hne : userId ≠ other := fun heq => h.unseen hstep (heq ▸ hmem)
 rw [firstHuman_provisioned]
 cases hcase : firstHuman start σ.ledger with
 | some first => rfl
 | none =>
  rw [Option.none_or]
  split
  · simp [hne]
  · rfl

theorem History.provides (h : History start σ) (hinstall : Install start)
  (hstep : ProvisionStep start σ.db userId elected db) : Provisioned start db userId elected := by
 have hnew := h.unseen hstep
 obtain ⟨row, hrow, hservice, roleIds, hroles, hnames⟩ := hstep.row
 have hbefore : IsUser σ.db userId row :=
  (h.untouched userId hnew (.user userId) rfl (.inr ⟨row, hrow, hservice⟩)).trans hrow
 have hnone : ∀ roleId, ¬ HasRole σ.db userId roleId := by
  intro roleId hrole
  have hroleStart :=
   h.untouched userId hnew (.userRole userId roleId) rfl (.inl fun id hkey => by cases hkey)
  have hprefsStart := h.untouched userId hnew (.preferences userId) rfl (.inl fun id hkey => by cases hkey)
  rw [HasRole, hroleStart] at hrole
  have hprefs := (hinstall.together userId).1.2 ⟨roleId, hrole⟩
  rw [← hprefsStart, hstep.unprovisioned] at hprefs
  cases hprefs
 refine ⟨⟨row, hrow, hservice, ?_, roleIds, fun roleId => ?_, hnames⟩, hstep.preferences, hstep.profile⟩
 · rw [IsUser, hstep.user, hbefore]
   cases elected with
   | true => rfl
   | false => rfl
 · rw [hroles roleId]
   exact ⟨fun hor => hor.resolve_left (hnone roleId), .inr⟩

theorem roleNamesOf_ne_nil (row : User) (elected : Bool) : roleNamesOf row elected ≠ [] := by
 cases elected with
 | true => exact List.cons_ne_nil _ _
 | false =>
  rw [roleNamesOf, if_neg Bool.false_ne_true, baseRoleNames]
  split
  · exact List.cons_ne_nil _ _
  · exact List.cons_ne_nil _ _

theorem Provisioned.hasRole (h : Provisioned start db userId elected) :
  ∃ roleId, HasRole db userId roleId := by
 obtain ⟨row, -, -, -, roleIds, hroles, hnames⟩ := h.row
 cases roleIds with
 | nil =>
  rw [List.map_nil] at hnames
  exact absurd (List.map_eq_nil_iff.1 hnames.symm) (roleNamesOf_ne_nil row elected)
 | cons roleId rest => exact ⟨roleId, (hroles roleId).2 List.mem_cons_self⟩

theorem History.provisions (h : History start σ) (hinstall : Install start)
  (hstep : ProvisionStep start σ.db userId elected db) :
  History start (σ.commit (.provisioned userId elected) db) := by
 have hnew := h.unseen hstep
 have hmine := h.provides hinstall hstep
 have hkeep : ∀ other, other ≠ userId → ∀ k, ownerOf k = some other → db.lookup k = σ.db.lookup k :=
  fun other hne k hk => hstep.elsewhere k fun hsome => hne (Option.some.inj (hk.symm.trans hsome))
 refine ⟨fun other hnot k hk hcase => ?_, fun other hmem => ?_, ?_⟩
 · rw [committedUsers_provisioned] at hnot
   have hne : other ≠ userId := fun heq => hnot (List.mem_append_right _ (List.mem_singleton.2 heq))
   exact (hkeep other hne k hk).trans
    (h.untouched other (fun hin => hnot (List.mem_append_left _ hin)) k hk hcase)
 · rw [committedUsers_provisioned] at hmem
   rcases List.mem_append.1 hmem with hold | hlast
   · rw [h.elects_other hstep hold]
     have hne : other ≠ userId := fun heq => hnew (heq ▸ hold)
     exact (h.provisioned other hold).congr fun k hk => hkeep other hne k hk
   · obtain rfl : other = userId := List.mem_singleton.1 hlast
     rw [h.elects hstep]
     exact hmine
 · rw [firstHuman_provisioned]
   constructor
   · intro hseat
     rcases hstep.seat hseat with hseat | hwon
     · rw [Option.isSome_or, h.seat.1 hseat]
       rfl
     · rw [if_pos (humanIn_iff.2 (hstep.won hwon).1), Option.isSome_or, Option.isSome_some, Bool.or_true]
   · intro hsome
     cases hcase : firstHuman start σ.ledger with
     | some first =>
      obtain ⟨other, hhuman, roleId, hrole⟩ := h.seat.2 (by rw [hcase]; rfl)
      exact ⟨other, hhuman, roleId, hstep.roles_grow hrole⟩
     | none =>
      rw [hcase, Option.none_or] at hsome
      by_cases hhuman : humanIn start userId = true
      · exact ⟨userId, humanIn_iff.1 hhuman, hmine.hasRole⟩
      · rw [if_neg hhuman] at hsome
        cases hsome

end Provisions

structure Elected (start : Db) (σ : Shared Row Event) : Prop where
  owner : ∀ userId, HoldsRole σ.db userId .owner ↔ firstHuman start σ.ledger = some userId
  someone : (∃ userId ∈ committedUsers σ.ledger, Human start userId) →
   ∃! userId, HoldsRole σ.db userId .owner
  crowned : ∀ userId row, IsUser start userId row → row.isServiceAccount = false →
    IsUser σ.db userId (if firstHuman start σ.ledger = some userId then crowned row else row)
  humans : ∀ userId ∈ committedUsers σ.ledger, Human start userId → HoldsRole σ.db userId .user
  guests : ∀ userId ∈ committedUsers σ.ledger, ¬ Human start userId →
   HoldsRole σ.db userId .anonymousUser ∧
    ∀ roleId, HasRole σ.db userId roleId → roleNameOf σ.db roleId = some SystemRole.anonymousUser.text
  together : ∀ userId,
    ((σ.db.lookup (.preferences userId)).isSome = true ↔ ∃ roleId, HasRole σ.db userId roleId) ∧
    ((σ.db.lookup (.profile userId)).isSome = true ↔ ∃ roleId, HasRole σ.db userId roleId)

theorem Provisioned.names {db : Db} {userId : ℕ} {elected : Bool}
  (h : Provisioned start db userId elected)
  (hcatalog : ∀ roleId, db.lookup (.role roleId) = start.lookup (.role roleId)) {row : User}
  (hrow : IsUser start userId row) :
  (∀ roleId, HasRole db userId roleId →
   ∃ name ∈ roleNamesOf row elected, roleNameOf db roleId = some name.text) ∧
  ∀ name ∈ roleNamesOf row elected, HoldsRole db userId name := by
 obtain ⟨found, hfound, -, -, roleIds, hroles, hnames⟩ := h.row
 obtain rfl : found = row := Option.some.inj (hfound.symm.trans hrow)
 have hname : ∀ roleId, roleNameOf db roleId = roleNameOf start roleId :=
  fun roleId => congrArg (Option.map Role.name) (hcatalog roleId)
 constructor
 · intro roleId hrole
   have hmem := List.mem_map_of_mem (f := roleNameOf start) ((hroles roleId).1 hrole)
   rw [hnames] at hmem
   obtain ⟨name, hin, heq⟩ := List.mem_map.1 hmem
   exact ⟨name, hin, (hname roleId).trans heq.symm⟩
 · intro name hin
   have hmem := List.mem_map_of_mem (f := fun name => some (SystemRole.text name)) hin
   rw [← hnames] at hmem
   obtain ⟨roleId, hin, heq⟩ := List.mem_map.1 hmem
   exact ⟨roleId, (hroles roleId).2 hin, (hname roleId).trans heq⟩

theorem owner_text_ne (isAnonymous : Bool) :
  ∀ name ∈ baseRoleNames isAnonymous, SystemRole.owner.text ≠ name.text := by
 cases isAnonymous with
 | true => decide
 | false => decide

theorem History.owner (h : History start σ) (hinstall : Install start) (hinv : Standing start σ.db)
  (userId : ℕ) :
  HoldsRole σ.db userId .owner ↔ firstHuman start σ.ledger = some userId := by
 by_cases hmem : userId ∈ committedUsers σ.ledger
 · have hprovisioned := h.provisioned userId hmem
   obtain ⟨row, hrow, -⟩ := hprovisioned.row
   obtain ⟨hnamed, hholds⟩ := hprovisioned.names hinv.catalog hrow
   constructor
   · intro howner
     obtain ⟨roleId, hrole, hname⟩ := howner
     obtain ⟨name, hin, hsame⟩ := hnamed roleId hrole
     by_contra hne
     rw [beq_false_of_ne hne, roleNamesOf, if_neg Bool.false_ne_true] at hin
     exact owner_text_ne _ name hin (Option.some.inj (hname.symm.trans hsame))
   · intro hfirst
     apply hholds
     rw [hfirst, beq_self_eq_true, roleNamesOf, if_pos rfl]
     decide
 · constructor
   · intro howner
     obtain ⟨roleId, hrole, hname⟩ := howner
     rw [HasRole, h.untouched userId hmem (.userRole userId roleId) rfl
      (.inl fun id hkey => by cases hkey)] at hrole
     rw [roleNameOf, roleOf, hinv.catalog roleId] at hname
     exact absurd ⟨roleId, hrole, hname⟩ (hinstall.noOwner userId)
   · intro hfirst
     exact absurd (firstHuman_mem hfirst).1 hmem

theorem History.elected (h : History start σ) (hinstall : Install start)
  (hinv : Standing start σ.db) :
  Elected start σ where
 owner := h.owner hinstall hinv
 someone := by
  intro hsome
  obtain ⟨userId, hmem, hhuman⟩ := hsome
  have hfound : (firstHuman start σ.ledger).isSome = true :=
   List.find?_isSome.2 ⟨userId, hmem, humanIn_iff.2 hhuman⟩
  obtain ⟨first, hfirst⟩ := Option.isSome_iff_exists.1 hfound
  refine ⟨first, (h.owner hinstall hinv first).2 hfirst, fun other hother => ?_⟩
  have hsame := (h.owner hinstall hinv other).1 hother
  exact Option.some.inj (hsame.symm.trans hfirst)
 crowned := by
  intro userId row hrow hservice
  by_cases hmem : userId ∈ committedUsers σ.ledger
  · obtain ⟨found, hfound, -, huser, -⟩ := (h.provisioned userId hmem).row
    obtain rfl : found = row := Option.some.inj (hfound.symm.trans hrow)
    simpa only [beq_iff_eq] using huser
  · rw [if_neg fun hfirst => hmem (firstHuman_mem hfirst).1]
    exact (h.untouched userId hmem (.user userId) rfl (.inr ⟨row, hrow, hservice⟩)).trans hrow
 humans := by
  intro userId hmem hhuman
  obtain ⟨row, hrow, hhuman⟩ := hhuman
  apply ((h.provisioned userId hmem).names hinv.catalog hrow).2
  rw [roleNamesOf]
  split
  · decide
  · have hnot : (row.isAnonymous == some true) = false := by
     rw [isHuman] at hhuman
     cases hflag : row.isAnonymous with
     | none => rfl
     | some flag =>
      cases flag with
      | true => simp [hflag] at hhuman
      | false => rfl
    rw [hnot]
    decide
 guests := by
  intro userId hmem hguest
  have hprovisioned := h.provisioned userId hmem
  obtain ⟨row, hrow, hservice, -⟩ := hprovisioned.row
  have hnames := hprovisioned.names hinv.catalog hrow
  have hanonymous : (row.isAnonymous == some true) = true := by
   by_contra hnot
   exact hguest ⟨row, hrow, isHuman_of_person hservice (Bool.eq_false_iff.2 hnot)⟩
  have hlost : (firstHuman start σ.ledger == some userId) = false :=
   beq_false_of_ne fun hfirst => hguest (firstHuman_mem hfirst).2
  rw [hlost, roleNamesOf, if_neg Bool.false_ne_true, hanonymous] at hnames
  refine ⟨hnames.2 _ List.mem_cons_self, fun roleId hrole => ?_⟩
  obtain ⟨name, hin, hname⟩ := hnames.1 roleId hrole
  rwa [List.mem_singleton.1 hin] at hname
 together := by
  intro userId
  by_cases hmem : userId ∈ committedUsers σ.ledger
  · have hprovisioned := h.provisioned userId hmem
    exact ⟨iff_of_true hprovisioned.preferences hprovisioned.hasRole,
     iff_of_true hprovisioned.profile hprovisioned.hasRole⟩
  · have hkeep : ∀ k, ownerOf k = some userId → (∀ id, k ≠ .user id) → σ.db.lookup k = start.lookup k :=
     fun k hk hne => h.untouched userId hmem k hk (.inl hne)
    simp only [HasRole]
    rw [hkeep (.preferences userId) rfl (fun id hkey => by cases hkey),
     hkeep (.profile userId) rfl (fun id hkey => by cases hkey)]
    have hroles :
     ∀ roleId, σ.db.lookup (.userRole userId roleId) = start.lookup (.userRole userId roleId) :=
     fun roleId => hkeep (.userRole userId roleId) rfl fun id hkey => by cases hkey
    simp only [hroles]
    exact hinstall.together userId

theorem history_moves (hreserved : Reserved start) (hinstall : Install start)
  {σ σ' : Shared Row Event} (hinv : Standing start σ.db) (h : History start σ)
  (hmoves : Moves (electionProtocol start) σ σ') :
  History start σ' := by
 cases hmoves with
 | tick => exact ⟨h.untouched, h.provisioned, h.seat⟩
 | outside w hkey => cases hkey
 | commit event db heffect =>
  cases event with
  | provisioned userId elected => exact h.provisions hinstall heffect
  | serviceAccountEnsured => exact h.ensured hreserved hinv heffect

/-- One Owner, the first human whose provisioning committed, in every state of
    every run, when nobody but the service account has its username. -/
theorem one_owner_elected {start : Db} (hinstall : Install start) (hreserved : Reserved start)
    {s : Sys Row Text Event} (hs : Reachable (provisionCandidate start) (fun _ => false) start s) :
    Elected start s.shared := by
 have hsound := election_sound hreserved
 have hinit : (electionProtocol start).inv ⟨start, 0, []⟩ := Standing.refl start
 have hinv := (reachable_wellRun hsound hinit hs).inv
 refine History.elected ?_ hinstall hinv
 refine reachable_induction hsound hinit (History start) (History.begin hinstall) ?_ hs
 exact fun σ σ' hinv h hmoves => history_moves hreserved hinstall hinv h hmoves

end Runs

section Samples

def sampleUser (username : Text) (isAnonymous : Bool) : User :=
  ⟨username, username ++ "@example.org".toList, none, none, none, some isAnonymous, false,
   none, false, none⟩

def sampleInstall (username : Text) : Db :=
  ([⟨.role 0, (⟨SystemRole.user.text⟩ : Role)⟩, ⟨.role 1, (⟨SystemRole.owner.text⟩ : Role)⟩,
    ⟨.role 2, (⟨SystemRole.anonymousUser.text⟩ : Role)⟩, ⟨.user 0, sampleUser username false⟩,
    ⟨.user 1, sampleUser "bob".toList false⟩, ⟨.user 2, sampleUser "guest".toList true⟩] :
     List (Sigma Row)).toAList

theorem sampleInstall_users {username : Text} {userId : ℕ} {row : User}
  (h : IsUser (sampleInstall username) userId row) :
  row = sampleUser username false ∨ row = sampleUser "bob".toList false ∨
   row = sampleUser "guest".toList true := by
 have hmem := mem_users.2 h
 change (userId, row) ∈ [(0, sampleUser username false), (1, sampleUser "bob".toList false),
  (2, sampleUser "guest".toList true)] at hmem
 simp only [List.mem_cons, Prod.mk.injEq, List.not_mem_nil, or_false] at hmem
 rcases hmem with ⟨-, hrow⟩ | ⟨-, hrow⟩ | ⟨-, hrow⟩
 · exact .inl hrow
 · exact .inr (.inl hrow)
 · exact .inr (.inr hrow)

theorem sampleInstall_bare (username : Text) (k : Key) (hk : k ∉ (sampleInstall username).keys) :
  (sampleInstall username).lookup k = none := AList.lookup_eq_none.2 hk

theorem install_sample (username : Text) : Install (sampleInstall username) := by
 have hkeys : (sampleInstall username).keys = [.role 0, .role 1, .role 2, .user 0, .user 1, .user 2] := rfl
 have hroles : ∀ userId roleId, ¬ HasRole (sampleInstall username) userId roleId := by
  intro userId roleId hrole
  rw [HasRole, sampleInstall_bare username _ (by rw [hkeys]; simp)] at hrole
  cases hrole
 refine ⟨fun userId _ roleId => hroles userId roleId, fun userId howner => ?_, fun userId => ⟨?_, ?_⟩⟩
 · obtain ⟨roleId, hrole, -⟩ := howner
   exact hroles userId roleId hrole
 · rw [sampleInstall_bare username _ (by rw [hkeys]; simp)]
   exact iff_of_false Bool.false_ne_true fun hsome => hsome.elim (hroles userId)
 · rw [sampleInstall_bare username _ (by rw [hkeys]; simp)]
   exact iff_of_false Bool.false_ne_true fun hsome => hsome.elim (hroles userId)

def firstSignUp (username : Text) : Candidate (sampleInstall username) :=
    ⟨0, sampleUser username false, rfl, rfl⟩

def secondSignUp (username : Text) : Candidate (sampleInstall username) :=
  ⟨1, sampleUser "bob".toList false, rfl, rfl⟩

def overlapping : List (Action Row (Candidate (sampleInstall "alice".toList))) :=
  .spawn (firstSignUp _) :: .spawn (secondSignUp _) ::
    (List.replicate 4 (.advance 0) ++ List.replicate 12 (.advance 1) ++ List.replicate 7 (.advance 0))

theorem one_owner_elected_overlapping :
    ∃ s : Sys Row Text Event, committedUsers s.shared.ledger = [1, 0] ∧
      Elected (sampleInstall "alice".toList) s.shared := by
 have hrun : (run (provisionCandidate _) (fun _ => false) (initial (sampleInstall "alice".toList))
  overlapping).map
   (fun s => committedUsers s.shared.ledger) = some [1, 0] := by decide +kernel
 obtain ⟨s, hs, husers⟩ := Option.map_eq_some_iff.1 hrun
 refine ⟨s, husers, one_owner_elected (install_sample _) ?_ (reachable_of_run hs)⟩
 intro userId row hrow _
 rcases sampleInstall_users hrow with rfl | rfl | rfl
 · decide
 · decide
 · decide

/-- The first human is called `__system__`; the second signs up after them. -/
def reservedFirst : List (Action Row (Candidate (sampleInstall serviceAccountUsername))) :=
  .spawn (firstSignUp _) :: (List.replicate 15 (.advance 0) ++
    .spawn (secondSignUp _) :: List.replicate 12 (.advance 1))

theorem reserved_username_elects_two :
    Install (sampleInstall serviceAccountUsername) ∧
    ∃ s, Reachable (provisionCandidate (sampleInstall serviceAccountUsername)) (fun _ => false)
      (sampleInstall serviceAccountUsername) s ∧
      HoldsRole s.shared.db 0 .owner ∧ HoldsRole s.shared.db 1 .owner ∧
      ¬ Elected (sampleInstall serviceAccountUsername) s.shared := by
 have hrun : (run (provisionCandidate _) (fun _ => false) (initial (sampleInstall serviceAccountUsername))
   reservedFirst).map
   (fun s => ((s.shared.db.lookup (.userRole 0 1)).isSome, (s.shared.db.lookup (.userRole 1 1)).isSome,
    roleNameOf s.shared.db 1)) = some (true, true, some SystemRole.owner.text) := by decide +kernel
 obtain ⟨s, hs, hroles⟩ := Option.map_eq_some_iff.1 hrun
 simp only [Prod.mk.injEq] at hroles
 have hfirst : HoldsRole s.shared.db 0 .owner := ⟨1, hroles.1, hroles.2.2⟩
 have hsecond : HoldsRole s.shared.db 1 .owner := ⟨1, hroles.2.1, hroles.2.2⟩
 refine ⟨install_sample _, s, reachable_of_run hs, hfirst, hsecond, fun helected => ?_⟩
 have hsame := ((helected.owner 0).1 hfirst).symm.trans ((helected.owner 1).1 hsecond)
 cases hsame

end Samples

end BoardGamesEmpire.UserProvisioning
