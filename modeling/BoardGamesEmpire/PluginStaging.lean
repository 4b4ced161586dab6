import BoardGamesEmpire.PluginUpdateHistory

set_option autoImplicit false

/-!
# The staging slot

Stage, approve, reject and uninstall race on one slot. The ledger of any run
shows every staging id written once and resolved at most once, and what an
approval promoted.
-/
namespace BoardGamesEmpire.PluginStaging
open JsText Manifest ReadCommitted ReadCommittedProtocol PluginStore PluginEscalation PluginActivation
  PluginUpdateProgram PluginGrantProgram PluginSystem PluginProtocol PluginLedger PluginUpdateSafe

section Slots

def pendingOf (db : Db) : Option StagedUpdate := (plugin? db).bind (·.pending)

def stagedId (entry : Entry Row Event) : Option ℕ :=
  match entry.event with
  | .staged slot => some slot.pendingStagingId
  | _ => none

def resolvedId (entry : Entry Row Event) : Option ℕ :=
  match entry.event with
  | .activated record => record.activation.plugin.pending.map (·.pendingStagingId)
  | .rejected stagingId => some stagingId
  | .uninstalled => (pendingOf entry.before).map (·.pendingStagingId)
  | _ => none

def stagedIds (σ : State) : List ℕ := σ.ledger.filterMap stagedId

def resolvedIds (σ : State) : List ℕ := σ.ledger.filterMap resolvedId

def Cleared (db : Db) : Prop := ∀ row, plugin? db = some row → row.uninstalledAt ≠ none →
    row.pending = none

variable {σ : State} {event : Event} {db' : Db}

inductive SlotMove (σ : State) (event : Event) (db' : Db) : Prop where
  | kept (hslot : pendingOf db' = pendingOf σ.db) (hstaged : stagedId ⟨event, σ.clock, σ.db, db'⟩ = none)
      (hresolved : resolvedId ⟨event, σ.clock, σ.db, db'⟩ = none)
  | staged (slot : StagedUpdate) (hevent : event = .staged slot) (hbefore : pendingOf σ.db = none)
      (hafter : pendingOf db' = some slot)
  | resolved (slot : StagedUpdate) (hbefore : pendingOf σ.db = some slot) (hafter : pendingOf db' = none)
      (hstaged : stagedId ⟨event, σ.clock, σ.db, db'⟩ = none)
      (hresolved : resolvedId ⟨event, σ.clock, σ.db, db'⟩ = some slot.pendingStagingId)

theorem pendingOf_some {db : Db} {row : Plugin} (h : plugin? db = some row) :
  pendingOf db = row.pending := by
 simp [pendingOf, h]

theorem slotMove (hcleared : Cleared σ.db) (h : Effect σ event db') : SlotMove σ event db' := by
 have hkept : plugin? db' = plugin? σ.db → pendingOf db' = pendingOf σ.db := by
  intro heq
  rw [pendingOf, heq]
  rfl
 cases event with
 | staged slot =>
  obtain ⟨row, hwrite, hempty, -⟩ := StagedEffect.write h
  exact .staged slot rfl ((pendingOf_some hwrite.before).trans hempty) (pendingOf_some hwrite.after)
 | rejected id =>
  obtain ⟨row, slot, hwrite, -, hslot, rfl⟩ := h
  exact .resolved slot ((pendingOf_some hwrite.before).trans hslot) (pendingOf_some hwrite.after) rfl rfl
 | activated record =>
  obtain ⟨row, config, hbefore, hclaim, hafter⟩ := ActivatedEffect.claim h
  have hnone : pendingOf db' = none := pendingOf_some hafter
  cases hpending : record.activation.plugin.pending with
  | some slot =>
   obtain ⟨-, -, -, hslot⟩ := ActivatedEffect.approval h slot hpending
   refine .resolved slot ((pendingOf_some hbefore).trans (hslot row hbefore)) hnone rfl ?_
   simp [resolvedId, hpending]
  | none =>
   simp only [claimable, Bool.and_eq_true, beq_iff_eq, hpending, Option.map_none,
    Option.map_eq_none_iff] at hclaim
   refine .kept (hnone.trans ((pendingOf_some hbefore).trans hclaim.2).symm) rfl ?_
   simp [resolvedId, hpending]
 | uninstalled =>
  obtain ⟨row, initiatedAt, hliving, hafter⟩ := UninstalledEffect.plugin h
  have hnone : pendingOf db' = none := pendingOf_some hafter
  cases hslot : pendingOf σ.db with
  | none => exact .kept (hnone.trans hslot.symm) rfl (by simp [resolvedId, hslot])
  | some slot => exact .resolved slot hslot hnone rfl (by simp [resolvedId, hslot])
 | installed validated =>
  obtain ⟨row, hliving, hpending, -⟩ := InstalledEffect.plugin h
  refine .kept (((pendingOf_some hliving.1).trans hpending).trans ?_) rfl rfl
  cases hbefore : plugin? σ.db with
  | none => simp [pendingOf, hbefore]
  | some old =>
   rw [pendingOf_some hbefore]
   exact (hcleared old hbefore (InstalledEffect.dead h old hbefore)).symm
 | pluginUpdated =>
  obtain ⟨row, enabled, config, restartRequired, hwrite⟩ := h
  exact .kept ((pendingOf_some hwrite.after).trans (pendingOf_some hwrite.before).symm) rfl rfl
 | decided key => exact .kept (hkept (DecidedEffect.plugin h)) rfl rfl
 | revoked => exact .kept (hkept (RevokedEffect.frame h .plugin (by simp))) rfl rfl
 | unitUpdated unit => exact .kept (hkept (UnitUpdatedEffect.frame h .plugin (by simp))) rfl rfl
 | unchanged =>
  obtain rfl : db' = σ.db := h
  exact .kept rfl rfl rfl

theorem resolved_pending (h : Effect σ event db') {id : ℕ}
  (hid : resolvedId ⟨event, σ.clock, σ.db, db'⟩ = some id) :
  ∃ slot, pendingOf σ.db = some slot ∧ slot.pendingStagingId = id := by
 cases event with
 | activated record =>
  obtain ⟨slot, hslot, hid⟩ := Option.map_eq_some_iff.1 hid
  obtain ⟨row, config, hbefore, -, -⟩ := ActivatedEffect.claim h
  obtain ⟨-, -, -, hpending⟩ := ActivatedEffect.approval h slot hslot
  exact ⟨slot, (pendingOf_some hbefore).trans (hpending row hbefore), hid⟩
 | rejected stagingId =>
  obtain ⟨row, slot, hwrite, -, hslot, rfl⟩ := h
  exact ⟨slot, (pendingOf_some hwrite.before).trans hslot, Option.some.inj hid⟩
 | uninstalled => exact Option.map_eq_some_iff.1 hid
 | staged _ | installed _ | pluginUpdated | decided _ | revoked | unitUpdated _ | unchanged => cases hid

theorem staged_of_pending (h : Provenance σ) {slot : StagedUpdate}
  (hslot : pendingOf σ.db = some slot) :
  ∃ entry ∈ σ.ledger, entry.event = .staged slot := by
 obtain ⟨row, hrow, hpending⟩ := Option.bind_eq_some_iff.1 hslot
 exact h.slot row slot hrow hpending

theorem Cleared.commit (hcleared : Cleared σ.db) (h : Effect σ event db') : Cleared db' := by
 intro row' hrow' hdead
 have hkept : plugin? db' = plugin? σ.db → row'.pending = none :=
  fun heq => hcleared row' (heq.symm.trans hrow') hdead
 cases event with
 | staged slot =>
  obtain ⟨row, hwrite, -, halive⟩ := StagedEffect.write h
  cases hwrite.after.symm.trans hrow'
  exact absurd halive hdead
 | rejected id =>
  obtain ⟨row, slot, hwrite, -⟩ := h
  cases hwrite.after.symm.trans hrow'
  rfl
 | activated record =>
  obtain ⟨row, config, -, -, hafter⟩ := ActivatedEffect.claim h
  cases hafter.symm.trans hrow'
  rfl
 | uninstalled =>
  obtain ⟨row, initiatedAt, -, hafter⟩ := UninstalledEffect.plugin h
  cases hafter.symm.trans hrow'
  rfl
 | installed validated =>
  obtain ⟨row, hliving, hpending, -⟩ := InstalledEffect.plugin h
  cases hliving.1.symm.trans hrow'
  exact hpending
 | pluginUpdated =>
  obtain ⟨row, enabled, config, restartRequired, hwrite⟩ := h
  cases hwrite.after.symm.trans hrow'
  exact hcleared row hwrite.before hdead
 | decided key => exact hkept (DecidedEffect.plugin h)
 | revoked => exact hkept (RevokedEffect.frame h .plugin (by simp))
 | unitUpdated unit => exact hkept (UnitUpdatedEffect.frame h .plugin (by simp))
 | unchanged =>
  obtain rfl : db' = σ.db := h
  exact hkept rfl

structure SlotHistory (σ : State) : Prop where
  cleared : Cleared σ.db
  stagedOnce : (stagedIds σ).Nodup
  resolvedOnce : (resolvedIds σ).Nodup
  known : ∀ id ∈ resolvedIds σ, id ∈ stagedIds σ
  waiting : ∀ slot, pendingOf σ.db = some slot → slot.pendingStagingId ∈ stagedIds σ ∧
    slot.pendingStagingId ∉ resolvedIds σ
  accounted : ∀ id ∈ stagedIds σ, (pendingOf σ.db).map (·.pendingStagingId) = some id ∨ id ∈ resolvedIds σ

theorem stagedIds_commit (σ : State) (event : Event) (db' : Db) : stagedIds (σ.commit event db') =
  stagedIds σ ++ (stagedId ⟨event, σ.clock, σ.db, db'⟩).toList := by
 rw [stagedIds, Shared.commit, List.filterMap_append, stagedIds]
 cases h : stagedId ⟨event, σ.clock, σ.db, db'⟩ <;> simp [h]

theorem resolvedIds_commit (σ : State) (event : Event) (db' : Db) :
  resolvedIds (σ.commit event db') =
  resolvedIds σ ++ (resolvedId ⟨event, σ.clock, σ.db, db'⟩).toList := by
 rw [resolvedIds, Shared.commit, List.filterMap_append, resolvedIds]
 cases h : resolvedId ⟨event, σ.clock, σ.db, db'⟩ <;> simp [h]

theorem mem_stagedIds {id : ℕ} : id ∈ stagedIds σ ↔
  ∃ entry ∈ σ.ledger, ∃ slot, entry.event = .staged slot ∧ slot.pendingStagingId = id := by
 simp only [stagedIds, List.mem_filterMap]
 refine exists_congr fun entry => and_congr_right fun _ => ?_
 unfold stagedId
 split
 · rename_i slot hevent
   simp [hevent]
 · rename_i hother
   refine iff_of_false (by simp) ?_
   rintro ⟨slot, hevent, -⟩
   exact hother slot hevent

theorem SlotHistory.commit (h : SlotHistory σ) (heffect : Effect σ event db') :
  SlotHistory (σ.commit event db') := by
 have hcleared := h.cleared.commit heffect
 cases slotMove h.cleared heffect with
 | kept hslot hstaged hresolved =>
  have hs : stagedIds (σ.commit event db') = stagedIds σ := by simp [stagedIds_commit, hstaged]
  have hr : resolvedIds (σ.commit event db') = resolvedIds σ := by simp [resolvedIds_commit, hresolved]
  refine ⟨hcleared, hs ▸ h.stagedOnce, hr ▸ h.resolvedOnce, ?_, ?_, ?_⟩
  · rw [hs, hr]
    exact h.known
  · rw [hs, hr]
    exact fun slot hpending => h.waiting slot (hslot.symm.trans hpending)
  · rw [hs, hr]
    intro id hid
    refine (h.accounted id hid).imp (fun hpending => ?_) fun hmem => hmem
    rw [← hpending]
    exact congrArg _ hslot
 | staged slot hevent hbefore hafter =>
  subst hevent
  have hs : stagedIds (σ.commit (.staged slot) db') = stagedIds σ ++ [slot.pendingStagingId] :=
   stagedIds_commit σ (.staged slot) db'
  have hr : resolvedIds (σ.commit (.staged slot) db') = resolvedIds σ := by
   simp [resolvedIds_commit, resolvedId]
  have hnew : slot.pendingStagingId ∉ stagedIds σ := by
   intro hmem
   obtain ⟨entry, hentry, other, hevent, hid⟩ := mem_stagedIds.1 hmem
   have hlt := StagedEffect.fresh heffect entry hentry other hevent
   omega
  refine ⟨hcleared, ?_, hr ▸ h.resolvedOnce, ?_, ?_, ?_⟩
  · rw [hs]
    exact h.stagedOnce.append (List.nodup_singleton _) (by simpa using hnew)
  · rw [hs, hr]
    exact fun id hid => List.mem_append_left _ (h.known id hid)
  · rw [hs, hr]
    intro current hcurrent
    cases hafter.symm.trans hcurrent
    exact ⟨by simp, fun hmem => hnew (h.known _ hmem)⟩
  · rw [hs, hr]
    intro id hid
    rcases List.mem_append.1 hid with hold | hid
    · refine (h.accounted id hold).imp (fun hpending => ?_) fun hmem => hmem
      rw [hbefore] at hpending
      cases hpending
    · refine .inl ?_
      change (pendingOf db').map _ = _
      rw [hafter, List.mem_singleton.1 hid]
      rfl
 | resolved slot hbefore hafter hstaged hresolved =>
  have hs : stagedIds (σ.commit event db') = stagedIds σ := by simp [stagedIds_commit, hstaged]
  have hr : resolvedIds (σ.commit event db') = resolvedIds σ ++ [slot.pendingStagingId] := by
   simp [resolvedIds_commit, hresolved]
  obtain ⟨hin, hopen⟩ := h.waiting slot hbefore
  refine ⟨hcleared, hs ▸ h.stagedOnce, ?_, ?_, ?_, ?_⟩
  · rw [hr]
    exact h.resolvedOnce.append (List.nodup_singleton _) (by simpa using hopen)
  · rw [hs, hr]
    intro id hid
    rcases List.mem_append.1 hid with hold | hid
    · exact h.known id hold
    · exact List.mem_singleton.1 hid ▸ hin
  · intro current hcurrent
    cases hafter.symm.trans hcurrent
  · rw [hs, hr]
    intro id hid
    refine .inr (List.mem_append.2 ((h.accounted id hid).symm.imp_right fun hpending => ?_))
    rw [hbefore] at hpending
    exact List.mem_singleton.2 (Option.some.inj hpending).symm

variable {host : Host} {s : System}

theorem running_slotHistory (h : Running host s) : SlotHistory s.shared := by
 refine running_induction SlotHistory (fun db hfresh => ?_) (fun σ h => ?_)
  (fun σ event db' _ h heffect => h.commit heffect) (fun σ w hw h => ?_) h
 · have hnone : pendingOf db = none := by simp [pendingOf, plugin?, hfresh .plugin rfl]
   refine ⟨fun row hrow => ?_, List.nodup_nil, List.nodup_nil, by simp [resolvedIds], fun slot hslot => ?_,
    by simp [stagedIds]⟩
   · rw [plugin?, hfresh .plugin rfl] at hrow
     cases hrow
   · cases hnone.symm.trans hslot
 · exact ⟨h.cleared, h.stagedOnce, h.resolvedOnce, h.known, h.waiting, h.accounted⟩
 · have hsame : plugin? (applyWrite σ.db w) = plugin? σ.db := lookup_outside σ.db hw rfl
   have hslot : pendingOf (applyWrite σ.db w) = pendingOf σ.db := by rw [pendingOf, hsame]; rfl
   refine ⟨fun row hrow => h.cleared row (hsame.symm.trans hrow), h.stagedOnce, h.resolvedOnce, h.known,
    fun slot hpending => h.waiting slot (hslot.symm.trans hpending), fun id hid => ?_⟩
   refine (h.accounted id hid).imp (fun hpending => ?_) fun hmem => hmem
   rw [← hpending]
   exact congrArg _ hslot

end Slots

section Events

variable {P : Event → Prop} {host : Host}

theorem updateFound_events {found : List (UnitRef × UnitRow)} {f : UnitRow → UnitRow}
  {next : Program} (hnext : AllEvents P next) : AllEvents P (updateFound found f next) := by
 unfold updateFound
 split
 · exact hnext
 · exact fun _ _ => hnext

theorem dormancy_events {next : Program} (hnext : AllEvents P next) (manifest : PluginManifest)
  (initiatedAt : ℕ) : AllEvents P (reconcileHouseholdDormancy host manifest initiatedAt next) := by
 intro _ v
 cases manifest.scope with
 | server => exact updateFound_events hnext
 | household => exact updateFound_events (updateFound_events hnext)

variable {a : Activation}

theorem suspendPass_events {axis : PluginConsentScope} {next : List SuspensionCandidate → Program}
  (hnext : ∀ candidates, AllEvents P (next candidates)) :
  AllEvents P (suspendPass a axis next) := by
 unfold suspendPass
 split
 · exact hnext []
 refine allEvents_stmt fun _ v => ?_
 simp only
 split
 · exact hnext []
 refine allEvents_stmt fun _ v => ?_
 split
 · exact hnext []
 refine allEvents_stmt fun _ v => ?_
 split
 · exact hnext _
 · exact fun _ _ => hnext _

theorem stepCode_events {onCollision rest : Program}
  (hcollision : AllEvents P onCollision) (hrest : AllEvents P rest) (step : ActivationStep) :
  AllEvents P (stepCode a onCollision step rest) := by
 cases step with
 | moveScope slug scopeType =>
  refine allEvents_stmt fun _ v => ?_
  simp only
  split
  · exact hrest
  · exact fun _ _ => hrest
 | deleteGrants _ | deletePermissions _ | createPermission _ | reStamp _ | seed _ =>
  refine allEvents_stmt fun clock v => ?_
  split
  · exact hrest
  · exact hcollision
  · trivial

theorem activateInTransaction_events {onCollision : Program} (hcollision : AllEvents P onCollision)
  (hactivated : ∀ seeded households users, P (.activated ⟨a, seeded, households, users⟩)) :
  AllEvents P (activateInTransaction host a onCollision) := by
 have hfinish : ∀ seeded, AllEvents P (finishActivation host a seeded) := fun seeded =>
  suspendPass_events fun households => suspendPass_events fun users =>
   dormancy_events (show AllEvents P (.commit _ .halt) from
    ⟨hactivated seeded households users, trivial⟩) _ _
 have hclaimed : AllEvents P (activateClaimed host a onCollision) := by
  refine allEvents_stmt fun _ v => ?_
  split
  · trivial
  simp only
  split
  swap
  · trivial
  generalize activationSteps a _ = steps
  induction steps with
  | nil => exact hfinish _
  | cons step steps ih => exact stepCode_events hcollision ih step
 refine allEvents_stmt fun _ v => ?_
 split
 · trivial
 refine allEvents_stmt fun _ v => ?_
 split
 · split
   · exact hclaimed
   · trivial
 · trivial

theorem activate_events
  (hactivated : ∀ seeded households users, P (.activated ⟨a, seeded, households, users⟩)) :
  AllEvents P (activate host a) := by
 have hlast : AllEvents P (activateInTransaction host a .halt) :=
  activateInTransaction_events trivial hactivated
 exact ⟨⟨trivial, hlast⟩, activateInTransaction_events ⟨trivial, hlast⟩ hactivated⟩

def Approves (stagingId : ℕ) (event : Event) : Prop :=
  ∃ record slot, event = .activated record ∧ record.activation.plugin.pending = some slot ∧
    slot.pendingStagingId = stagingId

theorem approve_events (input : ApproveInput) :
  AllEvents (Approves input.stagingId) (approve host input) := by
 unfold approve
 split
 · trivial
 refine allEvents_stmt fun initiatedAt v => ?_
 split
 · trivial
 rename_i plugin _
 split
 · trivial
 rename_i slot hslot
 split
 · trivial
 rename_i hid
 rw [not_or, not_not] at hid
 split
 swap
 · trivial
 refine allEvents_stmt fun _ v => ?_
 simp only
 split
 swap
 · trivial
 refine allEvents_stmt fun _ v => ?_
 simp only
 split
 · trivial
 refine allEvents_stmt fun _ v => ?_
 split
 · exact activate_events fun seeded households users => ⟨_, slot, rfl, hslot, hid.1⟩
 · trivial

theorem reject_events (input : RejectInput) :
  AllEvents (fun event => event = .rejected input.stagingId) (reject input) := by
 unfold reject
 split
 · trivial
 refine allEvents_stmt fun _ v => ?_
 split
 · trivial
 split
 · trivial
 rename_i slot _
 split
 · trivial
 rename_i hid
 refine allEvents_stmt fun _ v => ?_
 split
 · split
   · exact ⟨by rw [not_not.1 hid], trivial⟩
   · trivial
 · trivial

def MayCommit : Request → Event → Prop
  | .approve input => Approves input.stagingId
  | .reject input => fun event => event = .rejected input.stagingId
  | _ => fun _ => True

theorem program_events (request : Request) :
  AllEvents (MayCommit request) (program host request) := by
 cases request with
 | approve input => exact approve_events input
 | reject input => exact reject_events input
 | install _ | stage _ | uninstall _ _ | setEnabled _ _ _ | updateConfig _ _ | decide _
  | revokeForAuthorityLoss _ | enableHousehold _ | setUnitEnabled _ _ _ | updateHouseholdConfig _ _ _ =>
  exact allEvents_true _

end Events

section Protocol

variable {host : Host} {requests : List Request} {s s' : System}

structure SlotProtocol (host : Host) (requests : List Request) (s : System) : Prop where
  stagedOnce : (stagedIds s.shared).Nodup
  resolvedOnce : (resolvedIds s.shared).Nodup
  accounted : ∀ id ∈ stagedIds s.shared,
    ((pendingOf s.shared.db).map (·.pendingStagingId) = some id ↔ id ∉ resolvedIds s.shared)
  order : ∀ pre entry post, s.shared.ledger = pre ++ entry :: post → ∀ id, resolvedId entry = some id →
    id ∈ pre.filterMap stagedId
  empty : ∀ entry ∈ s.shared.ledger, ∀ slot, entry.event = .staged slot →
    pendingOf entry.before = none ∧ pendingOf entry.after = some slot
  approve : ∀ (i : ℕ) input s', requests[i]? = some (.approve input) →
    step (program host) outside s (.advance i) = some s' →
    (s'.shared.ledger = s.shared.ledger ∧ s'.shared.db = s.shared.db) ∨
    ∃ entry slot row, s'.shared.ledger = s.shared.ledger ++ [entry] ∧
      resolvedId entry = some input.stagingId ∧ slot.pendingStagingId = input.stagingId ∧
      (∃ staging ∈ s.shared.ledger, staging.event = .staged slot) ∧ plugin? s'.shared.db = some row ∧
      row.version = slot.pendingVersion ∧ row.manifestJson = slot.pendingManifestJson ∧
      row.installedSha256 = slot.pendingSha256 ∧ row.pending = none
  reject : ∀ (i : ℕ) input s', requests[i]? = some (.reject input) →
    step (program host) outside s (.advance i) = some s' →
    (s'.shared.ledger = s.shared.ledger ∧ s'.shared.db = s.shared.db) ∨
    ∃ entry row, s'.shared.ledger = s.shared.ledger ++ [entry] ∧
      resolvedId entry = some input.stagingId ∧
      PluginEffect s.shared.db s'.shared.db row { row with pending := none }
  refused : ∀ action s', step (program host) outside s action = some s' →
    s'.shared.ledger = s.shared.ledger → ∀ k, outside k = false →
    s'.shared.db.lookup k = s.shared.db.lookup k

theorem step_refused {action : Action Row Request}
  (hstep : step (program host) outside s action = some s')
  (hledger : s'.shared.ledger = s.shared.ledger) {k : Key} (hk : outside k = false) :
  s'.shared.db.lookup k = s.shared.db.lookup k := by
 cases action with
 | spawn request =>
  cases hstep
  rfl
 | advance i =>
  obtain ⟨p, -, hadvance⟩ := Option.bind_eq_some_iff.1 hstep
  rcases advance_shared hadvance with ⟨-, hdb⟩ | ⟨event, next, -, hcommit⟩
  · rw [hdb]
  · rw [hcommit] at hledger
    simp [Shared.commit] at hledger
 | deadlock i =>
  obtain ⟨p, -, rfl⟩ := Option.map_eq_some_iff.1 hstep
  rfl
 | crash i =>
  obtain ⟨p, -, rfl⟩ := Option.map_eq_some_iff.1 hstep
  rfl
 | outside w =>
  simp only [step] at hstep
  split at hstep
  · rename_i hfree
    cases hstep
    exact lookup_outside _ (Bool.and_eq_true_iff.1 hfree).1 hk
  · cases hstep

theorem served_commit (h : Served host requests s) {i : ℕ} {request : Request}
  (hrequest : requests[i]? = some request)
  (hstep : step (program host) outside s (.advance i) = some s') :
  (s'.shared.ledger = s.shared.ledger ∧ s'.shared.db = s.shared.db) ∨
  ∃ event, MayCommit request event ∧ Effect s.shared event s'.shared.db ∧ s'.shared.ledger =
   s.shared.ledger ++ [⟨event, s.shared.clock, s.shared.db, s'.shared.db⟩] := by
 obtain ⟨db, hfresh, htraced⟩ := h
 obtain ⟨p, hi, hadvance⟩ := Option.bind_eq_some_iff.1 hstep
 rcases advance_shared hadvance with hsame | ⟨event, next, hcode, hcommit⟩
 · exact .inl hsame
 have hevents := ((htraced.faithful program_events).events i p request hi hrequest).1
 rw [hcode] at hevents
 have hrunning : Running host s' := ⟨db, hfresh, htraced.reachable.step _ hstep⟩
 have hledger : s'.shared.ledger =
   s.shared.ledger ++ [⟨event, s.shared.clock, s.shared.db, s'.shared.db⟩] := by
  rw [hcommit]
  rfl
 exact .inr ⟨event, hevents.1, (running_recorded hrunning).effect _ _ _ hledger, hledger⟩

theorem slot_protocol (h : Served host requests s) : SlotProtocol host requests s := by
 have hslots := running_slotHistory h.running
 have hrecorded := running_recorded h.running
 refine ⟨hslots.stagedOnce, hslots.resolvedOnce, fun id hid => ⟨fun hpending => ?_, fun hopen => ?_⟩,
  fun pre entry post hledger id hid => ?_, fun entry hentry slot hevent => ?_,
  fun i input s' hrequest hstep => ?_, fun i input s' hrequest hstep => ?_,
  fun action s' hstep hledger k hk => step_refused hstep hledger hk⟩
 · obtain ⟨slot, hslot, rfl⟩ := Option.map_eq_some_iff.1 hpending
   exact (hslots.waiting slot hslot).2
 · exact (hslots.accounted id hid).resolve_right hopen
 · obtain ⟨slot, hslot, rfl⟩ := resolved_pending (hrecorded.effect pre entry post hledger) hid
   obtain ⟨staging, hstaging, hevent⟩ :=
    staged_of_pending (hrecorded.provenance pre entry post hledger) hslot
   exact List.mem_filterMap.2 ⟨staging, hstaging, by simp [stagedId, hevent]⟩
 · obtain ⟨pre, post, hledger⟩ := List.append_of_mem hentry
   have heffect := hrecorded.effect pre entry post hledger
   rw [hevent] at heffect
   obtain ⟨row, hwrite, hempty, -⟩ := StagedEffect.write heffect
   exact ⟨(pendingOf_some hwrite.before).trans hempty, pendingOf_some hwrite.after⟩
 · rcases served_commit h hrequest hstep with hsame | ⟨event, ⟨record, slot, rfl, hslot, hid⟩,
    heffect, hledger⟩
   · exact .inl hsame
   · obtain ⟨row, config, hbefore, -, hafter⟩ := ActivatedEffect.claim heffect
     obtain ⟨hversion, hjson, hsha, hpending⟩ := ActivatedEffect.approval heffect slot hslot
     refine .inr ⟨_, slot, promoted record.activation config row, hledger, ?_, hid, ?_, hafter,
      hversion.symm,
      hjson.symm, hsha.symm, rfl⟩
     · simp [resolvedId, hslot, hid]
     · exact staged_of_pending (running_provenance h.running)
        ((pendingOf_some hbefore).trans (hpending row hbefore))
 · rcases served_commit h hrequest hstep with hsame | ⟨event, hevent, heffect, hledger⟩
   · exact .inl hsame
   · obtain rfl : event = .rejected input.stagingId := hevent
     obtain ⟨row, slot, hwrite, -⟩ := heffect
     exact .inr ⟨_, row, hledger, rfl, hwrite⟩

def stagedIdsOf (s : System) : List ℕ × List ℕ := (stagedIds s.shared, resolvedIds s.shared)

/-- An update is staged under the id 13, refused once under a wrong id, and approved. -/
def approvedUpdate : List (Action Row Request) :=
  [demoInstall "1.0.0" [PluginUpdateHistory.optionalCheck]] ++ steps 0 7 ++
    [.outside ⟨.permission readGame, some ⟨.high, "Game".toList, [], false⟩⟩,
      demoStage "1.1.0" [PluginUpdateHistory.optionalCheck]] ++ steps 1 5 ++
    [.spawn (.approve ⟨12, "admin".toList, [], true⟩)] ++ steps 2 1 ++
    [.spawn (.approve ⟨13, "admin".toList, [], true⟩)] ++ steps 3 11

theorem slot_protocol_approved : ∃ s, stagedIdsOf s = ([13], [13]) ∧
    SlotProtocol demoHost (approvedUpdate.flatMap spawned) s := by
 have hplay : (play approvedUpdate).map stagedIdsOf = some ([13], [13]) := by decide +kernel
 obtain ⟨s, hs, hids⟩ := Option.map_eq_some_iff.1 hplay
 exact ⟨s, hids, slot_protocol (served_of_play hs)⟩

end Protocol

end BoardGamesEmpire.PluginStaging
