import BoardGamesEmpire.ReadCommittedProtocol
import BoardGamesEmpire.PluginSystem

set_option autoImplicit false

/-!
# The locking protocol of the plugin services

What each committed transaction did to the rows, and which locks stood behind
it. The row locks of `plugins` order decisions and activations; the advisory
locks order the writers of one unit.
-/
namespace BoardGamesEmpire.PluginProtocol
open JsText Manifest ReadCommitted ReadCommittedProtocol PluginStore PluginEscalation PluginActivation
  PluginUpdateProgram PluginGrantProgram PluginSystem

section Vocabulary

def RequiredOf (m : PluginManifest) (scope : PluginConsentScope) (slug : Text) : Prop :=
  ∃ check ∈ permissionChecksOf m, check.canonicalSlug = slug ∧ check.consentScope = scope ∧
    check.required = true

def Serving (db : Db) (unit : UnitRef) : Prop :=
  ∃ row, unit? db unit = some row ∧ row.suspendedForConsent = false

def NoRefusal (db : Db) (m : PluginManifest) (unit : UnitRef) : Prop :=
  ∀ slug, RequiredOf m unit.consentScope slug → ∀ g, grant? db (unitGrant unit slug) = some g →
    g.status ≠ .denied

def Living (db : Db) (plugin : Plugin) : Prop := plugin? db = some plugin ∧ plugin.uninstalledAt = none

def Replaces : Event → Prop
  | .activated _ | .installed _ => True
  | _ => False

/-- A commit after time `t` put another manifest in place. -/
def ReplacedSince (ledger : List (Entry Row Event)) (t : ℕ) : Prop :=
  ∃ entry ∈ ledger, t < entry.time ∧ Replaces entry.event

def stepsRow (a : Activation) (done : List (ActivationStep × ℕ)) (k : Key) (x : Option (Row k)) :
    Option (Row k) :=
  done.foldl (fun x step => stepRow a step.1 step.2 k x) x

def Stepped : Key → Prop
  | .grant _ | .declared _ => True
  | .plugin | .unit _ | .permission _ | .home _ => False

end Vocabulary

section Effects

structure PluginEffect (db db' : Db) (row row' : Plugin) : Prop where
  before : plugin? db = some row
  after : plugin? db' = some row'
  frame : ∀ k, k ≠ .plugin → db'.lookup k = db.lookup k

structure ActivatedEffect (σ : State) (r : ActivationRecord) (db' : Db) : Prop where
  active : Validated r.activation.active
  next : Validated r.activation.next
  comparison : ∃ corePermissions grants, r.activation.comparison =
    compare r.activation.active r.activation.next corePermissions grants
  claim : ∃ row config, plugin? σ.db = some row ∧ claimable r.activation row = true ∧
    plugin? db' = some (promoted r.activation config row)
  baseline : (r.activation.plugin.pending = none ∧ ReplacedSince σ.ledger r.activation.initiatedAt) ∨
    ∀ row, plugin? σ.db = some row → row.manifestJson = .manifest r.activation.active.manifest
  approval : ∀ slot, r.activation.plugin.pending = some slot →
    slot.pendingVersion = r.activation.next.manifest.version ∧
    slot.pendingManifestJson = .manifest r.activation.next.manifest ∧
    slot.pendingSha256 = r.activation.artifactSha256 ∧
    ∀ row, plugin? σ.db = some row → row.pending = some slot
  rows : ∃ done : List (ActivationStep × ℕ), done.map Prod.fst = activationSteps r.activation r.seeded ∧
    ∀ k, Stepped k → db'.lookup k = stepsRow r.activation done k (σ.db.lookup k)
  unrefused : ∀ key g, key.scopeType = .server → grant? σ.db key = some g → g.status = .denied →
    ¬ RequiredOf r.activation.next.manifest .server key.permissionSlug
  seeds : ∀ check ∈ r.seeded, check ∈ r.activation.next.permissionChecks ∧
    check.consentScope = .server ∧
    ∀ key : GrantKey, key.scopeType = .server → key.permissionSlug = check.canonicalSlug →
      grant? σ.db key = none
  serving : ∀ unit, Serving db' unit → Serving σ.db unit
  reconsented : ∀ unit, Serving db' unit →
    ∀ slug ∈ reconsentSlugs r.activation.comparison unit.consentScope, ∀ g,
      grant? db' (unitGrant unit slug) = some g → g.status ≠ .denied

structure StagedEffect (σ : State) (slot : StagedUpdate) (db' : Db) : Prop where
  write : ∃ row, PluginEffect σ.db db' row { row with pending := some slot } ∧ row.pending = none ∧
    row.uninstalledAt = none
  past : slot.pendingStagingId < σ.clock
  fresh : ∀ entry ∈ σ.ledger, ∀ other, entry.event = .staged other →
    other.pendingStagingId < slot.pendingStagingId

structure InstalledEffect (σ : State) (validated : PluginManifestValidationResult) (db' : Db) : Prop where
  valid : Validated validated
  dead : ∀ row, plugin? σ.db = some row → row.uninstalledAt ≠ none
  plugin : ∃ row, Living db' row ∧ row.pending = none ∧ row.manifestJson = .manifest validated.manifest
  grants : ∀ key, grant? db' key = grant? σ.db key ∨ ∃ check ∈ validated.permissionChecks,
    check.consentScope = .server ∧ key = serverGrant check.canonicalSlug ∧
    ∃ g, grant? db' key = some g ∧ g.status = .granted
  catalog : ∀ slug, (declared? db' slug).isSome = true ↔ (declared? σ.db slug).isSome = true ∨
    slug ∈ validated.declaredPermissions.map (·.canonicalSlug)
  serving : ∀ unit, Serving db' unit → Serving σ.db unit

structure UninstalledEffect (σ : State) (db' : Db) : Prop where
  plugin : ∃ row initiatedAt, Living σ.db row ∧ plugin? db' = some (tombstoned initiatedAt row)
  grants : ∀ key, grant? db' key = none
  catalog : ∀ slug, declared? db' slug = none

structure UnitEffect (db db' : Db) (unit : UnitRef) (m : PluginManifest) (keeps : Prop) : Prop where
  other : ∀ w, w ≠ unit → unit? db' w = unit? db w
  serving : Serving db' unit → (Serving db unit ∧ keeps) ∨ NoRefusal db' m unit

structure DecidedEffect (σ : State) (key : GrantKey) (db' : Db) : Prop where
  plugin : plugin? db' = plugin? σ.db
  catalog : ∀ slug, declared? db' slug = declared? σ.db slug
  decision : ∃ row m check g, Living σ.db row ∧ row.manifestJson = .manifest m ∧ Valid m ∧
    check ∈ permissionChecksOf m ∧ key.permissionSlug = check.canonicalSlug ∧
    key.scopeType = grantScopeOf check.consentScope ∧ grant? db' key = some g ∧
    (∀ other, other ≠ key → grant? db' other = grant? σ.db other) ∧
    (g.status = .denied → check.required = true → check.consentScope ≠ .server) ∧
    match unitAt key.scopeType key.scopeId with
    | none => ∀ unit, unit? db' unit = unit? σ.db unit
    | some unit => UnitEffect σ.db db' unit m (g.status = .denied → check.required = false)

structure UnitUpdatedEffect (σ : State) (unit : UnitRef) (db' : Db) : Prop where
  frame : ∀ k, k ≠ .unit unit → db'.lookup k = σ.db.lookup k
  serving : Serving db' unit → Serving σ.db unit ∨
    ∃ row m, Living σ.db row ∧ row.manifestJson = .manifest m ∧ NoRefusal db' m unit

structure RevokedEffect (σ : State) (db' : Db) : Prop where
  frame : ∀ k, (∀ key, k ≠ .grant key) → db'.lookup k = σ.db.lookup k
  grants : ∀ key, grant? db' key = grant? σ.db key ∨ grant? db' key = none

def Effect (σ : State) (event : Event) (db' : Db) : Prop :=
  match event with
  | .staged slot => StagedEffect σ slot db'
  | .rejected id => ∃ row slot, PluginEffect σ.db db' row { row with pending := none } ∧
      row.uninstalledAt = none ∧ row.pending = some slot ∧ slot.pendingStagingId = id
  | .activated record => ActivatedEffect σ record db'
  | .uninstalled => UninstalledEffect σ db'
  | .installed validated => InstalledEffect σ validated db'
  | .pluginUpdated => ∃ row enabled config restartRequired,
      PluginEffect σ.db db' row { row with enabled, config, restartRequired }
  | .decided key => DecidedEffect σ key db'
  | .revoked => RevokedEffect σ db'
  | .unitUpdated unit => UnitUpdatedEffect σ unit db'
  | .unchanged => db' = σ.db

end Effects

section Locks

def HoldsPlugin (held : List PluginLock) : Prop := ∃ exclusive, pluginLock exclusive ∈ held

def advisoryLock (unit : UnitRef) : PluginLock := ⟨.advisory unit, true⟩

structure Guarantee (held : List PluginLock) (db db' : Db) : Prop where
  catalog : ∀ slug, declared? db' slug ≠ declared? db slug → pluginLock true ∈ held
  grants : ∀ key, grant? db' key ≠ grant? db key →
    (key.scopeType ≠ .server ∧ grant? db' key = none) ∨ HoldsPlugin held
  units : ∀ unit, unit? db' unit ≠ unit? db unit →
    HoldsPlugin held ∧ (advisoryLock unit ∈ held ∨ pluginLock true ∈ held)
  refusals : ∀ (unit : UnitRef) slug row m g, plugin? db = some row → row.manifestJson = .manifest m →
    RequiredOf m unit.consentScope slug → grant? db' (unitGrant unit slug) = some g →
    g.status = .denied → grant? db' (unitGrant unit slug) ≠ grant? db (unitGrant unit slug) →
    advisoryLock unit ∈ held ∨ pluginLock true ∈ held

structure Provenance (σ : State) : Prop where
  past : ∀ entry ∈ σ.ledger, ∀ slot, entry.event = .staged slot → slot.pendingStagingId < σ.clock
  unique : ∀ entry ∈ σ.ledger, ∀ other ∈ σ.ledger, ∀ slot slot', entry.event = .staged slot →
    other.event = .staged slot' → slot.pendingStagingId = slot'.pendingStagingId → slot = slot'
  slot : ∀ row slot, plugin? σ.db = some row → row.pending = some slot →
    ∃ entry ∈ σ.ledger, entry.event = .staged slot

def protocol : Protocol Row UnitRef Event := ⟨Provenance, Effect, Guarantee, outside⟩

end Locks

section History

variable {σ : State} {event : Event} {db' : Db}

inductive PluginMove (σ : State) (event : Event) (db' : Db) : Prop where
  | kept (h : plugin? db' = plugin? σ.db)
  | replaced (row' : Plugin) (hevent : Replaces event) (hafter : plugin? db' = some row')
      (hpending : row'.pending = none)
  | edited (row row' : Plugin) (hbefore : plugin? σ.db = some row) (hafter : plugin? db' = some row')
      (hjson : row'.manifestJson = row.manifestJson)
      (hpending : row'.pending = row.pending ∨ row'.pending = none)
  | staged (row : Plugin) (slot : StagedUpdate) (hevent : event = .staged slot)
      (hbefore : plugin? σ.db = some row) (hafter : plugin? db' = some { row with pending := some slot })
      (hempty : row.pending = none)

theorem pluginMove (h : Effect σ event db') : PluginMove σ event db' := by
 cases event with
 | staged slot =>
  obtain ⟨row, hwrite, hempty, -⟩ := StagedEffect.write h
  exact .staged row slot rfl hwrite.before hwrite.after hempty
 | rejected id =>
  obtain ⟨row, slot, hwrite, -⟩ := h
  exact .edited row _ hwrite.before hwrite.after rfl (.inr rfl)
 | activated record =>
  obtain ⟨row, config, -, -, hafter⟩ := ActivatedEffect.claim h
  exact .replaced _ trivial hafter rfl
 | uninstalled =>
  obtain ⟨row, initiatedAt, hliving, hafter⟩ := UninstalledEffect.plugin h
  exact .edited row _ hliving.1 hafter rfl (.inr rfl)
 | installed validated =>
  obtain ⟨row, hliving, hpending, -⟩ := InstalledEffect.plugin h
  exact .replaced row trivial hliving.1 hpending
 | pluginUpdated =>
  obtain ⟨row, enabled, config, restartRequired, hwrite⟩ := h
  exact .edited row _ hwrite.before hwrite.after rfl (.inl rfl)
 | decided key => exact .kept (DecidedEffect.plugin h)
 | revoked => exact .kept (RevokedEffect.frame h .plugin (by simp))
 | unitUpdated unit => exact .kept (UnitUpdatedEffect.frame h .plugin (by simp))
 | unchanged =>
  obtain rfl : db' = σ.db := h
  exact .kept rfl

theorem Provenance.tick (h : Provenance σ) : Provenance σ.tick where
 past entry hentry slot hslot := Nat.lt_succ_of_lt (h.past entry hentry slot hslot)
 unique := h.unique
 slot := h.slot

theorem Provenance.outside (h : Provenance σ) {w : PluginWrite} (hkey : outside w.key = true) :
  Provenance { σ.tick with db := applyWrite σ.db w } where
 past := h.tick.past
 unique := h.unique
 slot row slot hrow hslot := by
  rw [plugin?, lookup_outside σ.db hkey rfl] at hrow
  exact h.slot row slot hrow hslot

theorem Provenance.commit (h : Provenance σ) (heffect : Effect σ event db') :
  Provenance (σ.commit event db') where
 past entry hentry slot hslot := by
  rcases List.mem_append.1 hentry with hentry | hentry
  · exact Nat.lt_succ_of_lt (h.past entry hentry slot hslot)
  · rw [List.mem_singleton.1 hentry] at hslot
    subst hslot
    exact Nat.lt_succ_of_lt (StagedEffect.past heffect)
 unique entry hentry other hother slot slot' hslot hslot' hid := by
  rcases List.mem_append.1 hentry with hold | hnew <;>
   rcases List.mem_append.1 hother with hold' | hnew'
  · exact h.unique entry hold other hold' slot slot' hslot hslot' hid
  · rw [List.mem_singleton.1 hnew'] at hslot'
    subst hslot'
    have hlt := StagedEffect.fresh heffect entry hold slot hslot
    omega
  · rw [List.mem_singleton.1 hnew] at hslot
    subst hslot
    have hlt := StagedEffect.fresh heffect other hold' slot' hslot'
    omega
  · rw [List.mem_singleton.1 hnew] at hslot
    rw [List.mem_singleton.1 hnew'] at hslot'
    exact Event.staged.inj (hslot.symm.trans hslot')
 slot row slot hrow hslot := by
  have hkept : ∀ row, plugin? σ.db = some row → row.pending = some slot →
    ∃ entry ∈ (σ.commit event db').ledger, entry.event = .staged slot := by
   intro row hrow hslot
   obtain ⟨entry, hentry, hevent⟩ := h.slot row slot hrow hslot
   exact ⟨entry, List.mem_append_left _ hentry, hevent⟩
  change plugin? db' = some row at hrow
  cases pluginMove heffect with
  | kept heq => exact hkept row (heq ▸ hrow) hslot
  | replaced row' _ hafter hpending =>
   cases hrow.symm.trans hafter
   rw [hpending] at hslot
   cases hslot
  | edited old row' hbefore hafter _ hpending =>
   cases hrow.symm.trans hafter
   rcases hpending with hpending | hpending
   · exact hkept old hbefore (hpending ▸ hslot)
   · rw [hpending] at hslot
     cases hslot
  | staged old slot' hevent hbefore hafter hempty =>
   cases hrow.symm.trans hafter
   cases hslot
   exact ⟨_, List.mem_append_right _ (List.mem_singleton.2 rfl), hevent⟩

end History

end BoardGamesEmpire.PluginProtocol
