import BoardGamesEmpire.PluginExclusive
import BoardGamesEmpire.PluginSuspension

set_option autoImplicit false

/-!
# The update service keeps the protocol

The activation transaction, followed from the plugin row's lock to the commit,
and the requests that lead to it.
-/
namespace BoardGamesEmpire.PluginUpdateSafe
open JsText Manifest ReadCommitted ReadCommittedProtocol PluginStore PluginEscalation PluginActivation
  PluginSuspension PluginUpdateProgram PluginSystem PluginProtocol PluginExclusive

section Units

structure Quiet (v v' : Db) : Prop where
  frame : ∀ k, (∀ unit, k ≠ .unit unit) → v'.lookup k = v.lookup k
  serving : ∀ unit, Serving v' unit → Serving v unit

def Tolerant (Rel : Db → Db → Prop) : Prop := ∀ db v v', Rel db v → Quiet v v' → Rel db v'

variable {p : UnitRef → UnitRow → Bool} {f : UnitRow → UnitRow} {v : Db}

theorem lookup_updateUnits (p : UnitRef → UnitRow → Bool) (f : UnitRow → UnitRow) (v : Db)
  (unit : UnitRef) : unit? (applyLog v (updateUnits p f v)) unit =
   (unit? v unit).map fun row => if p unit row then f row else row := by
 by_cases hmem : ∃ w ∈ updateUnits p f v, w.key = .unit unit
 · obtain ⟨w, hw, hkey⟩ := hmem
   obtain ⟨⟨found, row⟩, hin, rfl⟩ := List.mem_map.1 hw
   cases hkey
   obtain ⟨hrow, hp⟩ := List.mem_filter.1 hin
   rw [mem_unitRows.1 hrow, Option.map_some, if_pos hp]
   refine lookup_applyLog_eq v ⟨_, hw, rfl⟩ fun w' hw' hkey' => ?_
   obtain ⟨⟨found', row'⟩, hin', rfl⟩ := List.mem_map.1 hw'
   cases hkey'
   rw [Option.some.inj ((mem_unitRows.1 (List.mem_filter.1 hin').1).symm.trans (mem_unitRows.1 hrow))]
 · have hnot : ∀ w ∈ updateUnits p f v, w.key ≠ .unit unit := fun w hw heq => hmem ⟨w, hw, heq⟩
   rw [unit?, lookup_applyLog_of_notMem v hnot]
   cases hrow : unit? v unit with
   | none => exact hrow
   | some row =>
    have hp : ¬ p unit row = true := fun hp =>
     hmem ⟨_, List.mem_map.2 ⟨(unit, row), List.mem_filter.2 ⟨mem_unitRows.2 hrow, hp⟩, rfl⟩, rfl⟩
    rw [Option.map_some, if_neg hp]
    exact hrow

theorem updateUnits_quiet
  (hf : ∀ row, (f row).suspendedForConsent = false → row.suspendedForConsent = false) :
  Quiet v (applyLog v (updateUnits p f v)) where
 frame k hk := by
  refine lookup_applyLog_of_notMem v fun w hw heq => ?_
  obtain ⟨entry, -, rfl⟩ := List.mem_map.1 hw
  exact hk _ heq.symm
 serving unit := by
  rintro ⟨row', hrow', hserving⟩
  rw [lookup_updateUnits] at hrow'
  obtain ⟨row, hrow, rfl⟩ := Option.map_eq_some_iff.1 hrow'
  refine ⟨row, hrow, ?_⟩
  split at hserving
  · exact hf row hserving
  · exact hserving

end Units

section Dormancy

variable {Ψ : State → Prop} {Rel : Db → Db → Prop} {next : Program}

theorem safeIn_updateFound (hΨ : Stable protocol [] Ψ) (hrobust : Robust Rel)
  (htolerant : Tolerant Rel) (hnext : SafeIn Ψ Rel next) {found : List (UnitRef × UnitRow)}
  {f : UnitRow → UnitRow} (hf : ∀ row, (f row).suspendedForConsent = row.suspendedForConsent) :
  SafeIn Ψ Rel (updateFound found f next) := by
 unfold updateFound
 split
 · exact hnext
 · refine safeIn_execute hΨ hrobust (fun _ _ => Rel) (fun clock db v h => ?_) fun _ _ => hnext
   exact htolerant db v _ h (updateUnits_quiet fun row hrow => (hf row).symm.trans hrow)

theorem safeIn_dormancy (hΨ : Stable protocol [] Ψ) (hrobust : Robust Rel)
  (htolerant : Tolerant Rel) (hnext : SafeIn Ψ Rel next) (host : Host) (manifest : PluginManifest)
  (initiatedAt : ℕ) :
  SafeIn Ψ Rel (reconcileHouseholdDormancy host manifest initiatedAt next) := by
 refine safeIn_query hΨ hrobust fun clock v => ?_
 refine SafeIn.mono ?_ fun db v h => h.1
 cases manifest.scope with
 | server => exact safeIn_updateFound hΨ hrobust htolerant hnext fun _ => rfl
 | household =>
  refine safeIn_updateFound hΨ hrobust htolerant ?_ fun _ => rfl
  exact safeIn_updateFound hΨ hrobust htolerant hnext fun _ => rfl

end Dormancy

section Passes

variable {a : Activation} {axis : PluginConsentScope}

def Reconsented (a : Activation) (axis : PluginConsentScope) (v : Db) : Prop :=
  ∀ unit : UnitRef, unit.consentScope = axis → Serving v unit →
    ∀ slug ∈ reconsentSlugs a.comparison axis, ∀ g, grant? v (unitGrant unit slug) = some g →
      g.status ≠ .denied

theorem serving_congr {v v' : Db} {unit : UnitRef} (heq : unit? v' unit = unit? v unit)
  (h : Serving v' unit) : Serving v unit := by
 obtain ⟨row, hrow, hserving⟩ := h
 exact ⟨row, heq ▸ hrow, hserving⟩

theorem reconsented_robust (a : Activation) (axis : PluginConsentScope) :
  Robust fun _ v => Reconsented a axis v := by
 intro db v db' v' h hdrift unit haxis hserving slug hslug g hg
 have hserving' : Serving v unit := serving_congr (hdrift.unit unit).2 hserving
 rcases hdrift.grant (unitGrant unit slug) with heq | hnone
 · exact h unit haxis hserving' slug hslug g (heq ▸ hg)
 · rw [hnone] at hg
   cases hg

theorem reconsented_tolerant (a : Activation) (axis : PluginConsentScope) :
  Tolerant fun _ v => Reconsented a axis v := by
 intro db v v' h hquiet unit haxis hserving slug hslug g hg
 refine h unit haxis (hquiet.serving unit hserving) slug hslug g ?_
 rw [← hg]
 exact (hquiet.frame (.grant (unitGrant unit slug)) (by simp)).symm

theorem granted_of_outstanding_nil {units : List (UnitRef × UnitRow)} {v : Db} {unit : UnitRef}
  {row : UnitRow} {slugs : List Text} {risk : List (Text × RiskLevel)}
  (haxis : unit.consentScope = axis) (hunit : (unit, row) ∈ units)
  (hnil : outstandingOf (grantedTo axis units slugs v) slugs risk unit = []) {slug : Text}
  (hslug : slug ∈ slugs) : ∃ g, grant? v (unitGrant unit slug) = some g ∧ g.status = .granted := by
 have hnot := List.filter_eq_nil_iff.1 hnil slug hslug
 cases hget : mapGet ((grantedTo axis units slugs v).map fun entry =>
   ((entry.1.scopeId, entry.1.permissionSlug), entry.2.decidedRiskLevel)) (unit.scopeId, slug) with
 | none => simp [hget] at hnot
 | some decided =>
  obtain ⟨g, hg, hgranted, -⟩ := (decided_get haxis ⟨row, hunit⟩ hslug _).1 hget
  exact ⟨g, hg, hgranted⟩

theorem suspendWrites_nil (initiatedAt : ℕ) (v : Db) : suspendWrites initiatedAt [] v = [] := by
 simp [suspendWrites, updateUnits, isFound]

theorem suspendWrites_reconsented (a : Activation) (axis : PluginConsentScope)
  (risk : List (Text × RiskLevel)) {v₁ v₂ v : Db} (h₁ : Since v₁ v) (h₂ : Since v₂ v) :
  Reconsented a axis (applyLog v (suspendWrites a.initiatedAt
   (suspensionCandidates (servingUnits axis v₁) a.initiatedAt
    (grantedTo axis (servingUnits axis v₁) (reconsentSlugs a.comparison axis) v₂)
    (reconsentSlugs a.comparison axis) risk) v)) := by
 intro unit haxis hserving slug hslug g hg
 obtain ⟨row', hrow', hunsuspended⟩ := hserving
 rw [suspendWrites, lookup_updateUnits] at hrow'
 obtain ⟨row, hrow, rfl⟩ := Option.map_eq_some_iff.1 hrow'
 split at hunsuspended
 · simp [suspend] at hunsuspended
 rename_i hkept
 have hunit : (unit, row) ∈ servingUnits axis v₁ :=
  mem_servingUnits.2 ⟨(h₁.unit unit).symm.trans hrow, haxis, hunsuspended⟩
 have hnil : outstandingOf (grantedTo axis (servingUnits axis v₁) (reconsentSlugs a.comparison axis) v₂)
   (reconsentSlugs a.comparison axis) risk unit = [] := by
  by_contra hne
  apply hkept
  simp only [Bool.and_eq_true, Bool.not_eq_true', hunsuspended, and_true]
  exact List.any_eq_true.2 ⟨(unit, row), List.mem_map.2 ⟨_, List.mem_filterMap.2
   ⟨(unit, row), hunit, if_neg hne⟩, rfl⟩, by simp⟩
 obtain ⟨g', hg', hgranted⟩ := granted_of_outstanding_nil haxis hunit hnil hslug
 have hgrant : grant? v (unitGrant unit slug) = some g := by
  rw [← hg]
  exact ((updateUnits_quiet (fun row hrow => by simp [suspend] at hrow)).frame
   (.grant (unitGrant unit slug)) (by simp)).symm
 rcases h₂.grant (unitGrant unit slug) with heq | ⟨-, hnone⟩
 · rw [hgrant, hg'] at heq
   cases heq
   rw [hgranted]
   exact nofun
 · rw [hgrant] at hnone
   cases hnone

variable {Ψ : State → Prop} {Rel : Db → Db → Prop}

theorem safeIn_suspendPass (hΨ : Stable protocol [] Ψ) (hrobust : Robust Rel)
  (htolerant : Tolerant Rel) {next : List SuspensionCandidate → Program}
  (hnext : ∀ candidates, SafeIn Ψ (fun db v => Rel db v ∧ Reconsented a axis v) (next candidates)) :
  SafeIn Ψ Rel (suspendPass a axis next) := by
 unfold suspendPass
 split
 · rename_i hempty
   refine (hnext []).mono fun db v h => ⟨h, fun unit _ _ slug hslug => ?_⟩
   rw [hempty] at hslug
   simp at hslug
 refine safeIn_query hΨ hrobust fun _ v₁ => ?_
 simp only
 split
 · rename_i hnone
   refine (hnext []).mono fun db v h => ⟨h.1, fun unit haxis hserving => ?_⟩
   obtain ⟨row, hrow, hopen⟩ := hserving
   have hmem : (unit, row) ∈ servingUnits axis v₁ :=
    mem_servingUnits.2 ⟨(h.2.unit unit).symm.trans hrow, haxis, hopen⟩
   rw [hnone] at hmem
   simp at hmem
 refine safeIn_query hΨ (hrobust.and (Since.robust v₁)) fun _ v₂ => ?_
 split
 · rename_i hnone
   refine (hnext []).mono fun db v h => ⟨h.1.1, ?_⟩
   have hpass := suspendWrites_reconsented a axis (currentRiskBySlug a.next a.corePermissions) h.1.2 h.2
   rw [hnone, suspendWrites_nil] at hpass
   exact hpass
 refine safeIn_execute hΨ ((hrobust.and (Since.robust v₁)).and (Since.robust v₂))
  (fun _ _ db v => Rel db v ∧ Reconsented a axis v) (fun _ db v h => ?_) fun _ v => ?_
 · refine ⟨htolerant db v _ h.1.1 (updateUnits_quiet fun row hrow => ?_),
    suspendWrites_reconsented a axis _ h.1.2 h.2⟩
   simp [suspend] at hrow
 split
 · exact hnext _
 · refine safeIn_query hΨ (hrobust.and (reconsented_robust a axis)) fun _ v => ?_
   exact (hnext _).mono fun db v h => h.1

end Passes

section History

/-- What a request knows of the row it loaded at `initiatedAt`. -/
structure Loaded (plugin : Plugin) (initiatedAt : ℕ) (σ : State) : Prop where
  initiated : initiatedAt < σ.clock
  empty : plugin.pending = none → ReplacedSince σ.ledger initiatedAt ∨
    ∀ row, plugin? σ.db = some row → row.manifestJson = plugin.manifestJson
  slot : ∀ slot, plugin.pending = some slot → (∃ entry ∈ σ.ledger, entry.event = .staged slot) ∧
    ∀ row, plugin? σ.db = some row → row.pending = some slot → row.manifestJson = plugin.manifestJson

theorem loaded_of_read {σ : State} {plugin : Plugin} (hinv : Provenance σ)
  (h : plugin? σ.db = some plugin) : Loaded plugin σ.clock σ.tick where
 initiated := Nat.lt_succ_self _
 empty _ := .inr fun row hrow => by rw [Option.some.inj (hrow.symm.trans h)]
 slot slot hslot := ⟨hinv.slot plugin slot h hslot,
  fun row hrow _ => by rw [Option.some.inj (hrow.symm.trans h)]⟩

theorem Loaded.commit {σ : State} {event : Event} {db' : Db} {plugin : Plugin} {initiatedAt : ℕ}
  (h : Loaded plugin initiatedAt σ) (heffect : Effect σ event db') :
  Loaded plugin initiatedAt (σ.commit event db') where
 initiated := Nat.lt_succ_of_lt h.initiated
 empty hempty := by
  rcases h.empty hempty with ⟨entry, hentry, htime, hreplaces⟩ | hjson
  · exact .inl ⟨entry, List.mem_append_left _ hentry, htime, hreplaces⟩
  cases pluginMove heffect with
  | kept heq => exact .inr fun row hrow => hjson row (heq ▸ hrow)
  | replaced row' hevent hafter _ =>
   exact .inl ⟨_, List.mem_append_right _ (List.mem_singleton.2 rfl), h.initiated, hevent⟩
  | edited row row' hbefore hafter hsame _ =>
   refine .inr fun current hcurrent => ?_
   cases hafter.symm.trans hcurrent
   exact hsame.trans (hjson row hbefore)
  | staged row slot _ hbefore hafter _ =>
   refine .inr fun current hcurrent => ?_
   cases hafter.symm.trans hcurrent
   exact hjson row hbefore
 slot slot hslot := by
  obtain ⟨⟨entry, hentry, hstaged⟩, hjson⟩ := h.slot slot hslot
  refine ⟨⟨entry, List.mem_append_left _ hentry, hstaged⟩, fun current hcurrent hpending => ?_⟩
  change plugin? db' = some current at hcurrent
  cases pluginMove heffect with
  | kept heq => exact hjson current (heq ▸ hcurrent) hpending
  | replaced row' _ hafter hempty =>
   cases hafter.symm.trans hcurrent
   rw [hempty] at hpending
   cases hpending
  | edited row row' hbefore hafter hsame hslots =>
   cases hafter.symm.trans hcurrent
   rcases hslots with hkept | hempty
   · exact hsame.trans (hjson row hbefore (hkept ▸ hpending))
   · rw [hempty] at hpending
     cases hpending
  | staged row slot' hevent hbefore hafter _ =>
   -- a staging write never takes an id that was staged before
   cases hafter.symm.trans hcurrent
   cases hpending
   subst hevent
   exact absurd (StagedEffect.fresh heffect entry hentry slot hstaged) (lt_irrefl _)

theorem loaded_stable (plugin : Plugin) (initiatedAt : ℕ) :
  Stable protocol [] (Loaded plugin initiatedAt) := by
 intro σ σ' h hinv hinv' hrely
 cases hrely with
 | tick => exact ⟨Nat.lt_succ_of_lt h.initiated, h.empty, h.slot⟩
 | commit other event db hfree hrows hguar heffect => exact h.commit heffect
 | outside w hkey hfree =>
  have hsame : plugin? (applyWrite σ.db w) = plugin? σ.db := lookup_outside σ.db hkey rfl
  refine ⟨Nat.lt_succ_of_lt h.initiated, fun hempty => ?_, fun slot hslot => ?_⟩
  · refine (h.empty hempty).imp id fun hjson row hrow => hjson row ?_
    exact hsame ▸ hrow
  · refine ⟨(h.slot slot hslot).1, fun row hrow => (h.slot slot hslot).2 row ?_⟩
    exact hsame ▸ hrow

end History

section Steps

variable {a : Activation} {seeded : List NormalizedPermissionRequest} {done : List (ActivationStep × ℕ)}
  {db v : Db}

structure Prepared (a : Activation) : Prop where
  active : Validated a.active
  next : Validated a.next
  loaded : a.plugin.manifestJson = .manifest a.active.manifest
  comparison : ∃ corePermissions grants, a.comparison = compare a.active a.next corePermissions grants
  approval : ∀ slot, a.plugin.pending = some slot → slot.pendingVersion = a.next.manifest.version ∧
    slot.pendingManifestJson = .manifest a.next.manifest ∧ slot.pendingSha256 = a.artifactSha256
  seeds : ∀ check ∈ a.checksToSeed, check ∈ a.next.permissionChecks ∧ check.consentScope = .server

structure Claimed (a : Activation) (db v : Db) : Prop where
  claim : ∃ row config, plugin? db = some row ∧ claimable a row = true ∧
    plugin? v = some (promoted a config row)
  frame : ∀ k, k ≠ .plugin → v.lookup k = db.lookup k

/-- The claimed row, the server decisions as they were locked, and the steps done so far. -/
structure Activating (a : Activation) (seeded : List NormalizedPermissionRequest)
    (done : List (ActivationStep × ℕ)) (db v : Db) : Prop where
  claim : ∃ row config, plugin? db = some row ∧ claimable a row = true ∧
    plugin? v = some (promoted a config row)
  rows : ∀ k, Stepped k → v.lookup k = stepsRow a done k (db.lookup k)
  unrefused : ∀ key g, key.scopeType = .server → grant? db key = some g → g.status = .denied →
    ¬ RequiredOf a.next.manifest .server key.permissionSlug
  seeds : ∀ check ∈ seeded, check ∈ a.next.permissionChecks ∧ check.consentScope = .server ∧
    ∀ key : GrantKey, key.scopeType = .server → key.permissionSlug = check.canonicalSlug →
      grant? db key = none
  serving : ∀ unit, Serving v unit → Serving db unit

theorem stepsRow_none (a : Activation) {key : GrantKey} (hkey : key.scopeType ≠ .server)
  (done : List (ActivationStep × ℕ)) : stepsRow a done (.grant key) none = none := by
 have hne : ∀ slug, key ≠ serverGrant slug := by
  rintro slug rfl
  exact hkey rfl
 induction done with
 | nil => rfl
 | cons step done ih =>
  change stepsRow a done (.grant key) (stepRow a step.1 step.2 (.grant key) none) = none
  have hstep : stepRow a step.1 step.2 (.grant key) none = none := by
   cases step.1 <;> simp [stepRow, hne]
  rw [hstep]
  exact ih

theorem stepsRow_append (step : ActivationStep) (clock : ℕ) (k : Key) (x : Option (Row k)) :
  stepsRow a (done ++ [(step, clock)]) k x = stepRow a step clock k (stepsRow a done k x) := by
 simp [stepsRow]

theorem claimed_robust (a : Activation) : Robust (Claimed a) := by
 intro db v db' v' h hdrift
 refine ⟨?_, fun k hk => ?_⟩
 · rw [hdrift.plugin.1, hdrift.plugin.2]
   exact h.claim
 · rcases hdrift k with ⟨hdb, hv⟩ | ⟨-, heq, -⟩
   · rw [hdb, hv]
     exact h.frame k hk
   · exact heq

theorem activating_robust (a : Activation) (seeded : List NormalizedPermissionRequest)
  (done : List (ActivationStep × ℕ)) : Robust (Activating a seeded done) := by
 intro db v db' v' h hdrift
 refine ⟨?_, fun k hk => ?_, fun key g hkey hg => ?_, fun check hcheck => ?_, fun unit hserving => ?_⟩
 · rw [hdrift.plugin.1, hdrift.plugin.2]
   exact h.claim
 · rcases hdrift k with ⟨hdb, hv⟩ | ⟨-, heq, hloose⟩
   · rw [hdb, hv]
     exact h.rows k hk
   · cases k with
     | grant key =>
      rw [heq, hloose.2, stepsRow_none a hloose.1]
     | declared slug => exact hloose.elim
     | plugin | unit _ | permission _ | home _ => exact hk.elim
 · exact h.unrefused key g hkey ((hdrift.serverGrant hkey).1 ▸ hg)
 · obtain ⟨hmem, hscope, hnone⟩ := h.seeds check hcheck
   refine ⟨hmem, hscope, fun key hkey hslug => ?_⟩
   rw [(hdrift.serverGrant hkey).1]
   exact hnone key hkey hslug
 · have hunit := hdrift.unit unit
   exact serving_congr hunit.1.symm (h.serving unit (serving_congr hunit.2 hserving))

theorem activating_tolerant (a : Activation) (seeded : List NormalizedPermissionRequest)
  (done : List (ActivationStep × ℕ)) : Tolerant (Activating a seeded done) := by
 intro db v v' h hquiet
 refine ⟨?_, fun k hk => ?_, h.unrefused, h.seeds,
  fun unit hserving => h.serving unit (hquiet.serving unit hserving)⟩
 · obtain ⟨row, config, hbefore, hclaim, hafter⟩ := h.claim
   exact ⟨row, config, hbefore, hclaim, (hquiet.frame .plugin (by simp)).trans hafter⟩
 · rw [hquiet.frame k, h.rows k hk]
   rintro unit rfl
   exact hk

theorem Activating.step (h : Activating a seeded done db v) {step : ActivationStep} {clock : ℕ}
  {v' : Db} (hrows : ∀ k, v'.lookup k = stepRow a step clock k (v.lookup k)) :
  Activating a seeded (done ++ [(step, clock)]) db v' := by
 refine ⟨?_, fun k hk => ?_, h.unrefused, h.seeds, fun unit hserving => h.serving unit ?_⟩
 · obtain ⟨row, config, hbefore, hclaim, hafter⟩ := h.claim
   exact ⟨row, config, hbefore, hclaim, (hrows .plugin).trans hafter⟩
 · rw [hrows k, stepsRow_append, h.rows k hk]
 · exact serving_congr (hrows (.unit unit)) hserving

theorem Claimed.begin (h : Claimed a db v) (hprepared : Prepared a) {locked : Db}
  (hsince : Since locked v) (hblocked : blockedByDenial a (serverRows locked) = []) :
  Activating a (seededChecks a (serverRows locked)) [] db v := by
 have hserver : ∀ key : GrantKey, key.scopeType = .server → grant? locked key = grant? db key := by
  intro key hkey
  exact (hsince.serverGrant hkey).symm.trans (h.frame (.grant key) (by simp))
 have hrows : ∀ (key : GrantKey) g, key.scopeType = .server → grant? db key = some g →
   (key, g) ∈ serverRows locked := by
  intro key g hkey hg
  exact List.mem_filter.2 ⟨mem_grantRows.2 ((hserver key hkey).trans hg), by simp [hkey]⟩
 refine ⟨h.claim, fun k hk => ?_, ?_, ?_, fun unit hserving => ?_⟩
 · refine h.frame k ?_
   rintro rfl
   exact hk
 · rintro key g hkey hg hdenied ⟨check, hcheck, hslug, hscope, hrequired⟩
   have hmem : check.canonicalSlug ∈ blockedByDenial a (serverRows locked) := by
    refine List.mem_map_of_mem (List.mem_filter.2 ⟨hprepared.next.checks ▸ hcheck, ?_⟩)
    simp only [hscope, hrequired, Bool.and_eq_true, beq_self_eq_true, List.contains_iff_mem, true_and,
     hslug]
    exact List.mem_map.2 ⟨(key, g), List.mem_filter.2 ⟨hrows key g hkey hg, by simp [hdenied]⟩, rfl⟩
   rw [hblocked] at hmem
   simp at hmem
 · intro check hcheck
   obtain ⟨hseed, hundecided⟩ := List.mem_filter.1 hcheck
   obtain ⟨hmem, hscope⟩ := hprepared.seeds check hseed
   refine ⟨hmem, hscope, fun key hkey hslug => ?_⟩
   by_contra hsome
   obtain ⟨g, hg⟩ := Option.ne_none_iff_exists'.1 hsome
   have hdecided : check.canonicalSlug ∈ (serverRows locked).map (·.1.permissionSlug) :=
    List.mem_map.2 ⟨(key, g), hrows key g hkey hg, hslug⟩
   simp [hdecided] at hundecided
 · exact serving_congr (h.frame (.unit unit) (by simp)) hserving

end Steps

section Moves

variable {v₁ v : Db} {slug : Text} {scopeType : PluginGrantScope}

def staleRows (slug : Text) (scopeType : PluginGrantScope) (v : Db) : List (GrantKey × PluginGrant) :=
  (grantRows v).filter fun entry => entry.1.permissionSlug == slug && entry.1.scopeType == scopeType

theorem mem_staleAt {key : GrantKey} {row : PluginGrant} : (key, row) ∈ staleRows slug scopeType v ↔
  grant? v key = some row ∧ key.permissionSlug = slug ∧ key.scopeType = scopeType := by
 simp [staleRows, mem_grantRows]

theorem move_nothing (hsince : Since v₁ v) (hstale : staleRows slug scopeType v₁ = [])
  (a : Activation) (clock : ℕ) (k : Key) :
  v.lookup k = stepRow a (.moveScope slug scopeType) clock k (v.lookup k) := by
 cases k with
 | plugin | declared _ | unit _ | permission _ | home _ => rfl
 | grant key =>
  simp only [stepRow, Bool.and_eq_true, beq_iff_eq]
  split
  swap
  · rfl
  rename_i hkey
  change grant? v key = none
  rcases hsince.grant key with heq | ⟨-, hnone⟩
  · cases hrow : grant? v₁ key with
    | none => exact heq.trans hrow
    | some row =>
     have hmem := mem_staleAt.2 ⟨hrow, hkey⟩
     rw [hstale] at hmem
     simp at hmem
  · exact hnone

theorem move_deletes (slug : Text) (scopeType : PluginGrantScope) (hsince : Since v₁ v)
  (a : Activation) (clock : ℕ) (k : Key) :
  (applyLog v (deleteFound (staleRows slug scopeType v₁) (fun _ => true) v)).lookup k =
   stepRow a (.moveScope slug scopeType) clock k (v.lookup k) := by
 cases k with
 | plugin | declared _ | unit _ | permission _ | home _ =>
  exact lookup_applyLog_of_notMem v (deleteGrants_key (by simp))
 | grant key =>
  have hdelete := lookup_deleteGrants (fun key row =>
   ((staleRows slug scopeType v₁).any fun f => f.1 == key && f.2.id == row.id) && true) v key
  refine hdelete.trans ?_
  simp only [stepRow, Bool.and_eq_true, beq_iff_eq]
  change _ = if _ then none else grant? v key
  cases hrow : grant? v key with
  | none => simp
  | some row =>
   have hfound : ((staleRows slug scopeType v₁).any fun f => f.1 == key && f.2.id == row.id) = true ↔
     key.permissionSlug = slug ∧ key.scopeType = scopeType := by
    simp only [List.any_eq_true, Bool.and_eq_true, beq_iff_eq]
    constructor
    · rintro ⟨⟨key', row'⟩, hmem, rfl, -⟩
      exact (mem_staleAt.1 hmem).2
    · intro hkey
      rcases hsince.grant key with heq | ⟨-, hnone⟩
      · exact ⟨(key, row), mem_staleAt.2 ⟨heq.symm.trans hrow, hkey⟩, rfl, rfl⟩
      · rw [hrow] at hnone
        cases hnone
   rw [Option.filter_some]
   by_cases hkey : key.permissionSlug = slug ∧ key.scopeType = scopeType
   · rw [if_pos hkey, hfound.2 hkey]
     rfl
   · rw [if_neg hkey, Bool.eq_false_iff.2 fun h => hkey (hfound.1 h)]
     rfl

end Moves

section Activate

variable {a : Activation} {seeded : List NormalizedPermissionRequest} {Ψ : State → Prop}
  {onCollision : Program}

theorem safeIn_plainStep (hΨ : Stable protocol [] Ψ)
  (hcollision : ∀ σ, Provenance σ → Ψ σ → Safe protocol onCollision [] [] σ) {step : ActivationStep}
  {rest : Program} {done : List (ActivationStep × ℕ)}
  (hrest : ∀ clock, SafeIn Ψ (Activating a seeded (done ++ [(step, clock)])) rest) :
  SafeIn Ψ (Activating a seeded done)
   (.execute (fun clock v => (stepWrites a step clock v).toOption.getD []) fun clock v =>
    match stepWrites a step clock v with
    | .ok _ => rest
    | .error .decisionCollision => .rollback onCollision
    | .error .other => .rollback .halt) := by
 refine safeIn_execute hΨ (activating_robust a seeded done)
  (fun clock v₁ db v => ∀ writes, stepWrites a step clock v₁ = .ok writes →
   Activating a seeded (done ++ [(step, clock)]) db v) (fun clock db v h writes hwrites => ?_)
  fun clock v => ?_
 · rw [hwrites]
   exact h.step (lookup_step hwrites)
 · split
   · rename_i writes hwrites
     exact (hrest clock).mono fun db v h => h writes hwrites
   · exact safeIn_rollback hΨ hcollision
   · exact safeIn_rollback hΨ fun _ _ _ => trivial

theorem safeIn_step (hΨ : Stable protocol [] Ψ)
  (hcollision : ∀ σ, Provenance σ → Ψ σ → Safe protocol onCollision [] [] σ) {step : ActivationStep}
  {rest : Program} {done : List (ActivationStep × ℕ)}
  (hrest : ∀ clock, SafeIn Ψ (Activating a seeded (done ++ [(step, clock)])) rest) :
  SafeIn Ψ (Activating a seeded done) (stepCode a onCollision step rest) := by
 cases step with
 | moveScope slug scopeType =>
  refine safeIn_query hΨ (activating_robust a seeded done) fun clock v₁ => ?_
  simp only
  split
  · rename_i hstale
    exact (hrest clock).mono fun db v h => h.1.step (move_nothing h.2 hstale a clock)
  · refine safeIn_execute hΨ ((activating_robust a seeded done).and (Since.robust v₁))
     (fun _ _ => Activating a seeded (done ++ [(.moveScope slug scopeType, clock)]))
     (fun _ db v h => ?_) fun _ _ => hrest clock
    exact h.1.step (move_deletes slug scopeType h.2 a clock)
 | deleteGrants slugs => exact safeIn_plainStep hΨ hcollision hrest
 | deletePermissions slugs => exact safeIn_plainStep hΨ hcollision hrest
 | createPermission slug => exact safeIn_plainStep hΨ hcollision hrest
 | reStamp slug => exact safeIn_plainStep hΨ hcollision hrest
 | seed check => exact safeIn_plainStep hΨ hcollision hrest

theorem safeIn_steps (hΨ : Stable protocol [] Ψ)
  (hcollision : ∀ σ, Provenance σ → Ψ σ → Safe protocol onCollision [] [] σ) {finish : Program}
  (hfinish : ∀ done : List (ActivationStep × ℕ), done.map Prod.fst = activationSteps a seeded →
   SafeIn Ψ (Activating a seeded done) finish)
  (steps : List ActivationStep) (done : List (ActivationStep × ℕ))
  (hsteps : done.map Prod.fst ++ steps = activationSteps a seeded) :
  SafeIn Ψ (Activating a seeded done) (steps.foldr (stepCode a onCollision) finish) := by
 induction steps generalizing done with
 | nil => exact hfinish done (by simpa using hsteps)
 | cons step steps ih =>
  refine safeIn_step hΨ hcollision fun clock => ih _ ?_
  simpa using hsteps

theorem Loaded.baseline {σ : State} {row : Plugin} (h : Loaded a.plugin a.initiatedAt σ)
  (hinv : Provenance σ) (hrow : plugin? σ.db = some row) (hclaim : claimable a row = true) :
  (∀ slot, a.plugin.pending = some slot → row.pending = some slot) ∧
  ((a.plugin.pending = none ∧ ReplacedSince σ.ledger a.initiatedAt) ∨
   row.manifestJson = a.plugin.manifestJson) := by
 simp only [claimable, Bool.and_eq_true, beq_iff_eq] at hclaim
 obtain ⟨⟨-, -⟩, hid⟩ := hclaim
 cases hpending : a.plugin.pending with
 | none =>
  refine ⟨nofun, ?_⟩
  rcases h.empty hpending with hreplaced | hjson
  · exact .inl ⟨rfl, hreplaced⟩
  · exact .inr (hjson row hrow)
 | some slot =>
  rw [hpending] at hid
  obtain ⟨slot', hslot', hids⟩ := Option.map_eq_some_iff.1 hid
  obtain ⟨⟨entry, hentry, hstaged⟩, hjson⟩ := h.slot slot hpending
  obtain ⟨entry', hentry', hstaged'⟩ := hinv.slot row slot' hrow hslot'
  obtain rfl := hinv.unique entry' hentry' entry hentry slot' slot hstaged' hstaged hids
  refine ⟨?_, .inr (hjson row hrow hslot')⟩
  intro other hother
  exact hslot'.trans hother

theorem activated_effect (hprepared : Prepared a) {σ : State} {db' : Db}
  {done : List (ActivationStep × ℕ)} (hdone : done.map Prod.fst = activationSteps a seeded)
  (hinv : Provenance σ) (hloaded : Loaded a.plugin a.initiatedAt σ)
  (h : Activating a seeded done σ.db db') (hhousehold : Reconsented a .household db')
  (huser : Reconsented a .user db') (households users : List SuspensionCandidate) :
  Effect σ (.activated ⟨a, seeded, households, users⟩) db' := by
 obtain ⟨row, config, hbefore, hclaim, hafter⟩ := h.claim
 obtain ⟨hslot, hbaseline⟩ := hloaded.baseline hinv hbefore hclaim
 refine ⟨hprepared.active, hprepared.next, hprepared.comparison, h.claim, ?_, ?_, ⟨done, hdone, h.rows⟩,
  h.unrefused, h.seeds, h.serving, ?_⟩
 · refine hbaseline.imp id fun hjson row' hrow' => ?_
   cases hbefore.symm.trans hrow'
   exact hjson.trans hprepared.loaded
 · intro slot hpending
   obtain ⟨hversion, hjson, hsha⟩ := hprepared.approval slot hpending
   refine ⟨hversion, hjson, hsha, fun row' hrow' => ?_⟩
   cases hbefore.symm.trans hrow'
   exact hslot slot hpending
 · intro unit hserving
   cases unit with
   | household id => exact hhousehold (.household id) rfl hserving
   | user id => exact huser (.user id) rfl hserving

theorem safeIn_finish (host : Host) (hprepared : Prepared a) {done : List (ActivationStep × ℕ)}
  (hdone : done.map Prod.fst = activationSteps a seeded) :
  SafeIn (Loaded a.plugin a.initiatedAt) (Activating a seeded done) (finishActivation host a seeded) := by
 have hΨ := loaded_stable a.plugin a.initiatedAt
 have hrobust := activating_robust a seeded done
 have hrobust' := hrobust.and (reconsented_robust a .household)
 have htolerant : Tolerant fun db v => Activating a seeded done db v ∧ Reconsented a .household v :=
  fun db v v' h hquiet => ⟨activating_tolerant a seeded done db v v' h.1 hquiet,
   reconsented_tolerant a .household db v v' h.2 hquiet⟩
 refine safeIn_suspendPass hΨ hrobust (activating_tolerant a seeded done) fun households => ?_
 refine safeIn_suspendPass hΨ hrobust' htolerant fun users => ?_
 have hrobust'' := hrobust'.and (reconsented_robust a .user)
 refine safeIn_dormancy hΨ hrobust'' (fun db v v' h hquiet => ?_) ?_ host a.next.manifest a.initiatedAt
 · exact ⟨htolerant db v v' h.1 hquiet, reconsented_tolerant a .user db v v' h.2 hquiet⟩
 · refine safeIn_commit hΨ hrobust'' fun σ db' hinv hloaded h => ?_
   exact activated_effect hprepared hdone hinv hloaded h.1.1 h.1.2 h.2 households users

theorem safeIn_activateClaimed (host : Host) (hprepared : Prepared a)
  (hcollision : ∀ σ, Provenance σ → Loaded a.plugin a.initiatedAt σ →
   Safe protocol onCollision [] [] σ) :
  SafeIn (Loaded a.plugin a.initiatedAt) (Claimed a) (activateClaimed host a onCollision) := by
 have hΨ := loaded_stable a.plugin a.initiatedAt
 have hhalt : ∀ Rel : Db → Db → Prop, SafeIn (Loaded a.plugin a.initiatedAt) Rel (.rollback .halt) :=
  fun _ => safeIn_rollback hΨ fun _ _ _ => trivial
 refine safeIn_lock hΨ (claimed_robust a) fun _ locked => ?_
 split
 · exact hhalt _
 rename_i hblocked
 simp only
 split
 swap
 · exact hhalt _
 refine SafeIn.mono (safeIn_steps hΨ hcollision (fun done hdone => safeIn_finish host hprepared hdone) _ []
  rfl) fun db v h => ?_
 exact h.1.begin hprepared h.2 (not_not.1 hblocked)

theorem claimed_of_claim {db v : Db} (h : ∀ k, v.lookup k = db.lookup k) {row : Plugin}
  (hrow : plugin? v = some row) (hclaim : claimable a row = true) (config : ConfigValue) :
  Claimed a db (applyLog v (claimWrites a config v)) := by
 have hwrites : claimWrites a config v = [⟨.plugin, some (promoted a config row)⟩] := by
  simp [claimWrites, hrow, hclaim]
 rw [hwrites]
 refine ⟨⟨row, config, (h .plugin).symm.trans hrow, hclaim, ?_⟩, ?_⟩
 · exact lookup_applyWrite_self v .plugin (some (promoted a config row))
 intro k hk
 exact (lookup_applyLog_of_notMem v (by simpa using Ne.symm hk)).trans (h k)

theorem same_robust : Robust fun db v => ∀ k, v.lookup k = db.lookup k := by
 intro db v db' v' h hdrift k
 rcases hdrift k with ⟨hdb, hv⟩ | ⟨-, heq, -⟩
 · rw [hdb, hv]
   exact h k
 · exact heq

theorem safe_activateInTransaction (host : Host) (hprepared : Prepared a)
  (hcollision : ∀ σ, Provenance σ → Loaded a.plugin a.initiatedAt σ →
   Safe protocol onCollision [] [] σ) {σ : State} (h : Loaded a.plugin a.initiatedAt σ) :
  Safe protocol (activateInTransaction host a onCollision) [] [] σ := by
 have hΨ := loaded_stable a.plugin a.initiatedAt
 refine safe_stmt (fun _ => hΨ) h fun σ' hinv _ _ hloaded => ?_
 cases hcurrent : plugin? (view σ' []) with
 | none => exact safe_rollback (stable_const _ _ True) trivial fun _ _ _ => trivial
 | some current =>
  refine safeIn_execute hΨ same_robust (fun _ v₁ db v => ∀ row, plugin? v₁ = some row →
   claimable a row = true → Claimed a db v)
   (fun _ db v hsame row hrow hclaim => claimed_of_claim hsame hrow hclaim _) (fun _ v₁ => ?_) _ _ _ ?_
   (stable_tick hΨ hinv hloaded) fun _ => rfl
  · split
    · rename_i row hrow
      split
      · rename_i hclaim
        exact (safeIn_activateClaimed host hprepared hcollision).mono fun db v h => h row hrow hclaim
      · exact safeIn_rollback hΨ fun _ _ _ => trivial
    · exact safeIn_rollback hΨ fun _ _ _ => trivial
  · simp [lockPlugin, hcurrent]

theorem safe_activate (host : Host) (hprepared : Prepared a) {σ : State}
  (h : Loaded a.plugin a.initiatedAt σ) : Safe protocol (activate host a) [] [] σ := by
 have hΨ := loaded_stable a.plugin a.initiatedAt
 have hagain : ∀ σ, Provenance σ → Loaded a.plugin a.initiatedAt σ →
   Safe protocol (.start .halt (activateInTransaction host a .halt)) [] [] σ := by
  intro σ _ h
  refine safe_start hΨ h fun σ' hinv h' => ⟨?_, trivial⟩
  refine safe_activateInTransaction host hprepared ?_ (stable_tick hΨ hinv h')
  exact fun _ _ _ => trivial
 refine safe_start hΨ h fun σ' hinv h' => ⟨?_, hagain _ hinv.tick (stable_tick hΨ hinv h')⟩
 exact safe_activateInTransaction host hprepared hagain (stable_tick hΨ hinv h')

end Activate

section Requests

variable {host : Host} {σ : State} {plugin : Plugin} {initiatedAt : ℕ}

theorem livingPlugin_some {v : Db} (h : livingPlugin v = some plugin) : Living v plugin := by
 obtain ⟨hrow, halive⟩ := Option.filter_eq_some_iff.1 h
 exact ⟨hrow, by simpa using halive⟩

theorem validateStoredManifest_some {json : ManifestDocument} {expectedVersion : Text}
  {enforce : Bool} {validated : PluginManifestValidationResult}
  (h : validateStoredManifest host plugin json expectedVersion enforce = some validated) :
  Validated validated ∧ json = .manifest validated.manifest ∧
   validated.manifest.version = expectedVersion := by
 unfold validateStoredManifest at h
 split at h
 · cases h
 · rename_i result hvalid
   split at h
   swap
   · cases h
   rename_i hmatch
   cases h
   refine ⟨validated_of_ok hvalid, ?_, hmatch.2⟩
   obtain ⟨m, hjson, -, rfl⟩ := validatePluginManifest_ok hvalid
   exact hjson

theorem validateNextManifest_some {raw : ManifestDocument} {next : PluginManifestValidationResult}
  (h : validateNextManifest host plugin raw = some next) : Validated next := by
 unfold validateNextManifest at h
 split at h
 · cases h
 · rename_i result hvalid
   split at h
   · cases h
     exact validated_of_ok hvalid
   · cases h

theorem safe_loadCorePermissions {Ψ : State → Prop} (hΨ : Stable protocol [] Ψ) (h : Ψ σ)
  {next : PluginManifestValidationResult} {rest : List (Text × Permission) → Program}
  (hrest : ∀ corePermissions σ', Provenance σ' → Ψ σ' → Safe protocol (rest corePermissions) [] [] σ') :
  Safe protocol (loadCorePermissions host next rest) [] [] σ := by
 refine safe_read hΨ h fun σ' hinv h' => ?_
 simp only
 split
 · exact hrest _ _ hinv.tick (stable_tick hΨ hinv h')
 · trivial

structure Staging (row : Plugin) (id : ℕ) (σ : State) : Prop where
  row : plugin? σ.db = some row
  past : id < σ.clock
  fresh : ∀ entry ∈ σ.ledger, ∀ slot, entry.event = .staged slot → slot.pendingStagingId < id

theorem staging_stable {held : List PluginLock} (hlock : pluginLock true ∈ held) (row : Plugin)
  (id : ℕ) :
  Stable protocol held (Staging row id) := by
 intro σ σ' h _ _ hrely
 have hsame : plugin? σ'.db = plugin? σ.db := hrely.row hlock
 have hrow := hsame.trans h.row
 cases hrely with
 | tick => exact ⟨hrow, Nat.lt_succ_of_lt h.past, h.fresh⟩
 | outside w hkey hfree => exact ⟨hrow, Nat.lt_succ_of_lt h.past, h.fresh⟩
 | commit other event db hfree hrows hguar heffect =>
  refine ⟨hrow, Nat.lt_succ_of_lt h.past, fun entry hentry slot hslot => ?_⟩
  rcases List.mem_append.1 hentry with hold | hnew
  · exact h.fresh entry hold slot hslot
  · rw [List.mem_singleton.1 hnew] at hslot
    subst hslot
    obtain ⟨old, hwrite, hempty, -⟩ := StagedEffect.write heffect
    have hafter : some { old with pending := some slot } = some old :=
     hwrite.after.symm.trans (hsame.trans hwrite.before)
    rw [← Option.some.inj hafter] at hempty
    cases hempty

theorem safe_stagePending (next : PluginManifestValidationResult) (sha256 : Text) (initiatedAt : ℕ) :
  Safe protocol (stagePending next sha256 initiatedAt) [] [] σ := by
 refine safe_stmt (fun _ => stable_const _ _ True) trivial fun σ₁ hinv _ _ _ => ?_
 have hview : view σ₁ [] = σ₁.db := rfl
 simp only [hview]
 cases hrow : plugin? σ₁.db with
 | none => exact safe_abort
 | some row =>
  by_cases hstage : stageable row = true
  swap
  · simp only [hstage]
    exact safe_abort
  simp only [hstage, if_true]
  have hlock : pluginLock true ∈ ([] : List PluginLock) ++ ([] ++ writeLocks [(⟨.plugin,
    some { row with pending := some (stagedSlot next sha256 initiatedAt σ₁.clock) }⟩ : PluginWrite)]) := by
   simp [writeLocks, pluginLock]
  refine safe_commit (fun _ => staging_stable hlock row σ₁.clock)
   ⟨hrow, Nat.lt_succ_self _, hinv.past⟩ fun σ₂ _ _ h => ⟨guarantee_exclusive hlock _ _, ?_, trivial⟩
  simp only [stageable, Bool.and_eq_true, beq_iff_eq] at hstage
  exact ⟨⟨row, pluginEffect_write h.row _, hstage.1, hstage.2⟩, h.past, h.fresh⟩

theorem safe_stage (input : StageInput) : Safe protocol (stage host input) [] [] σ := by
 unfold stage
 split
 · trivial
 refine safe_read (stable_const _ _ True) trivial fun σ₁ hinv _ => ?_
 split
 · trivial
 rename_i plugin hliving
 have hplugin := (livingPlugin_some hliving).1
 split
 · trivial
 rename_i next hnext
 split
 · trivial
 rename_i hopen
 rw [not_or, not_not] at hopen
 have hΨ := loaded_stable plugin σ₁.clock
 refine safe_loadCorePermissions hΨ (loaded_of_read hinv hplugin) fun corePermissions σ₂ _ h₂ => ?_
 split
 · trivial
 split
 · trivial
 rename_i active hactive
 refine safe_read hΨ h₂ fun σ₃ hinv₃ h₃ => ?_
 simp only
 split
 swap
 · exact safe_stagePending _ _ _
 obtain ⟨hvalid, hjson, -⟩ := validateStoredManifest_some hactive
 refine safe_activate host ⟨hvalid, validateNextManifest_some hnext, hjson, ⟨_, _, rfl⟩, ?_, ?_⟩
  (stable_tick hΨ hinv₃ h₃)
 · intro slot hslot
   rw [hopen.1] at hslot
   cases hslot
 · intro check hcheck
   simp at hcheck

theorem safe_approveResolved (input : ApproveInput) {slot : StagedUpdate}
  {active next : PluginManifestValidationResult} {corePermissions : List (Text × Permission)}
  (hslot : plugin.pending = some slot) (hactive : validateActiveManifest host plugin = some active)
  (hnext : validateStoredManifest host plugin slot.pendingManifestJson slot.pendingVersion true
   = some next)
  (h : Loaded plugin initiatedAt σ) :
  Safe protocol (approveResolved host input plugin slot active next corePermissions initiatedAt)
   [] [] σ := by
 have hΨ := loaded_stable plugin initiatedAt
 refine safe_read hΨ h fun σ₁ hinv₁ h₁ => ?_
 simp only
 split
 · trivial
 refine safe_read hΨ (stable_tick hΨ hinv₁ h₁) fun σ₂ hinv₂ h₂ => ?_
 split
 swap
 · trivial
 obtain ⟨hactiveValid, hactiveJson, -⟩ := validateStoredManifest_some hactive
 obtain ⟨hnextValid, hnextJson, hversion⟩ := validateStoredManifest_some hnext
 refine safe_activate host ⟨hactiveValid, hnextValid, hactiveJson, ⟨_, _, rfl⟩, ?_, ?_⟩
  (stable_tick hΨ hinv₂ h₂)
 · intro slot' hslot'
   cases hslot.symm.trans hslot'
   exact ⟨hversion.symm, hnextJson, rfl⟩
 · intro check hcheck
   obtain ⟨hmem, hscope⟩ := List.mem_filter.1 (List.mem_filter.1 hcheck).1
   exact ⟨hmem, by simpa using hscope⟩

theorem safe_approve (input : ApproveInput) : Safe protocol (approve host input) [] [] σ := by
 unfold approve
 split
 · trivial
 refine safe_read (stable_const _ _ True) trivial fun σ₁ hinv _ => ?_
 split
 · trivial
 rename_i plugin hliving
 split
 · trivial
 rename_i slot hslot
 split
 · trivial
 split
 swap
 · trivial
 rename_i next active hnext hactive
 refine safe_loadCorePermissions (loaded_stable plugin σ₁.clock)
  (loaded_of_read hinv (livingPlugin_some hliving).1) fun corePermissions σ₂ _ h₂ => ?_
 exact safe_approveResolved input hslot hactive hnext h₂

theorem safe_reject (input : RejectInput) : Safe protocol (reject input) [] [] σ := by
 unfold reject
 split
 · trivial
 refine safe_read (stable_const _ _ True) trivial fun σ₁ hinv _ => ?_
 split
 · trivial
 split
 · trivial
 rename_i slot hslot
 split
 · trivial
 change Safe protocol (updatePlugin (rejectable slot) (fun row => { row with pending := none })
  (.rollback .halt) (.commit (.rejected slot.pendingStagingId) .halt)) [] [] _
 refine safe_updatePlugin (fun _ _ => safe_abort) fun row hguard => ?_
 refine safeIn_commit (stable_const _ _ True) (pluginEffect_robust row _) fun σ db' _ _ h => ?_
 simp only [rejectable, Bool.and_eq_true, beq_iff_eq] at hguard
 obtain ⟨slot', hslot', hid⟩ := Option.map_eq_some_iff.1 hguard.2
 exact ⟨row, slot', h, hguard.1.1, hslot', hid⟩

end Requests

end BoardGamesEmpire.PluginUpdateSafe
