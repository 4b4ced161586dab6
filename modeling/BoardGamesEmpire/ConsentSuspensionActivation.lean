import BoardGamesEmpire.ConsentSuspension

set_option autoImplicit false

/-!
# Replacing the manifest under suspended units

What an activation and an install, served by themselves, leave of the decisions
and of the suspension of each unit.
-/
namespace BoardGamesEmpire.ConsentSuspension
open JsText Manifest ReadCommitted PluginStore PluginEscalation PluginActivation PluginUpdateProgram
  PluginGrantProgram PluginSystem PluginProtocol PluginSuspension PluginInvariants PluginLedger

section Passes

variable {P : Db → Prop} {db : Db} {log : List PluginWrite} {clock : ℕ} {a : Activation} {host : Host}

/-- Only unit rows differ, and a unit is newly suspended only for the reason given. -/
structure Reviewed (reason : UnitRef → Prop) (v v' : Db) : Prop where
  frame : ∀ k, (∀ unit, k ≠ .unit unit) → v'.lookup k = v.lookup k
  units : ∀ unit, Suspended v' unit → Suspended v unit ∨ reason unit

theorem Reviewed.refl (reason : UnitRef → Prop) (v : Db) :
  Reviewed reason v v := ⟨fun _ _ => rfl, fun _ => .inl⟩

theorem Reviewed.trans {reason : UnitRef → Prop} {v v' v'' : Db} (h : Reviewed reason v v')
  (h' : Reviewed reason v' v'') : Reviewed reason v v'' :=
 ⟨fun k hk => (h'.frame k hk).trans (h.frame k hk), fun unit hunit =>
  (h'.units unit hunit).elim (h.units unit) .inr⟩

theorem reviewed_updateUnits {reason : UnitRef → Prop} {p : UnitRef → UnitRow → Bool}
  {f : UnitRow → UnitRow} {v : Db}
  (hf : ∀ unit row, unit? v unit = some row → p unit row = true → (f row).suspendedForConsent = true →
   row.suspendedForConsent = true ∨ reason unit) : Reviewed reason v (applyLog v (updateUnits p f v)) := by
 refine ⟨fun k hk => lookup_applyLog_of_notMem v fun w hw heq => ?_, fun unit hsuspended => ?_⟩
 · obtain ⟨entry, -, rfl⟩ := List.mem_map.1 hw
   exact hk _ heq.symm
 · obtain ⟨row', hrow', hflag⟩ := hsuspended
   rw [PluginUpdateSafe.lookup_updateUnits] at hrow'
   obtain ⟨row, hrow, rfl⟩ := Option.map_eq_some_iff.1 hrow'
   split at hflag
   · next hp => exact (hf unit row hrow hp hflag).imp_left fun hold => ⟨row, hrow, hold⟩
   · exact .inl ⟨row, hrow, hflag⟩

/-- A slug sent back to the unit's axis that the unit's decision does not cover. -/
def Lapsed (a : Activation) (v : Db) (unit : UnitRef) : Prop :=
  ∃ slug ∈ reconsentSlugs a.comparison unit.consentScope, ¬ Covers a v unit slug

theorem covers_congr {v v' : Db} (h : ∀ key, grant? v' key = grant? v key) (unit : UnitRef)
  (slug : Text) :
  Covers a v' unit slug ↔ Covers a v unit slug := by
 rw [Covers, Covers, h]

theorem lapsed_congr {v v' : Db} (h : ∀ key, grant? v' key = grant? v key) (unit : UnitRef) :
  Lapsed a v' unit ↔ Lapsed a v unit := by
 simp only [Lapsed, covers_congr h]

theorem lapsed_of_candidate {axis : PluginConsentScope} {v : Db} {c : SuspensionCandidate}
  (hc : c ∈ suspensions a axis v) : Lapsed a v c.unit := by
 obtain ⟨⟨unit, row⟩, hserving, hcandidate⟩ := List.mem_filterMap.1 hc
 dsimp only at hcandidate
 split at hcandidate
 · cases hcandidate
 next howed =>
 cases hcandidate
 have haxis : unit.consentScope = axis := (mem_servingUnits.1 hserving).2.1
 obtain ⟨slug, hslug⟩ := List.exists_mem_of_ne_nil _ howed
 obtain ⟨hlisted, hout⟩ := List.mem_filter.1 hslug
 refine ⟨slug, haxis ▸ hlisted, ?_⟩
 rintro ⟨grant, hgrant, hgranted, hcovers⟩
 have hget := (decided_get haxis ⟨row, hserving⟩ hlisted grant.decidedRiskLevel).2
  ⟨grant, hgrant, hgranted, rfl⟩
 rw [hget] at hout
 rw [currentRisk] at hcovers
 simp [hcovers] at hout

theorem suspendPass_rule (reason : UnitRef → Prop) {axis : PluginConsentScope}
  {next : List SuspensionCandidate → Program} (hreason : ∀ unit, Lapsed a (applyLog db log) unit →
   reason unit)
  (hnext : ∀ candidates log' clock', Reviewed reason (applyLog db log) (applyLog db log') →
   P (alone (next candidates) db log' clock')) : P (alone (suspendPass a axis next) db log clock) := by
 unfold suspendPass
 split
 · exact hnext [] log clock (Reviewed.refl _ _)
 rw [alone_query]
 dsimp only
 split
 · exact hnext [] log _ (Reviewed.refl _ _)
 rw [alone_query]
 split
 · exact hnext [] log _ (Reviewed.refl _ _)
 rw [alone_execute]
 have hreviewed : Reviewed reason (applyLog db log) (applyLog db (log ++ suspendWrites a.initiatedAt
   (suspensions a axis (applyLog db log)) (applyLog db log))) := by
  rw [applyLog_append, suspendWrites]
  refine reviewed_updateUnits fun unit row hrow hfound _ => .inr (hreason unit ?_)
  obtain ⟨entry, hentry, hsame⟩ := List.any_eq_true.1 (Bool.and_eq_true_iff.1 hfound).1
  obtain ⟨c, hc, rfl⟩ := List.mem_map.1 hentry
  simp only [Bool.and_eq_true, beq_iff_eq] at hsame
  rw [← hsame.1]
  exact lapsed_of_candidate hc
 split
 · exact hnext _ _ _ hreviewed
 · rw [alone_query]
   exact hnext _ _ _ hreviewed

theorem updateFound_rule (reason : UnitRef → Prop) {found : List (UnitRef × UnitRow)}
  {f : UnitRow → UnitRow} {next : Program}
  (hf : ∀ row, (f row).suspendedForConsent = row.suspendedForConsent)
  (hnext : ∀ log' clock', Reviewed reason (applyLog db log) (applyLog db log') →
   P (alone next db log' clock')) :
  P (alone (updateFound found f next) db log clock) := by
 refine HouseholdDormancy.updateFound_rule fun log' clock' heq => hnext log' clock' ?_
 rw [heq]
 exact reviewed_updateUnits fun unit row _ _ hflag => .inl ((hf row).symm.trans hflag)

theorem reconcile_rule (reason : UnitRef → Prop) {m : PluginManifest} {initiatedAt : ℕ}
  {next : Program}
  (hnext : ∀ log' clock', Reviewed reason (applyLog db log) (applyLog db log') →
   P (alone next db log' clock')) :
  P (alone (reconcileHouseholdDormancy host m initiatedAt next) db log clock) := by
 rw [reconcileHouseholdDormancy, alone_query]
 cases m.scope with
 | server => exact updateFound_rule reason (fun _ => rfl) hnext
 | household =>
  refine updateFound_rule reason (fun _ => rfl) fun log' clock' h => ?_
  exact updateFound_rule reason (fun _ => rfl) fun log'' clock'' h' => hnext log'' clock'' (h.trans h')

theorem finishActivation_rule {seeded : List NormalizedPermissionRequest}
  (hnext : ∀ db', Reviewed (Lapsed a (applyLog db log)) (applyLog db log) db' → P db') :
  P (alone (finishActivation host a seeded) db log clock) := by
 unfold finishActivation
 refine suspendPass_rule (Lapsed a (applyLog db log)) (fun _ => id) fun households log₁ clock₁ h₁ => ?_
 refine suspendPass_rule (Lapsed a (applyLog db log)) (fun unit hlapsed => ?_)
  fun users log₂ clock₂ h₂ => ?_
 · exact (lapsed_congr (fun key => h₁.frame (.grant key) fun _ => by simp) unit).1 hlapsed
 refine reconcile_rule (Lapsed a (applyLog db log)) fun log₃ clock₃ h₃ => ?_
 exact hnext _ ((h₁.trans h₂).trans h₃)

end Passes

section Activations

variable {P : Db → Prop} {db : Db} {log : List PluginWrite} {clock : ℕ} {a : Activation} {host : Host}
  {onCollision rest : Program}

/-- An activation that committed: the manifest it put in force, what its steps
    left of the decisions, and whom it suspended. -/
structure Promoted (a : Activation) (db db' : Db) : Prop where
  active : inForce db' = some a.next.manifest
  catalog : ∀ slug, permission? db' slug = permission? db slug
  grants : ∃ seeded done, (∀ check ∈ seeded, check ∈ a.checksToSeed) ∧
    done.map Prod.fst = activationSteps a seeded ∧
    ∀ key, grant? db' key = stepsRow a done (.grant key) (grant? db key)
  units : ∀ unit, Suspended db' unit → Suspended db unit ∨ Lapsed a db' unit

theorem activateClaimed_rule (hdb : P db) (hcollision : ∀ clock', P (alone onCollision db [] clock'))
  (hnext : ∀ seeded done v db', (∀ check ∈ seeded, check ∈ a.checksToSeed) →
   done.map Prod.fst = activationSteps a seeded →
   (∀ k, v.lookup k = stepsRow a done k ((applyLog db log).lookup k)) →
    Reviewed (Lapsed a v) v db' → P db') :
  P (alone (activateClaimed host a onCollision) db log clock) := by
 rw [activateClaimed, alone_lock]
 dsimp only
 split
 · exact hdb
 split
 · refine HouseholdDormancy.steps_rule hdb hcollision _ _ _ fun done log' clock' hdone hrows => ?_
   refine finishActivation_rule fun db' hreviewed => ?_
   exact hnext _ done _ db' (fun check hcheck => (List.mem_filter.1 hcheck).1) hdone hrows hreviewed
 · exact hdb

theorem activateInTransaction_rule (hdb : P db)
  (hcollision : ∀ clock', P (alone onCollision db [] clock'))
  (hnext : ∀ db', Promoted a db db' → P db') :
  P (alone (activateInTransaction host a onCollision) db [] clock) := by
 rw [activateInTransaction, alone_lock, applyLog_nil]
 cases hplugin : plugin? db with
 | none => exact hdb
 | some plugin =>
  dsimp only
  rw [alone_execute, applyLog_nil, hplugin]
  dsimp only
  by_cases hclaim : claimable a plugin = true
  swap
  · rw [if_neg hclaim]
    exact hdb
  rw [if_pos hclaim]
  refine activateClaimed_rule hdb hcollision fun seeded done v db' hseeded hdone hrows hreviewed =>
   hnext db' ?_
  have hclaimed :
   applyLog db ([] ++ claimWrites a (retainedServerConfig host a.next.manifest plugin.config) db) =
    applyWrite db
     ⟨.plugin, some (promoted a (retainedServerConfig host a.next.manifest plugin.config) plugin)⟩ := by
   simp only [claimWrites, hplugin, hclaim, if_true, List.nil_append]
   rfl
  rw [hclaimed] at hrows
  have hbefore : ∀ k, k ≠ .plugin → v.lookup k = stepsRow a done k (db.lookup k) := by
   intro k hk
   rw [hrows k, lookup_applyWrite_ne db hk]
  have hgrants : ∀ key, grant? db' key = grant? v key :=
   fun key => hreviewed.frame (.grant key) fun _ => by simp
  refine ⟨?_, fun slug => ?_, ⟨seeded, done, hseeded, hdone, fun key => ?_⟩, fun unit hsuspended => ?_⟩
  · have hrow : plugin? db' = some
     (promoted a (retainedServerConfig host a.next.manifest plugin.config) plugin) :=
     calc plugin? db' = v.lookup .plugin := hreviewed.frame .plugin fun _ => by simp
      _ = _ := hrows .plugin
      _ = _ := HouseholdDormancy.stepsRow_outside a (by simp [Stepped]) done _
      _ = _ := lookup_applyWrite_self db .plugin _
    simp only [claimable, Bool.and_eq_true, beq_iff_eq] at hclaim
    refine inForce_some.2
     ⟨promoted a (retainedServerConfig host a.next.manifest plugin.config) plugin, ?_, rfl⟩
    rw [livingPlugin, hrow]
    exact Option.filter_eq_some_iff.2 ⟨rfl, by simpa [promoted] using hclaim.1.1⟩
  · refine permission_congr ((hreviewed.frame (.permission slug) fun _ => by simp).trans ?_)
    rw [hbefore (.permission slug) (by simp), HouseholdDormancy.stepsRow_outside a (by simp [Stepped])]
  · exact (hgrants key).trans (hbefore (.grant key) (by simp))
  · refine (hreviewed.units unit hsuspended).imp (fun h => (suspended_congr ?_).1 h)
     (lapsed_congr hgrants unit).2
    rw [unit?, hbefore (.unit unit) (by simp), HouseholdDormancy.stepsRow_outside a (by simp [Stepped])]
    rfl

theorem activate_rule (hdb : P db) (hnext : ∀ db', Promoted a db db' → P db') :
  P (alone (activate host a) db [] clock) := by
 have hagain : ∀ clock, P (alone (.start .halt (activateInTransaction host a .halt)) db [] clock) := by
  intro clock
  rw [alone_start]
  exact activateInTransaction_rule hdb (fun _ => hdb) hnext
 rw [activate, alone_start]
 exact activateInTransaction_rule hdb hagain hnext

structure Compared (a : Activation) (db : Db) : Prop where
  active : Validated a.active
  next : Validated a.next
  baseline : inForce db = some a.active.manifest
  comparison : a = compared a db
  seeds : ∀ check ∈ a.checksToSeed, check ∈ a.next.permissionChecks ∧ check.consentScope = .server

structure Unmoved (db db' : Db) : Prop where
  living : (livingPlugin db').isSome = true → (livingPlugin db).isSome = true
  active : inForce db' = inForce db
  frame : ∀ k, k ≠ .plugin → db'.lookup k = db.lookup k

theorem Unmoved.refl (db : Db) : Unmoved db db := ⟨id, rfl, fun _ _ => rfl⟩

theorem inForce_of_active {plugin : Plugin} {active : PluginManifestValidationResult}
  (hliving : livingPlugin db = some plugin) (h : validateActiveManifest host plugin = some active) :
  Validated active ∧ inForce db = some active.manifest := by
 obtain ⟨hvalid, hjson, -⟩ := PluginUpdateSafe.validateStoredManifest_some h
 exact ⟨hvalid, inForce_some.2 ⟨plugin, hliving, hjson⟩⟩

theorem unmoved_of_pending {plugin : Plugin} (hliving : livingPlugin db = some plugin)
  (slot : StagedUpdate) :
  Unmoved db (applyLog db [⟨.plugin, some { plugin with pending := some slot }⟩]) := by
 have hrow := HouseholdDormancy.plugin_written db { plugin with pending := some slot }
 have hafter : livingPlugin (applyLog db [⟨.plugin, some { plugin with pending := some slot }⟩]) =
   some { plugin with pending := some slot } := by
  rw [livingPlugin, hrow]
  exact Option.filter_eq_some_iff.2 ⟨rfl, by simpa using (PluginUpdateSafe.livingPlugin_some hliving).2⟩
 refine ⟨fun _ => by rw [hliving]; rfl, ?_, fun k hk => lookup_applyLog_of_notMem db (by simpa using Ne.symm hk)⟩
 rw [inForce, inForce, hafter, hliving]

theorem stage_rule {input : StageInput} (hdb : ∀ db', Unmoved db db' → P db')
  (hnext : ∀ a db', Compared a db → Promoted a db db' → P db') :
  P (alone (stage host input) db [] clock) := by
 have hsame : P db := hdb db (Unmoved.refl db)
 unfold stage
 split
 · exact hsame
 rw [alone_query, applyLog_nil]
 cases hliving : livingPlugin db with
 | none => exact hsame
 | some plugin =>
  dsimp only
  split
  · exact hsame
  next next hnextValid =>
  split
  · exact hsame
  rw [loadCorePermissions, alone_query]
  dsimp only
  split
  swap
  · exact hsame
  split
  · exact hsame
  split
  · exact hsame
  next active hactive =>
  obtain ⟨hvalid, hforce⟩ := inForce_of_active hliving hactive
  rw [alone_query]
  split
  · refine activate_rule hsame fun db' => hnext _ db' ⟨hvalid, ?_, hforce, rfl, by simp⟩
    exact PluginUpdateSafe.validateNextManifest_some hnextValid
  · rw [stagePending, alone_execute, applyLog_nil, (PluginUpdateSafe.livingPlugin_some hliving).1]
    by_cases hstageable : stageable plugin = true
    · simp only [hstageable, if_true, List.nil_append, alone_commit, alone_halt]
      exact hdb _ (unmoved_of_pending hliving _)
    · simp only [hstageable, Bool.false_eq_true, if_false, alone_rollback, alone_halt]
      exact hsame

theorem approve_rule {input : ApproveInput} (hdb : P db)
  (hnext : ∀ a db', Compared a db → Promoted a db db' → P db') :
  P (alone (approve host input) db [] clock) := by
 unfold approve
 split
 · exact hdb
 rw [alone_query, applyLog_nil]
 cases hliving : livingPlugin db with
 | none => exact hdb
 | some plugin =>
  dsimp only
  split
  · exact hdb
  split
  · exact hdb
  split
  swap
  · exact hdb
  next slot _ _ _ _ next active hnextValid hactive =>
  obtain ⟨hvalid, hforce⟩ := inForce_of_active hliving hactive
  rw [loadCorePermissions, alone_query]
  dsimp only
  split
  swap
  · exact hdb
  rw [approveResolved, alone_query]
  dsimp only
  split
  · exact hdb
  rw [alone_query]
  split
  · refine activate_rule hdb fun db' => hnext _ db' ⟨hvalid, ?_, hforce, rfl, fun check hcheck => ?_⟩
    · exact (PluginUpdateSafe.validateStoredManifest_some hnextValid).1
    · obtain ⟨hmem, hscope⟩ := List.mem_filter.1 (List.mem_filter.1 hcheck).1
      exact ⟨hmem, by simpa using hscope⟩
  · exact hdb

end Activations

section Lifecycle

variable {P : Db → Prop} {db : Db} {log : List PluginWrite} {clock : ℕ} {host : Host}

theorem uninstall_rule {authorized : Bool} (hdb : P db)
  (hgone : ∀ db', livingPlugin db' = none → (∀ key, grant? db' key = none) → P db') :
  P (alone (uninstall authorized false) db [] clock) := by
 unfold uninstall
 split
 · exact hdb
 rw [alone_query, applyLog_nil]
 cases hliving : livingPlugin db with
 | none => exact hdb
 | some plugin =>
  obtain ⟨hplugin, halive⟩ := PluginUpdateSafe.livingPlugin_some hliving
  simp only [updatePlugin, alone_execute, applyLog_nil, hplugin, halive, beq_self_eq_true, if_true,
   List.nil_append, Bool.false_eq_true, if_false, alone_commit, alone_halt]
  rw [applyLog_append, applyLog_append]
  have hframe : ∀ v : Db, plugin? (applyLog v (deletePermissions (fun _ => true) v)) = plugin? v := by
   intro v
   refine lookup_applyLog_of_notMem v fun w hw heq => ?_
   obtain ⟨entry, -, rfl⟩ := List.mem_map.1 hw
   cases heq
  have hgrants :
   ∀ (v : Db) key, grant? (applyLog v (deletePermissions (fun _ => true) v)) key = grant? v key := by
   intro v key
   refine lookup_applyLog_of_notMem v fun w hw heq => ?_
   obtain ⟨entry, -, rfl⟩ := List.mem_map.1 hw
   cases heq
  refine hgone _ ?_ fun key => ?_
  · have hrow : plugin? (applyLog db [⟨.plugin, some (tombstoned clock plugin)⟩]) =
      some (tombstoned clock plugin) := lookup_applyWrite_self db .plugin (some (tombstoned clock plugin))
    rw [livingPlugin, hframe, plugin?,
     lookup_applyLog_of_notMem _ (deleteGrants_key (k := Key.plugin) (by simp)),
     ← plugin?, hrow]
    rfl
  · rw [hgrants, lookup_deleteGrants]
    simp

structure Installing (m : PluginManifest) (db v : Db) : Prop where
  active : inForce v = some m
  units : ∀ unit, Suspended v unit → Suspended db unit
  grants : ∀ key g, grant? v key = some g → grant? db key = some g ∨ Requests m key

theorem createRow_rule {R : Db → Prop} {k : Key} {row : ℕ → Row k} {rest : Program} (hdb : P db)
  (hwrite : ∀ v r, R v → R (applyWrite v ⟨k, some r⟩))
  (hrest : ∀ log clock, R (applyLog db log) → P (alone rest db log clock)) :
  ∀ log clock, R (applyLog db log) → P (alone (createRow k row rest) db log clock) := by
 intro log clock h
 rw [createRow, alone_execute]
 split
 · exact hdb
 · refine hrest _ _ ?_
   rw [applyLog_append]
   exact hwrite _ _ h

theorem createAll_rule {α : Type} {R : Db → Prop} {create : α → Program → Program} {rest : Program}
  (hrest : ∀ log clock, R (applyLog db log) → P (alone rest db log clock)) :
  ∀ items : List α,
   (∀ item ∈ items, ∀ rest, (∀ log clock, R (applyLog db log) → P (alone rest db log clock)) →
    ∀ log clock, R (applyLog db log) → P (alone (create item rest) db log clock)) →
   ∀ log clock, R (applyLog db log) → P (alone (items.foldr create rest) db log clock)
 | [], _ => hrest
 | item :: items, hcreate => hcreate item List.mem_cons_self _ <| createAll_rule hrest items
  fun other hother =>
   hcreate other (List.mem_cons_of_mem _ hother)

theorem Installing.write {m : PluginManifest} {v : Db} (h : Installing m db v) {k : Key} (r : Row k)
  (hplugin : k ≠ .plugin) (hunit : ∀ unit, k ≠ .unit unit)
  (hgrant : ∀ key, k = .grant key → Requests m key) :
  Installing m db (applyWrite v ⟨k, some r⟩) := by
 refine ⟨?_, fun unit hsuspended => h.units unit ?_, fun key g hg => ?_⟩
 · rw [inForce_congr (lookup_applyWrite_ne v (Ne.symm hplugin))]
   exact h.active
 · exact (suspended_congr (lookup_applyWrite_ne v (Ne.symm (hunit unit)))).1 hsuspended
 · by_cases hkey : k = .grant key
   · exact .inr (hgrant key hkey)
   · rw [grant?, lookup_applyWrite_ne v (Ne.symm hkey)] at hg
     exact h.grants key g hg

theorem persistRows_rule {input : InstallInput} {validated : PluginManifestValidationResult}
  {corePermissions : List (Text × Permission)} {initiatedAt : ℕ} (hvalid : Validated validated)
  (hdb : P db) (hnext : ∀ db', Installing validated.manifest db db' → P db')
  (h : Installing validated.manifest db (applyLog db log)) :
  P (alone (persistRows input validated corePermissions initiatedAt) db log clock) := by
 unfold persistRows
 refine createAll_rule (R := Installing validated.manifest db) ?_ _ (fun slug _ rest hrest => ?_) _ _ h
 · refine createAll_rule (fun log clock h => hnext _ h) _ fun check hcheck rest hrest => ?_
   obtain ⟨hmem, hscope⟩ := List.mem_filter.1 hcheck
   refine createRow_rule hdb (fun v r h => h.write r (by simp) (by simp) fun key hkey => ?_) hrest
   cases hkey
   exact ⟨check, hvalid.checks ▸ hmem, rfl, by rw [beq_iff_eq.1 hscope]; rfl⟩
 · exact createRow_rule hdb (fun v r h => h.write r (by simp) (by simp) (by simp)) hrest

theorem installing_of_write {m : PluginManifest} {row : Plugin} (halive : row.uninstalledAt = none)
  (hjson : row.manifestJson = .manifest m) :
  Installing m db (applyWrite db ⟨.plugin, some row⟩) := by
 refine ⟨inForce_some.2 ⟨row, ?_, hjson⟩, fun unit hsuspended => ?_, fun key g hg => .inl ?_⟩
 · rw [livingPlugin, plugin?, lookup_applyWrite_self]
   exact Option.filter_eq_some_iff.2 ⟨rfl, by simpa using halive⟩
 · exact (suspended_congr (lookup_applyWrite_ne db (k := Key.unit unit) (by simp))).1 hsuspended
 · rw [← hg]
   exact (lookup_applyWrite_ne db (k := Key.grant key) (by simp)).symm

theorem Installing.reviewed {m : PluginManifest} {v v' : Db} (h : Installing m db v)
  (hreviewed : Reviewed (fun _ => False) v v') : Installing m db v' := by
 refine ⟨?_, fun unit hsuspended => h.units unit ((hreviewed.units unit hsuspended).resolve_right id),
  fun key g hg => h.grants key g ?_⟩
 · rw [inForce_congr (hreviewed.frame .plugin fun _ => by simp)]
   exact h.active
 · exact (hreviewed.frame (.grant key) fun _ => by simp).symm.trans hg

theorem install_rule {input : InstallInput} (hdb : P db)
  (hnext : ∀ m db', livingPlugin db = none → Installing m db db' → P db') :
  P (alone (install host input) db [] clock) := by
 unfold install
 split
 · exact hdb
 next validated hvalidated =>
 have hvalid := validated_of_ok hvalidated
 split
 · exact hdb
 rw [alone_query, loadCorePermissions, alone_query]
 dsimp only
 split
 swap
 · exact hdb
 split
 swap
 · exact hdb
 rw [persist, alone_query, alone_query, applyLog_nil]
 split
 · exact hdb
 cases hplugin : plugin? db with
 | none =>
  have hdead : livingPlugin db = none := by
   rw [livingPlugin, hplugin]
   rfl
  dsimp only
  rw [createRow, alone_execute, applyLog_nil, show AList.lookup Key.plugin db = none from hplugin]
  refine persistRows_rule hvalid hdb (fun db' => hnext _ db' hdead) ?_
  exact installing_of_write rfl rfl
 | some row =>
  dsimp only
  split
  · exact hdb
  next hfree =>
  have hgone : row.uninstalledAt ≠ none := fun h => hfree (.inr h)
  have hdead : livingPlugin db = none := by
   rw [livingPlugin, hplugin]
   exact Option.filter_eq_none_iff.2 fun x hx => by
    cases hx
    simpa using hgone
  rw [alone_execute, applyLog_nil, hplugin]
  dsimp only
  rw [if_neg hgone, if_neg hgone]
  refine reconcile_rule (fun _ => False) fun log' clock' hreviewed => ?_
  refine persistRows_rule hvalid hdb (fun db' => hnext _ db' hdead) ?_
  exact (installing_of_write rfl rfl).reviewed hreviewed

end Lifecycle

end BoardGamesEmpire.ConsentSuspension
