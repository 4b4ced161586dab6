import BoardGamesEmpire.HouseholdDormancy
import BoardGamesEmpire.PluginInvariants

set_option autoImplicit false

/-!
# What a suspended unit owes

Requests served one after another. A refusal, an enrolment or an activation
suspends a unit, and only the unit's next consent lifts the suspension, so a row
can stay suspended under a manifest that no longer asks for what it refused.
-/
namespace BoardGamesEmpire.ConsentSuspension
open JsText Manifest ReadCommitted PluginStore PluginEscalation PluginActivation PluginUpdateProgram
  PluginGrantProgram PluginSystem PluginProtocol PluginSuspension PluginInvariants

/-- The requests that write unit rows or decisions, or replace the manifest. An
    uninstall keeps the unit rows. -/
inductive Operation where
  | decide (input : DecisionInput)
  | enableHousehold (input : EnableInput)
  | disableHousehold (householdId : Text) (authorized : Bool)
  | stage (input : StageInput)
  | approve (input : ApproveInput)
  | uninstall (authorized : Bool)
  | install (input : InstallInput)

def Operation.request : Operation → Request
  | .decide input => .decide input
  | .enableHousehold input => .enableHousehold input
  | .disableHousehold householdId authorized => .setUnitEnabled (.household householdId) false authorized
  | .stage input => .stage input
  | .approve input => .approve input
  | .uninstall authorized => .uninstall authorized false
  | .install input => .install input

def Operation.replaces : Operation → Bool
  | .stage _ | .approve _ | .install _ => true
  | .decide _ | .enableHousehold _ | .disableHousehold _ _ | .uninstall _ => false

section Vocabulary

variable (host : Host)

/-- The store after a request is served by itself, from its first statement to
    its last transaction. -/
def served (op : Operation) (clock : ℕ) (db : Db) : Db := alone (program host op.request) db [] clock

def after (db : Db) (ops : List (Operation × ℕ)) : Db :=
  ops.foldl (fun db op => served host op.1 op.2 db) db

/-- The risk of a check today: the plugin's own permissions are low, a core one
    is what its row says. -/
def currentRiskOf (db : Db) (check : NormalizedPermissionRequest) : Option RiskLevel :=
  match check.origin with
  | .plugin => some .low
  | .core => (permission? db check.canonicalSlug).map (·.riskLevel)

def Covered (db : Db) (unit : UnitRef) (check : NormalizedPermissionRequest) : Prop :=
  ∃ row risk, grant? db (unitGrant unit check.canonicalSlug) = some row ∧ row.status = .granted ∧
    currentRiskOf db check = some risk ∧ riskCovers row.decidedRiskLevel risk = true

def inForce (db : Db) : Option PluginManifest :=
  match livingPlugin db with
  | none => none
  | some plugin =>
    match plugin.manifestJson with
    | .manifest m => some m
    | .malformed _ => none

def requested (db : Db) (unit : UnitRef) : List NormalizedPermissionRequest :=
  match inForce db with
  | none => []
  | some m => (permissionChecksOf m).filter (·.consentScope == unit.consentScope)

def Owes (db : Db) (unit : UnitRef) : Prop := ∃ check ∈ requested db unit, ¬ Covered db unit check

def Suspended (db : Db) (unit : UnitRef) : Prop :=
  ∃ row, unit? db unit = some row ∧ row.suspendedForConsent = true

/-- The unit's authority grants a check the active manifest requests of it, and
    nothing stands in the way of the grant. -/
structure Consents (db : Db) (unit : UnitRef) (input : DecisionInput) : Prop where
  scopeType : input.scopeType = unit.scope
  scopeId : input.scopeId = some unit.scopeId
  addressed : unit.scopeId ≠ serverScopeSentinel
  status : input.status = .granted
  authorized : input.authorized = true
  live : ∀ householdId, unit = .household householdId → isLiveHousehold db householdId = true
  accepted : ∃ plugin validated check, livingPlugin db = some plugin ∧
    revalidateStoredManifest host plugin = .ok validated ∧ check ∈ validated.permissionChecks ∧
    check.canonicalSlug = input.permissionSlug ∧ check.consentScope = unit.consentScope ∧
    resolveRiskLevel host db check ≠ none

/-- The histories in which a stage, an approval or a reinstall left the unit
    suspended and took away the last check it owed, with no consent of the unit
    since. -/
inductive Released (db : Db) (unit : UnitRef) : List (Operation × ℕ) → Prop where
  | replaced (ops : List (Operation × ℕ)) (op : Operation × ℕ) (hop : op.1.replaces = true)
      (hbefore : Suspended (after host db ops) unit)
      (howed : Owes (after host db ops) unit ∨ livingPlugin (after host db ops) = none)
      (hafter : Suspended (after host db (ops ++ [op])) unit)
      (hfree : ¬ Owes (after host db (ops ++ [op])) unit) : Released db unit (ops ++ [op])
  | since (ops : List (Operation × ℕ)) (op : Operation × ℕ) (h : Released db unit ops)
      (hop : ∀ input, op.1 = .decide input → ¬ Consents host (after host db ops) unit input) :
      Released db unit (ops ++ [op])

end Vocabulary

section Rows

variable {v v' : Db} {unit : UnitRef}

theorem permission_congr {slug : Text}
  (h : v'.lookup (.permission slug) = v.lookup (.permission slug)) :
  permission? v' slug = permission? v slug := by
 rw [permission?, permission?, h]

theorem covered_congr
  (hgrants : ∀ slug, grant? v' (unitGrant unit slug) = grant? v (unitGrant unit slug))
  (hcatalog : ∀ slug, permission? v' slug = permission? v slug)
  (check : NormalizedPermissionRequest) :
  Covered v' unit check ↔ Covered v unit check := by
 rw [Covered, Covered, hgrants, currentRiskOf, currentRiskOf, hcatalog]

theorem inForce_some {m : PluginManifest} : inForce v = some m ↔
  ∃ plugin, livingPlugin v = some plugin ∧ plugin.manifestJson = .manifest m := by
 unfold inForce
 cases hliving : livingPlugin v with
 | none => simp
 | some plugin => cases hjson : plugin.manifestJson <;> simp [hjson]

theorem mem_requested {check : NormalizedPermissionRequest} : check ∈ requested v unit ↔
  ∃ m, inForce v = some m ∧ check ∈ permissionChecksOf m ∧ check.consentScope = unit.consentScope := by
 unfold requested
 cases inForce v <;> simp

theorem inForce_congr (h : plugin? v' = plugin? v) : inForce v' = inForce v := by
 rw [inForce, inForce, livingPlugin, livingPlugin, h]

theorem owes_congr (hactive : inForce v' = inForce v)
  (hgrants : ∀ slug, grant? v' (unitGrant unit slug) = grant? v (unitGrant unit slug))
  (hcatalog : ∀ slug, permission? v' slug = permission? v slug) : Owes v' unit ↔ Owes v unit := by
 simp only [Owes, mem_requested, hactive, covered_congr hgrants hcatalog]

theorem suspended_congr (h : unit? v' unit = unit? v unit) :
  Suspended v' unit ↔ Suspended v unit := by
 rw [Suspended, Suspended, h]

/-- No row differs but the one of `changed`, and no unit loses its row. -/
structure Beside (changed : Option UnitRef) (v v' : Db) : Prop where
  frame : ∀ k, (∀ w, changed = some w → k ≠ .unit w) → v'.lookup k = v.lookup k
  kept : ∀ w, (unit? v w).isSome = true → (unit? v' w).isSome = true

theorem Beside.refl (changed : Option UnitRef) (v : Db) :
  Beside changed v v := ⟨fun _ _ => rfl, fun _ => id⟩

theorem Beside.trans {changed : Option UnitRef} {v'' : Db} (h : Beside changed v v')
  (h' : Beside changed v' v'') :
  Beside changed v v'' :=
 ⟨fun k hk => (h'.frame k hk).trans (h.frame k hk), fun w hw => h'.kept w (h.kept w hw)⟩

theorem Beside.plugin {changed : Option UnitRef} (h : Beside changed v v') :
  plugin? v' = plugin? v :=
 h.frame .plugin fun _ _ => by simp

theorem Beside.owes {changed : Option UnitRef} (h : Beside changed v v') :
  Owes v' unit ↔ Owes v unit :=
 owes_congr (inForce_congr h.plugin)
  (fun slug => h.frame (.grant (unitGrant unit slug)) fun _ _ => by simp)
  fun slug => permission_congr (h.frame (.permission slug) fun _ _ => by simp)

theorem beside_writes {ws : List PluginWrite} (h : ∀ w ∈ ws, ∃ row, w = ⟨.unit unit, some row⟩)
  (v : Db) :
  Beside (some unit) v (applyLog v ws) := by
 induction ws generalizing v with
 | nil => exact Beside.refl _ v
 | cons w ws ih =>
  obtain ⟨row, rfl⟩ := h w List.mem_cons_self
  refine Beside.trans ⟨fun k hk => ?_, fun other hother => ?_⟩
   (ih (fun w hw => h w (List.mem_cons_of_mem _ hw)) _)
  · exact lookup_applyWrite_ne v (hk unit rfl)
  · by_cases hsame : other = unit
    · rw [hsame, unit?, lookup_applyWrite_self]
      rfl
    · rw [unit?, lookup_applyWrite_ne v (by simpa using hsame)]
      exact hother

end Rows

section Passes

variable {host : Host} {P : Db → Prop} {db : Db} {log : List PluginWrite} {clock : ℕ} {unit : UnitRef}
  {validated : PluginManifestValidationResult}

variable {next : Program}

theorem updateUnit_rule {found : UnitRow} {guard : UnitRow → Bool} {f : UnitRow → UnitRow}
  (hnext : ∀ log' clock', Beside (some unit) (applyLog db log) (applyLog db log') →
   P (alone next db log' clock')) : P (alone (updateUnit unit found guard f next) db log clock) := by
 rw [updateUnit, alone_execute]
 refine hnext _ _ ?_
 rw [applyLog_append]
 refine beside_writes (fun w hw => ?_) _
 cases hrow : unit? (applyLog db log) unit with
 | none => simp [hrow] at hw
 | some row =>
  simp only [hrow] at hw
  split at hw
  · exact ⟨_, List.mem_singleton.1 hw⟩
  · simp at hw

variable {initiatedAt : ℕ}

theorem suspendUnit_rule {deniedSlug : Text}
  (hnext : ∀ log' clock', Beside (some unit) (applyLog db log) (applyLog db log') →
   P (alone next db log' clock')) :
  P (alone (suspendUnit validated unit deniedSlug initiatedAt next) db log clock) := by
 have hsame : ∀ clock', P (alone next db log clock') := fun clock' => hnext log clock' (Beside.refl _ _)
 rw [suspendUnit, lockUnitScope, alone_lock, lockUnit, alone_lock]
 cases unit? (applyLog db log) unit with
 | none => exact hsame _
 | some row =>
  dsimp only
  split
  · exact hsame _
  rw [readOutstanding, alone_query, alone_query]
  split
  · exact updateUnit_rule hnext
  · exact hsame _

theorem createUserUnit_rule {check : NormalizedPermissionRequest}
  (hnext : ∀ log' clock', Beside (some unit) (applyLog db log) (applyLog db log') →
   P (alone next db log' clock')) :
  P (alone (createUserUnit validated unit check initiatedAt next) db log clock) := by
 rw [createUserUnit, lockUnitScope, alone_lock, alone_query, alone_execute]
 refine hnext _ _ ?_
 rw [applyLog_append]
 refine beside_writes (fun w hw => ?_) _
 split at hw
 · simp at hw
 · exact ⟨_, List.mem_singleton.1 hw⟩

theorem settleUnit_rule {changed : Option UnitRef} {status : PluginGrantStatus}
  {check : NormalizedPermissionRequest}
  (hnext : ∀ log' clock', Beside changed (applyLog db log) (applyLog db log') →
   P (alone next db log' clock')) :
  P (alone (settleUnit validated changed status check initiatedAt next) db log clock) := by
 have hsame : P (alone next db log clock) := hnext log clock (Beside.refl _ _)
 cases changed with
 | none => exact hsame
 | some unit =>
  cases status with
  | denied =>
   rw [settleUnit]
   split
   · exact suspendUnit_rule hnext
   · exact hsame
  | granted =>
   cases unit with
   | household id => exact hsame
   | user id => exact createUserUnit_rule hnext

theorem owes_of_outstanding {plugin : Plugin} (hliving : livingPlugin db = some plugin)
  (hvalid : revalidateStoredManifest host plugin = .ok validated)
  (h : outstandingUnitSlugs db unit (unitChecks validated unit) ≠ []) : Owes db unit := by
 obtain ⟨m, hjson, -, -, -, rfl⟩ := revalidateStoredManifest_ok hvalid
 obtain ⟨slug, hslug⟩ := List.exists_mem_of_ne_nil _ h
 obtain ⟨check, hcheck, -⟩ := List.mem_map.1 hslug
 obtain ⟨hunit, hout⟩ := List.mem_filter.1 hcheck
 obtain ⟨hmem, hscope⟩ := List.mem_filter.1 hunit
 refine ⟨check,
  mem_requested.2 ⟨m, inForce_some.2 ⟨plugin, hliving, hjson⟩, hmem, by simpa using hscope⟩, ?_⟩
 rintro ⟨row, risk, hrow, hgranted, hrisk, hcovers⟩
 have hget := (grantedOn_get ⟨check, hunit, rfl⟩).2 ⟨row, hrow, hgranted, rfl⟩
 rw [hget] at hout
 cases horigin : check.origin with
 | plugin =>
  simp only [currentRiskOf, horigin, Option.some.injEq] at hrisk
  subst hrisk
  simp [horigin, hcovers] at hout
 | core =>
  obtain ⟨permission, hpermission, rfl⟩ :
   ∃ permission, permission? db check.canonicalSlug = some permission ∧
    permission.riskLevel = risk := by
   simpa [currentRiskOf, horigin] using hrisk
  have hcore : check.canonicalSlug ∈ coreSlugs
   (unitChecks ⟨m, permissionChecksOf m, declaredPermissionsOf m,
    externalPermissionChecksOf m⟩ unit) :=
   List.mem_map_of_mem (List.mem_filter.2 ⟨hunit, by simp [horigin]⟩)
  simp [horigin, corePermissionsAt_get hcore, hpermission, hcovers] at hout

theorem maybeReenable_rule {plugin : Plugin} (hliving : livingPlugin db = some plugin)
  (hvalid : revalidateStoredManifest host plugin = .ok validated)
  (hnext : ∀ db', Beside (some unit) db db' → (Suspended db' unit → Owes db' unit) → P db') :
  P (alone (maybeReenable host unit) db [] clock) := by
 have hsame : (Suspended db unit → Owes db unit) → P db := hnext db (Beside.refl _ _)
 rw [maybeReenable, lockLivePlugin, alone_lock, applyLog_nil, hliving]
 dsimp only
 rw [lockUnitScope, alone_lock, lockUnit, alone_lock, applyLog_nil]
 cases hrow : unit? db unit with
 | none =>
  refine hsame fun hsuspended => ?_
  obtain ⟨row, hsome, -⟩ := hsuspended
  rw [hrow] at hsome
  cases hsome
 | some row =>
  dsimp only
  by_cases hopen : row.suspendedForConsent = true
  swap
  · rw [if_pos (by simpa using hopen)]
    refine hsame fun hsuspended => ?_
    obtain ⟨row', hsome, hflag⟩ := hsuspended
    cases hrow.symm.trans hsome
    exact absurd hflag hopen
  rw [if_neg (by simpa using hopen), withCurrentManifest, hvalid]
  dsimp only
  have hlifted : ∀ clock, P (alone (updateUnit unit row (·.suspendedForConsent) reenabled
    (.commit (.unitUpdated unit) .halt)) db [] clock) := by
   intro clock
   simp only [updateUnit, alone_execute, applyLog_nil, hrow, List.nil_append, beq_self_eq_true, hopen,
    Bool.and_self, if_true, alone_commit, alone_halt]
   refine hnext _ (beside_writes (by simp) db) fun hsuspended => ?_
   obtain ⟨row', hsome, hflag⟩ := hsuspended
   rw [unit?, applyLog, List.foldl_cons, List.foldl_nil, lookup_applyWrite_self] at hsome
   cases hsome
   cases hflag
  split
  · exact hlifted _
  · rw [readOutstanding, alone_query, alone_query, applyLog_nil]
    split
    · exact hlifted _
    · next howed => exact hsame fun _ => owes_of_outstanding hliving hvalid howed

theorem maybeSuspend_rule {deniedSlug : Text} (hnext : ∀ db', Beside (some unit) db db' → P db') :
  P (alone (maybeSuspend host unit deniedSlug initiatedAt) db [] clock) := by
 have hsame : P db := hnext db (Beside.refl _ _)
 rw [maybeSuspend, lockLivePlugin, alone_lock, applyLog_nil]
 cases livingPlugin db with
 | none => exact hsame
 | some live =>
  dsimp only
  rw [withCurrentManifest]
  cases revalidateStoredManifest host live with
  | error => exact hsame
  | ok validated =>
   refine suspendUnit_rule fun log' clock' h => ?_
   exact hnext _ h

theorem afterDecision_rule {plugin : Plugin} (hliving : livingPlugin db = some plugin)
  (hvalid : revalidateStoredManifest host plugin = .ok validated) {changed : Option UnitRef}
  {status : PluginGrantStatus} {required unseen : Bool} {deniedSlug : Text}
  (hnext : ∀ db', Beside changed db db' →
   (status = .granted → ∀ w, changed = some w → Suspended db' w → Owes db' w) → P db') :
  P (alone (afterDecision host changed status required deniedSlug unseen initiatedAt) db [] clock) := by
 cases changed with
 | none => exact hnext db (Beside.refl _ _) fun _ _ => by simp
 | some unit =>
  cases status with
  | granted =>
   refine maybeReenable_rule hliving hvalid fun db' hbeside hlifted => hnext db' hbeside fun _ w hw => ?_
   cases hw
   exact hlifted
  | denied =>
   rw [afterDecision]
   split
   · exact maybeSuspend_rule fun db' hbeside => hnext db' hbeside (by simp)
   · exact hnext db (Beside.refl _ _) (by simp)

end Passes

section Decisions

variable {host : Host} {P : Db → Prop} {db : Db} {clock : ℕ} {input : DecisionInput} {unit : UnitRef}

structure Decided (host : Host) (input : DecisionInput) (m : PluginManifest)
    (check : NormalizedPermissionRequest)
    (scopeId : Text) (db db' : Db) : Prop where
  active : inForce db = some m
  valid : Valid m
  asked : check ∈ permissionChecksOf m
  slug : check.canonicalSlug = input.permissionSlug
  scope : grantScopeOf check.consentScope = input.scopeType
  address : normalizeScopeId input = some scopeId
  frame : ∀ k, k ≠ .grant ⟨input.scopeType, scopeId, check.canonicalSlug⟩ →
    (∀ w, unitAt input.scopeType scopeId = some w → k ≠ .unit w) → db'.lookup k = db.lookup k
  kept : ∀ w, (unit? db w).isSome = true → (unit? db' w).isSome = true
  decision : ∃ g, grant? db' ⟨input.scopeType, scopeId, check.canonicalSlug⟩ = some g ∧
    g.status = input.status ∧ resolveRiskLevel host db check = some g.decidedRiskLevel
  lifted : input.status = .granted → ∀ w, unitAt input.scopeType scopeId = some w →
    Suspended db' w → Owes db' w

theorem Consents.address (h : Consents host db unit input) :
  normalizeScopeId input = some unit.scopeId := by
 unfold normalizeScopeId
 rw [h.scopeType, h.scopeId]
 cases unit <;> exact if_neg h.addressed

theorem Consents.found (h : Consents host db unit input) {plugin : Plugin}
  {validated : PluginManifestValidationResult} (hliving : livingPlugin db = some plugin)
  (hvalid : revalidateStoredManifest host plugin = .ok validated) :
  ∃ check, validated.permissionChecks.find? (fun check => check.canonicalSlug == input.permissionSlug) =
   some check ∧ check.consentScope = unit.consentScope ∧ resolveRiskLevel host db check ≠ none := by
 obtain ⟨plugin', validated', check, hliving', hvalid', hmem, hslug, hscope, hrisk⟩ := h.accepted
 cases hliving.symm.trans hliving'
 cases hvalid.symm.trans hvalid'
 refine ⟨check, ?_, hscope, hrisk⟩
 cases hfind : validated.permissionChecks.find? fun check => check.canonicalSlug == input.permissionSlug with
 | none => exact absurd hslug (by simpa using List.find?_eq_none.1 hfind check hmem)
 | some found =>
  obtain ⟨m, -, hm, -, -, rfl⟩ := revalidateStoredManifest_ok hvalid
  have hfound := List.find?_some hfind
  rw [check_eq_of_slug hm (List.mem_of_find?_eq_some hfind) hmem
   ((by simpa using hfound : found.canonicalSlug = input.permissionSlug).trans hslug.symm)]

theorem decideClaimed_rule {plugin : Plugin} {validated : PluginManifestValidationResult}
  {m : PluginManifest} {check : NormalizedPermissionRequest} {scopeId : Text} {initiatedAt : ℕ}
  (hliving : livingPlugin db = some plugin)
  (hvalid : revalidateStoredManifest host plugin = .ok validated)
  (hjson : plugin.manifestJson = .manifest m) (hcheck : check ∈ permissionChecksOf m)
  (hslug : check.canonicalSlug = input.permissionSlug)
  (hscope : grantScopeOf check.consentScope = input.scopeType)
  (haddress : normalizeScopeId input = some scopeId)
  (hrefused : resolveRiskLevel host db check = none → P db)
  (hnext : ∀ db', Decided host input m check scopeId db db' → P db') :
  P (alone (decideClaimed host input plugin validated check scopeId initiatedAt) db [] clock) := by
 obtain ⟨hplugin, halive⟩ := PluginUpdateSafe.livingPlugin_some hliving
 rw [decideClaimed, alone_lock, applyLog_nil, hplugin]
 dsimp only
 rw [if_neg (by simp [halive, classifyManifestMove]), alone_query, applyLog_nil]
 cases hrisk : resolveRiskLevel host db check with
 | none => exact hrefused hrisk
 | some risk =>
  dsimp only
  rw [alone_query, applyLog_nil]
  -- Either way the row stands in `v`, and only the unit's row may change after that.
  have hdone : ∀ v db', (∀ k, k ≠ .grant ⟨input.scopeType, scopeId, check.canonicalSlug⟩ →
     v.lookup k = db.lookup k) →
    (∃ g, grant? v ⟨input.scopeType, scopeId, check.canonicalSlug⟩ = some g ∧ g.status = input.status ∧
     g.decidedRiskLevel = risk) → Beside (unitAt input.scopeType scopeId) v db' →
    (input.status = .granted → ∀ w, unitAt input.scopeType scopeId = some w → Suspended db' w →
     Owes db' w) →
    P db' := by
   intro v db' hframe hrow hbeside hlifted
   obtain ⟨g, hg, hstatus, rfl⟩ := hrow
   obtain ⟨m', hjson', hm, -⟩ := revalidateStoredManifest_ok hvalid
   cases hjson.symm.trans hjson'
   refine hnext db' ⟨inForce_some.2 ⟨plugin, hliving, hjson⟩, hm, hcheck, hslug, hscope, haddress,
    ?_, ?_, ?_,
    hlifted⟩
   · exact fun k hk hunit => (hbeside.frame k hunit).trans (hframe k hk)
   · intro w hw
     exact hbeside.kept w (by rw [unit?, hframe (.unit w) (by simp)]; exact hw)
   · exact ⟨g, (hbeside.frame (.grant _) fun _ _ => by simp).trans hg, hstatus, hrisk⟩
  have hupsert : ∀ clock, P (alone (decideClaimed.upsert host input plugin validated check initiatedAt
    ⟨input.scopeType, scopeId, check.canonicalSlug⟩ (unitAt input.scopeType scopeId) risk) db
     [] clock) := by
   intro clock
   rw [decideClaimed.upsert, alone_execute, applyLog_nil, List.nil_append]
   refine settleUnit_rule fun log' clock' hsettled => ?_
   rw [alone_commit]
   have hframe : ∀ (row : PluginGrant) k, k ≠ .grant ⟨input.scopeType, scopeId, check.canonicalSlug⟩ →
     (applyLog db [⟨.grant ⟨input.scopeType, scopeId, check.canonicalSlug⟩, some row⟩]).lookup k =
      db.lookup k := fun row k hk => lookup_applyLog_of_notMem db (by simpa using Ne.symm hk)
   have hself : ∀ row : PluginGrant, grant? (applyLog db
     [⟨.grant ⟨input.scopeType, scopeId, check.canonicalSlug⟩, some row⟩])
      ⟨input.scopeType, scopeId, check.canonicalSlug⟩ = some row :=
    fun row => lookup_applyWrite_self db (.grant _) (some row)
   have hliving' : livingPlugin (applyLog db log') = some plugin := by
    rw [livingPlugin, hsettled.plugin, plugin?, hframe _ .plugin (by simp)]
    exact hliving
   refine afterDecision_rule hliving' hvalid fun db' hbeside hlifted => ?_
   exact hdone _ db' (hframe _) ⟨_, hself _, rfl, rfl⟩ (hsettled.trans hbeside) hlifted
  cases hgrant : grant? db ⟨input.scopeType, scopeId, check.canonicalSlug⟩ with
  | none => exact hupsert _
  | some existing =>
   dsimp only
   split
   · next hsame =>
     rw [alone_commit, applyLog_nil]
     refine afterDecision_rule hliving hvalid fun db' hbeside hlifted => ?_
     exact hdone db db' (fun _ _ => rfl) ⟨existing, hgrant, hsame.1, hsame.2.2⟩ hbeside hlifted
   · exact hupsert _

theorem decide_rule (hrefused : (∀ unit, ¬ Consents host db unit input) → P db)
  (hnext : ∀ m check scopeId db', Decided host input m check scopeId db db' → P db') :
  P (alone (PluginGrantProgram.decide host input) db [] clock) := by
 rw [PluginGrantProgram.decide, alone_query, applyLog_nil]
 cases hliving : livingPlugin db with
 | none =>
  refine hrefused fun unit h => ?_
  obtain ⟨plugin, -, -, hsome, -⟩ := h.accepted
  rw [hliving] at hsome
  cases hsome
 | some plugin =>
  dsimp only
  cases hvalid : revalidateStoredManifest host plugin with
  | error failure =>
   refine hrefused fun unit h => ?_
   obtain ⟨plugin', validated, -, hliving', hvalid', -⟩ := h.accepted
   cases hliving.symm.trans hliving'
   rw [hvalid] at hvalid'
   cases hvalid'
  | ok validated =>
   dsimp only
   cases hfind : validated.permissionChecks.find? fun check => check.canonicalSlug == input.permissionSlug with
   | none =>
    refine hrefused fun unit h => ?_
    obtain ⟨check, hfound, -⟩ := h.found hliving hvalid
    rw [hfind] at hfound
    cases hfound
   | some check =>
    dsimp only
    have hfound : ∀ {unit}, Consents host db unit input → check.consentScope = unit.consentScope ∧
      resolveRiskLevel host db check ≠ none := by
     intro unit h
     obtain ⟨check', hfind', hfacts⟩ := h.found hliving hvalid
     rw [hfind] at hfind'
     cases hfind'
     exact hfacts
    by_cases hscope : grantScopeOf check.consentScope = input.scopeType
    swap
    · rw [if_pos hscope]
      refine hrefused fun unit h => hscope ?_
      rw [(hfound h).1, h.scopeType, scope_eq]
    rw [if_neg (not_not.2 hscope)]
    split
    · next hdenied => exact hrefused fun unit h => by simp [h.status] at hdenied
    cases haddress : normalizeScopeId input with
    | none =>
     refine hrefused fun unit h => ?_
     rw [h.address] at haddress
     cases haddress
    | some scopeId =>
     dsimp only
     by_cases hauthorized : input.authorized = true
     swap
     · rw [if_pos (by simpa using hauthorized)]
       exact hrefused fun unit h => hauthorized h.authorized
     rw [if_neg (by simpa using hauthorized), alone_start]
     obtain ⟨m, hjson, -, -, -, hresult⟩ := revalidateStoredManifest_ok hvalid
     have hclaimed : ∀ later, P (alone (decideClaimed host input plugin validated check scopeId clock)
       db [] later) := by
      intro later
      refine decideClaimed_rule hliving hvalid hjson ?_ (by simpa using List.find?_some hfind)
       hscope haddress
       (fun hnone => hrefused fun unit h => (hfound h).2 hnone) fun db' h => hnext m check scopeId db' h
      have hmem := List.mem_of_find?_eq_some hfind
      rw [hresult] at hmem
      exact hmem
     rw [decide.openDecision]
     cases hkind : input.scopeType with
     | server | user => exact hclaimed _
     | household =>
      rw [lockLiveHousehold, alone_lock, applyLog_nil]
      split
      · exact hclaimed _
      · next hgone =>
        refine hrefused fun unit h => hgone ?_
        have hid := haddress.symm.trans h.address
        cases hid
        cases unit with
        | household id => exact h.live id rfl
        | user id => simp [h.scopeType, UnitRef.scope] at hkind

end Decisions

section Households

variable {host : Host} {P : Db → Prop} {db : Db} {clock : ℕ} {householdId : Text}

theorem owes_of_denied {unit : UnitRef} {check : NormalizedPermissionRequest}
  (hcheck : check ∈ requested db unit) {g : PluginGrant}
  (hg : grant? db (unitGrant unit check.canonicalSlug) = some g) (hdenied : g.status = .denied) :
  Owes db unit := by
 refine ⟨check, hcheck, ?_⟩
 rintro ⟨row, -, hrow, hgranted, -⟩
 cases hg.symm.trans hrow
 rw [hdenied] at hgranted
 cases hgranted

theorem owes_of_deniedRequired {plugin : Plugin} {validated : PluginManifestValidationResult}
  {unit : UnitRef} (hliving : livingPlugin db = some plugin)
  (hvalid : revalidateStoredManifest host plugin = .ok validated)
  (h : deniedRequiredSlugs validated unit db ≠ []) : Owes db unit := by
 obtain ⟨m, hjson, -, -, -, rfl⟩ := revalidateStoredManifest_ok hvalid
 obtain ⟨slug, hslug⟩ := List.exists_mem_of_ne_nil _ h
 simp only [deniedRequiredSlugs, List.mem_map, List.mem_filter, mem_grantRows, Prod.exists,
  Bool.and_eq_true,
  beq_iff_eq, List.contains_iff_mem] at hslug
 obtain ⟨⟨scope, id, slug'⟩, g, ⟨hg, ⟨⟨rfl, rfl⟩, hdenied⟩, check, ⟨hcheck, -⟩, rfl⟩, -⟩ := hslug
 obtain ⟨hmem, hscope⟩ := List.mem_filter.1 hcheck
 exact owes_of_denied
  (mem_requested.2 ⟨m, inForce_some.2 ⟨plugin, hliving, hjson⟩, hmem, by simpa using hscope⟩)
  hg hdenied

theorem unitWrite_rule {row : UnitRow} (hrow : row.suspendedForConsent = true →
   Suspended db (.household householdId) ∨ Owes db (.household householdId))
  (hnext : ∀ db', Beside (some (.household householdId)) db db' → (Suspended db' (.household householdId) →
   Suspended db (.household householdId) ∨ Owes db (.household householdId)) → P db') :
  P (applyWrite db ⟨.unit (.household householdId), some row⟩) := by
 have hbeside : Beside (some (.household householdId)) db
  (applyLog db [⟨.unit (.household householdId), some row⟩]) :=
  beside_writes (by simp) db
 refine hnext _ hbeside fun hsuspended => ?_
 obtain ⟨row', hsome, hflag⟩ := hsuspended
 rw [unit?, lookup_applyWrite_self] at hsome
 cases hsome
 exact hrow hflag

theorem openUnit_rule {expected : Option Plugin} {requireSurface : Bool}
  {next : Option UnitRow → Program} (hsame : P db)
  (hnext : ∀ clock', P (alone (next (unit? db (.household householdId))) db [] clock')) :
  P (alone (openUnit (.household householdId) expected requireSurface next) db [] clock) := by
 rcases HouseholdDormancy.openUnit_alone expected requireSurface next clock with hrefused
  | ⟨_, clock', -, -, hopened⟩
 · rw [hrefused]
   exact hsame
 · rw [hopened]
   exact hnext clock'

theorem enableOpened_rule {plugin : Plugin} {validated : PluginManifestValidationResult}
  (hliving : livingPlugin db = some plugin) (hvalid : revalidateStoredManifest host plugin = .ok validated)
  {config : Option Text} {initiatedAt : ℕ}
  (hnext : ∀ db', Beside (some (.household householdId)) db db' → (Suspended db' (.household householdId) →
   Suspended db (.household householdId) ∨ Owes db (.household householdId)) → P db') :
  P (alone (enableOpened host validated (.household householdId) config initiatedAt
   (unit? db (.household householdId))) db [] clock) := by
 have hsame : P db := hnext db (Beside.refl _ _) .inl
 by_cases hgate : (config = none ∧ (validated.manifest.requiresHouseholdConfig = true ∨
   (unit? db (.household householdId)).bind (·.dormantReason) = some .needsConfiguration)) ∧
    retainedConfigSatisfies host validated.manifest (unit? db (.household householdId)) = false
 · unfold enableOpened
   rw [if_pos hgate]
   exact hsame
 cases hrow : unit? db (.household householdId) with
 | some row =>
  rw [hrow] at hgate
  rw [enableOpened, if_neg hgate, HouseholdDormancy.updateUnit_alone hrow]
  refine unitWrite_rule (fun hflag => .inl ⟨row, hrow, ?_⟩) hnext
  rw [← hflag, enableRow, PluginGrantSafe.configDormancyCleared_suspended]
 | none =>
  rw [hrow] at hgate
  rw [enableOpened, if_neg hgate]
  simp only [alone_query, alone_execute, applyLog_nil, hrow, Option.isSome_none, Bool.false_eq_true,
   if_false,
   List.nil_append, alone_commit, alone_halt]
  refine unitWrite_rule (fun hborn => .inr ?_) hnext
  exact owes_of_deniedRequired hliving hvalid (of_decide_eq_true hborn)

theorem enableHousehold_rule {input : EnableInput}
  (hnext : ∀ db', Beside (some (.household input.householdId)) db db' →
   (Suspended db' (.household input.householdId) →
    Suspended db (.household input.householdId) ∨ Owes db (.household input.householdId)) → P db') :
  P (alone (enableHousehold host input) db [] clock) := by
 have hsame : P db := hnext db (Beside.refl _ _) .inl
 rw [enableHousehold, alone_query, applyLog_nil]
 cases hliving : livingPlugin db with
 | none => exact hsame
 | some plugin =>
  dsimp only
  split
  · exact hsame
  cases hvalid : revalidateStoredManifest host plugin with
  | error => exact hsame
  | ok validated =>
   dsimp only
   split
   · exact hsame
   refine openUnit_rule hsame fun clock' => ?_
   have hrule : P (alone (enableOpened host validated (.household input.householdId) input.config clock
     (unit? db (.household input.householdId))) db [] clock') := enableOpened_rule hliving hvalid hnext
   cases hrow : unit? db (.household input.householdId) with
   | none =>
    rw [hrow] at hrule
    exact hrule
   | some row =>
    rw [hrow] at hrule
    dsimp only
    split
    · exact hsame
    · exact hrule

theorem setUnitEnabled_rule {enabled authorized : Bool}
  (hnext : ∀ db', Beside (some (.household householdId)) db db' → (Suspended db' (.household householdId) →
   Suspended db (.household householdId) ∨ Owes db (.household householdId)) → P db') :
  P (alone (setUnitEnabled (.household householdId) enabled authorized) db [] clock) := by
 have hsame : P db := hnext db (Beside.refl _ _) .inl
 rw [setUnitEnabled, alone_query, applyLog_nil]
 cases livingPlugin db with
 | none => exact hsame
 | some plugin =>
  dsimp only
  split
  · exact hsame
  refine openUnit_rule hsame fun clock' => ?_
  cases hrow : unit? db (.household householdId) with
  | none => exact hsame
  | some row =>
   dsimp only
   split
   · exact hsame
   · rw [HouseholdDormancy.updateUnit_alone hrow]
     exact unitWrite_rule (fun hflag => .inl ⟨row, hrow, hflag⟩) hnext

end Households

end BoardGamesEmpire.ConsentSuspension
