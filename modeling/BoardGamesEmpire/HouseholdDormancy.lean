import BoardGamesEmpire.ReadCommittedAlone
import BoardGamesEmpire.PluginUpdateSafe

set_option autoImplicit false

/-!
# Household rows across updates

Requests served one after another, and what an activation does to the household
rows that serve. A row that serves holds a document the active schema accepts,
as long as no row is created over a schema that rejects the empty document.
-/
namespace BoardGamesEmpire.HouseholdDormancy
open JsText Manifest ReadCommitted PluginStore PluginActivation PluginUpdateProgram PluginGrantProgram
  PluginSystem
open PluginProtocol (stepsRow Stepped)

/-- The requests that write household rows, and the two that activate a version. -/
inductive Operation where
  | enableHousehold (input : EnableInput)
  | updateHouseholdConfig (householdId config : Text) (authorized : Bool)
  | disableHousehold (householdId : Text) (authorized : Bool)
  | stage (input : StageInput)
  | approve (input : ApproveInput)

def Operation.request : Operation → Request
  | .enableHousehold input => .enableHousehold input
  | .updateHouseholdConfig householdId config authorized =>
    .updateHouseholdConfig householdId config authorized
  | .disableHousehold householdId authorized => .setUnitEnabled (.household householdId) false authorized
  | .stage input => .stage input
  | .approve input => .approve input

def Operation.activates : Operation → Bool
  | .stage _ | .approve _ => true
  | .enableHousehold _ | .updateHouseholdConfig _ _ _ | .disableHousehold _ _ => false

section Sequences

variable (host : Host)

def served (op : Operation) (db : Db) (clock : ℕ) : Db := alone (program host op.request) db [] clock

structure Installed (db : Db) : Prop where
  plugin : ∃ p m, plugin? db = some p ∧ p.manifestJson = .manifest m ∧ p.scope = m.scope
  units : ∀ householdId, unit? db (.household householdId) = none

/-- The stores that requests, each allowed where it is served, lead to. Other
    services write their own rows in between. -/
inductive After (allowed : Db → Operation → Prop) : Db → Prop where
  | start (db : Db) (h : Installed db) : After allowed db
  | serve (db : Db) (op : Operation) (clock : ℕ) (h : After allowed db) (hallowed : allowed db op) :
      After allowed (served host op db clock)
  | other (db : Db) (w : Write Row) (h : After allowed db) (hw : outside w.key = true) :
      After allowed (applyWrite db w)

/-- The active schema says nothing against the empty document a row is created
    with when the request brings none. -/
def CreatesConforming (db : Db) : Operation → Prop
  | .enableHousehold input => input.config = none → unit? db (.household input.householdId) = none →
      ∀ p m, plugin? db = some p → p.manifestJson = .manifest m → m.requiresHouseholdConfig = false →
        host.validateConfig m [] ≠ .issues
  | _ => True

/-- A row that serves holds a document the active manifest accepts, and the
    manifest has a household surface. -/
structure Good (db : Db) : Prop where
  scope : ∀ p m, plugin? db = some p → p.manifestJson = .manifest m → p.scope = m.scope
  serving : ∀ p m householdId row, plugin? db = some p → p.manifestJson = .manifest m →
    unit? db (.household householdId) = some row → row.dormantReason = none →
      m.scope = .household ∧ configConforms host m row = true

end Sequences

section Rows

variable {host : Host} {db : Db}

theorem Good.congr {db' : Db} (hgood : Good host db) (hplugin : plugin? db' = plugin? db)
  (hunits : ∀ householdId, unit? db' (.household householdId) = unit? db (.household householdId)) :
  Good host db' := by
 constructor
 · intro p m hp hm
   exact hgood.scope p m (hplugin ▸ hp) hm
 · intro p m householdId row hp hm hrow
   rw [hunits] at hrow
   exact hgood.serving p m householdId row (hplugin ▸ hp) hm hrow

theorem Good.setUnit (hgood : Good host db) {householdId : Text} {row : UnitRow}
  (hrow : ∀ p m, plugin? db = some p → p.manifestJson = .manifest m → row.dormantReason = none →
   m.scope = .household ∧ configConforms host m row = true) :
  Good host (applyWrite db ⟨.unit (.household householdId), some row⟩) := by
 have hplugin : plugin? (applyWrite db ⟨.unit (.household householdId), some row⟩) = plugin? db :=
  lookup_applyWrite_ne db (by simp)
 constructor
 · intro p m hp hm
   rw [hplugin] at hp
   exact hgood.scope p m hp hm
 · intro p m other found hp hm hfound hserves
   rw [hplugin] at hp
   by_cases hother : other = householdId
   · subst hother
     rw [unit?, lookup_applyWrite_self] at hfound
     cases hfound
     exact hrow p m hp hm hserves
   · rw [unit?, lookup_applyWrite_ne db (by simpa using hother)] at hfound
     exact hgood.serving p m other found hp hm hfound hserves

theorem conforms_of_accepts {m : PluginManifest} {row : UnitRow} {fields : Text}
  (hconfig : row.config = .object fields) (h : host.validateConfig m fields ≠ .issues) :
  configConforms host m row = true := by
 unfold configConforms
 rw [hconfig]
 simpa using h

theorem manifest_of_revalidated {p : Plugin} {m : PluginManifest}
  {validated : PluginManifestValidationResult} (hm : p.manifestJson = .manifest m)
  (h : revalidateStoredManifest host p = .ok validated) : validated.manifest = m := by
 obtain ⟨m', hm', -, -, -, rfl⟩ := revalidateStoredManifest_ok h
 rw [hm] at hm'
 cases hm'
 rfl

end Rows

section UnitRequests

variable {host : Host} {db : Db} {householdId : Text} {clock : ℕ}

theorem openUnit_alone (expected : Option Plugin) (requireSurface : Bool)
  (next : Option UnitRow → Program) (clock : ℕ) :
  alone (openUnit (.household householdId) expected requireSurface next) db [] clock = db ∨
  ∃ p clock', plugin? db = some p ∧ (requireSurface = true → p.scope = .household) ∧
   alone (openUnit (.household householdId) expected requireSurface next) db [] clock =
    alone (next (unit? db (.household householdId))) db [] clock' := by
 have hhome : ∀ next : Program, alone (openScope (.household householdId) next) db [] clock =
   if isLiveHousehold db householdId = true then alone next db [] (clock + 1) else db := by
  intro next
  rw [openScope, lockLiveHousehold, alone_lock, applyLog_nil]
  split <;> rfl
 have hliving : ∀ (next : Plugin → Program) (clock : ℕ),
   alone (assertStillLiving expected next) db [] clock = db ∨ ∃ p, plugin? db = some p ∧
    alone (assertStillLiving expected next) db [] clock = alone (next p) db [] (clock + 1) := by
  intro next clock
  rw [assertStillLiving, alone_lock, applyLog_nil]
  cases hp : plugin? db with
  | none => exact .inl rfl
  | some p =>
   dsimp only
   by_cases hgone : p.uninstalledAt = none
   swap
   · exact .inl (by simp [hgone])
   by_cases hmoved : expected.bind (classifyManifestMove p) = none
   · exact .inr ⟨p, rfl, by simp [hgone, hmoved]⟩
   · exact .inl (by simp [hgone, hmoved])
 rw [openUnit, hhome]
 by_cases hlive : isLiveHousehold db householdId = true
 swap
 · exact .inl (if_neg hlive)
 rw [if_pos hlive]
 rcases hliving (fun row => if requireSurface && row.scope != .household then .rollback .halt
  else lockUnitScope (.household householdId) <| .query fun _ v => next (unit? v (.household householdId)))
  (clock + 1) with hsame | ⟨p, hp, hnext⟩
 · exact .inl hsame
 rw [hnext]
 cases hsurface : requireSurface && p.scope != .household with
 | true => exact .inl (by simp)
 | false =>
  refine .inr ⟨p, clock + 1 + 1 + 1 + 1, hp, fun hrequire => ?_, ?_⟩
  · simpa [hrequire] using hsurface
  · simp [lockUnitScope]

theorem livingPlugin_eq {p : Plugin} (h : livingPlugin db = some p) : plugin? db = some p :=
 (Option.filter_eq_some_iff.1 h).1

theorem updateUnit_alone {row : UnitRow} (hrow : unit? db (.household householdId) = some row)
  (f : UnitRow → UnitRow) (event : Event) (clock : ℕ) :
  alone (updateUnit (.household householdId) row (fun _ => true) f (.commit event .halt)) db [] clock =
   applyWrite db ⟨.unit (.household householdId), some (f row)⟩ := by
 simp only [updateUnit, alone_execute, applyLog_nil, hrow, List.nil_append, beq_self_eq_true,
  Bool.and_self,
  if_true, alone_commit, alone_halt]
 rfl

theorem openUnit_good (hgood : Good host db) {expected : Option Plugin} {requireSurface : Bool}
  {next : Option UnitRow → Program} (hnext : ∀ p clock', plugin? db = some p →
   (requireSurface = true → p.scope = .household) →
    Good host (alone (next (unit? db (.household householdId))) db [] clock')) :
  Good host (alone (openUnit (.household householdId) expected requireSurface next) db [] clock) := by
 rcases openUnit_alone expected requireSurface next clock with hsame | ⟨p, clock', hp, hsurface, heq⟩
 · rw [hsame]
   exact hgood
 · rw [heq]
   exact hnext p clock' hp hsurface

theorem setUnitEnabled_good (hgood : Good host db) (enabled authorized : Bool) :
  Good host (alone (setUnitEnabled (.household householdId) enabled authorized) db [] clock) := by
 rw [setUnitEnabled, alone_query, applyLog_nil]
 cases livingPlugin db with
 | none => exact hgood
 | some p =>
  cases authorized with
  | false => exact hgood
  | true =>
   simp only [Bool.not_true, Bool.false_eq_true, if_false]
   refine openUnit_good hgood fun p clock' hp _ => ?_
   cases hrow : unit? db (.household householdId) with
   | none => exact hgood
   | some row =>
    dsimp only
    by_cases henabled : row.enabled = enabled
    · rw [if_pos henabled]
      exact hgood
    · rw [if_neg henabled, updateUnit_alone hrow]
      exact hgood.setUnit fun p m hp hm hserves =>
       hgood.serving p m householdId row hp hm hrow hserves

variable {validated : PluginManifestValidationResult}

theorem accepted_serves {p q : Plugin} {fields : Text} {row : UnitRow} (hgood : Good host db)
  (hp : plugin? db = some p) (hsurface : p.scope = .household)
  (hvalid : revalidateStoredManifest host p = .ok validated)
  (haccepts : host.validateConfig validated.manifest fields ≠ .issues)
  (hconfig : row.config = .object fields) (m : PluginManifest) (hq : plugin? db = some q)
  (hm : q.manifestJson = .manifest m) :
  m.scope = .household ∧ configConforms host m row = true := by
 rw [hp] at hq
 cases hq
 rw [manifest_of_revalidated hm hvalid] at haccepts
 exact ⟨(hgood.scope p m hp hm).symm.trans hsurface, conforms_of_accepts hconfig haccepts⟩

theorem updateHouseholdConfig_good (hgood : Good host db) (config : Text) (authorized : Bool) :
  Good host (alone (updateHouseholdConfig host householdId config authorized) db [] clock) := by
 rw [updateHouseholdConfig, alone_query, applyLog_nil]
 cases hliving : livingPlugin db with
 | none => exact hgood
 | some p =>
  have hp := livingPlugin_eq hliving
  dsimp only
  by_cases hrefused : p.scope ≠ .household ∨ authorized = false
  · rw [if_pos hrefused]
    exact hgood
  rw [if_neg hrefused]
  have hsurface : p.scope = .household := not_not.1 fun hscope => hrefused (.inl hscope)
  cases hvalid : revalidateStoredManifest host p with
  | error => exact hgood
  | ok validated =>
   dsimp only
   cases haccepted : configAccepted host validated.manifest (some config) with
   | false => exact hgood
   | true =>
    simp only [Bool.not_true, Bool.false_eq_true, if_false]
    refine openUnit_good hgood fun _ clock' _ _ => ?_
    cases hrow : unit? db (.household householdId) with
    | none => exact hgood
    | some row =>
     dsimp only
     rw [updateUnit_alone hrow]
     refine hgood.setUnit fun q m hq hm _ => ?_
     have hconforms : host.validateConfig validated.manifest config = .conforms := by
      simpa [configAccepted] using haccepted
     refine @accepted_serves _ _ validated p q config _ hgood hp hsurface hvalid ?_ ?_ m hq hm
     · rw [hconforms]
       exact nofun
     · unfold configDormancyCleared
       split <;> rfl

theorem accepts_of_configAccepted {m : PluginManifest} {config : Option Text} {fields : Text}
  (h : configAccepted host m config = true) (hconfig : config = some fields) :
  host.validateConfig m fields ≠ .issues := by
 subst hconfig
 rw [configAccepted, beq_iff_eq] at h
 rw [h]
 exact nofun

theorem accepts_of_retained {m : PluginManifest} {row : UnitRow}
  (h : retainedConfigSatisfies host m (some row) = true) :
  ∃ fields, row.config = .object fields ∧ host.validateConfig m fields ≠ .issues := by
 unfold retainedConfigSatisfies at h
 cases hconfig : row.config with
 | other value => simp [hconfig] at h
 | object fields =>
  refine ⟨fields, rfl, ?_⟩
  simp only [hconfig, beq_iff_eq] at h
  rw [h]
  exact nofun

theorem enableRow_serves {p q : Plugin} {config : Option Text}
  {row : UnitRow} (hgood : Good host db) (hp : plugin? db = some p) (hsurface : p.scope = .household)
  (hvalid : revalidateStoredManifest host p = .ok validated)
  (haccepted : configAccepted host validated.manifest config = true)
  (hrow : unit? db (.household householdId) = some row)
  (hgate : ¬ ((config = none ∧ (validated.manifest.requiresHouseholdConfig = true ∨
   row.dormantReason = some .needsConfiguration)) ∧
    retainedConfigSatisfies host validated.manifest (some row) = false))
  (m : PluginManifest) (hq : plugin? db = some q) (hm : q.manifestJson = .manifest m)
  (hserves : (enableRow config row row).dormantReason = none) :
  m.scope = .household ∧ configConforms host m (enableRow config row row) = true := by
 have hdocument : (enableRow config row row).config = (config.map .object).getD row.config := by
  unfold enableRow configDormancyCleared
  split <;> rfl
 cases config with
 | some fields =>
  exact accepted_serves hgood hp hsurface hvalid (accepts_of_configAccepted haccepted rfl) hdocument
   m hq hm
 | none =>
  by_cases hneeds : row.dormantReason = some .needsConfiguration
  · have hretained : retainedConfigSatisfies host validated.manifest (some row) = true := by
     by_contra hnot
     exact hgate ⟨⟨rfl, .inr hneeds⟩, Bool.eq_false_iff.2 hnot⟩
    obtain ⟨fields, hfields, haccepts⟩ := accepts_of_retained hretained
    exact accepted_serves hgood hp hsurface hvalid haccepts (hdocument.trans hfields) m hq hm
  · have hnone : row.dormantReason = none := by
     simpa [enableRow, configDormancyCleared, hneeds] using hserves
    have hbefore := hgood.serving q m householdId row hq hm hrow hnone
    refine ⟨hbefore.1, ?_⟩
    rw [← hbefore.2]
    unfold configConforms
    rw [hdocument]
    rfl

theorem createRow_good {p : Plugin} {config : Option Text}
  {initiatedAt : ℕ} (hgood : Good host db) (hp : plugin? db = some p) (hsurface : p.scope = .household)
  (hvalid : revalidateStoredManifest host p = .ok validated)
  (haccepts : host.validateConfig validated.manifest (config.getD []) ≠ .issues)
  (hrow : unit? db (.household householdId) = none)
  (hgate : ¬ ((config = none ∧ (validated.manifest.requiresHouseholdConfig = true ∨
   (none : Option UnitRow).bind (·.dormantReason) = some .needsConfiguration)) ∧
    retainedConfigSatisfies host validated.manifest none = false)) :
  Good host (alone (enableOpened host validated (.household householdId) config initiatedAt none) db []
   clock) := by
 rw [enableOpened, if_neg hgate]
 simp only [alone_query, alone_execute, applyLog_nil, hrow, Option.isSome_none, Bool.false_eq_true,
  if_false,
  List.nil_append, alone_commit, alone_halt]
 exact hgood.setUnit fun q m hq hm _ =>
  accepted_serves hgood hp hsurface hvalid haccepts rfl m hq hm

theorem enableOpened_good {p : Plugin} {config : Option Text}
  {initiatedAt : ℕ} (hgood : Good host db) (hp : plugin? db = some p) (hsurface : p.scope = .household)
  (hvalid : revalidateStoredManifest host p = .ok validated)
  (haccepted : configAccepted host validated.manifest config = true)
  (hcreates : config = none → unit? db (.household householdId) = none →
   validated.manifest.requiresHouseholdConfig = false →
    host.validateConfig validated.manifest [] ≠ .issues) :
  Good host (alone (enableOpened host validated (.household householdId) config initiatedAt
   (unit? db (.household householdId))) db [] clock) := by
 by_cases hgate : (config = none ∧ (validated.manifest.requiresHouseholdConfig = true ∨
   (unit? db (.household householdId)).bind (·.dormantReason) = some .needsConfiguration)) ∧
    retainedConfigSatisfies host validated.manifest (unit? db (.household householdId)) = false
 · unfold enableOpened
   rw [if_pos hgate]
   exact hgood
 cases hrow : unit? db (.household householdId) with
 | some row =>
  rw [hrow] at hgate
  rw [enableOpened, if_neg hgate, updateUnit_alone hrow]
  exact hgood.setUnit fun q m hq hm hserves =>
   enableRow_serves hgood hp hsurface hvalid haccepted hrow hgate m hq hm hserves
 | none =>
  rw [hrow] at hgate
  refine createRow_good hgood hp hsurface hvalid ?_ hrow hgate
  cases config with
  | some fields => exact accepts_of_configAccepted haccepted rfl
  | none =>
   refine hcreates rfl hrow ?_
   by_contra hrequires
   exact hgate ⟨⟨rfl, .inl (Bool.eq_true_of_not_eq_false hrequires)⟩, rfl⟩

theorem enableHousehold_good (hgood : Good host db) {input : EnableInput}
  (hcreates : CreatesConforming host db (.enableHousehold input)) :
  Good host (alone (enableHousehold host input) db [] clock) := by
 rw [enableHousehold, alone_query, applyLog_nil]
 cases hliving : livingPlugin db with
 | none => exact hgood
 | some p =>
  have hp := livingPlugin_eq hliving
  dsimp only
  by_cases hrefused : p.scope ≠ .household ∨ input.authorized = false
  · rw [if_pos hrefused]
    exact hgood
  rw [if_neg hrefused]
  have hsurface : p.scope = .household := not_not.1 fun hscope => hrefused (.inl hscope)
  cases hvalid : revalidateStoredManifest host p with
  | error => exact hgood
  | ok validated =>
   dsimp only
   cases haccepted : configAccepted host validated.manifest input.config with
   | false => exact hgood
   | true =>
    simp only [Bool.not_true, Bool.false_eq_true, if_false]
    refine openUnit_good hgood fun _ clock' _ _ => ?_
    have hopened : Good host (alone (enableOpened host validated (.household input.householdId)
      input.config clock (unit? db (.household input.householdId))) db [] clock') := by
     refine enableOpened_good hgood hp hsurface hvalid haccepted fun hnone hrow hrequires => ?_
     obtain ⟨m, hm, -, -, -, rfl⟩ := revalidateStoredManifest_ok hvalid
     exact hcreates hnone hrow p m hp hm hrequires
    cases hrow : unit? db (.household input.householdId) with
    | none =>
     rw [hrow] at hopened
     exact hopened
    | some row =>
     rw [hrow] at hopened
     dsimp only
     split
     · exact hgood
     · exact hopened

end UnitRequests

section Activations

variable {P : Db → Prop} {db : Db} {log : List PluginWrite} {clock : ℕ}

def standing (row : UnitRow) : ConfigValue × Option PluginUnitDormantReason :=
    (row.config, row.dormantReason)

/-- The plugin row and the standing of every household row are the same. -/
structure Kept (v v' : Db) : Prop where
  plugin : plugin? v' = plugin? v
  household : ∀ householdId, (unit? v' (.household householdId)).map standing =
    (unit? v (.household householdId)).map standing

theorem Kept.refl (v : Db) : Kept v v := ⟨rfl, fun _ => rfl⟩

theorem Kept.trans {v v' v'' : Db} (h : Kept v v') (h' : Kept v' v'') : Kept v v'' :=
 ⟨h'.plugin.trans h.plugin, fun householdId => (h'.household householdId).trans (h.household householdId)⟩

theorem kept_of_lookup {v v' : Db} (hplugin : v'.lookup .plugin = v.lookup .plugin)
  (hunit : ∀ unit, v'.lookup (.unit unit) = v.lookup (.unit unit)) : Kept v v' := by
 refine ⟨hplugin, fun householdId => ?_⟩
 rw [unit?, hunit]
 rfl

theorem plugin_updateUnits (p : UnitRef → UnitRow → Bool) (f : UnitRow → UnitRow) (v : Db) :
  plugin? (applyLog v (updateUnits p f v)) = plugin? v := by
 refine lookup_applyLog_of_notMem v fun w hw heq => ?_
 obtain ⟨entry, -, rfl⟩ := List.mem_map.1 hw
 cases heq

theorem kept_updateUnits (p : UnitRef → UnitRow → Bool) {f : UnitRow → UnitRow}
  (hf : ∀ row, standing (f row) = standing row) (v : Db) :
  Kept v (applyLog v (updateUnits p f v)) := by
 refine ⟨plugin_updateUnits p f v, fun householdId => ?_⟩
 rw [PluginUpdateSafe.lookup_updateUnits, Option.map_map]
 congr 1
 funext row
 dsimp only [Function.comp_apply]
 split
 · exact hf row
 · rfl

theorem suspendPass_rule {a : Activation} {axis : PluginConsentScope}
  {next : List SuspensionCandidate → Program}
  (hnext : ∀ candidates log' clock', Kept (applyLog db log) (applyLog db log') →
   P (alone (next candidates) db log' clock')) : P (alone (suspendPass a axis next) db log clock) := by
 unfold suspendPass
 split
 · exact hnext [] log clock (Kept.refl _)
 rw [alone_query]
 dsimp only
 split
 · exact hnext [] log _ (Kept.refl _)
 rw [alone_query]
 split
 · exact hnext [] log _ (Kept.refl _)
 rw [alone_execute]
 have hkept : ∀ candidates, Kept (applyLog db log)
   (applyLog db (log ++ suspendWrites a.initiatedAt candidates (applyLog db log))) := by
  intro candidates
  rw [applyLog_append, suspendWrites]
  refine kept_updateUnits _ ?_ _
  intro row
  rfl
 split
 · exact hnext _ _ _ (hkept _)
 · rw [alone_query]
   exact hnext _ _ _ (hkept _)

theorem stepCode_rule {a : Activation} {onCollision rest : Program} {step : ActivationStep} (hdb : P db)
  (hcollision : ∀ clock', P (alone onCollision db [] clock'))
  (hrest : ∀ time log' clock',
   (∀ k, (applyLog db log').lookup k = stepRow a step time k ((applyLog db log).lookup k)) →
   P (alone rest db log' clock')) : P (alone (stepCode a onCollision step rest) db log clock) := by
 cases step with
 | moveScope slug scopeType =>
  rw [stepCode, alone_query]
  dsimp only
  split
  · next hstale => exact hrest 0 _ _ (PluginUpdateSafe.move_nothing (fun _ => .inl rfl) hstale a 0)
  · rw [alone_execute]
    refine hrest 0 _ _ fun k => ?_
    rw [applyLog_append]
    exact PluginUpdateSafe.move_deletes slug scopeType (fun _ => .inl rfl) a 0 k
 | deleteGrants _ | deletePermissions _ | createPermission _ | reStamp _ | seed _ =>
  unfold stepCode
  rw [alone_execute]
  split
  · next writes h =>
    rw [h]
    refine hrest clock _ _ fun k => ?_
    rw [applyLog_append]
    exact lookup_step h k
  · exact hcollision _
  · exact hdb

theorem steps_rule {a : Activation} {onCollision rest : Program} (hdb : P db)
  (hcollision : ∀ clock', P (alone onCollision db [] clock')) :
  ∀ (steps : List ActivationStep) (log : List PluginWrite) (clock : ℕ),
   (∀ done log' clock', done.map Prod.fst = steps →
    (∀ k, (applyLog db log').lookup k = stepsRow a done k ((applyLog db log).lookup k)) →
     P (alone rest db log' clock')) →
    P (alone (steps.foldr (stepCode a onCollision) rest) db log clock)
 | [], log, clock, hrest => hrest [] log clock rfl fun _ => rfl
 | step :: steps, log, clock, hrest => by
  refine stepCode_rule hdb hcollision fun time log' clock' hstep => ?_
  refine steps_rule hdb hcollision steps log' clock' fun done log'' clock'' hdone hrows => ?_
  refine hrest ((step, time) :: done) log'' clock'' (by simp [hdone]) fun k => ?_
  rw [hrows k, hstep k]
  rfl

theorem stepsRow_outside (a : Activation) {k : Key} (hk : ¬ Stepped k)
  (done : List (ActivationStep × ℕ)) (x : Option (Row k)) : stepsRow a done k x = x := by
 induction done generalizing x with
 | nil => rfl
 | cons step done ih =>
  refine (ih _).trans ?_
  cases k with
  | grant _ | declared _ => exact absurd trivial hk
  | plugin | unit _ | permission _ | home _ => rfl

def takes (host : Host) (m : PluginManifest) : ConfigValue → Bool
  | .other _ => false
  | .object fields => host.validateConfig m fields != .issues

theorem configConforms_eq (host : Host) (m : PluginManifest) (row : UnitRow) :
  configConforms host m row = takes host m row.config := by
 unfold configConforms takes
 rfl

def reconciledReason (host : Host) (m : PluginManifest) :
    ConfigValue × Option PluginUnitDormantReason → Option PluginUnitDormantReason
  | (config, reason) =>
    if m.scope = .server then some .scopeOrphaned
    else if reason = some .needsConfiguration then reason
    else if takes host m config then none
    else some .needsConfiguration

variable {found : List (UnitRef × UnitRow)}

theorem isFound_iff {v : Db} {unit : UnitRef} {row : UnitRow}
  (hfound : ∀ entry ∈ found, entry ∈ unitRows v) (hrow : unit? v unit = some row) :
  isFound found unit row = true ↔ (unit, row) ∈ found := by
 rw [isFound, List.any_eq_true]
 constructor
 · rintro ⟨⟨unit', row'⟩, hmem, hsame⟩
   obtain rfl : unit' = unit := by
    simp only [Bool.and_eq_true, beq_iff_eq] at hsame
    exact hsame.1
   have hin := mem_unitRows.1 (hfound _ hmem)
   rw [hrow] at hin
   cases hin
   exact hmem
 · intro hmem
   exact ⟨(unit, row), hmem, by simp⟩

theorem updateFound_rule {f : UnitRow → UnitRow} {next : Program}
  (hnext : ∀ log' clock', applyLog db log' =
   applyLog (applyLog db log) (updateUnits (isFound found) f (applyLog db log)) →
    P (alone next db log' clock')) : P (alone (updateFound found f next) db log clock) := by
 unfold updateFound
 split
 · next hempty =>
   refine hnext log clock ?_
   subst hempty
   simp [updateUnits, isFound]
 · rw [alone_execute]
   exact hnext _ _ (applyLog_append db log _)

def householdRows (v : Db) : List (UnitRef × UnitRow) :=
  (unitRows v).filter fun entry => entry.1.consentScope == .household

theorem mem_householdRows {v : Db} {householdId : Text} {row : UnitRow} :
  (.household householdId, row) ∈ householdRows v ↔ unit? v (.household householdId) = some row := by
 simp [householdRows, mem_unitRows, UnitRef.consentScope]

theorem isFound_household {v : Db} {householdId : Text} {row : UnitRow}
  (hfound : ∀ entry ∈ found, entry ∈ householdRows v)
  (hrow : unit? v (.household householdId) = some row) :
  isFound found (.household householdId) row = true ↔ (.household householdId, row) ∈ found :=
 isFound_iff (fun entry h => (List.mem_filter.1 (hfound entry h)).1) hrow

theorem standing_updateFound {v : Db} {f : UnitRow → UnitRow}
  {householdId : Text} (hfound : ∀ entry ∈ found, entry ∈ householdRows v)
  {after : UnitRow → ConfigValue × Option PluginUnitDormantReason}
  (hpicked : ∀ row, (UnitRef.household householdId, row) ∈ found → standing (f row) = after row)
  (hleft : ∀ row, unit? v (.household householdId) = some row →
   (UnitRef.household householdId, row) ∉ found → standing row = after row) :
  (unit? (applyLog v (updateUnits (isFound found) f v)) (.household householdId)).map standing =
   (unit? v (.household householdId)).map after := by
 rw [PluginUpdateSafe.lookup_updateUnits, Option.map_map]
 refine Option.map_congr fun row hrow => ?_
 have hiff := isFound_household hfound hrow
 dsimp only [Function.comp_apply]
 by_cases hmem : (UnitRef.household householdId, row) ∈ found
 · rw [if_pos (hiff.2 hmem)]
   exact hpicked row hmem
 · rw [if_neg fun h => hmem (hiff.1 h)]
   exact hleft row hrow hmem

structure Reconciled (host : Host) (m : PluginManifest) (v v' : Db) : Prop where
  plugin : plugin? v' = plugin? v
  household : ∀ householdId, (unit? v' (.household householdId)).map standing =
    (unit? v (.household householdId)).map fun row => (row.config, reconciledReason host m (standing row))

theorem standing_twoUpdates {host : Host} {m : PluginManifest} {v : Db} {householdId : Text}
  {failing reviving : List (UnitRef × UnitRow)} {initiatedAt : ℕ} (hscope : m.scope = .household)
  (hfailing : ∀ unit row, (unit, row) ∈ failing ↔ (unit, row) ∈ householdRows v ∧
   row.dormantReason ≠ some .needsConfiguration ∧ takes host m row.config = false)
  (hreviving : ∀ unit row, (unit, row) ∈ reviving ↔ (unit, row) ∈ householdRows v ∧
   row.dormantReason = some .scopeOrphaned ∧ takes host m row.config = true) :
  let v' := applyLog v (updateUnits (isFound failing) (dormant .needsConfiguration initiatedAt) v)
  (unit? (applyLog v' (updateUnits (isFound reviving) revived v')) (.household householdId)).map standing =
   (unit? v (.household householdId)).map fun row =>
    (row.config, reconciledReason host m (standing row)) := by
 intro v'
 rw [PluginUpdateSafe.lookup_updateUnits, PluginUpdateSafe.lookup_updateUnits, Option.map_map,
  Option.map_map]
 refine Option.map_congr fun row hrow => ?_
 have hfails := isFound_household (fun entry h => ((hfailing entry.1 entry.2).1 h).1) hrow
 have hrevives := isFound_household (fun entry h => ((hreviving entry.1 entry.2).1 h).1) hrow
 rw [hfailing, mem_householdRows] at hfails
 rw [hreviving, mem_householdRows] at hrevives
 have hin : unit? v (.household householdId) = some row := hrow
 simp only [hin, true_and] at hfails hrevives
 -- An update keeps the id, so the second one still finds the rows of the first reading.
 have hid : ∀ reason at', isFound reviving (.household householdId) (dormant reason at' row) =
   isFound reviving (.household householdId) row := fun _ _ => rfl
 dsimp only [Function.comp_apply]
 cases htakes : takes host m row.config with
 | false =>
  have hnot : ¬ isFound reviving (.household householdId) row = true := fun h => by
   simp [htakes] at hrevives
   simp [hrevives] at h
  by_cases hneeds : row.dormantReason = some .needsConfiguration
  · have hkeeps : ¬ isFound failing (.household householdId) row = true := fun h => (hfails.1 h).1 hneeds
    rw [if_neg hkeeps, if_neg hnot]
    simp [standing, reconciledReason, hscope, hneeds]
  · rw [if_pos (hfails.2 ⟨hneeds, htakes⟩), hid, if_neg hnot]
    simp [standing, reconciledReason, dormant, hscope, hneeds, htakes]
 | true =>
  have hkeeps : ¬ isFound failing (.household householdId) row = true := fun h => by
   simp [(hfails.1 h).2] at htakes
  rw [if_neg hkeeps]
  by_cases horphaned : row.dormantReason = some .scopeOrphaned
  · rw [if_pos (hrevives.2 ⟨horphaned, htakes⟩)]
    simp [standing, reconciledReason, revived, hscope, horphaned, htakes]
  · rw [if_neg fun h => horphaned (hrevives.1 h).1]
    cases hreason : row.dormantReason with
    | none => simp [standing, reconciledReason, hscope, hreason, htakes]
    | some reason =>
     cases reason with
     | needsConfiguration => simp [standing, reconciledReason, hscope, hreason]
     | scopeOrphaned => exact absurd hreason horphaned

theorem reconcile_rule {host : Host} {m : PluginManifest} {initiatedAt : ℕ} {next : Program}
  (hnext : ∀ log' clock', Reconciled host m (applyLog db log) (applyLog db log') →
   P (alone next db log' clock')) :
  P (alone (reconcileHouseholdDormancy host m initiatedAt next) db log clock) := by
 rw [reconcileHouseholdDormancy, alone_query]
 cases hscope : m.scope with
 | server =>
  refine updateFound_rule fun log' clock' heq => hnext log' clock' ⟨?_, fun householdId => ?_⟩
  · rw [heq]
    exact plugin_updateUnits _ _ _
  · rw [heq]
    refine standing_updateFound (fun entry h => (List.mem_filter.1 h).1)
     (fun row _ => ?_) fun row hrow hnot => ?_
    · simp [standing, dormant, reconciledReason, hscope]
    · have horphaned : row.dormantReason = some .scopeOrphaned := by
       by_contra hne
       exact hnot (List.mem_filter.2 ⟨mem_householdRows.2 hrow, by simpa using hne⟩)
      simp [standing, reconciledReason, hscope, horphaned]
 | household =>
  refine updateFound_rule fun log' clock' heq => updateFound_rule fun log'' clock'' heq' =>
   hnext log'' clock'' ⟨?_, fun householdId => ?_⟩
  · rw [heq', plugin_updateUnits, heq, plugin_updateUnits]
  · rw [heq', heq]
    refine standing_twoUpdates hscope (fun unit row => ?_) fun unit row => ?_
    · simp only [← configConforms_eq, List.mem_filter, List.mem_append, ← householdRows.eq_1]
      cases row.dormantReason with
      | none => simp
      | some reason => cases reason <;> simp
    · simp only [← configConforms_eq, List.mem_filter, ← householdRows.eq_1]
      simp [and_assoc]

structure Activated (host : Host) (m : PluginManifest) (db db' : Db) : Prop where
  plugin : ∃ p', plugin? db' = some p' ∧ p'.manifestJson = .manifest m ∧ p'.scope = m.scope
  household : ∀ householdId, (unit? db' (.household householdId)).map standing =
    (unit? db (.household householdId)).map fun row => (row.config, reconciledReason host m (standing row))

variable {host : Host} {a : Activation}

theorem finishActivation_rule {seeded : List NormalizedPermissionRequest}
  (hnext : ∀ v v' db', Kept (applyLog db log) v → Reconciled host a.next.manifest v v' → db' = v' →
   P db') :
  P (alone (finishActivation host a seeded) db log clock) := by
 unfold finishActivation
 refine suspendPass_rule fun households log₁ clock₁ hkept₁ => ?_
 refine suspendPass_rule fun users log₂ clock₂ hkept₂ => ?_
 refine reconcile_rule fun log₃ clock₃ hreconciled => ?_
 exact hnext _ _ _ (hkept₁.trans hkept₂) hreconciled rfl

theorem Kept.reconciled {m : PluginManifest} {v v' v'' : Db} (hkept : Kept v v')
  (h : Reconciled host m v' v'') : Reconciled host m v v'' := by
 refine ⟨h.plugin.trans hkept.plugin, fun householdId => ?_⟩
 have hstanding := hkept.household householdId
 rw [h.household householdId]
 calc (unit? v' (.household householdId)).map (fun row => (row.config, reconciledReason host m (standing row)))
     = ((unit? v' (.household householdId)).map standing).map
         (fun s => (s.1, reconciledReason host m s)) := by rw [Option.map_map]; rfl
  _ = ((unit? v (.household householdId)).map standing).map
     (fun s => (s.1, reconciledReason host m s)) := by rw [hstanding]
  _ = (unit? v (.household householdId)).map
     (fun row => (row.config, reconciledReason host m (standing row))) := by rw [Option.map_map]; rfl

theorem activateClaimed_rule {onCollision : Program} (hdb : P db)
  (hcollision : ∀ clock', P (alone onCollision db [] clock'))
  (hnext : ∀ db', Reconciled host a.next.manifest (applyLog db log) db' → P db') :
  P (alone (activateClaimed host a onCollision) db log clock) := by
 rw [activateClaimed, alone_lock]
 dsimp only
 split
 · exact hdb
 split
 · refine steps_rule hdb hcollision _ _ _ fun done log' clock' _ hrows => ?_
   have hkept : Kept (applyLog db log) (applyLog db log') :=
    kept_of_lookup ((hrows .plugin).trans (stepsRow_outside a (by simp [Stepped]) done _))
     fun unit => (hrows (.unit unit)).trans (stepsRow_outside a (by simp [Stepped]) done _)
   refine finishActivation_rule fun v v' db' hkept' hreconciled heq => ?_
   subst heq
   exact hnext _ ((hkept.trans hkept').reconciled hreconciled)
 · exact hdb

theorem activateInTransaction_rule {onCollision : Program} (hdb : P db)
  (hcollision : ∀ clock', P (alone onCollision db [] clock'))
  (hnext : ∀ db', Activated host a.next.manifest db db' → P db') :
  P (alone (activateInTransaction host a onCollision) db [] clock) := by
 rw [activateInTransaction, alone_lock, applyLog_nil]
 cases hp : plugin? db with
 | none => exact hdb
 | some p =>
  dsimp only
  rw [alone_execute, applyLog_nil, hp]
  dsimp only
  by_cases hclaim : claimable a p = true
  swap
  · rw [if_neg hclaim]
    exact hdb
  rw [if_pos hclaim]
  refine activateClaimed_rule hdb hcollision fun db' hreconciled => hnext db' ?_
  have hclaimed :
   applyLog db ([] ++ claimWrites a (retainedServerConfig host a.next.manifest p.config) db) =
    applyWrite db ⟨.plugin, some (promoted a (retainedServerConfig host a.next.manifest p.config) p)⟩ := by
   simp only [claimWrites, hp, hclaim, if_true, List.nil_append]
   rfl
  rw [hclaimed] at hreconciled
  refine ⟨⟨_, hreconciled.plugin.trans (lookup_applyWrite_self db .plugin _), rfl, rfl⟩,
   fun householdId => ?_⟩
  rw [hreconciled.household householdId, unit?, lookup_applyWrite_ne db (by simp)]
  rfl

theorem activate_rule (hdb : P db) (hnext : ∀ db', Activated host a.next.manifest db db' → P db') :
  P (alone (activate host a) db [] clock) := by
 have hagain : ∀ clock, P (alone (.start .halt (activateInTransaction host a .halt)) db [] clock) := by
  intro clock
  rw [alone_start]
  exact activateInTransaction_rule hdb (fun _ => hdb) hnext
 rw [activate, alone_start]
 exact activateInTransaction_rule hdb hagain hnext

theorem plugin_written (db : Db) (row : Plugin) :
  plugin? (applyLog db [⟨.plugin, some row⟩]) = some row :=
 lookup_applyWrite_self db .plugin (some row)

theorem stage_rule {input : StageInput} (hdb : ∀ db', plugin? db' = plugin? db ∨
  (∃ p slot, plugin? db = some p ∧
   plugin? db' = some { p with pending := some slot }) →
    (∀ unit, unit? db' unit = unit? db unit) → P db')
  (hnext : ∀ m db', Activated host m db db' → P db') :
  P (alone (stage host input) db [] clock) := by
 have hsame : P db := hdb db (.inl rfl) fun _ => rfl
 unfold stage
 split
 · exact hsame
 rw [alone_query, applyLog_nil]
 cases hliving : livingPlugin db with
 | none => exact hsame
 | some p =>
  dsimp only
  split
  · exact hsame
  · next next hvalid =>
    split
    · exact hsame
    rw [loadCorePermissions, alone_query]
    dsimp only
    split
    swap
    · exact hsame
    split
    · exact hsame
    split
    · exact hsame
    rw [alone_query]
    split
    · exact activate_rule hsame fun db' => hnext _ db'
    · rw [stagePending, alone_execute, applyLog_nil, livingPlugin_eq hliving]
      by_cases hstageable : stageable p = true
      · simp only [hstageable, if_true, List.nil_append, alone_commit, alone_halt]
        refine hdb _ (.inr ⟨p, _, livingPlugin_eq hliving, plugin_written db _⟩) fun unit => ?_
        exact lookup_applyLog_of_notMem db (by simp)
      · simp only [hstageable, Bool.false_eq_true, if_false, alone_rollback, alone_halt]
        exact hsame

theorem approve_rule {input : ApproveInput} (hdb : P db)
  (hnext : ∀ m db', Activated host m db db' → P db') :
  P (alone (approve host input) db [] clock) := by
 unfold approve
 split
 · exact hdb
 rw [alone_query, applyLog_nil]
 cases livingPlugin db with
 | none => exact hdb
 | some p =>
  dsimp only
  split
  · exact hdb
  split
  · exact hdb
  split
  · rw [loadCorePermissions, alone_query]
    dsimp only
    split
    swap
    · exact hdb
    rw [approveResolved, alone_query]
    dsimp only
    split
    · exact hdb
    rw [alone_query]
    split
    · exact activate_rule hdb fun db' => hnext _ db'
    · exact hdb
  · exact hdb

end Activations

section Runs

variable {host : Host} {db : Db}

theorem row_of_activated {m : PluginManifest} {db' : Db} (h : Activated host m db db')
  {householdId : Text} {row' : UnitRow} (hrow' : unit? db' (.household householdId) = some row') :
  ∃ row, unit? db (.household householdId) = some row ∧ row'.config = row.config ∧
   row'.dormantReason = reconciledReason host m (standing row) := by
 have hstanding := h.household householdId
 rw [hrow'] at hstanding
 cases hrow : unit? db (.household householdId) with
 | none => simp [hrow] at hstanding
 | some row =>
  rw [hrow] at hstanding
  simp only [Option.map_some, Option.some.injEq, standing, Prod.mk.injEq] at hstanding
  exact ⟨row, rfl, hstanding.1, hstanding.2⟩

theorem serves_of_reconciled {m : PluginManifest} {s : ConfigValue × Option PluginUnitDormantReason}
  (h : reconciledReason host m s = none) : m.scope = .household ∧ takes host m s.1 = true := by
 obtain ⟨config, reason⟩ := s
 cases hscope : m.scope with
 | server => simp [reconciledReason, hscope] at h
 | household =>
  refine ⟨rfl, ?_⟩
  by_contra htakes
  by_cases hneeds : reason = some .needsConfiguration
  · simp [reconciledReason, hscope, hneeds] at h
  · simp [reconciledReason, hscope, hneeds, htakes] at h

theorem Activated.good {m : PluginManifest} {db' : Db} (h : Activated host m db db') :
  Good host db' := by
 obtain ⟨p', hp', hm', hscope'⟩ := h.plugin
 constructor
 · intro q n hq hn
   rw [hp'] at hq
   cases hq
   rw [hm'] at hn
   cases hn
   exact hscope'
 · intro q n householdId row' hq hn hrow' hserves
   rw [hp'] at hq
   cases hq
   rw [hm'] at hn
   cases hn
   obtain ⟨row, hrow, hconfig, hreason⟩ := row_of_activated h hrow'
   obtain ⟨hscope, htakes⟩ := serves_of_reconciled (hreason.symm.trans hserves)
   refine ⟨hscope, ?_⟩
   rw [configConforms_eq, hconfig]
   exact htakes

theorem Installed.good (h : Installed db) : Good host db := by
 obtain ⟨p, m, hp, hm, hscope⟩ := h.plugin
 constructor
 · intro q n hq hn
   rw [hp] at hq
   cases hq
   rw [hm] at hn
   cases hn
   exact hscope
 · intro q n householdId row _ _ hrow
   rw [h.units householdId] at hrow
   cases hrow

theorem stage_good (hgood : Good host db) (input : StageInput) (clock : ℕ) :
  Good host (alone (stage host input) db [] clock) := by
 refine stage_rule (fun db' hplugin hunits => ?_) fun m db' h => h.good
 rcases hplugin with hsame | ⟨p, slot, hp, hp'⟩
 · exact hgood.congr hsame fun householdId => hunits _
 constructor
 · intro q m hq hm
   rw [hp'] at hq
   cases hq
   exact hgood.scope p m hp hm
 · intro q m householdId row hq hm hrow hserves
   rw [hp'] at hq
   cases hq
   rw [hunits] at hrow
   exact hgood.serving p m householdId row hp hm hrow hserves

theorem served_good (hgood : Good host db) {op : Operation}
  (hallowed : CreatesConforming host db op) (clock : ℕ) : Good host (served host op db clock) := by
 cases op with
 | enableHousehold input => exact enableHousehold_good hgood hallowed
 | updateHouseholdConfig householdId config authorized =>
  exact updateHouseholdConfig_good hgood config authorized
 | disableHousehold householdId authorized => exact setUnitEnabled_good hgood false authorized
 | stage input => exact stage_good hgood input clock
 | approve input => exact approve_rule hgood fun m db' h => h.good

theorem after_good (h : After host (CreatesConforming host) db) : Good host db := by
 induction h with
 | start db h => exact h.good
 | serve db op clock _ hallowed ih => exact served_good ih hallowed clock
 | other db w _ hw ih =>
  exact ih.congr (lookup_outside db hw rfl) fun householdId => lookup_outside db hw rfl

/-- Under a manifest with a household surface and this schema, the household's
    row serves. -/
def ServesUnder (schema householdId : Text) (db' : Db) : Prop :=
  ∀ p' m', plugin? db' = some p' → p'.manifestJson = .manifest m' → m'.scope = .household →
    m'.configSchema = schema → ∃ row', unit? db' (.household householdId) = some row' ∧
     row'.dormantReason = none

theorem Activated.servesUnder (hschema : ∀ m m' doc, m.configSchema = m'.configSchema →
   host.validateConfig m doc = host.validateConfig m' doc) (hgood : Good host db)
    {n : PluginManifest} {db' : Db}
  (h : Activated host n db db') {p : Plugin} {m : PluginManifest} (hp : plugin? db = some p)
  (hm : p.manifestJson = .manifest m) {householdId : Text} {row : UnitRow}
  (hrow : unit? db (.household householdId) = some row) (hserves : row.dormantReason = none) :
  ServesUnder m.configSchema householdId db' := by
 intro p' m' hp' hm' hscope hsame
 have hnext : n = m' := by
  obtain ⟨q, hq, hn, -⟩ := h.plugin
  rw [hp'] at hq
  cases hq
  rw [hm'] at hn
  cases hn
  rfl
 subst hnext
 have htakes : takes host n row.config = true := by
  have hconforms := (hgood.serving p m householdId row hp hm hrow hserves).2
  rw [configConforms_eq] at hconforms
  rw [← hconforms]
  cases row.config with
  | other value => rfl
  | object fields => simp only [takes, hschema n m fields hsame]
 have hreason : reconciledReason host n (standing row) = none := by
  simp [reconciledReason, standing, hscope, hserves, htakes]
 have hstanding := h.household householdId
 rw [hrow, Option.map_some, hreason] at hstanding
 obtain ⟨row', hrow', heq⟩ := Option.map_eq_some_iff.1 hstanding
 exact ⟨row', hrow', congrArg Prod.snd heq⟩

/-- An update that keeps the schema interrupts no household, in every sequence
    of requests that creates no row over a schema rejecting the empty document. -/
theorem activation_interrupts_nobody (hschema : ∀ m m' doc, m.configSchema = m'.configSchema →
      host.validateConfig m doc = host.validateConfig m' doc)
    (h : After host (CreatesConforming host) db) (op : Operation) (hop : op.activates = true) (clock : ℕ)
    (p p' : Plugin) (m m' : PluginManifest) (hp : plugin? db = some p) (hm : p.manifestJson = .manifest m)
    (hp' : plugin? (served host op db clock) = some p') (hm' : p'.manifestJson = .manifest m')
    (hscope : m'.scope = .household) (hsame : m'.configSchema = m.configSchema) (householdId : Text)
    (row : UnitRow) (hrow : unit? db (.household householdId) = some row)
     (hserves : row.dormantReason = none) :
    ∃ row', unit? (served host op db clock) (.household householdId) = some row' ∧
      row'.dormantReason = none := by
 have hgood := after_good h
 have hkept : ∀ db', unit? db' (.household householdId) = unit? db (.household householdId) →
   ServesUnder m.configSchema householdId db' :=
  fun db' heq _ _ _ _ _ _ => ⟨row, heq.trans hrow, hserves⟩
 have hserved : ServesUnder m.configSchema householdId (served host op db clock) := by
  cases op with
  | stage input =>
   exact stage_rule (fun db' _ hunits => hkept db' (hunits _)) fun n db' hactivated =>
    hactivated.servesUnder hschema hgood hp hm hrow hserves
  | approve input =>
   exact approve_rule (hkept db rfl) fun n db' hactivated =>
    hactivated.servesUnder hschema hgood hp hm hrow hserves
  | enableHousehold input => cases hop
  | updateHouseholdConfig householdId config authorized => cases hop
  | disableHousehold householdId authorized => cases hop
 exact hserved p' m' hp' hm' hscope hsame

end Runs

section Samples

def regionSchema : Text := "\x7b\"required\":[\"region\"]\x7d".toList

/-- A host whose validator knows the one schema; a document is the text between
    its braces. -/
def regionHost : Host :=
  ⟨⟨fun _ _ => []⟩, fun _ _ _ => true, fun m doc =>
    if m.configSchema = regionSchema ∧ doc = [] then .issues else .conforms⟩

def regionManifest (version : String) : PluginManifest where
  slug := "weather".toList
  version := version.toList
  scope := .household
  declares := []
  checks := []
  outboundDomains := .listed []
  writesCore := []
  configSchema := regionSchema
  requiresHouseholdConfig := false
  rest := []

def regionPlugin : Plugin where
  slug := "weather".toList
  version := "1.0.0".toList
  scope := .household
  enabled := true
  manifestJson := .manifest (regionManifest "1.0.0")
  config := emptyConfig
  installedSha256 := []
  installedById := "admin".toList
  installedAt := 0
  restartRequired := false
  pending := none
  uninstalledAt := none

def regionStore : Db := ofRows [⟨.plugin, regionPlugin⟩, ⟨.home "home".toList, ⟨false⟩⟩]

theorem regionStore_installed : Installed regionStore := by
 refine ⟨⟨regionPlugin, _, rfl, rfl, rfl⟩, fun householdId => ?_⟩
 simp only [regionStore, ofRows, List.foldr_cons, List.foldr_nil, unit?]
 rw [AList.lookup_insert_ne (by simp), AList.lookup_insert_ne (by simp)]
 rfl

def enableRegion (config : Option Text) : Operation := .enableHousehold ⟨"home".toList, config, true⟩

def stageRegion : Operation :=
  .stage ⟨.manifest (regionManifest "1.1.0"), List.replicate 64 'a', "admin".toList, true, true⟩

theorem regionHost_schema (m m' : PluginManifest) (doc : Text)
  (h : m.configSchema = m'.configSchema) :
  regionHost.validateConfig m doc = regionHost.validateConfig m' doc := by
 simp only [regionHost, h]

/-- A household that brought its document serves through the update. -/
theorem activation_interrupts_nobody_region :
    ∃ row', unit?
     (served regionHost stageRegion (served regionHost (enableRegion (some "region: eu".toList))
      regionStore 0) 9) (.household "home".toList) = some row' ∧ row'.dormantReason = none := by
 have hafter : After regionHost (CreatesConforming regionHost)
   (served regionHost (enableRegion (some "region: eu".toList)) regionStore 0) :=
  .serve _ _ _ (.start _ regionStore_installed) (fun h => by cases h)
 exact activation_interrupts_nobody regionHost_schema hafter stageRegion rfl 9
  regionPlugin { regionPlugin with
   version := "1.1.0".toList, manifestJson := .manifest (regionManifest "1.1.0"),
   installedSha256 := List.replicate 64 'a', restartRequired := true }
  (regionManifest "1.0.0") (regionManifest "1.1.0") (by decide +kernel) rfl (by decide +kernel) rfl rfl rfl
  "home".toList ⟨6, true, false, none, .object "region: eu".toList, none, none⟩ (by decide +kernel) rfl

/-- Enabling without a document stores the empty one unchecked, and the next
    update with the same schema puts the household to sleep. -/
theorem enabling_unchecked_interrupts :
    ¬ ∀ (host : Host), (∀ m m' doc, m.configSchema = m'.configSchema →
        host.validateConfig m doc = host.validateConfig m' doc) →
      ∀ (db : Db), After host (fun _ _ => True) db → ∀ (op : Operation), op.activates = true →
        ∀ (clock : ℕ) (p p' : Plugin) (m m' : PluginManifest), plugin? db = some p →
          p.manifestJson = .manifest m → plugin? (served host op db clock) = some p' →
          p'.manifestJson = .manifest m' → m'.scope = .household → m'.configSchema = m.configSchema →
          ∀ (householdId : Text) (row : UnitRow), unit? db (.household householdId) = some row →
            row.dormantReason = none → ∃ row', unit? (served host op db clock) (.household householdId) =
              some row' ∧ row'.dormantReason = none := by
 intro h
 obtain ⟨row', hrow', hserves⟩ := h regionHost regionHost_schema
  (served regionHost (enableRegion none) regionStore 0)
  (.serve _ _ _ (.start _ regionStore_installed) trivial) stageRegion rfl 9 regionPlugin
  { regionPlugin with
    version := "1.1.0".toList, manifestJson := .manifest (regionManifest "1.1.0"),
    installedSha256 := List.replicate 64 'a', restartRequired := true }
  (regionManifest "1.0.0") (regionManifest "1.1.0") (by decide +kernel) rfl (by decide +kernel) rfl rfl rfl
  "home".toList ⟨6, true, false, none, .object [], none, none⟩ (by decide +kernel) rfl
 have hdormant :
  (unit? (served regionHost stageRegion (served regionHost (enableRegion none) regionStore 0) 9)
   (.household "home".toList)).map (·.dormantReason) = some (some .needsConfiguration) := by
  decide +kernel
 rw [hrow', Option.map_some, hserves] at hdormant
 cases hdormant

end Samples

end BoardGamesEmpire.HouseholdDormancy
