import BoardGamesEmpire.PluginActivation

set_option autoImplicit false

/-!
# Whom an activation suspends

The activation reports, for every unit it suspends, what the unit still owes;
the late-acceptance check computes the same from the unit's own decisions. This
module says exactly when the two agree.
-/
namespace BoardGamesEmpire.PluginSuspension
open JsText Manifest ReadCommitted PluginStore PluginEscalation PluginActivation

section Reconsent

theorem filterMap_guard {α β : Type} (p : α → Bool) (f : α → β) (l : List α) :
  (l.filterMap fun x => if p x then some (f x) else none) = (l.filter p).map f := by
 induction l with
 | nil => rfl
 | cons x l ih => cases h : p x <;> simp [h, ih]

variable (active next : PluginManifestValidationResult) (axis : PluginConsentScope)

/-- A check of the next manifest that this axis must decide anew, whatever is on record. -/
def isNewlyRequired (check : ComparisonCheck) : Bool :=
  check.consentScope == axis && check.required &&
    match previousCheck (comparisonView active) check.canonicalSlug with
    | none => true
    | some previous => !(previous.consentScope == axis && previous.required)

def newlyRequired : List Text :=
  ((comparisonView next).checks.filter (isNewlyRequired active axis)).map (·.canonicalSlug)

def isStale (corePermissions : List (Text × Permission)) (entry : GrantKey × PluginGrant) : Bool :=
  entry.1.scopeType == grantScopeOf axis &&
    (riskEscalation (comparisonView active) (comparisonView next)
      (currentRiskBySlug next corePermissions) (grantView entry)).isSome

theorem checkEscalation_reconsent (check : ComparisonCheck) :
  (checkEscalation (comparisonView active) check).bind (reconsentSlug axis) =
   if isNewlyRequired active axis check then some check.canonicalSlug else none := by
 unfold checkEscalation isNewlyRequired
 cases hprev : previousCheck (comparisonView active) check.canonicalSlug with
 | none => cases check.required <;> simp [reconsentSlug]
 | some previous =>
  by_cases hscope : check.consentScope = previous.consentScope
  · cases check.required <;> cases hbefore : previous.required <;>
     simp [hscope, hbefore, reconsentSlug]
  · by_cases haxis : check.consentScope = axis
    · have hne : previous.consentScope ≠ axis := fun h => hscope (haxis.trans h.symm)
      subst haxis
      cases check.required <;> simp [hscope, hne, reconsentSlug]
    · cases check.required <;> simp [hscope, haxis, reconsentSlug]

theorem riskEscalation_reconsent (corePermissions : List (Text × Permission))
  (entry : GrantKey × PluginGrant) :
  (riskEscalation (comparisonView active) (comparisonView next)
    (currentRiskBySlug next corePermissions) (grantView entry)).bind (reconsentSlug axis) =
   if isStale active next axis corePermissions entry then some entry.1.permissionSlug else none := by
 unfold isStale
 cases hrisk : riskEscalation (comparisonView active) (comparisonView next)
   (currentRiskBySlug next corePermissions) (grantView entry) with
 | none => simp
 | some escalation =>
  obtain ⟨-, -, -, current, -, -, rfl⟩ := riskEscalation_some.1 hrisk
  simp [reconsentSlug, grantView]

theorem reconsentSlugs_compare (haxis : axis ≠ .server) (corePermissions : List (Text × Permission))
  (grants : List (GrantKey × PluginGrant)) :
  reconsentSlugs (compare active next corePermissions grants) axis =
   newlyRequired active next axis ++
    (grants.filter (isStale active next axis corePermissions)).map (·.1.permissionSlug) := by
 have hlist : reconsentSlugs (compare active next corePermissions grants) axis =
   (compare active next corePermissions grants).escalations.filterMap (reconsentSlug axis) := by
  cases axis with
  | server => exact absurd rfl haxis
  | household | user => rfl
 rw [hlist, escalations_filterMap active next corePermissions grants (fun _ => rfl) rfl fun _ => rfl]
 simp only [checkEscalation_reconsent, riskEscalation_reconsent, filterMap_guard]
 rfl

end Reconsent

section Condition

variable (a : Activation) (db : Db)

def RequiredAt (validated : PluginManifestValidationResult) (axis : PluginConsentScope)
    (slug : Text) : Prop :=
  ∃ check ∈ validated.permissionChecks, check.canonicalSlug = slug ∧ check.consentScope = axis ∧
    check.required = true

def NewlyRequired (axis : PluginConsentScope) (slug : Text) : Prop :=
  RequiredAt a.next axis slug ∧ ¬ RequiredAt a.active axis slug

def currentRisk (slug : Text) : RiskLevel :=
  (mapGet (currentRiskBySlug a.next a.corePermissions) slug).getD .low

def Covers (unit : UnitRef) (slug : Text) : Prop :=
  ∃ row, grant? db (unitGrant unit slug) = some row ∧ row.status = .granted ∧
    riskCovers row.decidedRiskLevel (currentRisk a slug) = true

/-- The unit granted the slug, both manifests ask the same scope for it (or only
    the next asks at all), and the recorded risk no longer covers today's. -/
def Stale (unit : UnitRef) (slug : Text) : Prop :=
  (∃ check ∈ a.next.permissionChecks, check.canonicalSlug = slug ∧
    ∀ previous ∈ a.active.permissionChecks, previous.canonicalSlug = slug →
      previous.consentScope = check.consentScope) ∧
  ∃ row, grant? db (unitGrant unit slug) = some row ∧ row.status = .granted ∧
    riskCovers row.decidedRiskLevel (currentRisk a slug) = false

/-- When the activation's report on one unit can be trusted. `single`: at most
    one reason names an uncovered slug. `asked`: what another unit's stale
    decision puts on this unit's list is a check of its axis, required unless
    the unit's own decision is stale too. `own`: no unit is suspended on
    another unit's decisions alone. -/
structure Trusted (unit : UnitRef) : Prop where
  single : ∀ slug, ¬ Covers a db unit slug → ∀ other : UnitRef, other.consentScope = unit.consentScope →
    Stale a db other slug → ¬ NewlyRequired a unit.consentScope slug ∧
      ∀ third : UnitRef, third.consentScope = unit.consentScope → Stale a db third slug → third = other
  asked : ∀ slug, ¬ Covers a db unit slug → ∀ other : UnitRef, other.consentScope = unit.consentScope →
    Stale a db other slug → ∃ check ∈ a.next.permissionChecks, check.canonicalSlug = slug ∧
      check.consentScope = unit.consentScope ∧ (check.required = true ∨ Stale a db unit slug)
  own : ∀ slug, ¬ Covers a db unit slug → ∀ other : UnitRef, other.consentScope = unit.consentScope →
    Stale a db other slug → ∃ reason, ¬ Covers a db unit reason ∧
      (NewlyRequired a unit.consentScope reason ∨ Stale a db unit reason)

end Condition

section Reasons

variable {a : Activation} {db : Db} {axis : PluginConsentScope} {slug : Text}

theorem mem_newlyRequired (hactive : Validated a.active) :
  slug ∈ newlyRequired a.active a.next axis ↔ NewlyRequired a axis slug := by
 have hprevious : ∀ s, (match previousCheck (comparisonView a.active) s with
   | none => true
   | some previous => !(previous.consentScope == axis && previous.required)) = true ↔
    ¬ RequiredAt a.active axis s := by
  intro s
  cases hprev : previousCheck (comparisonView a.active) s with
  | none =>
   refine iff_of_true rfl ?_
   rintro ⟨check, hcheck, rfl, -, -⟩
   have hsome := (previousCheck_iff hactive).2 ⟨check, hcheck, rfl, rfl⟩
   rw [hprev] at hsome
   cases hsome
  | some previous =>
   obtain ⟨check, hcheck, rfl, rfl⟩ := (previousCheck_iff hactive).1 hprev
   have honly : RequiredAt a.active axis check.canonicalSlug ↔
     check.consentScope = axis ∧ check.required = true := by
    constructor
    · rintro ⟨other, hother, hslug, hscope, hrequired⟩
      rw [← hactive.check_eq hother hcheck hslug]
      exact ⟨hscope, hrequired⟩
    · rintro ⟨hscope, hrequired⟩
      exact ⟨check, hcheck, rfl, hscope, hrequired⟩
   rw [honly]
   simp only [Bool.not_eq_true', ← Bool.not_eq_true, Bool.and_eq_true, beq_iff_eq]
 simp only [newlyRequired, isNewlyRequired, List.mem_map, List.mem_filter, Bool.and_eq_true, hprevious,
  beq_iff_eq]
 constructor
 · rintro ⟨view, ⟨hview, ⟨hscope, hrequired⟩, hnot⟩, rfl⟩
   obtain ⟨check, hcheck, rfl⟩ := List.mem_map.1 hview
   exact ⟨⟨check, hcheck, rfl, hscope, hrequired⟩, hnot⟩
 · rintro ⟨⟨check, hcheck, rfl, hscope, hrequired⟩, hnot⟩
   exact ⟨_, ⟨List.mem_map_of_mem hcheck, ⟨hscope, hrequired⟩, hnot⟩, rfl⟩

theorem newlyRequired_nodup (hnext : Validated a.next) :
  (newlyRequired a.active a.next axis).Nodup := by
 have hchecks : ((comparisonView a.next).checks.map (·.canonicalSlug)).Nodup := by
  rw [comparisonView, List.map_map, hnext.checks]
  exact canonicalSlugs_nodup hnext.valid
 exact hchecks.sublist (List.Sublist.map _ List.filter_sublist)

theorem currentRisk_of_check (hnext : Validated a.next) {check : NormalizedPermissionRequest}
  (hcheck : check ∈ a.next.permissionChecks) :
  mapGet (currentRiskBySlug a.next a.corePermissions) check.canonicalSlug =
   some (checkRisk a.corePermissions check) := by
 rw [mapGet_iff]
 · exact List.mem_map_of_mem hcheck
 · intro k v v' hv hv'
   obtain ⟨check, hcheck, heq⟩ := List.mem_map.1 hv
   obtain ⟨check', hcheck', heq'⟩ := List.mem_map.1 hv'
   simp only [Prod.mk.injEq] at heq heq'
   rw [← heq.2, ← heq'.2, hnext.check_eq hcheck hcheck' (heq.1.trans heq'.1.symm)]

theorem unitGrant_key {key : GrantKey} (haxis : axis ≠ .server)
  (h : key.scopeType = grantScopeOf axis) :
  ∃ unit : UnitRef, unit.consentScope = axis ∧ unitGrant unit key.permissionSlug = key := by
 obtain ⟨scope, id, slug⟩ := key
 cases axis with
 | server => exact absurd rfl haxis
 | household =>
  exact ⟨.household id, rfl, by simp_all [unitGrant, UnitRef.scope, UnitRef.scopeId, grantScopeOf]⟩
 | user => exact ⟨.user id, rfl, by simp_all [unitGrant, UnitRef.scope, UnitRef.scopeId, grantScopeOf]⟩

theorem unitGrant_unit {unit other : UnitRef} {slug slug' : Text}
  (haxis : unit.consentScope = other.consentScope)
  (h : unitGrant unit slug = unitGrant other slug') : unit = other := by
 have hid : unit.scopeId = other.scopeId := congrArg GrantKey.scopeId h
 cases unit <;> cases other <;> simp_all [UnitRef.consentScope, UnitRef.scopeId]

theorem scope_eq (unit : UnitRef) : unit.scope = grantScopeOf unit.consentScope := by
 cases unit <;> rfl

theorem isStale_iff (hactive : Validated a.active) (hnext : Validated a.next) {unit : UnitRef}
  {row : PluginGrant} (hrow : grant? db (unitGrant unit slug) = some row) :
  isStale a.active a.next unit.consentScope a.corePermissions (unitGrant unit slug, row) = true ↔
   Stale a db unit slug := by
 have hscopes : (∀ view ∈ (comparisonView a.next).checks, view.canonicalSlug = slug →
   scopeChanged (comparisonView a.active) view = false) ↔
   ∀ check ∈ a.next.permissionChecks, check.canonicalSlug = slug →
    ∀ previous ∈ a.active.permissionChecks, previous.canonicalSlug = slug →
     previous.consentScope = check.consentScope := by
  simp only [comparisonView, List.forall_mem_map]
  refine forall_congr' fun check => imp_congr_right fun _ => imp_congr_right fun hslug => ?_
  subst hslug
  cases hprev : previousCheck (comparisonView a.active) check.canonicalSlug with
  | none =>
   refine iff_of_true (by simp only [comparisonView] at hprev; simp [scopeChanged, hprev]) ?_
   intro previous hprevious hslug
   have := (previousCheck_iff hactive).2 ⟨previous, hprevious, hslug, rfl⟩
   rw [hprev] at this
   cases this
  | some view =>
   obtain ⟨previous, hprevious, hslug, rfl⟩ := (previousCheck_iff hactive).1 hprev
   simp only [comparisonView] at hprev
   simp only [scopeChanged, hprev, bne_eq_false_iff_eq]
   constructor
   · intro heq other hother hotherslug
     rw [hactive.check_eq hother hprevious (hotherslug.trans hslug.symm), heq]
   · exact fun h => (h previous hprevious hslug).symm
 simp only [isStale, Bool.and_eq_true, beq_iff_eq, Option.isSome_iff_exists, riskEscalation_some,
  grantView, unitGrant, scope_eq, true_and, hscopes]
 constructor
 · rintro ⟨escalation, ⟨view, hview, hslug⟩, hsame, hgranted, risk, hrisk, hcovers, -⟩
   obtain ⟨check, hcheck, rfl⟩ := List.mem_map.1 hview
   refine ⟨⟨check, hcheck, hslug, hsame check hcheck hslug⟩, row, hrow, hgranted, ?_⟩
   rw [currentRisk, hrisk]
   exact hcovers
 · rintro ⟨⟨check, hcheck, rfl, hsame⟩, row', hrow', hgranted, hcovers⟩
   obtain rfl : row = row' := Option.some.inj (hrow.symm.trans hrow')
   rw [currentRisk, currentRisk_of_check hnext hcheck] at hcovers
   refine ⟨_, ⟨_, List.mem_map_of_mem hcheck, rfl⟩, ?_, hgranted, _, currentRisk_of_check hnext hcheck,
    hcovers, rfl⟩
   intro other hother hslug
   rw [hnext.check_eq hother hcheck hslug]
   exact hsame

end Reasons

section Alone

def compared (a : Activation) (db : Db) : Activation :=
  let corePermissions := corePermissionsAt db a.next.externalPermissionChecks
  { a with corePermissions, comparison := compare a.active a.next corePermissions (grantRows db) }

def activated (a : Activation) (clock : ℕ) (db : Db) : Except WriteFailure Db :=
  applySteps (compared a db)
    (activationSteps (compared a db) (seededChecks (compared a db) (serverRows db))) clock db

theorem applySteps_frame {a : Activation} {steps : List ActivationStep} {clock : ℕ} {v after : Db}
  {k : Key} (hframe : ∀ step ∈ steps, ∀ clock x, stepRow a step clock k x = x)
  (h : applySteps a steps clock v = .ok after) : after.lookup k = v.lookup k := by
 induction steps generalizing clock v with
 | nil =>
  cases h
  rfl
 | cons step rest ih =>
  simp only [applySteps] at h
  split at h
  · cases h
  · rename_i writes hwrites
    rw [ih (fun s hs => hframe s (List.mem_cons_of_mem _ hs)) h, lookup_step hwrites]
    exact hframe step List.mem_cons_self clock _

theorem mem_removed_steps {a : Activation} {slugs : List Text}
  {seeded : List NormalizedPermissionRequest} (h : .deleteGrants slugs ∈ activationSteps a seeded) :
  slugs = (declaredSlugDiff a.active a.next).removed ∨
   slugs = requestedSlugsDropped a.active a.next (declaredSlugDiff a.active a.next).removed := by
 simp only [activationSteps, removalSteps, List.mem_append, List.mem_map, reduceCtorEq, and_false,
  exists_false, or_false] at h
 rcases h with h | h
 · split_ifs at h <;> simp_all
 · split_ifs at h <;> simp_all

theorem mem_move_steps {a : Activation} {slug : Text} {scopeType : PluginGrantScope}
  {seeded : List NormalizedPermissionRequest}
  (h : .moveScope slug scopeType ∈ activationSteps a seeded) :
  (slug, scopeType) ∈ scopeMoves a.comparison := by
 simp only [activationSteps, removalSteps, List.mem_append, List.mem_map, reduceCtorEq, and_false,
  exists_false, or_false, ActivationStep.moveScope.injEq] at h
 rcases h with h | ⟨move, hmove, rfl, rfl⟩
 · split_ifs at h <;> simp_all
 · exact hmove

theorem activated_unitGrant {a : Activation} {clock : ℕ} {db after : Db}
  (hactive : Validated a.active) (hnext : Validated a.next)
  (hrun : activated a clock db = .ok after) {check : NormalizedPermissionRequest}
  (hcheck : check ∈ a.next.permissionChecks) {unit : UnitRef}
  (hmoved : (check.canonicalSlug, unit.scope) ∉ scopeMoves (compared a db).comparison) :
  grant? after (unitGrant unit check.canonicalSlug) = grant? db (unitGrant unit check.canonicalSlug) := by
 have hserver : unit.scope ≠ .server := by cases unit <;> nofun
 refine applySteps_frame ?_ hrun
 intro step hstep clock x
 cases step with
 | deleteGrants slugs =>
  refine if_neg ?_
  rw [List.contains_iff_mem]
  rcases mem_removed_steps hstep with rfl | rfl
  · exact requested_notRemoved hactive hnext hcheck
  · intro hdropped
    exact (mem_requestedSlugsDropped.1 hdropped).2.1 check hcheck rfl
 | moveScope slug scopeType =>
  refine if_neg ?_
  rw [Bool.and_eq_true, beq_iff_eq, beq_iff_eq]
  rintro ⟨hslug, hscope⟩
  have hmem := mem_move_steps hstep
  rw [← hslug, ← hscope] at hmem
  exact hmoved hmem
 | reStamp slug => exact if_neg fun heq => hserver (congrArg GrantKey.scopeType heq)
 | seed seededCheck => exact if_neg fun heq => hserver (congrArg GrantKey.scopeType heq)
 | deletePermissions _ => rfl
 | createPermission _ => rfl

def Reason (a : Activation) (db : Db) (axis : PluginConsentScope) (slug : Text) : Prop :=
  NewlyRequired a axis slug ∨ ∃ other : UnitRef, other.consentScope = axis ∧ Stale a db other slug

theorem mem_staleRows {a : Activation} {db : Db} (hactive : Validated a.active)
  (hnext : Validated a.next) {axis : PluginConsentScope} (haxis : axis ≠ .server) (key : GrantKey)
  (row : PluginGrant) :
  (key, row) ∈ (grantRows db).filter (isStale a.active a.next axis a.corePermissions) ↔
   grant? db key = some row ∧ ∃ unit : UnitRef, unit.consentScope = axis ∧
    unitGrant unit key.permissionSlug = key ∧ Stale a db unit key.permissionSlug := by
 rw [List.mem_filter, mem_grantRows]
 refine and_congr_right fun hrow => ?_
 constructor
 · intro hstale
   have hscope : key.scopeType = grantScopeOf axis := by
    simp only [isStale, Bool.and_eq_true, beq_iff_eq] at hstale
    exact hstale.1
   obtain ⟨unit, rfl, hkey⟩ := unitGrant_key haxis hscope
   refine ⟨unit, rfl, hkey, ?_⟩
   rw [← hkey] at hrow hstale
   exact (isStale_iff hactive hnext hrow).1 hstale
 · rintro ⟨unit, rfl, hkey, hstale⟩
   rw [← hkey] at hrow ⊢
   exact (isStale_iff hactive hnext hrow).2 hstale

theorem mem_reconsentSlugs {a : Activation} {db : Db} (hactive : Validated a.active)
  (hnext : Validated a.next) {axis : PluginConsentScope} (haxis : axis ≠ .server) {slug : Text} :
  slug ∈ reconsentSlugs (compared a db).comparison axis ↔ Reason (compared a db) db axis slug := by
 change slug ∈ reconsentSlugs (compare a.active a.next _ _) axis ↔ _
 rw [reconsentSlugs_compare a.active a.next axis haxis, List.mem_append]
 have hrows := @mem_staleRows (compared a db) db hactive hnext _ haxis
 refine or_congr (mem_newlyRequired hactive) ?_
 simp only [List.mem_map, Prod.exists]
 constructor
 · rintro ⟨key, row, hmem, rfl⟩
   obtain ⟨-, unit, hunit, -, hstale⟩ := (hrows key row).1 hmem
   exact ⟨unit, hunit, hstale⟩
 · rintro ⟨unit, hunit, hstale⟩
   obtain ⟨row, hrow, -⟩ := hstale.2
   exact ⟨unitGrant unit slug, row, (hrows _ _).2 ⟨hrow, unit, hunit, rfl, hstale⟩, rfl⟩

theorem Reason.check {a : Activation} {db : Db} (hactive : Validated a.active)
  (hnext : Validated a.next) {axis : PluginConsentScope} {slug : Text}
  (h : Reason (compared a db) db axis slug) :
  ∃ check ∈ a.next.permissionChecks, check.canonicalSlug = slug ∧
   (check.canonicalSlug, grantScopeOf axis) ∉ scopeMoves (compared a db).comparison := by
 have hmove : ∀ check ∈ a.next.permissionChecks,
   (check.consentScope = axis ∨ ∀ previous ∈ a.active.permissionChecks,
    previous.canonicalSlug = check.canonicalSlug → previous.consentScope = check.consentScope) →
   (check.canonicalSlug, grantScopeOf axis) ∉ scopeMoves (compared a db).comparison := by
  intro check hcheck hscope hmoves
  obtain ⟨view, hview, hslug, previous, hprevious, hne, hfrom⟩ := mem_scopeMoves.1 hmoves
  obtain ⟨other, hother, rfl⟩ := List.mem_map.1 hview
  obtain rfl : other = check := hnext.check_eq hother hcheck hslug
  obtain ⟨before, hbefore, hbeforeslug, rfl⟩ := (previousCheck_iff hactive).1 hprevious
  rcases hscope with hscope | hscope
  · exact hne (hscope.trans (grantScopeOf_injective hfrom).symm)
  · exact hne (hscope before hbefore hbeforeslug).symm
 rcases h with ⟨⟨check, hcheck, rfl, hscope, -⟩, -⟩ | ⟨other, -, ⟨check, hcheck, rfl, hscope⟩, -⟩
 · exact ⟨check, hcheck, rfl, hmove check hcheck (.inl hscope)⟩
 · exact ⟨check, hcheck, rfl, hmove check hcheck (.inr hscope)⟩

theorem decided_get {axis : PluginConsentScope} {units : List (UnitRef × UnitRow)}
  {slugs : List Text} {v : Db} {unit : UnitRef} (haxis : unit.consentScope = axis)
  (hunit : ∃ row, (unit, row) ∈ units) {slug : Text} (hslug : slug ∈ slugs) (risk : RiskLevel) :
  mapGet ((grantedTo axis units slugs v).map fun entry =>
    ((entry.1.scopeId, entry.1.permissionSlug), entry.2.decidedRiskLevel)) (unit.scopeId, slug) =
   some risk ↔ ∃ row, grant? v (unitGrant unit slug) = some row ∧ row.status = .granted ∧
    row.decidedRiskLevel = risk := by
 subst haxis
 rw [mapGet_iff]
 · simp only [grantedTo, List.mem_map, List.mem_filter, mem_grantRows, Prod.exists, Bool.and_eq_true,
    beq_iff_eq, List.contains_iff_mem, Prod.mk.injEq]
   constructor
   · rintro ⟨⟨scope, id, slug'⟩, row, ⟨hrow, ⟨⟨hscope, -⟩, hgranted⟩, -⟩, ⟨hid, hslug'⟩, hrisk⟩
     refine ⟨row, ?_, hgranted, hrisk⟩
     rw [← hrow]
     simp only at hscope hid hslug'
     simp [unitGrant, scope_eq, hscope, hid, hslug']
   · rintro ⟨row, hrow, hgranted, hrisk⟩
     obtain ⟨unitRow, hmem⟩ := hunit
     exact ⟨unitGrant unit slug, row, ⟨hrow, ⟨⟨scope_eq unit, unit, unitRow, hmem, rfl⟩, hgranted⟩, hslug⟩,
      ⟨rfl, rfl⟩, hrisk⟩
 · intro k v₁ v₂ h₁ h₂
   simp only [grantedTo, List.mem_map, List.mem_filter, mem_grantRows, Prod.exists, Bool.and_eq_true,
    beq_iff_eq] at h₁ h₂
   obtain ⟨⟨scope, id, slug₁⟩, row, ⟨hrow, ⟨⟨hscope, -⟩, -⟩, -⟩, heq⟩ := h₁
   obtain ⟨⟨scope', id', slug₂⟩, row', ⟨hrow', ⟨⟨hscope', -⟩, -⟩, -⟩, heq'⟩ := h₂
   simp only at hscope hscope'
   subst hscope hscope'
   simp only [Prod.mk.injEq] at heq heq'
   obtain ⟨rfl, rfl⟩ := heq
   obtain ⟨heq', rfl⟩ := heq'
   simp only [Prod.mk.injEq] at heq'
   obtain ⟨rfl, rfl⟩ := heq'
   rw [Option.some.inj (hrow.symm.trans hrow')]

theorem outstanding_eq {a : Activation} {clock : ℕ} {db after : Db} (hactive : Validated a.active)
  (hnext : Validated a.next) (hrun : activated a clock db = .ok after) {unit : UnitRef}
  (hserving : ∃ row, (unit, row) ∈ servingUnits unit.consentScope after) (slug : Text) :
  (match mapGet ((grantedTo unit.consentScope (servingUnits unit.consentScope after)
    (reconsentSlugs (compared a db).comparison unit.consentScope) after).map fun entry =>
     ((entry.1.scopeId, entry.1.permissionSlug), entry.2.decidedRiskLevel)) (unit.scopeId, slug) with
   | none => true
   | some decided => !riskCovers decided (currentRisk (compared a db) slug)) = true ∧
  slug ∈ reconsentSlugs (compared a db).comparison unit.consentScope ↔
   Reason (compared a db) db unit.consentScope slug ∧ ¬ Covers (compared a db) db unit slug := by
 have haxis : unit.consentScope ≠ .server := by cases unit <;> nofun
 rw [mem_reconsentSlugs hactive hnext haxis, and_comm]
 refine and_congr_right fun hreason => ?_
 obtain ⟨check, hcheck, rfl, hmoved⟩ := hreason.check hactive hnext
 have hkept := activated_unitGrant hactive hnext hrun hcheck (scope_eq unit ▸ hmoved)
 have hlisted := (mem_reconsentSlugs hactive hnext haxis).2 hreason
 have hget := fun risk => decided_get (v := after) rfl hserving hlisted risk
 rw [hkept] at hget
 cases hdecided : mapGet ((grantedTo unit.consentScope (servingUnits unit.consentScope after)
   (reconsentSlugs (compared a db).comparison unit.consentScope) after).map fun entry =>
    ((entry.1.scopeId, entry.1.permissionSlug), entry.2.decidedRiskLevel))
   (unit.scopeId, check.canonicalSlug) with
 | none =>
  refine iff_of_true rfl ?_
  rintro ⟨row, hrow, hgranted, -⟩
  have hsome := (hget row.decidedRiskLevel).2 ⟨row, hrow, hgranted, rfl⟩
  rw [hdecided] at hsome
  cases hsome
 | some risk =>
  obtain ⟨row, hrow, hgranted, rfl⟩ := (hget risk).1 hdecided
  rw [Bool.not_eq_true', ← Bool.not_eq_true]
  refine not_congr ⟨fun h => ⟨row, hrow, hgranted, h⟩, ?_⟩
  rintro ⟨row', hrow', -, hcovers⟩
  rwa [Option.some.inj (hrow.symm.trans hrow')]

end Alone

section Report

variable {a : Activation} {clock : ℕ} {db after : Db} {unit : UnitRef}

def reported (a : Activation) (db after : Db) (unit : UnitRef) : List Text :=
  outstandingOf (grantedTo unit.consentScope (servingUnits unit.consentScope after)
    (reconsentSlugs (compared a db).comparison unit.consentScope) after)
    (reconsentSlugs (compared a db).comparison unit.consentScope)
    (currentRiskBySlug (compared a db).next (compared a db).corePermissions) unit

theorem mem_reported (hactive : Validated a.active) (hnext : Validated a.next)
  (hrun : activated a clock db = .ok after)
  (hserving : ∃ row, (unit, row) ∈ servingUnits unit.consentScope after) (slug : Text) :
  slug ∈ reported a db after unit ↔
   Reason (compared a db) db unit.consentScope slug ∧ ¬ Covers (compared a db) db unit slug := by
 rw [← outstanding_eq hactive hnext hrun hserving slug, and_comm]
 exact List.mem_filter

theorem nodup_append_filter_map {α β : Type} [DecidableEq β] (p : β → Bool) (f : α → β) {l : List β}
  {m : List α} (hl : l.Nodup) (hm : m.Nodup) :
  ((l ++ m.map f).filter p).Nodup ↔
   (∀ x ∈ m, p (f x) = true → f x ∉ l ∧ ∀ y ∈ m, f y = f x → y = x) := by
 rw [List.filter_append, List.filter_map, List.nodup_append,
  List.nodup_map_iff_inj_on (hm.filter _)]
 simp only [hl.filter p, true_and, List.mem_filter, List.mem_map, Function.comp_apply]
 constructor
 · rintro ⟨hinj, hdisjoint⟩ x hx hpx
   refine ⟨fun hin => hdisjoint (f x) ⟨hin, hpx⟩ (f x) ⟨x, ⟨hx, hpx⟩, rfl⟩ rfl, fun y hy hyx => ?_⟩
   exact hinj y ⟨hy, hyx ▸ hpx⟩ x ⟨hx, hpx⟩ hyx
 · intro h
   refine ⟨fun x hx y hy hxy => (h y hy.1 hy.2).2 x hx.1 hxy, ?_⟩
   rintro b ⟨hb, -⟩ c ⟨x, ⟨hx, hpx⟩, rfl⟩ rfl
   exact (h x hx hpx).1 hb

theorem reported_nodup (hactive : Validated a.active) (hnext : Validated a.next)
  (hrun : activated a clock db = .ok after)
  (hserving : ∃ row, (unit, row) ∈ servingUnits unit.consentScope after) :
  (reported a db after unit).Nodup ↔
   ∀ slug, ¬ Covers (compared a db) db unit slug → ∀ other : UnitRef,
    other.consentScope = unit.consentScope → Stale (compared a db) db other slug →
     ¬ NewlyRequired (compared a db) unit.consentScope slug ∧ ∀ third : UnitRef,
      third.consentScope = unit.consentScope → Stale (compared a db) db third slug →
       third = other := by
 have haxis : unit.consentScope ≠ .server := by cases unit <;> nofun
 have hkeys : ((grantRows db).filter (isStale a.active a.next unit.consentScope
   (compared a db).corePermissions)).Nodup := ((grantRows_nodup db).of_map _).filter _
 have hsplit : reconsentSlugs (compared a db).comparison unit.consentScope = _ :=
  reconsentSlugs_compare a.active a.next unit.consentScope haxis (compared a db).corePermissions
   (grantRows db)
 have hrows := @mem_staleRows (compared a db) db hactive hnext _ haxis
 have hfilter := outstanding_eq hactive hnext hrun hserving
 unfold reported outstandingOf
 rw [hsplit] at hfilter ⊢
 rw [nodup_append_filter_map _ _ (newlyRequired_nodup hnext) hkeys]
 constructor
 · intro h slug hcovers other hother hstale
   obtain ⟨row, hrow, -⟩ := hstale.2
   have hin := (hrows _ _).2 ⟨hrow, other, hother, rfl, hstale⟩
   obtain ⟨hnew, honly⟩ := h _ hin ((hfilter slug).2 ⟨.inr ⟨other, hother, hstale⟩, hcovers⟩).1
   refine ⟨fun hrequired => hnew ((mem_newlyRequired hactive).2 hrequired), ?_⟩
   intro third hthird hstale'
   obtain ⟨row', hrow', -⟩ := hstale'.2
   have hin' := (hrows _ _).2 ⟨hrow', third, hthird, rfl, hstale'⟩
   exact unitGrant_unit (hthird.trans hother.symm) (congrArg Prod.fst (honly _ hin' rfl))
 · rintro h ⟨key, row⟩ hmem hpass
   obtain ⟨hrow, other, hother, hkey, hstale⟩ := (hrows key row).1 hmem
   have hlisted := List.mem_append_right (newlyRequired a.active a.next unit.consentScope)
    (List.mem_map_of_mem (f := fun entry : GrantKey × PluginGrant => entry.1.permissionSlug) hmem)
   obtain ⟨-, hcovers⟩ := (hfilter key.permissionSlug).1 ⟨hpass, hlisted⟩
   obtain ⟨hnew, honly⟩ := h _ hcovers other hother hstale
   refine ⟨fun hin => hnew ((mem_newlyRequired (a := compared a db) hactive).1 hin), ?_⟩
   rintro ⟨key', row'⟩ hmem' hslug
   obtain ⟨hrow', third, hthird, hkey', hstale'⟩ := (hrows key' row').1 hmem'
   simp only at hslug
   rw [hslug] at hkey' hstale'
   obtain rfl := honly third hthird hstale'
   obtain rfl : key' = key := hkey'.symm.trans hkey
   rw [Option.some.inj (hrow'.symm.trans hrow)]

theorem activated_frame (hrun : activated a clock db = .ok after) {k : Key}
  (hk : (∀ key, k ≠ .grant key) ∧ ∀ slug, k ≠ .declared slug) : after.lookup k = db.lookup k := by
 refine applySteps_frame ?_ hrun
 intro step _ clock x
 cases k with
 | grant key => exact absurd rfl (hk.1 key)
 | declared slug => exact absurd rfl (hk.2 slug)
 | plugin | unit _ | permission _ | home _ => rfl

theorem grantedOn_get {v : Db} {checks : List NormalizedPermissionRequest} {slug : Text}
  (hslug : ∃ check ∈ checks, check.canonicalSlug = slug) {risk : RiskLevel} :
  mapGet ((grantedOn unit checks v).map fun entry => (entry.1.permissionSlug, entry.2.decidedRiskLevel))
   slug = some risk ↔ ∃ row, grant? v (unitGrant unit slug) = some row ∧ row.status = .granted ∧
    row.decidedRiskLevel = risk := by
 rw [mapGet_iff]
 · simp only [grantedOn, List.mem_map, List.mem_filter, mem_grantRows, Prod.exists, Bool.and_eq_true,
    beq_iff_eq, List.contains_iff_mem, Prod.mk.injEq]
   constructor
   · rintro ⟨⟨scope, id, slug'⟩, row, ⟨hrow, ⟨⟨rfl, rfl⟩, hgranted⟩, -⟩, rfl, hrisk⟩
     exact ⟨row, hrow, hgranted, hrisk⟩
   · rintro ⟨row, hrow, hgranted, hrisk⟩
     exact ⟨unitGrant unit slug, row, ⟨hrow, ⟨⟨rfl, rfl⟩, hgranted⟩, hslug⟩, rfl, hrisk⟩
 · intro k v₁ v₂ h₁ h₂
   simp only [grantedOn, List.mem_map, List.mem_filter, mem_grantRows, Prod.exists, Bool.and_eq_true,
    beq_iff_eq, Prod.mk.injEq] at h₁ h₂
   obtain ⟨⟨_, _, _⟩, row, ⟨hrow, ⟨⟨rfl, rfl⟩, -⟩, -⟩, rfl, rfl⟩ := h₁
   obtain ⟨⟨_, _, _⟩, row', ⟨hrow', ⟨⟨rfl, rfl⟩, -⟩, -⟩, rfl, rfl⟩ := h₂
   rw [Option.some.inj (hrow.symm.trans hrow')]

theorem riskCovers_low (risk : RiskLevel) : riskCovers risk .low = true := by cases risk <;> rfl

theorem granted_reason (hnext : Validated a.next) {check : NormalizedPermissionRequest}
  (hreason : Reason (compared a db) db unit.consentScope check.canonicalSlug)
  (hcovers : ¬ Covers (compared a db) db unit check.canonicalSlug)
  (hcheck : check ∈ a.next.permissionChecks) {row : PluginGrant}
  (hrow : grant? db (unitGrant unit check.canonicalSlug) = some row)
  (hgranted : row.status = .granted) :
  check.required = true ∨ Stale (compared a db) db unit check.canonicalSlug := by
 rcases hreason with ⟨⟨other, hother, hslug, -, hrequired⟩, -⟩ | ⟨other, -, hsame, -⟩
 · left
   rw [← hnext.check_eq hother hcheck hslug]
   exact hrequired
 · right
   refine ⟨hsame, row, hrow, hgranted, ?_⟩
   rw [← Bool.not_eq_true]
   exact fun h => hcovers ⟨row, hrow, hgranted, h⟩

theorem mem_outstandingUnitSlugs (hactive : Validated a.active) (hnext : Validated a.next)
  (hrun : activated a clock db = .ok after) {slug : Text}
  (hreason : Reason (compared a db) db unit.consentScope slug)
  (hcovers : ¬ Covers (compared a db) db unit slug) :
  slug ∈ outstandingUnitSlugs after unit (unitChecks a.next unit) ↔
   ∃ check ∈ a.next.permissionChecks, check.canonicalSlug = slug ∧
    check.consentScope = unit.consentScope ∧
    (check.required = true ∨ Stale (compared a db) db unit slug) := by
 obtain ⟨kept, hkept, rfl, hmoved⟩ := hreason.check hactive hnext
 have hrow := activated_unitGrant hactive hnext hrun hkept (scope_eq unit ▸ hmoved)
 simp only [outstandingUnitSlugs, outstandingSlugs, unitChecks, List.mem_map, List.mem_filter, beq_iff_eq]
 refine ⟨?_, ?_⟩
 · rintro ⟨check, ⟨⟨hcheck, hscope⟩, hout⟩, hslug⟩
   obtain rfl := hnext.check_eq hcheck hkept hslug
   refine ⟨check, hcheck, rfl, hscope, ?_⟩
   cases hget : mapGet ((grantedOn unit (a.next.permissionChecks.filter
     (·.consentScope == unit.consentScope)) after).map fun entry =>
      (entry.1.permissionSlug, entry.2.decidedRiskLevel)) check.canonicalSlug with
   | none =>
    rw [hget] at hout
    exact .inl hout
   | some risk =>
    have hmem : ∃ c ∈ a.next.permissionChecks.filter (·.consentScope == unit.consentScope),
      c.canonicalSlug = check.canonicalSlug :=
     ⟨check, List.mem_filter.2 ⟨hcheck, by simpa using hscope⟩, rfl⟩
    obtain ⟨row, hgrant, hgranted, -⟩ := (grantedOn_get hmem).1 hget
    exact granted_reason hnext hreason hcovers hcheck (hrow ▸ hgrant) hgranted
 · rintro ⟨check, hcheck, hslug, hscope, hwhy⟩
   obtain rfl := hnext.check_eq hcheck hkept hslug
   refine ⟨check, ⟨⟨hcheck, hscope⟩, ?_⟩, rfl⟩
   have hmem : ∃ c ∈ a.next.permissionChecks.filter (·.consentScope == unit.consentScope),
     c.canonicalSlug = check.canonicalSlug :=
    ⟨check, List.mem_filter.2 ⟨hcheck, by simpa using hscope⟩, rfl⟩
   cases hget : mapGet ((grantedOn unit (a.next.permissionChecks.filter
     (·.consentScope == unit.consentScope)) after).map fun entry =>
      (entry.1.permissionSlug, entry.2.decidedRiskLevel)) check.canonicalSlug with
   | none =>
    rcases hwhy with hrequired | ⟨-, row, hgrant, hgranted, -⟩
    · simpa using hrequired
    · have hsome := (grantedOn_get hmem).2 ⟨row, hrow.trans hgrant, hgranted, rfl⟩
      rw [hget] at hsome
      cases hsome
   | some risk =>
    obtain ⟨row, hgrant, hgranted, rfl⟩ := (grantedOn_get hmem).1 hget
    have hnot : riskCovers row.decidedRiskLevel (checkRisk (compared a db).corePermissions check) =
      false := by
     rw [← Bool.not_eq_true]
     intro hcover
     refine hcovers ⟨row, hrow.symm.trans hgrant, hgranted, ?_⟩
     rw [currentRisk, currentRisk_of_check (a := compared a db) hnext hcheck]
     exact hcover
    cases horigin : check.origin with
    | plugin =>
     rw [checkRisk, horigin] at hnot
     simp [riskCovers_low] at hnot
    | core =>
     have hexternal : check.canonicalSlug ∈ a.next.externalPermissionChecks := by
      rw [hnext.external, externalPermissionChecksOf]
      exact List.mem_map_of_mem (List.mem_filter.2 ⟨hnext.checks ▸ hcheck, by simp [horigin]⟩)
     have hcore : check.canonicalSlug ∈ coreSlugs
       (a.next.permissionChecks.filter (·.consentScope == unit.consentScope)) :=
      List.mem_map_of_mem (List.mem_filter.2
       ⟨List.mem_filter.2 ⟨hcheck, by simpa using hscope⟩, by simp [horigin]⟩)
     have hframe : permission? after check.canonicalSlug = permission? db check.canonicalSlug := by
      rw [permission?, permission?, activated_frame hrun ⟨by simp, by simp⟩]
     simp only [corePermissionsAt_get hcore, hframe]
     rw [checkRisk, horigin] at hnot
     simp only [compared, corePermissionsAt_get hexternal] at hnot
     cases hperm : permission? db check.canonicalSlug with
     | none =>
      rw [hperm] at hnot
      simp [riskCovers_low] at hnot
     | some permission =>
      rw [hperm] at hnot
      simpa using hnot

end Report

section Own

def keeps (unit : UnitRef) : Key → Bool
  | .grant key => key.scopeType == .server || (key.scopeType == unit.scope && key.scopeId == unit.scopeId)
  | .plugin | .declared _ | .unit _ | .permission _ | .home _ => true

def ownStore (unit : UnitRef) (db : Db) : Db :=
  ⟨db.entries.filter fun entry => keeps unit entry.1,
    List.NodupKeys.sublist List.filter_sublist db.nodupKeys⟩

theorem lookup_ownStore (unit : UnitRef) (db : Db) (k : Key) :
  (ownStore unit db).lookup k = if keeps unit k then db.lookup k else none := by
 ext row
 rw [← Option.mem_def, AList.mem_lookup_iff]
 change ⟨k, row⟩ ∈ db.entries.filter _ ↔ _
 rw [List.mem_filter]
 cases hkeeps : keeps unit k with
 | true => simp [← AList.mem_lookup_iff]
 | false => simp

theorem filterMap_ownStore {β : Type} (unit : UnitRef) (db : Db) (f : Sigma Row → Option β)
  (p : β → Bool) (h : ∀ entry x, f entry = some x → p x = keeps unit entry.1) :
  (ownStore unit db).entries.filterMap f = (db.entries.filterMap f).filter p := by
 change (db.entries.filter fun entry => keeps unit entry.1).filterMap f = _
 induction db.entries with
 | nil => rfl
 | cons entry rest ih =>
  cases hf : f entry with
  | none => cases hk : keeps unit entry.1 <;> simp [hk, hf, ih]
  | some x => cases hk : keeps unit entry.1 <;> simp [hk, hf, ih, h entry x hf]

theorem grantRows_ownStore (unit : UnitRef) (db : Db) :
  grantRows (ownStore unit db) = (grantRows db).filter fun entry => keeps unit (.grant entry.1) := by
 refine filterMap_ownStore unit db asGrant _ ?_
 rintro ⟨k, row⟩ x hx
 cases k with
 | grant key => cases hx; rfl
 | plugin | declared _ | unit _ | permission _ | home _ => cases hx

theorem corePermissionsAt_ownStore (unit : UnitRef) (db : Db) (slugs : List Text) :
  corePermissionsAt (ownStore unit db) slugs = corePermissionsAt db slugs := by
 have hrows : (ownStore unit db).entries.filterMap asPermission = db.entries.filterMap asPermission := by
  rw [filterMap_ownStore unit db asPermission fun _ => true, List.filter_true]
  rintro ⟨k, row⟩ x hx
  cases k with
  | permission slug => rfl
  | plugin | declared _ | unit _ | grant _ | home _ => cases hx
 rw [corePermissionsAt, corePermissionsAt, permissionRows, permissionRows, hrows]

theorem serverRows_ownStore (unit : UnitRef) (db : Db) :
  serverRows (ownStore unit db) = serverRows db := by
 rw [serverRows, serverRows, grantRows_ownStore, List.filter_filter]
 refine List.filter_congr fun entry _ => ?_
 cases hscope : entry.1.scopeType <;> simp [keeps, hscope]

theorem serverRiskEscalatedSlugs_compare (active next : PluginManifestValidationResult)
  (corePermissions : List (Text × Permission)) (grants : List (GrantKey × PluginGrant)) :
  (compare active next corePermissions grants).serverRiskEscalatedSlugs =
   (grants.filter (isStale active next .server corePermissions)).map (·.1.permissionSlug) := by
 have hcheck : ∀ check, (checkEscalation (comparisonView active) check).bind serverRiskEscalatedSlug =
   none := by
  intro check
  unfold checkEscalation
  split
  · rfl
  · split_ifs <;> rfl
 have hrisk : ∀ entry : GrantKey × PluginGrant, (riskEscalation (comparisonView active)
   (comparisonView next) (currentRiskBySlug next corePermissions) (grantView entry)).bind
    serverRiskEscalatedSlug = if isStale active next .server corePermissions entry then
     some entry.1.permissionSlug else none := by
  intro entry
  unfold isStale
  cases hrisk : riskEscalation (comparisonView active) (comparisonView next)
    (currentRiskBySlug next corePermissions) (grantView entry) with
  | none => simp
  | some escalation =>
   obtain ⟨-, -, -, current, -, -, rfl⟩ := riskEscalation_some.1 hrisk
   cases hscope : entry.1.scopeType <;> simp [serverRiskEscalatedSlug, grantView, hscope, grantScopeOf]
 change (compare active next corePermissions grants).escalations.filterMap serverRiskEscalatedSlug = _
 rw [escalations_filterMap active next corePermissions grants (fun _ => rfl) rfl fun _ => rfl]
 simp only [hcheck, hrisk, filterMap_guard, List.filterMap_none, List.nil_append]

theorem activationSteps_ownStore (a : Activation) (unit : UnitRef) (db : Db) :
  activationSteps (compared a (ownStore unit db))
    (seededChecks (compared a (ownStore unit db)) (serverRows (ownStore unit db))) =
   activationSteps (compared a db) (seededChecks (compared a db) (serverRows db)) := by
 have hescalated : (compared a (ownStore unit db)).comparison.serverRiskEscalatedSlugs =
   (compared a db).comparison.serverRiskEscalatedSlugs := by
  simp only [compared, serverRiskEscalatedSlugs_compare, corePermissionsAt_ownStore,
   grantRows_ownStore, List.filter_filter]
  congr 1
  refine List.filter_congr fun entry _ => ?_
  cases hscope : entry.1.scopeType <;> simp [keeps, isStale, hscope, grantScopeOf]
 have hmoves : scopeMoves (compared a (ownStore unit db)).comparison =
   scopeMoves (compared a db).comparison := by
  simp only [compared, scopeMoves_compare]
 rw [activationSteps, activationSteps, hescalated, hmoves, serverRows_ownStore]
 rfl

theorem stepWrites_comparison (a : Activation) (comparison : UpdateEscalationComparison) :
  stepWrites { a with comparison } = stepWrites a := by
 funext step clock v
 cases step <;> rfl

theorem applySteps_comparison (a : Activation) (comparison : UpdateEscalationComparison)
  (steps : List ActivationStep) (clock : ℕ) (v : Db) :
  applySteps { a with comparison } steps clock v = applySteps a steps clock v := by
 induction steps generalizing clock v with
 | nil => rfl
 | cons step rest ih => simp only [applySteps, stepWrites_comparison, ih]

theorem applySteps_ok {a : Activation} {steps : List ActivationStep} {clock : ℕ} {v v' after : Db}
  (hdeclared : ∀ slug, declared? v' slug = declared? v slug)
  (hserver : ∀ slug, grant? v' (serverGrant slug) = grant? v (serverGrant slug))
  (h : applySteps a steps clock v = .ok after) :
  ∃ after', applySteps a steps clock v' = .ok after' := by
 induction steps generalizing clock v v' with
 | nil => exact ⟨v', rfl⟩
 | cons step rest ih =>
  simp only [applySteps] at h ⊢
  cases hwrites : stepWrites a step clock v with
  | error failure => simp [hwrites] at h
  | ok writes =>
   rw [hwrites] at h
   obtain ⟨writes', hwrites'⟩ : ∃ writes', stepWrites a step clock v' = .ok writes' := by
    cases step with
    | deleteGrants _ | deletePermissions _ | moveScope _ _ => exact ⟨_, rfl⟩
    | createPermission slug =>
     simp only [stepWrites, hdeclared] at hwrites ⊢
     cases hrow : declared? v slug with
     | none => exact ⟨_, rfl⟩
     | some row => simp [hrow] at hwrites
    | reStamp slug =>
     simp only [stepWrites, hserver] at hwrites ⊢
     cases hrow : grant? v (serverGrant slug) with
     | none => simp [hrow] at hwrites
     | some row => exact ⟨_, rfl⟩
    | seed check =>
     simp only [stepWrites, hserver] at hwrites ⊢
     cases hrow : grant? v (serverGrant check.canonicalSlug) with
     | none => exact ⟨_, rfl⟩
     | some row => simp [hrow] at hwrites
   rw [hwrites']
   refine ih (fun slug => ?_) (fun slug => ?_) h
   · rw [declared?, declared?, lookup_step hwrites, lookup_step hwrites']
     exact congrArg _ (hdeclared slug)
   · rw [grant?, grant?, lookup_step hwrites, lookup_step hwrites']
     exact congrArg _ (hserver slug)

theorem activated_ownStore {a : Activation} {clock : ℕ} {db after : Db} (unit : UnitRef)
  (hrun : activated a clock db = .ok after) :
  ∃ alone, activated a clock (ownStore unit db) = .ok alone := by
 unfold activated at hrun ⊢
 rw [activationSteps_ownStore]
 have hshape : compared a (ownStore unit db) = { compared a db with
   comparison := (compared a (ownStore unit db)).comparison } := by
  simp only [compared, corePermissionsAt_ownStore]
 rw [hshape, applySteps_comparison]
 refine applySteps_ok (fun slug => ?_) (fun slug => ?_) hrun
 · rw [declared?, lookup_ownStore]
   rfl
 · rw [grant?, lookup_ownStore]
   rfl

end Own

section Agreement

variable {a : Activation} {clock : ℕ} {db after : Db} {unit : UnitRef}

def Suspends (a : Activation) (db after : Db) (unit : UnitRef) : Prop :=
  ∃ candidate ∈ suspensions (compared a db) unit.consentScope after, candidate.unit = unit

/-- What a suspended unit is told is what its late acceptance will ask for, and
    it would have been suspended had no other unit decided anything. -/
structure SuspensionAgrees (a : Activation) (clock : ℕ) (db after : Db) (unit : UnitRef) : Prop where
  nodup : ∀ candidate ∈ suspensions (compared a db) unit.consentScope after, candidate.unit = unit →
    candidate.outstanding.Nodup
  outstanding : ∀ candidate ∈ suspensions (compared a db) unit.consentScope after,
    candidate.unit = unit → ∀ slug ∈ candidate.outstanding,
      slug ∈ outstandingUnitSlugs after unit (unitChecks a.next unit)
  independent : ∀ alone, activated a clock (ownStore unit db) = .ok alone →
    (Suspends a db after unit ↔ Suspends a (ownStore unit db) alone unit)

theorem mem_servingUnits {axis : PluginConsentScope} {v : Db} {row : UnitRow} :
  (unit, row) ∈ servingUnits axis v ↔
   unit? v unit = some row ∧ unit.consentScope = axis ∧ row.suspendedForConsent = false := by
 simp [servingUnits, mem_unitRows]

theorem mem_suspensions {row : UnitRow} (hserving : (unit, row) ∈ servingUnits unit.consentScope after)
  {candidate : SuspensionCandidate} :
  (candidate ∈ suspensions (compared a db) unit.consentScope after ∧ candidate.unit = unit) ↔
   reported a db after unit ≠ [] ∧
   candidate = ⟨unit, row, suspend a.initiatedAt row, reported a db after unit⟩ := by
 simp only [suspensions, suspensionCandidates, List.mem_filterMap, Prod.exists]
 constructor
 · rintro ⟨⟨other, otherRow, hmem, hcandidate⟩, hunit⟩
   split at hcandidate
   · cases hcandidate
   · rename_i hne
     cases hcandidate
     simp only at hunit
     subst hunit
     rw [mem_servingUnits] at hmem hserving
     obtain rfl := Option.some.inj (hmem.1.symm.trans hserving.1)
     exact ⟨hne, rfl⟩
 · rintro ⟨hne, rfl⟩
   exact ⟨⟨unit, row, hserving, if_neg hne⟩, rfl⟩

theorem suspends_iff {row : UnitRow} (hserving : (unit, row) ∈ servingUnits unit.consentScope after) :
  Suspends a db after unit ↔ ∃ slug, slug ∈ reported a db after unit := by
 constructor
 · rintro ⟨candidate, hmem, hunit⟩
   exact List.exists_mem_of_ne_nil _ ((mem_suspensions hserving).1 ⟨hmem, hunit⟩).1
 · rintro ⟨slug, hslug⟩
   obtain ⟨hmem, hunit⟩ := (mem_suspensions hserving).2 ⟨List.ne_nil_of_mem hslug, rfl⟩
   exact ⟨_, hmem, hunit⟩

section OwnReasons

variable (a db unit)

theorem currentRisk_ownStore (slug : Text) :
  currentRisk (compared a (ownStore unit db)) slug = currentRisk (compared a db) slug := by
 simp only [currentRisk, compared, corePermissionsAt_ownStore]

theorem grant_ownStore_self (slug : Text) :
  grant? (ownStore unit db) (unitGrant unit slug) = grant? db (unitGrant unit slug) := by
 rw [grant?, lookup_ownStore]
 simp [keeps, unitGrant, grant?]

theorem covers_ownStore (slug : Text) :
  Covers (compared a (ownStore unit db)) (ownStore unit db) unit slug ↔
   Covers (compared a db) db unit slug := by
 rw [Covers, Covers, grant_ownStore_self, currentRisk_ownStore]

theorem reason_ownStore (slug : Text) :
  Reason (compared a (ownStore unit db)) (ownStore unit db) unit.consentScope slug ↔
   NewlyRequired (compared a db) unit.consentScope slug ∨ Stale (compared a db) db unit slug := by
 have hself : Stale (compared a (ownStore unit db)) (ownStore unit db) unit slug ↔
   Stale (compared a db) db unit slug := by
  rw [Stale, Stale, grant_ownStore_self, currentRisk_ownStore]
  rfl
 refine or_congr Iff.rfl ⟨?_, fun h => ⟨unit, rfl, hself.2 h⟩⟩
 rintro ⟨other, hother, hstale⟩
 obtain rfl : other = unit := by
  obtain ⟨-, row, hrow, -⟩ := hstale
  rw [grant?, lookup_ownStore] at hrow
  split_ifs at hrow with hkeeps
  refine unitGrant_unit hother (?_ : unitGrant other slug = unitGrant unit slug)
  have hserver : other.scope ≠ .server := by cases other <;> simp [UnitRef.scope]
  simp only [keeps, unitGrant, Bool.or_eq_true, beq_iff_eq, hserver, false_or, Bool.and_eq_true] at hkeeps
  rw [unitGrant, unitGrant, hkeeps.1, hkeeps.2]
 exact hself.1 hstale

end OwnReasons

/-- The activation's report on a serving unit agrees with the late-acceptance
    check exactly when the unit's consent can be trusted. -/
theorem suspension_agrees_iff {rules : ManifestRules} {activeJson nextJson : ManifestDocument}
    (hactive : validatePluginManifest rules activeJson false = .ok a.active)
    (hnext : validatePluginManifest rules nextJson true = .ok a.next)
    (hrun : activated a clock db = .ok after) {row : UnitRow} (hunit : unit? db unit = some row)
    (hserving : row.suspendedForConsent = false) :
    SuspensionAgrees a clock db after unit ↔ Trusted (compared a db) db unit := by
 replace hactive := validated_of_ok hactive
 replace hnext := validated_of_ok hnext
 have hafter : (unit, row) ∈ servingUnits unit.consentScope after := by
  refine mem_servingUnits.2 ⟨?_, rfl, hserving⟩
  rw [unit?, activated_frame hrun ⟨by simp, by simp⟩]
  exact hunit
 have hreported := mem_reported hactive hnext hrun ⟨row, hafter⟩
 have hnodup := reported_nodup hactive hnext hrun ⟨row, hafter⟩
 obtain ⟨alone, halone⟩ := activated_ownStore unit hrun
 have hafterAlone : (unit, row) ∈ servingUnits unit.consentScope alone := by
  refine mem_servingUnits.2 ⟨?_, rfl, hserving⟩
  rw [unit?, activated_frame halone ⟨by simp, by simp⟩, lookup_ownStore]
  exact hunit
 have hown : ∀ slug, slug ∈ reported a (ownStore unit db) alone unit ↔
   (NewlyRequired (compared a db) unit.consentScope slug ∨ Stale (compared a db) db unit slug) ∧
    ¬ Covers (compared a db) db unit slug := by
  intro slug
  rw [mem_reported hactive hnext halone ⟨row, hafterAlone⟩, reason_ownStore, covers_ownStore]
 constructor
 · intro h
   have hsuspended : ∀ slug, slug ∈ reported a db after unit →
     ∃ candidate ∈ suspensions (compared a db) unit.consentScope after, candidate.unit = unit ∧
      candidate.outstanding = reported a db after unit := by
    intro slug hslug
    obtain ⟨hmem, heq⟩ := (mem_suspensions hafter).2 ⟨List.ne_nil_of_mem hslug, rfl⟩
    exact ⟨_, hmem, heq, rfl⟩
   have hreason : ∀ slug (other : UnitRef), other.consentScope = unit.consentScope →
     ¬ Covers (compared a db) db unit slug → Stale (compared a db) db other slug →
     slug ∈ reported a db after unit :=
    fun slug other hother hcovers hstale => (hreported slug).2 ⟨.inr ⟨other, hother, hstale⟩, hcovers⟩
   refine ⟨?_, ?_, ?_⟩
   · intro slug hcovers other hother hstale
     obtain ⟨candidate, hmem, heq, hlist⟩ := hsuspended slug (hreason slug other hother hcovers hstale)
     exact hnodup.1 (hlist ▸ h.nodup candidate hmem heq) slug hcovers other hother hstale
   · intro slug hcovers other hother hstale
     have hslug := hreason slug other hother hcovers hstale
     obtain ⟨candidate, hmem, heq, hlist⟩ := hsuspended slug hslug
     have hout := h.outstanding candidate hmem heq slug (hlist ▸ hslug)
     exact (mem_outstandingUnitSlugs hactive hnext hrun (.inr ⟨other, hother, hstale⟩) hcovers).1 hout
   · intro slug hcovers other hother hstale
     have hsuspends := (suspends_iff hafter).2 ⟨slug, hreason slug other hother hcovers hstale⟩
     obtain ⟨reason, hin⟩ := (suspends_iff hafterAlone).1 ((h.independent alone halone).1 hsuspends)
     obtain ⟨hwhy, huncovered⟩ := (hown reason).1 hin
     exact ⟨reason, huncovered, hwhy⟩
 · intro h
   refine ⟨?_, ?_, ?_⟩
   · intro candidate hmem heq
     obtain ⟨-, rfl⟩ := (mem_suspensions hafter).1 ⟨hmem, heq⟩
     exact hnodup.2 h.single
   · intro candidate hmem heq slug hslug
     obtain ⟨-, rfl⟩ := (mem_suspensions hafter).1 ⟨hmem, heq⟩
     obtain ⟨hwhy, hcovers⟩ := (hreported slug).1 hslug
     rw [mem_outstandingUnitSlugs hactive hnext hrun hwhy hcovers]
     rcases hwhy with ⟨⟨check, hcheck, hcheckSlug, hscope, hrequired⟩, -⟩ | ⟨other, hother, hstale⟩
     · exact ⟨check, hcheck, hcheckSlug, hscope, .inl hrequired⟩
     · exact h.asked slug hcovers other hother hstale
   · intro alone' halone'
     obtain rfl : alone' = alone := Except.ok.inj (halone'.symm.trans halone)
     rw [suspends_iff hafter, suspends_iff hafterAlone]
     constructor
     · rintro ⟨slug, hslug⟩
       obtain ⟨hwhy, hcovers⟩ := (hreported slug).1 hslug
       rcases hwhy with hnew | ⟨other, hother, hstale⟩
       · exact ⟨slug, (hown slug).2 ⟨.inl hnew, hcovers⟩⟩
       · obtain ⟨reason, huncovered, hown'⟩ := h.own slug hcovers other hother hstale
         exact ⟨reason, (hown reason).2 ⟨hown', huncovered⟩⟩
     · rintro ⟨slug, hslug⟩
       obtain ⟨hwhy, hcovers⟩ := (hown slug).1 hslug
       exact ⟨slug, (hreported slug).2 ⟨hwhy.imp_right fun hstale => ⟨unit, rfl, hstale⟩, hcovers⟩⟩

section Samples

def gameManifest (version : String) : PluginManifest where
  slug := "demo".toList
  version := version.toList
  scope := .household
  declares := []
  checks := [⟨"read:game".toList, false, some .household⟩]
  outboundDomains := .listed []
  writesCore := []
  configSchema := []
  requiresHouseholdConfig := false
  rest := []

def gameResult (version : String) : PluginManifestValidationResult :=
  ⟨gameManifest version, permissionChecksOf (gameManifest version),
    declaredPermissionsOf (gameManifest version), externalPermissionChecksOf (gameManifest version)⟩

def gameUpdate : Activation where
  plugin := ⟨"demo".toList, "1.0.0".toList, .household, true, .manifest (gameManifest "1.0.0"),
   emptyConfig,
    [], "admin".toList, 0, false, none, none⟩
  active := gameResult "1.0.0"
  next := gameResult "2.0.0"
  artifactSha256 := []
  comparison := ⟨[], false, [], [], [], []⟩
  checksToSeed := []
  corePermissions := []
  actorId := "admin".toList
  initiatedAt := 7
  reentry := none

def lowGrant : PluginGrant := ⟨0, .granted, "admin".toList, "1.0.0".toList, .low, 0⟩

/-- Households that granted an optional check whose permission has become critical. -/
def staleHouseholds (ids : List Text) : Db :=
  ofRows (⟨.permission "read:game".toList, ⟨.critical, "Game".toList, [], false⟩⟩ ::
    ids.flatMap fun id =>
      [⟨.unit (.household id), ⟨1, true, false, none, emptyConfig, none, none⟩⟩,
        ⟨.grant (unitGrant (.household id) "read:game".toList), lowGrant⟩])

/-- One stale household is told what it owes, once. -/
theorem suspension_agrees_one_household :
    SuspensionAgrees gameUpdate 0 (staleHouseholds ["home".toList]) (staleHouseholds ["home".toList])
      (.household "home".toList) := by
 have hrows : grantRows (staleHouseholds ["home".toList]) =
   [(unitGrant (.household "home".toList) "read:game".toList, lowGrant)] := by decide +kernel
 have honly : ∀ (other : UnitRef) (slug : Text),
  Stale (compared gameUpdate (staleHouseholds ["home".toList]))
   (staleHouseholds ["home".toList]) other slug → other.consentScope = .household →
   other = .household "home".toList := by
  rintro other slug ⟨-, row, hrow, -⟩ haxis
  rw [← mem_grantRows, hrows, List.mem_singleton, Prod.mk.injEq] at hrow
  exact unitGrant_unit haxis hrow.1
 have hoptional : ∀ slug, ¬ RequiredAt (gameResult "2.0.0") .household slug := by
  rintro slug ⟨check, hcheck, -, -, hrequired⟩
  have hall : ∀ check ∈ (gameResult "2.0.0").permissionChecks, check.required = false := by
   decide +kernel
  rw [hall check hcheck] at hrequired
  cases hrequired
 have hvalid : ∀ version ∈ ["1.0.0", "2.0.0"], ∀ strict, validatePluginManifest ⟨fun _ _ => []⟩
   (.manifest (gameManifest version)) strict = .ok (gameResult version) := by
  decide +kernel
 have hunit : unit? (staleHouseholds ["home".toList]) (.household "home".toList) =
   some ⟨1, true, false, none, emptyConfig, none, none⟩ := by
  decide +kernel
 refine (suspension_agrees_iff (hvalid "1.0.0" (by simp) false) (hvalid "2.0.0" (by simp) true) rfl
  hunit rfl).2 ⟨?_, ?_, ?_⟩
 · intro slug _ other hother hstale
   refine ⟨fun hnew => hoptional slug hnew.1, fun third hthird hstale' => ?_⟩
   rw [honly other slug hstale hother, honly third slug hstale' hthird]
 · intro slug _ other hother hstale
   obtain rfl := honly other slug hstale hother
   obtain ⟨check, hcheck, hslug, -⟩ := hstale.1
   refine ⟨check, hcheck, hslug, ?_, .inr hstale⟩
   have hall : ∀ check ∈ (gameResult "2.0.0").permissionChecks, check.consentScope = .household := by
    decide +kernel
   exact hall check hcheck
 · intro slug hcovers other hother hstale
   obtain rfl := honly other slug hstale hother
   exact ⟨slug, hcovers, .inr hstale⟩

/-- Two stale households: each is told the same slug twice. -/
theorem suspension_repeats_two_households :
    ¬ SuspensionAgrees gameUpdate 0 (staleHouseholds ["home".toList, "cabin".toList])
      (staleHouseholds ["home".toList, "cabin".toList]) (.household "home".toList) := by
 intro h
 have hcandidate : (⟨.household "home".toList, ⟨1, true, false, none, emptyConfig, none, none⟩,
   ⟨1, true, true, some 7, emptyConfig, none, none⟩, ["read:game".toList, "read:game".toList]⟩ :
    SuspensionCandidate) ∈ suspensions (compared gameUpdate
     (staleHouseholds ["home".toList, "cabin".toList])) .household
     (staleHouseholds ["home".toList, "cabin".toList]) := by
  decide +kernel
 exact absurd (h.nodup _ hcandidate rfl) (by decide +kernel)

end Samples

end Agreement

end BoardGamesEmpire.PluginSuspension
