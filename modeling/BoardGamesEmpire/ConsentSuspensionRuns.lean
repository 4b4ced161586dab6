import BoardGamesEmpire.ConsentSuspensionActivation

set_option autoImplicit false

/-!
# No unit is stuck suspended

Every request served by itself, and from that every history: a suspended unit
owes a consent, or a replaced manifest took away what it owed and its next
consent lifts the suspension.
-/
namespace BoardGamesEmpire.ConsentSuspension
open JsText Manifest ReadCommitted PluginStore PluginEscalation PluginActivation PluginUpdateProgram
  PluginGrantProgram PluginSystem PluginProtocol PluginSuspension PluginInvariants PluginLedger

section Steps

variable {host : Host} {db db' : Db} {unit : UnitRef}

def Fitted (db : Db) : Prop := ∀ key g, grant? db key = some g → ∃ m, inForce db = some m ∧ Requests m key

/-- Under one manifest nobody is suspended who owes nothing, unless it was so before. -/
structure Continues (db db' : Db) : Prop where
  living : (livingPlugin db').isSome = true → (livingPlugin db).isSome = true
  units : ∀ unit, Suspended db' unit → Owes db' unit ∨ (Suspended db unit ∧ (Owes db unit → Owes db' unit))
  fitted : Fitted db → Fitted db'

theorem Continues.refl (db : Db) : Continues db db := ⟨id, fun _ h => .inr ⟨h, id⟩, id⟩

theorem fitted_congr (hactive : inForce db' = inForce db)
  (hgrants : ∀ key, grant? db' key = grant? db key) (h : Fitted db) : Fitted db' := by
 intro key g hg
 rw [hactive]
 exact h key g ((hgrants key).symm.trans hg)

theorem Beside.continues {householdId : Text} (h : Beside (some (.household householdId)) db db')
  (hunit : Suspended db' (.household householdId) →
   Suspended db (.household householdId) ∨ Owes db (.household householdId)) : Continues db db' := by
 refine ⟨fun hliving => ?_, fun w hsuspended => ?_, ?_⟩
 · rw [livingPlugin, ← h.plugin]
   exact hliving
 · by_cases hw : w = .household householdId
   · subst hw
     exact (hunit hsuspended).elim (fun hold => .inr ⟨hold, h.owes.2⟩) fun howes => .inl (h.owes.2 howes)
   · refine .inr ⟨(suspended_congr (h.frame (.unit w) fun other hother heq => hw ?_)).1 hsuspended,
      h.owes.2⟩
     cases hother
     cases heq
     rfl
 · exact fitted_congr (inForce_congr h.plugin) fun key => h.frame (.grant key) fun _ _ => by simp

theorem Unmoved.continues (h : Unmoved db db') : Continues db db' := by
 refine ⟨h.living,
  fun w hsuspended => .inr ⟨(suspended_congr (h.frame (.unit w) (by simp))).1 hsuspended, ?_⟩, ?_⟩
 · exact (owes_congr h.active (fun slug => h.frame (.grant (unitGrant w slug)) (by simp))
    fun slug => permission_congr (h.frame (.permission slug) (by simp))).2
 · exact fitted_congr h.active fun key => h.frame (.grant key) (by simp)

section Decisions

variable {input : DecisionInput} {m : PluginManifest} {check : NormalizedPermissionRequest}
  {scopeId : Text}

theorem Decided.plugin (h : Decided host input m check scopeId db db') : plugin? db' = plugin? db :=
 h.frame .plugin (by simp) fun _ _ => by simp

theorem Decided.catalog (h : Decided host input m check scopeId db db') (slug : Text) :
  permission? db' slug = permission? db slug :=
 permission_congr (h.frame (.permission slug) (by simp) fun _ _ => by simp)

theorem Decided.requested (h : Decided host input m check scopeId db db')
  (hunit : unitAt input.scopeType scopeId = some unit) : check ∈ requested db' unit ∧
   (⟨input.scopeType, scopeId, check.canonicalSlug⟩ : GrantKey) = unitGrant unit check.canonicalSlug := by
 have hkey : (⟨input.scopeType, scopeId, check.canonicalSlug⟩ : GrantKey) = unitGrant unit
  check.canonicalSlug :=
  PluginGrantSafe.unitAt_some hunit
 refine ⟨mem_requested.2 ⟨m, (inForce_congr h.plugin).trans h.active, h.asked,
  grantScopeOf_injective ?_⟩, hkey⟩
 rw [h.scope, ← scope_eq]
 exact congrArg GrantKey.scopeType hkey

theorem Decided.continues (h : Decided host input m check scopeId db db') : Continues db db' := by
 refine ⟨fun hliving => ?_, fun w hsuspended => ?_, fun hfitted key g hg => ?_⟩
 · rw [livingPlugin, ← h.plugin]
   exact hliving
 · by_cases hw : unitAt input.scopeType scopeId = some w
   · left
     cases hstatus : input.status with
     | granted => exact h.lifted hstatus w hw hsuspended
     | denied =>
      obtain ⟨hrequested, hkey⟩ := h.requested hw
      obtain ⟨g, hg, hgstatus, -⟩ := h.decision
      exact owes_of_denied hrequested (hkey ▸ hg) (hgstatus.trans hstatus)
   · refine .inr ⟨(suspended_congr (h.frame (.unit w) (by simp) fun other hother heq => hw ?_)).1
      hsuspended, ?_⟩
     · cases heq
       exact hother
     · refine (owes_congr (inForce_congr h.plugin)
        (fun slug => h.frame (.grant (unitGrant w slug)) (fun heq => ?_)
        fun _ _ => by simp) h.catalog).2
       simp only [Key.grant.injEq, unitGrant, GrantKey.mk.injEq] at heq
       rw [← heq.1, ← heq.2.1] at hw
       exact hw (PluginGrantSafe.unitAt_unit w)
 · rw [inForce_congr h.plugin]
   by_cases hkey : key = ⟨input.scopeType, scopeId, check.canonicalSlug⟩
   · exact ⟨m, h.active, check, h.asked, by rw [hkey], by rw [hkey]; exact h.scope⟩
   · exact hfitted key g ((h.frame (.grant key) (by simpa using hkey) fun _ _ => by simp).symm.trans hg)

theorem Decided.addressed (h : Decided host input m check scopeId db db')
  (hconsents : Consents host db unit input) :
  unitAt input.scopeType scopeId = some unit := by
 have hid := h.address.symm.trans hconsents.address
 cases hid
 rw [hconsents.scopeType]
 exact PluginGrantSafe.unitAt_unit unit

end Decisions

section Replacements

variable {a : Activation}

theorem Covered.covers (hcompared : Compared a db) (hpromoted : Promoted a db db')
  {check : NormalizedPermissionRequest}
  (hcheck : check ∈ a.next.permissionChecks) (h : Covered db' unit check) :
   Covers a db' unit check.canonicalSlug := by
 obtain ⟨row, risk, hrow, hgranted, hrisk, hcovers⟩ := h
 refine ⟨row, hrow, hgranted, ?_⟩
 rw [currentRisk, currentRisk_of_check hcompared.next hcheck, Option.getD_some, checkRisk]
 cases horigin : check.origin with
 | plugin => exact riskCovers_low _
 | core =>
  have hexternal : check.canonicalSlug ∈ a.next.externalPermissionChecks := by
   rw [hcompared.next.external]
   exact List.mem_map_of_mem (List.mem_filter.2 ⟨hcompared.next.checks ▸ hcheck, by simp [horigin]⟩)
  have hread : mapGet a.corePermissions check.canonicalSlug = permission? db' check.canonicalSlug := by
   rw [hpromoted.catalog, congrArg Activation.corePermissions hcompared.comparison]
   exact corePermissionsAt_get hexternal
  rw [currentRiskOf, horigin] at hrisk
  dsimp only at hrisk ⊢
  rw [hread, hrisk]
  exact hcovers

theorem Promoted.owes (hcompared : Compared a db) (hpromoted : Promoted a db db')
  (hfitted : Fitted db) (h : Lapsed a db' unit) : Owes db' unit := by
 obtain ⟨slug, hlisted, huncovered⟩ := h
 have haxis : unit.consentScope ≠ .server := by cases unit <;> simp [UnitRef.consentScope]
 have hreason : Reason a db unit.consentScope slug := by
  rw [hcompared.comparison] at hlisted ⊢
  exact (mem_reconsentSlugs hcompared.active hcompared.next haxis).1 hlisted
 obtain ⟨check, hcheck, rfl, hscope⟩ : ∃ check ∈ a.next.permissionChecks, check.canonicalSlug = slug ∧
   check.consentScope = unit.consentScope := by
  rcases hreason with ⟨⟨check, hcheck, hslug, hscope, -⟩, -⟩ | ⟨other, hother,
   ⟨check, hcheck, hslug, hsame⟩, row, hrow, -⟩
  · exact ⟨check, hcheck, hslug, hscope⟩
  · -- the stale decision was requested by the manifest before, at this axis
    obtain ⟨m, hforce, previous, hprevious, hpreviousSlug, hpreviousScope⟩ := hfitted _ row hrow
    cases hforce.symm.trans hcompared.baseline
    rw [← hcompared.active.checks] at hprevious
    refine ⟨check, hcheck, hslug, (hsame previous hprevious hpreviousSlug).symm.trans ?_⟩
    rw [← hother]
    exact grantScopeOf_injective (hpreviousScope.trans (scope_eq other))
 refine ⟨check, mem_requested.2 ⟨_, hpromoted.active, hcompared.next.checks ▸ hcheck, hscope⟩,
  fun hcovered => ?_⟩
 exact huncovered (hcovered.covers hcompared hpromoted hcheck)

theorem Promoted.fitted (hcompared : Compared a db) (hpromoted : Promoted a db db')
  (hfitted : Fitted db) :
  Fitted db' := by
 obtain ⟨seeded, done, hseeded, hdone, hrows⟩ := hpromoted.grants
 intro key g hg
 refine ⟨_, hpromoted.active, ?_⟩
 rcases stepsRow_some ((hrows key).symm.trans hg) with ⟨check, hseed, rfl⟩ | ⟨hsome, hkept⟩
 · rw [hdone] at hseed
   obtain ⟨hmem, hscope⟩ := hcompared.seeds check (hseeded check (seed_mem.1 hseed))
   exact ⟨check, hcompared.next.checks ▸ hmem, rfl, by rw [hscope]; rfl⟩
 · rw [hdone] at hkept
   obtain ⟨g', hg'⟩ := Option.isSome_iff_exists.1 hsome
   obtain ⟨m, hforce, hold⟩ := hfitted key g' hg'
   cases hforce.symm.trans hcompared.baseline
   exact requests_of_kept hcompared.active hcompared.next
    ⟨_, _, congrArg Activation.comparison hcompared.comparison⟩
    hold hkept

end Replacements

section Service

variable {op : Operation} {clock : ℕ}

structure Serves (host : Host) (op : Operation) (db db' : Db) : Prop where
  fitted : Fitted db'
  units : (livingPlugin db').isSome = true → ∀ unit, Suspended db' unit → Owes db' unit ∨
   (Suspended db unit ∧
    (op.replaces = true ∨ ((livingPlugin db).isSome = true ∧ (Owes db unit → Owes db' unit))))
  consents : ∀ unit input, op = .decide input → Consents host db unit input → Suspended db' unit →
   Owes db' unit

theorem Continues.serves (h : Continues db db') (hfitted : Fitted db)
  (hconsents : ∀ unit input, op = .decide input → Consents host db unit input → Suspended db' unit →
   Owes db' unit) :
  Serves host op db db' := by
 refine ⟨h.fitted hfitted, fun hliving unit hsuspended => ?_, hconsents⟩
 exact (h.units unit hsuspended).imp_right fun hold => ⟨hold.1, .inr ⟨h.living hliving, hold.2⟩⟩

theorem Promoted.serves {a : Activation} (hcompared : Compared a db) (hpromoted : Promoted a db db')
  (hfitted : Fitted db)
  (hop : op.replaces = true) (hdecide : ∀ input, op ≠ .decide input) : Serves host op db db' := by
 refine ⟨hpromoted.fitted hcompared hfitted, fun _ unit hsuspended => ?_,
  fun _ input heq => absurd heq (hdecide input)⟩
 rcases hpromoted.units unit hsuspended with hold | hlapsed
 · exact .inr ⟨hold, .inl hop⟩
 · exact .inl (hpromoted.owes hcompared hfitted hlapsed)

theorem served_serves (hfitted : Fitted db) (op : Operation) (clock : ℕ) :
  Serves host op db (served host op clock db) := by
 cases op with
 | decide input =>
  refine decide_rule (fun hrefused => ?_) fun m check scopeId db' h => ?_
  · refine (Continues.refl db).serves hfitted fun unit other heq hconsents => ?_
    cases heq
    exact absurd hconsents (hrefused unit)
  · refine h.continues.serves hfitted fun unit other heq hconsents => ?_
    cases heq
    exact h.lifted hconsents.status unit (h.addressed hconsents)
 | enableHousehold input =>
  exact enableHousehold_rule fun db' hbeside hunit => (hbeside.continues hunit).serves hfitted (by simp)
 | disableHousehold householdId authorized =>
  exact setUnitEnabled_rule fun db' hbeside hunit => (hbeside.continues hunit).serves hfitted (by simp)
 | stage input =>
  refine stage_rule (fun db' h => h.continues.serves hfitted (by simp)) fun a db' hcompared h => ?_
  exact h.serves hcompared hfitted rfl (by simp)
 | approve input =>
  refine approve_rule ((Continues.refl db).serves hfitted (by simp)) fun a db' hcompared h => ?_
  exact h.serves hcompared hfitted rfl (by simp)
 | uninstall authorized =>
  refine uninstall_rule ((Continues.refl db).serves hfitted (by simp)) fun db' hdead hnone => ?_
  refine ⟨fun key g hg => ?_, fun hliving => ?_, by simp⟩
  · rw [hnone key] at hg
    cases hg
  · rw [hdead] at hliving
    cases hliving
 | install input =>
  refine install_rule ((Continues.refl db).serves hfitted (by simp)) fun m db' hdead h => ?_
  refine ⟨fun key g hg => ⟨m, h.active, (h.grants key g hg).resolve_left fun hold => ?_⟩,
   fun _ unit hsuspended => .inr ⟨h.units unit hsuspended, .inl rfl⟩, by simp⟩
  -- before the install there was no manifest a decision could be about
  obtain ⟨m', hforce, -⟩ := hfitted key g hold
  obtain ⟨plugin, hliving, -⟩ := inForce_some.1 hforce
  rw [hdead] at hliving
  cases hliving

end Service

end Steps

section Histories

variable {host : Host} {db : Db} {unit : UnitRef}

theorem after_append (ops : List (Operation × ℕ)) (op : Operation × ℕ) :
  after host db (ops ++ [op]) = served host op.1 op.2 (after host db ops) := List.foldl_append

theorem fresh_fitted (h : Fresh db) : Fitted db := by
 intro key g hg
 rw [grant?, h (.grant key) rfl] at hg
 cases hg

theorem after_fitted (h : Fitted db) (ops : List (Operation × ℕ)) : Fitted (after host db ops) := by
 induction ops using List.reverseRecOn with
 | nil => exact h
 | append_singleton ops op ih =>
  rw [after_append]
  exact (served_serves ih op.1 op.2).fitted

theorem owes_or_released (hfresh : Fresh db) (ops : List (Operation × ℕ))
  (hliving : (livingPlugin (after host db ops)).isSome = true)
  (hsuspended : Suspended (after host db ops) unit) :
  Owes (after host db ops) unit ∨ Released host db unit ops := by
 induction ops using List.reverseRecOn with
 | nil =>
  obtain ⟨row, hrow, -⟩ := hsuspended
  rw [after, List.foldl_nil, unit?, hfresh (.unit unit) rfl] at hrow
  cases hrow
 | append_singleton ops op ih =>
  have hserves : Serves host op.1 (after host db ops) (after host db (ops ++ [op])) := by
   rw [after_append]
   exact served_serves (after_fitted (fresh_fitted hfresh) ops) op.1 op.2
  by_cases howes : Owes (after host db (ops ++ [op])) unit
  · exact .inl howes
  right
  obtain ⟨hbefore, hhow⟩ := (hserves.units hliving unit hsuspended).resolve_left howes
  -- what was released before stays so, as a consent would have left something owed
  have hsince : Released host db unit ops → Released host db unit (ops ++ [op]) := fun h =>
   .since ops op h fun input heq hconsents => howes (hserves.consents unit input heq hconsents hsuspended)
  rcases hhow with hreplaces | ⟨halive, hkeeps⟩
  · cases halive : livingPlugin (after host db ops) with
    | none => exact .replaced ops op hreplaces hbefore (.inr halive) hsuspended howes
    | some plugin =>
     rcases ih (by rw [halive]; rfl) hbefore with howed | hreleased
     · exact .replaced ops op hreplaces hbefore (.inl howed) hsuspended howes
     · exact hsince hreleased
  · rcases ih halive hbefore with howed | hreleased
    · exact absurd (hkeeps howed) howes
    · exact hsince hreleased

section Consents

variable {db' : Db} {input : DecisionInput}

structure Consented (unit : UnitRef) (db db' : Db) : Prop where
  frame : ∀ k, (∀ slug, k ≠ .grant (unitGrant unit slug)) → k ≠ .unit unit → db'.lookup k = db.lookup k
  kept : (unit? db unit).isSome = true → (unit? db' unit).isSome = true
  covered : ∀ check ∈ requested db unit, Covered db unit check → Covered db' unit check

theorem Consented.refl (unit : UnitRef) (db : Db) :
  Consented unit db db := ⟨fun _ _ _ => rfl, id, fun _ _ => id⟩

theorem Consented.plugin (h : Consented unit db db') :
  plugin? db' = plugin? db := h.frame .plugin (by simp) (by simp)

theorem Consented.catalog (h : Consented unit db db') (slug : Text) :
  permission? db' slug = permission? db slug :=
 permission_congr (h.frame (.permission slug) (by simp) (by simp))

theorem Consented.requested (h : Consented unit db db') :
  requested db' unit = requested db unit := by
 rw [ConsentSuspension.requested, ConsentSuspension.requested, inForce_congr h.plugin]

theorem Consented.trans {db'' : Db} (h : Consented unit db db') (h' : Consented unit db' db'') :
  Consented unit db db'' := by
 refine ⟨fun k hk hunit => (h'.frame k hk hunit).trans (h.frame k hk hunit),
  fun hrow => h'.kept (h.kept hrow), ?_⟩
 exact fun check hcheck hcovered => h'.covered check (h.requested ▸ hcheck)
  (h.covered check hcheck hcovered)

theorem resolveRiskLevel_congr (hcatalog : ∀ slug, permission? db' slug = permission? db slug)
  (hdeclared : ∀ slug, declared? db' slug = declared? db slug) (check : NormalizedPermissionRequest) :
  resolveRiskLevel host db' check = resolveRiskLevel host db check := by
 simp only [resolveRiskLevel, hcatalog, hdeclared]

theorem Consents.later (h : Consents host db unit input) (hconsented : Consented unit db db') :
  Consents host db' unit input := by
 refine ⟨h.scopeType, h.scopeId, h.addressed, h.status, h.authorized, fun householdId hunit => ?_, ?_⟩
 · rw [← h.live householdId hunit, isLiveHousehold, isLiveHousehold, home?, home?,
    hconsented.frame (.home householdId) (by simp) (by simp)]
 · obtain ⟨plugin, validated, check, hliving, hvalid, hmem, hslug, hscope, hrisk⟩ := h.accepted
   refine ⟨plugin, validated, check, ?_, hvalid, hmem, hslug, hscope, ?_⟩
   · rw [livingPlugin, hconsented.plugin]
     exact hliving
   · rw [resolveRiskLevel_congr hconsented.catalog fun slug => hconsented.frame (.declared slug)
      (by simp) (by simp)]
     exact hrisk

theorem currentRisk_of_resolved {check : NormalizedPermissionRequest} {risk : RiskLevel}
  (h : resolveRiskLevel host db check = some risk) :
  ∃ current, currentRiskOf db check = some current ∧ riskCovers risk current = true := by
 unfold currentRiskOf
 unfold resolveRiskLevel at h
 cases horigin : check.origin with
 | plugin => exact ⟨.low, rfl, riskCovers_low risk⟩
 | core =>
  rw [horigin] at h
  dsimp only at h ⊢
  cases hpermission : permission? db check.canonicalSlug with
  | none => simp [hpermission] at h
  | some permission =>
   rw [hpermission] at h
   dsimp only at h
   refine ⟨permission.riskLevel, rfl, ?_⟩
   split_ifs at h
   cases h
   simp [riskCovers]

/-- A consent covers its check, and a unit still suspended after it owes something. -/
structure Settled (unit : UnitRef) (slugs : List Text) (db db' : Db) : Prop where
  consented : Consented unit db db'
  granted : ∀ check ∈ requested db unit, check.canonicalSlug ∈ slugs → Covered db' unit check
  owing : slugs ≠ [] → Suspended db' unit → Owes db' unit

theorem served_consent (h : Consents host db unit input) (clock : ℕ) :
  Settled unit [input.permissionSlug] db (served host (.decide input) clock db) := by
 refine decide_rule (fun hrefused => absurd h (hrefused unit)) fun m check scopeId db' hdecided => ?_
 have hunit := hdecided.addressed h
 have hkey := (hdecided.requested hunit).2
 obtain ⟨g, hg, hstatus, hrisk⟩ := hdecided.decision
 obtain ⟨current, hcurrent, hcovers⟩ := currentRisk_of_resolved hrisk
 have hcatalog :
  ∀ other : NormalizedPermissionRequest, currentRiskOf db' other = currentRiskOf db other := by
  intro other
  rw [currentRiskOf, currentRiskOf, hdecided.catalog]
 have hnew : Covered db' unit check :=
  ⟨g, current, hkey ▸ hg, hstatus.trans h.status, (hcatalog check).trans hcurrent, hcovers⟩
 have hsame : ∀ other ∈ requested db unit, other.canonicalSlug = check.canonicalSlug → other = check := by
  intro other hother hslug
  obtain ⟨m', hforce, hmem, -⟩ := mem_requested.1 hother
  cases hforce.symm.trans hdecided.active
  exact check_eq_of_slug hdecided.valid hmem hdecided.asked hslug
 refine ⟨⟨fun k hk hrow => hdecided.frame k ?_ ?_, hdecided.kept unit, fun other hother hcovered => ?_⟩,
  fun other hother hslug => ?_, fun _ => hdecided.lifted h.status unit hunit⟩
 · rw [hkey]
   exact hk _
 · intro w hw
   cases hunit.symm.trans hw
   exact hrow
 · by_cases hslug : other.canonicalSlug = check.canonicalSlug
   · rw [hsame other hother hslug]
     exact hnew
   · obtain ⟨row, risk, hrow, hrest⟩ := hcovered
     refine ⟨row, risk, (hdecided.frame (.grant (unitGrant unit other.canonicalSlug)) (fun heq => hslug ?_)
      fun _ _ => by simp).trans hrow, by rw [hcatalog]; exact hrest⟩
     rw [hkey, Key.grant.injEq] at heq
     exact congrArg GrantKey.permissionSlug heq
 · rw [hsame other hother ((List.mem_singleton.1 hslug).trans hdecided.slug.symm)]
   exact hnew

def consents (decisions : List (DecisionInput × ℕ)) : List (Operation × ℕ) :=
  decisions.map fun d => (.decide d.1, d.2)

theorem after_consents (decisions : List (DecisionInput × ℕ))
  (hall : ∀ d ∈ decisions, Consents host db unit d.1) :
  Settled unit (decisions.map (·.1.permissionSlug)) db (after host db (consents decisions)) := by
 induction decisions generalizing db with
 | nil => exact ⟨Consented.refl unit db, fun _ _ => by simp, fun h => absurd rfl h⟩
 | cons d decisions ih =>
  have hfirst := served_consent (hall d List.mem_cons_self) d.2
  have hrest := ih fun other hother => (hall other (List.mem_cons_of_mem _ hother)).later hfirst.consented
  refine ⟨hfirst.consented.trans hrest.consented, fun check hcheck hslug => ?_, fun _ hsuspended => ?_⟩
  · have hcheck' : check ∈ requested (served host (.decide d.1) d.2 db) unit :=
     hfirst.consented.requested ▸ hcheck
    rcases List.mem_cons.1 hslug with hslug | hslug
    · exact hrest.consented.covered check hcheck'
       (hfirst.granted check hcheck (List.mem_singleton.2 hslug))
    · exact hrest.granted check hcheck' hslug
  · cases decisions with
    | nil => exact hfirst.owing (List.cons_ne_nil _ _) hsuspended
    | cons other decisions => exact hrest.owing (List.cons_ne_nil _ _) hsuspended

theorem lifted_of_consents {row : UnitRow} (hrow : unit? db unit = some row)
  (hrequested : requested db unit ≠ []) (decisions : List (DecisionInput × ℕ))
  (hall : ∀ d ∈ decisions, Consents host db unit d.1)
  (heach : ∀ check ∈ requested db unit, ∃ d ∈ decisions, d.1.permissionSlug = check.canonicalSlug) :
  ∃ row', unit? (after host db (consents decisions)) unit = some row' ∧
   row'.suspendedForConsent = false := by
 have hsettled := after_consents decisions hall
 obtain ⟨row', hrow'⟩ := Option.isSome_iff_exists.1 (hsettled.consented.kept (by rw [hrow]; rfl))
 refine ⟨row', hrow', ?_⟩
 by_contra hflag
 have hsome : decisions.map (·.1.permissionSlug) ≠ [] := by
  obtain ⟨check, hcheck⟩ := List.exists_mem_of_ne_nil _ hrequested
  obtain ⟨d, hd, -⟩ := heach check hcheck
  exact List.ne_nil_of_mem (List.mem_map_of_mem hd)
 obtain ⟨check, hcheck, huncovered⟩ :=
  hsettled.owing hsome ⟨row', hrow', Bool.eq_true_of_not_eq_false hflag⟩
 rw [hsettled.consented.requested] at hcheck
 obtain ⟨d, hd, hslug⟩ := heach check hcheck
 exact huncovered (hsettled.granted check hcheck (hslug ▸ List.mem_map_of_mem hd))

end Consents

/-- In every history, with a living plugin: a suspended unit owes the grant of
    some requested check, or a replaced manifest took away the last one it owed
    and it has not consented since; and where anything is requested of it,
    granting all of that lifts the suspension. -/
theorem suspended_units_recover (hfresh : Fresh db) (ops : List (Operation × ℕ)) (plugin : Plugin)
    (hliving : livingPlugin (after host db ops) = some plugin) (unit : UnitRef) (row : UnitRow)
    (hrow : unit? (after host db ops) unit = some row) (hsuspended : row.suspendedForConsent = true) :
    (Owes (after host db ops) unit ∨ Released host db unit ops) ∧
    ∀ decisions : List (DecisionInput × ℕ), requested (after host db ops) unit ≠ [] →
      (∀ d ∈ decisions, Consents host (after host db ops) unit d.1) →
      (∀ check ∈ requested (after host db ops) unit, ∃ d ∈ decisions,
       d.1.permissionSlug = check.canonicalSlug) →
      ∃ row', unit? (after host db (ops ++ consents decisions)) unit = some row' ∧
        row'.suspendedForConsent = false := by
 refine ⟨owes_or_released hfresh ops (by rw [hliving]; rfl) ⟨row, hrow, hsuspended⟩, ?_⟩
 intro decisions hrequested hall heach
 rw [after, List.foldl_append]
 exact lifted_of_consents hrow hrequested decisions hall heach

end Histories

section Samples

def updateGame : Text := "update:game".toList

def catalogStore : Db := demoStore.insert (.permission updateGame) ⟨.low, "Game".toList, [], false⟩

theorem catalogStore_fresh : Fresh catalogStore := by
 intro k hk
 rw [catalogStore, AList.lookup_insert_ne]
 · exact demoStore_fresh k hk
 · rintro rfl
   cases hk

def homeUnit : UnitRef := .household "home".toList

def answer (slug : Text) (status : PluginGrantStatus) : DecisionInput :=
  ⟨slug, .household, some "home".toList, status, "owner".toList, true⟩

def readOnly : PluginManifest := demoManifest "1.1.0" [⟨readGame, false, some .household⟩]

/-- A household grants the optional check and refuses the required one, and the
    next version asks for the optional one alone. -/
def refusedThenDropped : List (Operation × ℕ) :=
  [(.install ⟨.manifest (demoManifest "1.0.0" [⟨updateGame, true, some .household⟩,
      ⟨readGame, false, some .household⟩]), [], "admin".toList, [], true, true⟩, 0),
    (.enableHousehold ⟨"home".toList, none, true⟩, 20), (.decide (answer readGame .granted), 40),
    (.decide (answer updateGame .denied), 60),
    (.stage ⟨.manifest readOnly, List.replicate 64 'a', "admin".toList, true, true⟩, 80)]

def droppedPlugin : Plugin where
  slug := "demo".toList
  version := "1.1.0".toList
  scope := .household
  enabled := false
  manifestJson := .manifest readOnly
  config := emptyConfig
  installedSha256 := List.replicate 64 'a'
  installedById := "admin".toList
  installedAt := 0
  restartRequired := true
  pending := none
  uninstalledAt := none

theorem dropped_living :
  livingPlugin (after demoHost catalogStore refusedThenDropped) = some droppedPlugin := by
 decide

theorem dropped_row :
  ∃ row, unit? (after demoHost catalogStore refusedThenDropped) homeUnit = some row ∧
  row.suspendedForConsent = true := by
 have hrow : (unit? (after demoHost catalogStore refusedThenDropped) homeUnit).map
  (·.suspendedForConsent) =
   some true := by
  decide
 exact Option.map_eq_some_iff.1 hrow

theorem dropped_requested : requested (after demoHost catalogStore refusedThenDropped) homeUnit =
  permissionChecksOf readOnly := by
 decide

/-- The suspension outlives the requirement, and the next consent lifts it. -/
theorem suspended_units_recover_dropped : ∃ row', unit? (after demoHost catalogStore
    (refusedThenDropped ++ consents [(answer readGame .granted, 100)])) homeUnit = some row' ∧
      row'.suspendedForConsent = false := by
 obtain ⟨row, hrow, hsuspended⟩ := dropped_row
 refine (suspended_units_recover catalogStore_fresh refusedThenDropped droppedPlugin dropped_living
  homeUnit row hrow
  hsuspended).2 [(answer readGame .granted, 100)] ?_ ?_ ?_
 · rw [dropped_requested]
   decide +kernel
 · intro d hd
   rw [List.mem_singleton.1 hd]
   refine ⟨rfl, rfl, by decide, rfl, rfl, fun householdId hunit => ?_, droppedPlugin, _,
    ⟨readGame, false, .household, .core, readGame⟩, dropped_living, rfl, ?_, rfl, rfl, ?_⟩
   · cases hunit
     decide +kernel
   · decide +kernel
   · decide +kernel
 · intro check hcheck
   rw [dropped_requested] at hcheck
   refine ⟨_, List.mem_singleton.2 rfl, ?_⟩
   have hall : ∀ check ∈ permissionChecksOf readOnly, readGame = check.canonicalSlug := by decide +kernel
   exact hall check hcheck

/-- A suspended household that has granted all the active manifest requests of it. -/
theorem suspended_owing_nothing :
  ¬ ∀ (host : Host) (db : Db), Fresh db → ∀ (ops : List (Operation × ℕ))
    (plugin : Plugin), livingPlugin (after host db ops) = some plugin → ∀ (unit : UnitRef) (row : UnitRow),
      unit? (after host db ops) unit = some row → row.suspendedForConsent = true →
       Owes (after host db ops) unit := by
 intro h
 obtain ⟨row, hrow, hsuspended⟩ := dropped_row
 obtain ⟨check, hcheck, huncovered⟩ :=
  h demoHost catalogStore catalogStore_fresh refusedThenDropped droppedPlugin
  dropped_living homeUnit row hrow hsuspended
 rw [dropped_requested] at hcheck
 have hgranted : ∀ check ∈ permissionChecksOf readOnly,
   ((grant? (after demoHost catalogStore refusedThenDropped) (unitGrant homeUnit check.canonicalSlug)).map
    fun row => (row.status, row.decidedRiskLevel),
    currentRiskOf (after demoHost catalogStore refusedThenDropped) check) = (some (.granted, .low),
     some .low) := by
  decide +kernel
 obtain ⟨hgrant, hrisk⟩ := Prod.mk.inj (hgranted check hcheck)
 obtain ⟨grant, hrow', hstands⟩ := Option.map_eq_some_iff.1 hgrant
 obtain ⟨hstatus, hlevel⟩ := Prod.mk.inj hstands
 exact huncovered ⟨grant, .low, hrow', hstatus, hrisk, by rw [hlevel]; rfl⟩

end Samples

end BoardGamesEmpire.ConsentSuspension
