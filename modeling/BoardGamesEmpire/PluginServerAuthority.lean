import Mathlib.Order.WithBot
import BoardGamesEmpire.PluginEscalation

set_option autoImplicit false

/-!
# When an update leaves the server's authority as it was

The gate of the comparison, read as inclusions: of server checks, of outbound
reach, of core writes, and of risks in what the server granted.
-/
namespace BoardGamesEmpire.PluginEscalation
open JsText Manifest PluginStore

section Reach

/-- What a plugin may reach: an explicit list its own set, `configured` anything. -/
def reach : OutboundDomains → WithTop (Set Text)
  | .configured => ⊤
  | .listed domains => ↑({domain | domain ∈ domains} : Set Text)

theorem reach_le_iff (active next : OutboundDomains) :
  reach next ≤ reach active ↔ compareOutboundDomains active next = [] := by
 cases active with
 | configured =>
  rw [show reach .configured = ⊤ from rfl]
  cases next <;> simp [compareOutboundDomains]
 | listed known =>
  cases next with
  | configured => simp [reach, compareOutboundDomains]
  | listed domains =>
   rw [reach, reach, WithTop.coe_le_coe, compareOutboundDomains, List.map_eq_nil_iff,
    List.filter_eq_nil_iff]
   simp only [Bool.not_eq_true', Bool.not_eq_false, List.contains_iff_mem]
   exact Iff.rfl

end Reach

section Gate

variable (active next : ManifestComparisonView) (grants : List GrantComparisonView)
  (currentRiskBySlug : List (Text × RiskLevel))

structure ServerAuthorityKept : Prop where
  checks : ∀ check ∈ next.checks, check.consentScope = .server →
    ∃ previous ∈ active.checks, previous.canonicalSlug = check.canonicalSlug ∧
     previous.consentScope = .server
  outbound : reach next.outboundDomains ≤ reach active.outboundDomains
  writesCore : next.writesCore ⊆ active.writesCore
  risks : ∀ grant ∈ grants, grant.scopeType = .server → grant.status = .granted →
    ∀ check ∈ next.checks, check.canonicalSlug = grant.permissionSlug → scopeChanged active check = false →
      ∀ risk, mapGet currentRiskBySlug grant.permissionSlug = some risk →
       riskCovers grant.decidedRiskLevel risk = true

/-- An update that only drops checks, demotes required ones, and drops domains
    or core writes. -/
structure Narrowing : Prop where
  checks : ∀ check ∈ next.checks, ∃ previous ∈ active.checks,
   previous.canonicalSlug = check.canonicalSlug ∧
    previous.consentScope = check.consentScope ∧ (check.required = true → previous.required = true)
  outbound : reach next.outboundDomains ≤ reach active.outboundDomains
  writesCore : next.writesCore ⊆ active.writesCore

def RisksUnchanged (grants : List GrantComparisonView) (currentRiskBySlug : List (Text × RiskLevel))
    : Prop :=
  ∀ grant ∈ grants, grant.status = .granted →
   ∀ risk, mapGet currentRiskBySlug grant.permissionSlug = some risk →
    risk = grant.decidedRiskLevel

def Distinct (view : ManifestComparisonView) : Prop := (view.checks.map (·.canonicalSlug)).Nodup

variable {active next grants currentRiskBySlug}

theorem Distinct.eq {view : ManifestComparisonView} (h : Distinct view)
  {check check' : ComparisonCheck} (hcheck : check ∈ view.checks) (hcheck' : check' ∈ view.checks)
  (hslug : check.canonicalSlug = check'.canonicalSlug) :
  check = check' := List.inj_on_of_nodup_map h hcheck hcheck' hslug

theorem previousCheck_distinct (hactive : Distinct active) {slug : Text}
  {previous : ComparisonCheck} :
  previousCheck active slug = some previous ↔ previous ∈ active.checks ∧
   previous.canonicalSlug = slug := by
 rw [previousCheck, mapGet_iff]
 · simp only [List.mem_map, Prod.mk.injEq]
   constructor
   · rintro ⟨check, hcheck, hslug, rfl⟩
     exact ⟨hcheck, hslug⟩
   · rintro ⟨hcheck, hslug⟩
     exact ⟨previous, hcheck, hslug, rfl⟩
 · intro k v v' hv hv'
   obtain ⟨check, hcheck, heq⟩ := List.mem_map.1 hv
   obtain ⟨check', hcheck', heq'⟩ := List.mem_map.1 hv'
   obtain ⟨rfl, rfl⟩ := Prod.mk.inj heq
   obtain ⟨hslug, rfl⟩ := Prod.mk.inj heq'
   exact hactive.eq hcheck hcheck' hslug.symm

theorem checkEscalation_gating (hactive : Distinct active) {check : ComparisonCheck} :
  (∀ escalation, checkEscalation active check = some escalation → isServerGating escalation = false) ↔
   (check.consentScope = .server →
    ∃ previous ∈ active.checks, previous.canonicalSlug = check.canonicalSlug ∧
     previous.consentScope = .server) := by
 unfold checkEscalation
 cases hprevious : previousCheck active check.canonicalSlug with
 | none =>
  have hnew : ¬ ∃ previous ∈ active.checks, previous.canonicalSlug = check.canonicalSlug ∧
   previous.consentScope = .server := by
   rintro ⟨previous, hmem, hslug, -⟩
   rw [(previousCheck_distinct hactive).2 ⟨hmem, hslug⟩] at hprevious
   cases hprevious
  simp only [Option.some.injEq, forall_eq', isServerGating, beq_eq_false_iff_ne, hnew, imp_false, ne_eq]
 | some previous =>
  obtain ⟨hmem, hslug⟩ := (previousCheck_distinct hactive).1 hprevious
  -- the slug has one check in the active manifest
  have honly : (∃ other ∈ active.checks, other.canonicalSlug = check.canonicalSlug ∧
   other.consentScope = .server) ↔
    previous.consentScope = .server := by
   constructor
   · rintro ⟨other, hother, hslug', hserver⟩
     rwa [hactive.eq hmem hother (hslug.trans hslug'.symm)]
   · exact fun hserver => ⟨previous, hmem, hslug, hserver⟩
  rw [honly]
  by_cases hscope : check.consentScope = previous.consentScope
  · simp only [hscope, ne_eq, not_true_eq_false, if_false, imp_self, iff_true]
    intro escalation hescalation
    split at hescalation
    · rw [← Option.some.inj hescalation]
      rfl
    · cases hescalation
  · simp only [ne_eq, hscope, not_false_eq_true, if_true, Option.some.injEq, forall_eq', isServerGating,
     beq_eq_false_iff_ne]
    exact ⟨fun hne hserver => absurd hserver hne, fun himp hserver =>
     hscope (hserver.trans (himp hserver).symm)⟩

theorem riskEscalation_gating (hnext : Distinct next) {grant : GrantComparisonView} :
  (∀ escalation, riskEscalation active next currentRiskBySlug grant = some escalation →
   isServerGating escalation = false) ↔
   (grant.scopeType = .server → grant.status = .granted →
    ∀ check ∈ next.checks, check.canonicalSlug = grant.permissionSlug → scopeChanged active check = false →
     ∀ risk, mapGet currentRiskBySlug grant.permissionSlug = some risk →
      riskCovers grant.decidedRiskLevel risk = true) := by
 simp only [riskEscalation_some]
 constructor
 · intro hgating hserver hgranted check hcheck hslug hsame risk hrisk
   by_contra hstale
   have hkept : ∀ other ∈ next.checks, other.canonicalSlug = grant.permissionSlug →
    scopeChanged active other = false := by
    intro other hother hslug'
    rwa [hnext.eq hother hcheck (hslug'.trans hslug.symm)]
   have hfree := hgating _ ⟨⟨check, hcheck, hslug⟩, hkept, hgranted, risk, hrisk,
    Bool.eq_false_of_not_eq_true hstale, rfl⟩
   rw [isServerGating, hserver] at hfree
   cases hfree
 · rintro hcovered escalation ⟨⟨check, hcheck, hslug⟩, hkept, hgranted, risk, hrisk, hstale, rfl⟩
   rw [isServerGating, beq_eq_false_iff_ne]
   intro hserver
   rw [hcovered hserver hgranted check hcheck hslug (hkept check hcheck hslug) risk hrisk] at hstale
   cases hstale

theorem outbound_gating :
  (∀ escalation ∈ compareOutboundDomains active.outboundDomains next.outboundDomains,
   isServerGating escalation = false) ↔
   reach next.outboundDomains ≤ reach active.outboundDomains := by
 rw [reach_le_iff]
 cases active.outboundDomains with
 | configured => cases next.outboundDomains <;> simp [compareOutboundDomains]
 | listed known =>
  cases next.outboundDomains with
  | configured => simp [compareOutboundDomains, isServerGating]
  | listed domains =>
   rw [compareOutboundDomains, List.map_eq_nil_iff]
   constructor
   · intro hgating
     rw [List.eq_nil_iff_forall_not_mem]
     intro domain hdomain
     exact absurd (hgating _ (List.mem_map_of_mem hdomain)) (by simp [isServerGating])
   · intro hnone escalation hescalation
     rw [hnone] at hescalation
     exact absurd hescalation List.not_mem_nil

theorem writesCore_gating :
  (∀ escalation ∈ (next.writesCore.filter fun model => !active.writesCore.contains model).map
   UpdateEscalation.writesCoreAdded,
   isServerGating escalation = false) ↔ next.writesCore ⊆ active.writesCore := by
 constructor
 · intro hgating model hmodel
   by_contra hnew
   have hadded : model ∈ next.writesCore.filter fun model => !active.writesCore.contains model := by
    simp [List.mem_filter, hmodel, hnew]
   exact absurd (hgating _ (List.mem_map_of_mem hadded)) (by simp [isServerGating])
 · intro hsub escalation hescalation
   obtain ⟨model, hmodel, rfl⟩ := List.mem_map.1 hescalation
   simp only [List.mem_filter, Bool.not_eq_true', ← Bool.not_eq_true, List.contains_iff_mem] at hmodel
   exact absurd (hsub hmodel.1) hmodel.2

theorem serverGating_eq_false :
  (compareForEscalations active next grants currentRiskBySlug).serverGating = false ↔
   (∀ check ∈ next.checks, ∀ escalation, checkEscalation active check = some escalation →
    isServerGating escalation = false) ∧
   (∀ grant ∈ grants, ∀ escalation, riskEscalation active next currentRiskBySlug grant = some escalation →
    isServerGating escalation = false) ∧
   (∀ escalation ∈ compareOutboundDomains active.outboundDomains next.outboundDomains,
    isServerGating escalation = false) ∧
   (∀ escalation ∈ (next.writesCore.filter fun model => !active.writesCore.contains model).map
    UpdateEscalation.writesCoreAdded,
    isServerGating escalation = false) := by
 simp only [compareForEscalations, List.any_append, Bool.or_eq_false_iff, List.any_eq_false,
  List.mem_filterMap,
  Bool.not_eq_true, forall_exists_index, and_imp, and_assoc]
 constructor
 · rintro ⟨hchecks, hgrants, houtbound, hwrites⟩
   exact ⟨fun check hcheck escalation h => hchecks escalation check hcheck h,
    fun grant hgrant escalation h => hgrants escalation grant hgrant h, houtbound, hwrites⟩
 · rintro ⟨hchecks, hgrants, houtbound, hwrites⟩
   exact ⟨fun escalation check hcheck h => hchecks check hcheck escalation h,
    fun escalation grant hgrant h => hgrants grant hgrant escalation h, houtbound, hwrites⟩

theorem Narrowing.check (h : Narrowing active next) (hactive : Distinct active)
  {check : ComparisonCheck} (hcheck : check ∈ next.checks) :
  checkEscalation active check = none := by
 obtain ⟨previous, hmem, hslug, hscope, hrequired⟩ := h.checks check hcheck
 rw [checkEscalation, (previousCheck_distinct hactive).2 ⟨hmem, hslug⟩]
 have hnot : (check.required && !previous.required) = false := by
  cases hwanted : check.required with
  | false => rfl
  | true => rw [hrequired hwanted]; rfl
 simp [hscope, hnot]

theorem riskCovers_self (risk : RiskLevel) : riskCovers risk risk = true := by
 cases risk <;> rfl

/-- The gate is exact, and a narrowing update over unchanged risks escalates nothing. -/
theorem serverGating_exact (hactive : Distinct active) (hnext : Distinct next) :
    ((compareForEscalations active next grants currentRiskBySlug).serverGating = false ↔
      ServerAuthorityKept active next grants currentRiskBySlug) ∧
    (Narrowing active next → RisksUnchanged grants currentRiskBySlug →
      (compareForEscalations active next grants currentRiskBySlug).escalations = []) := by
 constructor
 · rw [serverGating_eq_false, outbound_gating, writesCore_gating]
   constructor
   · rintro ⟨hchecks, hgrants, houtbound, hwrites⟩
     exact ⟨fun check hcheck => (checkEscalation_gating hactive).1 (hchecks check hcheck),
      houtbound, hwrites,
      fun grant hgrant => (riskEscalation_gating hnext).1 (hgrants grant hgrant)⟩
   · intro hkept
     exact ⟨fun check hcheck => (checkEscalation_gating hactive).2 (hkept.checks check hcheck),
      fun grant hgrant => (riskEscalation_gating hnext).2 (hkept.risks grant hgrant),
       hkept.outbound, hkept.writesCore⟩
 · intro hnarrow hrisks
   have hchecks : next.checks.filterMap (checkEscalation active) = [] :=
    List.filterMap_eq_nil_iff.2 fun check hcheck => hnarrow.check hactive hcheck
   have hgrants : grants.filterMap (riskEscalation active next currentRiskBySlug) = [] := by
    rw [List.filterMap_eq_nil_iff]
    intro grant hgrant
    by_contra hsome
    obtain ⟨escalation, hescalation⟩ := Option.ne_none_iff_exists'.1 hsome
    obtain ⟨-, -, hgranted, risk, hrisk, hstale, -⟩ := riskEscalation_some.1 hescalation
    rw [hrisks grant hgrant hgranted risk hrisk, riskCovers_self] at hstale
    cases hstale
   have hwrites : next.writesCore.filter (fun model => !active.writesCore.contains model) = [] := by
    rw [List.filter_eq_nil_iff]
    intro model hmodel
    simp [hnarrow.writesCore hmodel]
   simp only [compareForEscalations]
   rw [hchecks, hgrants, (reach_le_iff _ _).1 hnarrow.outbound, hwrites]
   rfl

/-- An update that stops asking the server for one of its two permissions, and
    the household for a required one. -/
theorem serverGating_exact_dropped :
    let games : ComparisonCheck := ⟨"read:game".toList, .server, true⟩
    let events : ComparisonCheck := ⟨"read:event".toList, .household, true⟩
    let active : ManifestComparisonView := ⟨.configured, ["Game".toList], [games, events]⟩
    let next : ManifestComparisonView :=
   ⟨.listed ["api.example".toList], [], [{ games with required := false }]⟩
  let grants : List GrantComparisonView := [⟨"read:game".toList, .server, .granted, .medium⟩]
  let risks := [("read:game".toList, RiskLevel.medium)]
  ServerAuthorityKept active next grants risks ∧
   (compareForEscalations active next grants risks).escalations = [] := by
 intro games events active next grants risks
 have hexact := @serverGating_exact active next grants risks (by unfold Distinct; decide)
  (by unfold Distinct; decide)
 refine ⟨hexact.1.1 (by decide), hexact.2 ⟨?_, le_top, List.nil_subset _⟩ ?_⟩
 · intro check hcheck
   rw [List.mem_singleton.1 hcheck]
   exact ⟨games, List.mem_cons_self, rfl, rfl, fun _ => rfl⟩
 · intro grant hgrant _ risk hrisk
   rw [List.mem_singleton.1 hgrant] at hrisk ⊢
   exact (Option.some.inj hrisk).symm

end Gate

end BoardGamesEmpire.PluginEscalation
