import BoardGamesEmpire.PluginInvariants

set_option autoImplicit false

/-!
# What an activation was based on and what it left alone

An activation compares and computes its diffs before its transaction opens. Its
claim checks the slot and not the manifest, and its re-stamp writes by slug and
not by status: both rest on nothing having happened in between.
-/
namespace BoardGamesEmpire.PluginUpdateHistory
open JsText Manifest ReadCommitted ReadCommittedProtocol PluginStore PluginEscalation PluginActivation
  PluginSuspension PluginUpdateProgram PluginGrantProgram PluginSystem PluginProtocol PluginLedger
  PluginInvariants

section Baseline

variable {host : Host} {s : System} {pre post : List (Entry Row Event)} {entry : Entry Row Event}
  {record : ActivationRecord}

/-- An immediate activation, with another manifest put in place since its request
    loaded the plugin row. -/
def Overtaken (pre : List (Entry Row Event)) (record : ActivationRecord) : Prop :=
  record.activation.plugin.pending = none ∧ ReplacedSince pre record.activation.initiatedAt

/-- In every run, an activation that was not overtaken compared against the
    manifest the row held when it was claimed. -/
theorem activation_baseline (h : Running host s) (hledger : s.shared.ledger = pre ++ entry :: post)
    (hevent : entry.event = .activated record) (hfirst : ¬ Overtaken pre record) :
    ∃ row, plugin? entry.before = some row ∧
      row.manifestJson = .manifest record.activation.active.manifest ∧
      ∃ corePermissions grants, record.activation.comparison =
        compare record.activation.active record.activation.next corePermissions grants := by
 have heffect := (running_recorded h).effect pre entry post hledger
 rw [hevent] at heffect
 have hactivated : ActivatedEffect (entryState pre entry) record entry.after := heffect
 obtain ⟨row, config, hrow, -, -⟩ := hactivated.claim
 refine ⟨row, hrow, ?_, hactivated.comparison⟩
 rcases hactivated.baseline with hovertaken | hjson
 · exact absurd hovertaken hfirst
 · exact hjson row hrow

def timing (entry : Entry Row Event) : ℕ × Option ℕ :=
  (entry.time, match entry.event with
    | .activated record => some record.activation.initiatedAt
    | _ => none)

/-- An update on its own compares against the manifest it replaces. -/
theorem lone_stage_baseline : ∃ s entry, Running demoHost s ∧ entry ∈ s.shared.ledger ∧
    ∃ record, entry.event = .activated record ∧ ∃ row, plugin? entry.before = some row ∧
      row.manifestJson = .manifest record.activation.active.manifest ∧
      ∃ corePermissions grants, record.activation.comparison =
        compare record.activation.active record.activation.next corePermissions grants := by
 have hplay : (play ([demoInstall "1.0.0" []] ++ steps 0 6 ++ [demoStage "1.1.0" []] ++ steps 1 9)).map
   (fun s => s.shared.ledger.map timing) = some [(6, none), (16, some 8)] := by
  decide +kernel
 obtain ⟨s, hrunning, hledger⟩ := exists_running hplay
 obtain ⟨first, rest, hsplit, hfirst, hrest⟩ := List.map_eq_cons_iff.1 hledger
 obtain ⟨entry, last, rfl, hentry, hlast⟩ := List.map_eq_cons_iff.1 hrest
 obtain ⟨record, hevent, hinitiated⟩ : ∃ record, entry.event = .activated record ∧
   record.activation.initiatedAt = 8 := by
  simp only [timing, Prod.mk.injEq] at hentry
  split at hentry
  · rename_i record hevent
    exact ⟨record, hevent, Option.some.inj hentry.2⟩
  · cases hentry.2
 have hledger' : s.shared.ledger = [first] ++ entry :: last := hsplit
 refine ⟨s, entry, hrunning, by simp [hsplit], record, hevent,
  activation_baseline hrunning hledger' hevent ?_⟩
 rintro ⟨-, earlier, hearlier, htime, -⟩
 have hbefore : first.time = 6 := congrArg Prod.fst hfirst
 rw [List.mem_singleton.1 hearlier, hinitiated, hbefore] at htime
 omega

def twoStages : List (Action Row Request) :=
  [demoInstall "1.0.0" []] ++ steps 0 6 ++ [demoStage "1.1.0" [], demoStage "1.2.0" []] ++
    steps 1 3 ++ steps 2 3 ++ steps 1 6 ++ steps 2 6

/-- The second update promotes 1.2.0 over 1.1.0 on a comparison with 1.0.0. -/
theorem overtaken_stage_misses_baseline : ∃ s, Running demoHost s ∧ ∃ entry ∈ s.shared.ledger,
    ∃ record, entry.event = .activated record ∧ ∃ row, plugin? entry.before = some row ∧
      row.manifestJson ≠ .manifest record.activation.active.manifest := by
 have hplay : (play twoStages).map (fun s => s.shared.ledger.map baselineHeld) = some
  [true, true, false] := by
  decide +kernel
 obtain ⟨s, hrunning, hledger⟩ := exists_running hplay
 have hmissed : ∃ entry ∈ s.shared.ledger, baselineHeld entry = false := by
  have hmem : false ∈ s.shared.ledger.map baselineHeld := by simp [hledger]
  simpa using hmem
 obtain ⟨entry, hentry, hmissed⟩ := hmissed
 refine ⟨s, hrunning, entry, hentry, ?_⟩
 obtain ⟨pre, post, hsplit⟩ := List.append_of_mem hentry
 have heffect := (running_recorded hrunning).effect pre entry post hsplit
 cases hevent : entry.event with
 | activated record =>
  rw [hevent] at heffect
  obtain ⟨row, config, hrow, -, -⟩ := ActivatedEffect.claim heffect
  have hrow' : plugin? entry.before = some row := hrow
  refine ⟨record, rfl, row, hrow', fun hjson => ?_⟩
  simp [baselineHeld, hevent, hrow', hjson] at hmissed
 | staged _ | rejected _ | uninstalled | installed _ | pluginUpdated | decided _ | revoked | unitUpdated _
  | unchanged => simp [baselineHeld, hevent] at hmissed

end Baseline

section Refusals

variable {host : Host} {s : System} {pre post : List (Entry Row Event)} {entry : Entry Row Event}
  {record : ActivationRecord}

/-- The next manifest drops the permission, un-declares it, or asks another scope for it. -/
inductive Withdrawn (a : Activation) (key : GrantKey) : Prop where
  | dropped (h : ∀ check ∈ a.next.permissionChecks, check.canonicalSlug ≠ key.permissionSlug)
  | undeclared (hbefore : key.permissionSlug ∈ declaredSlugs a.active)
      (hafter : key.permissionSlug ∉ declaredSlugs a.next)
  | moved (check : NormalizedPermissionRequest) (hcheck : check ∈ a.next.permissionChecks)
      (hslug : check.canonicalSlug = key.permissionSlug)
      (hscope : grantScopeOf check.consentScope ≠ key.scopeType)

/-- The activation left every refusal as it was, or deleted it with its permission. -/
def KeepsRefusals (entry : Entry Row Event) (a : Activation) : Prop :=
  ∀ key g, grant? entry.before key = some g → g.status = .denied →
    grant? entry.after key = some g ∨ (grant? entry.after key = none ∧ Withdrawn a key)

theorem withdrawn_of_erases {a : Activation} {seeded : List NormalizedPermissionRequest}
  {step : ActivationStep} {key : GrantKey}
  (hcomparison : ∃ corePermissions grants, a.comparison = compare a.active a.next corePermissions grants)
  (hstep : step ∈ activationSteps a seeded) (h : Erases key step) : Withdrawn a key := by
 rcases erases_cases hstep h with hremoved | hdropped | hmoved
 · simp only [declaredSlugDiff, List.mem_filter, Bool.not_eq_true', ← Bool.not_eq_true,
    List.contains_iff_mem] at hremoved
   exact .undeclared hremoved.1 hremoved.2
 · exact .dropped (mem_requestedSlugsDropped.1 hdropped).2.1
 · obtain ⟨corePermissions, grants, hcompare⟩ := hcomparison
   rw [hcompare, mem_scopeMoves] at hmoved
   obtain ⟨view, hview, hslug, previous, hprevious, hscope, hold⟩ := hmoved
   obtain ⟨check, hcheck, rfl⟩ := List.mem_map.1 hview
   refine .moved check hcheck hslug fun heq => hscope ?_
   exact grantScopeOf_injective (heq.trans hold.symm)

/-- In every run, an activation that has no refused decision to re-stamp keeps
    every refusal. -/
theorem activation_keeps_refusals (h : Running host s) (hledger : s.shared.ledger = pre ++ entry :: post)
    (hevent : entry.event = .activated record)
    (hunrefused : ∀ slug ∈ record.activation.comparison.serverRiskEscalatedSlugs, ∀ g,
      grant? entry.before (serverGrant slug) = some g → g.status ≠ .denied) :
    KeepsRefusals entry record.activation := by
 have heffect := (running_recorded h).effect pre entry post hledger
 rw [hevent] at heffect
 have hactivated : ActivatedEffect (entryState pre entry) record entry.after := heffect
 obtain ⟨done, hdone, hrows⟩ := hactivated.rows
 intro key g hg hdenied
 have hafter : grant? entry.after key = stepsRow record.activation done (.grant key) (some g) := by
  refine (hrows (.grant key) trivial).trans ?_
  change stepsRow record.activation done (.grant key) (grant? entry.before key) = _
  rw [hg]
 rw [hafter]
 refine (stepsRow_unstamped (fun slug hslug => ?_) fun check hcheck => ?_).imp id fun herased => ?_
 · rintro rfl
   rw [hdone] at hslug
   exact hunrefused slug (reStamp_mem.1 hslug) g hg hdenied
 · rintro rfl
   rw [hdone] at hcheck
   obtain ⟨-, -, hnone⟩ := hactivated.seeds check (seed_mem.1 hcheck)
   cases hg.symm.trans (hnone (serverGrant check.canonicalSlug) rfl rfl)
 · obtain ⟨hnone, step, hstep, herases⟩ := herased
   rw [hdone] at hstep
   exact ⟨hnone, withdrawn_of_erases hactivated.comparison hstep herases⟩

def optionalCheck : PluginPermissionRequest := ⟨readGame, false, some .server⟩

def denyReadGame : Action Row Request :=
  .spawn (.decide ⟨readGame, .server, none, .denied, "owner".toList, true⟩)

def stamping (entry : Entry Row Event) : Option (List Text) × Option PluginGrant × Option PluginGrant :=
  (match entry.event with
    | .activated record => some record.activation.comparison.serverRiskEscalatedSlugs
    | _ => none, grant? entry.before (serverGrant readGame), grant? entry.after (serverGrant readGame))

def ownersRefusal : PluginGrant := ⟨6, .denied, "owner".toList, "1.0.0".toList, .low, 9⟩

theorem stamping_activated {slugs : List Text} {before after : Option PluginGrant}
  (h : stamping entry = (some slugs, before, after)) : ∃ record, entry.event = .activated record ∧
   record.activation.comparison.serverRiskEscalatedSlugs = slugs := by
 have hslugs := congrArg Prod.fst h
 simp only [stamping] at hslugs
 split at hslugs
 · rename_i record hevent
   exact ⟨record, hevent, Option.some.inj hslugs⟩
 · cases hslugs

/-- The owner refuses an optional check; an update of nothing but the version
    leaves the refusal alone. -/
theorem refusal_survives_update : ∃ s entry record, Running demoHost s ∧ entry ∈ s.shared.ledger ∧
    entry.event = .activated record ∧ grant? entry.before (serverGrant readGame) = some ownersRefusal ∧
    KeepsRefusals entry record.activation := by
 have hplay : (play ([demoInstall "1.0.0" [optionalCheck]] ++ steps 0 7 ++ [denyReadGame] ++ steps 1 7 ++
   [demoStage "1.1.0" [optionalCheck]] ++ steps 2 9)).map (fun s => s.shared.ledger.map stamping) =
   some [(none, none, some ⟨6, .granted, "admin".toList, "1.0.0".toList, .low, 1⟩),
    (none, some ⟨6, .granted, "admin".toList, "1.0.0".toList, .low, 1⟩, some ownersRefusal),
    (some [], some ownersRefusal, some ownersRefusal)] := by
  decide +kernel
 obtain ⟨s, hrunning, hledger⟩ := exists_running hplay
 obtain ⟨first, rest, hsplit, -, hrest⟩ := List.map_eq_cons_iff.1 hledger
 obtain ⟨second, rest', rfl, -, hrest'⟩ := List.map_eq_cons_iff.1 hrest
 obtain ⟨entry, last, rfl, hentry, -⟩ := List.map_eq_cons_iff.1 hrest'
 obtain ⟨record, hevent, hslugs⟩ := stamping_activated hentry
 have hbefore : grant? entry.before (serverGrant readGame) = some ownersRefusal :=
  congrArg (fun x => x.2.1) hentry
 have hledger' : s.shared.ledger = [first, second] ++ entry :: last := hsplit
 refine ⟨s, entry, record, hrunning, by simp [hsplit], hevent, hbefore,
  activation_keeps_refusals hrunning hledger' hevent fun slug hslug => ?_⟩
 rw [hslugs] at hslug
 simp at hslug

/-- The permission's risk rises, an update is staged, and the owner refuses the
    check after the approval has compared and before its transaction opens. -/
def refusedMidApproval : List (Action Row Request) :=
  [demoInstall "1.0.0" [optionalCheck]] ++ steps 0 7 ++
    [.outside ⟨.permission readGame, some ⟨.high, "Game".toList, [], false⟩⟩,
      demoStage "1.1.0" [optionalCheck]] ++ steps 1 5 ++
    [.spawn (.approve ⟨13, "admin".toList, [], true⟩), denyReadGame] ++ steps 2 4 ++ steps 3 7 ++ steps 2 7

/-- The approval writes its own actor, time and version over the owner's refusal. -/
theorem restamp_rewrites_refusal : ∃ s, Running demoHost s ∧ ∃ entry ∈ s.shared.ledger, ∃ record,
    entry.event = .activated record ∧ ¬ KeepsRefusals entry record.activation := by
 have hplay : (play refusedMidApproval).map (fun s => s.shared.ledger.getLast?.map stamping) =
   some (some (some [readGame],
    some ⟨6, .denied, "owner".toList, "1.0.0".toList, .high, 21⟩,
    some ⟨6, .denied, "admin".toList, "1.1.0".toList, .high, 17⟩)) := by
  decide +kernel
 obtain ⟨s, hrunning, hlast⟩ := exists_running hplay
 obtain ⟨entry, hentry, hstamping⟩ := Option.map_eq_some_iff.1 hlast
 obtain ⟨record, hevent, -⟩ := stamping_activated hstamping
 refine ⟨s, hrunning, entry, List.mem_of_getLast? hentry, record, hevent, fun hkeeps => ?_⟩
 have hbefore : grant? entry.before (serverGrant readGame) = _ := congrArg (fun x => x.2.1) hstamping
 have hafter : grant? entry.after (serverGrant readGame) = _ := congrArg (fun x => x.2.2) hstamping
 rcases hkeeps _ _ hbefore rfl with hsame | ⟨hnone, -⟩
 · exact absurd (hafter.symm.trans hsame) (by decide +kernel)
 · cases hafter.symm.trans hnone

end Refusals

end BoardGamesEmpire.PluginUpdateHistory
