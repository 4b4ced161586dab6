import BoardGamesEmpire.PluginLedger

set_option autoImplicit false

/-!
# What holds in every committed state

No living plugin keeps a server refusal of a check its manifest requires, no
serving unit refuses a check required of it, and no decision or catalog row
outlives the manifest that asked for it. The last two rest on activations that
compare against the manifest they replace.
-/
namespace BoardGamesEmpire.PluginInvariants
open JsText Manifest ReadCommitted ReadCommittedProtocol PluginStore PluginEscalation PluginActivation
  PluginSuspension PluginUpdateProgram PluginGrantProgram PluginSystem PluginProtocol PluginUpdateSafe
  PluginGrantSafe PluginLedger

section Changes

variable {σ : State} {event : Event} {db db' : Db}

structure Harmless (db db' : Db) : Prop where
  plugin : ∀ row', plugin? db' = some row' → ∃ row, plugin? db = some row ∧
    row'.manifestJson = row.manifestJson ∧ row'.uninstalledAt = row.uninstalledAt
  alive : ∀ row, Living db row → ∃ row', Living db' row'
  grants : ∀ key, grant? db' key = grant? db key ∨ grant? db' key = none
  catalog : ∀ slug, declared? db' slug = declared? db slug
  units : ∀ unit, unit? db' unit = unit? db unit

inductive Change (σ : State) (event : Event) (db' : Db) : Prop where
  | harmless (h : Harmless σ.db db')
  | unit (unit : UnitRef) (h : UnitUpdatedEffect σ unit db')
  | decided (key : GrantKey) (h : DecidedEffect σ key db')
  | activated (record : ActivationRecord) (hevent : event = .activated record)
      (h : ActivatedEffect σ record db')
  | installed (validated : PluginManifestValidationResult) (h : InstalledEffect σ validated db')
  | uninstalled (h : UninstalledEffect σ db')

theorem pluginEffect_harmless {row row' : Plugin} (h : PluginEffect db db' row row')
  (hjson : row'.manifestJson = row.manifestJson) (hlife : row'.uninstalledAt = row.uninstalledAt) :
  Harmless db db' where
 plugin current hcurrent := by
  cases h.after.symm.trans hcurrent
  exact ⟨row, h.before, hjson, hlife⟩
 alive current hcurrent := by
  cases h.before.symm.trans hcurrent.1
  exact ⟨row', h.after, hlife.trans hcurrent.2⟩
 grants key := .inl (h.frame (.grant key) (by simp))
 catalog slug := h.frame (.declared slug) (by simp)
 units unit := h.frame (.unit unit) (by simp)

theorem change (h : Effect σ event db') : Change σ event db' := by
 cases event with
 | staged slot =>
  obtain ⟨row, hwrite, -⟩ := StagedEffect.write h
  exact .harmless (pluginEffect_harmless hwrite rfl rfl)
 | rejected id =>
  obtain ⟨row, slot, hwrite, -⟩ := h
  exact .harmless (pluginEffect_harmless hwrite rfl rfl)
 | pluginUpdated =>
  obtain ⟨row, enabled, config, restartRequired, hwrite⟩ := h
  exact .harmless (pluginEffect_harmless hwrite rfl rfl)
 | revoked =>
  have hframe := RevokedEffect.frame h
  have hplugin : plugin? db' = plugin? σ.db := hframe .plugin (by simp)
  refine .harmless ⟨fun row hrow => ⟨row, hplugin.symm.trans hrow, rfl, rfl⟩,
   fun row hrow => ⟨row, hplugin.trans hrow.1, hrow.2⟩, RevokedEffect.grants h,
   fun slug => hframe (.declared slug) (by simp), fun unit => hframe (.unit unit) (by simp)⟩
 | unchanged =>
  obtain rfl : db' = σ.db := h
  exact .harmless ⟨fun row hrow => ⟨row, hrow, rfl, rfl⟩, fun row hrow => ⟨row, hrow⟩, fun _ => .inl rfl,
   fun _ => rfl, fun _ => rfl⟩
 | unitUpdated unit => exact .unit unit h
 | decided key => exact .decided key h
 | activated record => exact .activated record rfl h
 | installed validated => exact .installed validated h
 | uninstalled => exact .uninstalled h

theorem harmless_outside {w : PluginWrite} (hw : outside w.key = true) :
  Harmless db (applyWrite db w) where
 plugin row hrow := ⟨row, (lookup_outside db hw rfl).symm.trans hrow, rfl, rfl⟩
 alive row hrow := ⟨row, (lookup_outside db hw rfl).trans hrow.1, hrow.2⟩
 grants _ := .inl (lookup_outside db hw rfl)
 catalog _ := lookup_outside db hw rfl
 units _ := lookup_outside db hw rfl

variable {host : Host} {s : System}

theorem running_invariant (inv : Db → Prop) (assumes : List (Entry Row Event) → Prop)
  (hinit : ∀ ledger entry, assumes (ledger ++ [entry]) → assumes ledger)
  (hstart : ∀ db, Fresh db → inv db) (hharmless : ∀ db db', Harmless db db' → inv db → inv db')
  (hchange : ∀ σ event db', assumes (σ.commit event db').ledger → inv σ.db → Change σ event db' → inv db')
  (hassumes : assumes s.shared.ledger) (h : Running host s) : inv s.shared.db := by
 refine running_induction (fun σ => assumes σ.ledger → inv σ.db) (fun db hfresh _ => hstart db hfresh)
  (fun _ h => h) (fun σ event db' _ hinv heffect hassumes => ?_) (fun σ w hw hinv hassumes => ?_) h
   hassumes
 · exact hchange σ event db' hassumes (hinv (hinit _ _ hassumes)) (change heffect)
 · exact hharmless _ _ (harmless_outside hw) (hinv hassumes)

theorem fresh_plugin (h : Fresh db) : plugin? db = none := h .plugin rfl

def Manifested (db : Db) : Prop :=
  ∀ row, plugin? db = some row → ∃ m, row.manifestJson = .manifest m ∧ Valid m

def Swept (db : Db) : Prop := (∀ row, ¬ Living db row) →
  (∀ key, grant? db key = none) ∧ ∀ slug, declared? db slug = none

theorem Harmless.living (h : Harmless db db') {row' : Plugin} (hliving : Living db' row') :
  ∃ row, Living db row ∧ row'.manifestJson = row.manifestJson := by
 obtain ⟨row, hrow, hjson, hlife⟩ := h.plugin row' hliving.1
 exact ⟨row, ⟨hrow, hlife.symm.trans hliving.2⟩, hjson⟩

theorem Harmless.manifested (h : Harmless db db') (hinv : Manifested db) : Manifested db' := by
 intro row' hrow'
 obtain ⟨row, hrow, hjson, -⟩ := h.plugin row' hrow'
 rw [hjson]
 exact hinv row hrow

theorem Change.manifested (h : Change σ event db') (hinv : Manifested σ.db) : Manifested db' := by
 have hkept : plugin? db' = plugin? σ.db → Manifested db' :=
  fun heq row hrow => hinv row (heq ▸ hrow)
 cases h with
 | harmless h => exact h.manifested hinv
 | unit unit h => exact hkept (h.frame .plugin (by simp))
 | decided key h => exact hkept h.plugin
 | activated record _ h =>
  intro row hrow
  obtain ⟨old, config, -, -, hafter⟩ := h.claim
  cases hafter.symm.trans hrow
  exact ⟨_, rfl, h.next.valid⟩
 | installed validated h =>
  intro row hrow
  obtain ⟨new, hliving, -, hjson⟩ := h.plugin
  cases hliving.1.symm.trans hrow
  exact ⟨_, hjson, h.valid.valid⟩
 | uninstalled h =>
  intro row hrow
  obtain ⟨old, initiatedAt, hliving, hafter⟩ := h.plugin
  cases hafter.symm.trans hrow
  exact hinv old hliving.1

theorem running_manifested (h : Running host s) : Manifested s.shared.db := by
 refine running_invariant Manifested (fun _ => True) (fun _ _ _ => trivial) (fun db hfresh row hrow => ?_)
  (fun _ _ h hinv => h.manifested hinv) (fun _ _ _ _ hinv h => h.manifested hinv) trivial h
 rw [fresh_plugin hfresh] at hrow
 cases hrow

theorem Harmless.swept (h : Harmless db db') (hinv : Swept db) : Swept db' := by
 intro hdead
 obtain ⟨hgrants, hcatalog⟩ := hinv fun row hliving => by
  obtain ⟨row', hliving'⟩ := h.alive row hliving
  exact hdead row' hliving'
 refine ⟨fun key => ?_, fun slug => (h.catalog slug).trans (hcatalog slug)⟩
 exact (h.grants key).elim (fun heq => heq.trans (hgrants key)) id

theorem Change.swept (h : Change σ event db') (hinv : Swept σ.db) : Swept db' := by
 cases h with
 | harmless h => exact h.swept hinv
 | unit unit h =>
  intro hdead
  obtain ⟨hgrants, hcatalog⟩ := hinv fun row hliving =>
   hdead row ⟨(h.frame .plugin (by simp)).trans hliving.1, hliving.2⟩
  exact ⟨fun key => (h.frame (.grant key) (by simp)).trans (hgrants key),
   fun slug => (h.frame (.declared slug) (by simp)).trans (hcatalog slug)⟩
 | decided key h =>
  obtain ⟨row, -, -, -, hliving, -⟩ := h.decision
  exact fun hdead => absurd ⟨h.plugin.trans hliving.1, hliving.2⟩ (hdead row)
 | activated record _ h =>
  obtain ⟨row, config, hbefore, hclaim, hafter⟩ := h.claim
  simp only [claimable, Bool.and_eq_true, beq_iff_eq] at hclaim
  exact fun hdead => absurd ⟨hafter, hclaim.1.1⟩ (hdead _)
 | installed validated h =>
  obtain ⟨row, hliving, -⟩ := h.plugin
  exact fun hdead => absurd hliving (hdead row)
 | uninstalled h => exact fun _ => ⟨h.grants, h.catalog⟩

theorem fresh_swept (h : Fresh db) : Swept db :=
 fun _ => ⟨fun key => h (.grant key) rfl, fun slug => h (.declared slug) rfl⟩

theorem installed_swept {validated : PluginManifestValidationResult}
  (h : InstalledEffect σ validated db') (hinv : Swept σ.db) :
  (∀ key, grant? σ.db key = none) ∧ ∀ slug, declared? σ.db slug = none :=
 hinv fun row hliving => h.dead row hliving.1 hliving.2

theorem installed_grant {validated : PluginManifestValidationResult}
  (h : InstalledEffect σ validated db') (hinv : Swept σ.db) {key : GrantKey} {g : PluginGrant}
  (hg : grant? db' key = some g) :
  g.status = .granted ∧ ∃ check ∈ permissionChecksOf validated.manifest,
   check.consentScope = .server ∧ key = serverGrant check.canonicalSlug := by
 rcases h.grants key with heq | ⟨check, hcheck, hscope, hkey, g', hg', hgranted⟩
 · rw [heq, (installed_swept h hinv).1 key] at hg
   cases hg
 · cases hg'.symm.trans hg
   exact ⟨hgranted, check, h.valid.checks ▸ hcheck, hscope, hkey⟩

end Changes

section ServerRefusals

variable {host : Host} {s : System} {σ : State} {event : Event} {db db' : Db}

def NoServerRefusal (db : Db) : Prop :=
  ∀ row m, Living db row → row.manifestJson = .manifest m → ∀ key g, key.scopeType = .server →
    grant? db key = some g → g.status = .denied → ¬ RequiredOf m .server key.permissionSlug

theorem Harmless.noServerRefusal (h : Harmless db db') (hinv : NoServerRefusal db) :
  NoServerRefusal db' := by
 intro row' m hliving' hjson' key g hkey hg
 obtain ⟨row, hliving, hjson⟩ := h.living hliving'
 rcases h.grants key with heq | hnone
 · exact hinv row m hliving (hjson.symm.trans hjson') key g hkey (heq ▸ hg)
 · rw [hnone] at hg
   cases hg

theorem Change.noServerRefusal (h : Change σ event db') (hswept : Swept σ.db)
  (hinv : NoServerRefusal σ.db) :
  NoServerRefusal db' := by
 cases h with
 | harmless h => exact h.noServerRefusal hinv
 | unit unit h =>
  intro row m hliving hjson key g hkey hg
  refine hinv row m ⟨?_, hliving.2⟩ hjson key g hkey ?_
  · exact (h.frame .plugin (by simp)).symm.trans hliving.1
  · exact (h.frame (.grant key) (by simp)).symm.trans hg
 | decided decidedKey h =>
  obtain ⟨row, m, check, g, hliving, hjson, hvalid, hcheck, hslug, -, hgrant, hother, hallowed, -⟩ :=
   h.decision
  intro row' m' hliving' hjson' key g' hkey hg' hdenied
  cases hliving.1.symm.trans (h.plugin.symm.trans hliving'.1)
  cases hjson.symm.trans hjson'
  by_cases heq : key = decidedKey
  · subst heq
    cases hgrant.symm.trans hg'
    rintro ⟨check', hcheck', hslug', hscope', hrequired'⟩
    obtain rfl := check_eq_of_slug hvalid hcheck' hcheck (hslug'.trans hslug)
    exact hallowed hdenied hrequired' hscope'
  · exact hinv row m hliving hjson key g' hkey ((hother key heq).symm.trans hg') hdenied
 | activated record _ h =>
  obtain ⟨row, config, hbefore, hclaim, hafter⟩ := h.claim
  obtain ⟨done, -, hrows⟩ := h.rows
  intro row' m hliving hjson key g hkey hg hdenied
  cases hafter.symm.trans hliving.1
  cases hjson
  obtain ⟨g', hg', hdenied'⟩ := stepsRow_denied ((hrows (.grant key) trivial).symm.trans hg) hdenied
  exact h.unrefused key g' hkey hg' hdenied'
 | installed validated h =>
  intro row m _ _ key g _ hg hdenied
  rw [(installed_grant h hswept hg).1] at hdenied
  cases hdenied
 | uninstalled h =>
  intro row m _ _ key g _ hg
  rw [h.grants key] at hg
  cases hg

/-- In every committed state, a living plugin's stored manifest is valid and
    requires nothing that a server decision refuses. -/
theorem no_required_server_refusal (h : Running host s) {row : Plugin}
    (hliving : Living s.shared.db row) :
    ∃ m, row.manifestJson = .manifest m ∧ Valid m ∧ ∀ key g, key.scopeType = .server →
      grant? s.shared.db key = some g → g.status = .denied →
       ¬ RequiredOf m .server key.permissionSlug := by
 obtain ⟨m, hjson, hvalid⟩ := running_manifested h row hliving.1
 have hinv := running_invariant (fun db => Swept db ∧ NoServerRefusal db) (fun _ => True)
  (fun _ _ _ => trivial)
  (fun db hfresh => ⟨fresh_swept hfresh, fun row m hliving => by
   rw [Living, fresh_plugin hfresh] at hliving
   cases hliving.1⟩)
  (fun _ _ h hinv => ⟨h.swept hinv.1, h.noServerRefusal hinv.2⟩)
  (fun _ _ _ _ hinv h => ⟨h.swept hinv.1, h.noServerRefusal hinv.1 hinv.2⟩) trivial h
 exact ⟨m, hjson, hvalid, hinv.2 row m hliving hjson⟩

/-- The server refuses an optional check of an installed plugin. -/
theorem optional_server_refusal : ∃ s row, Running demoHost s ∧ Living s.shared.db row ∧
    (grant? s.shared.db (serverGrant readGame)).map (·.status) = some .denied ∧
    ∃ m, row.manifestJson = .manifest m ∧ Valid m ∧ ∀ key g, key.scopeType = .server →
      grant? s.shared.db key = some g → g.status = .denied →
       ¬ RequiredOf m .server key.permissionSlug := by
 have hplay : (play ([demoInstall "1.0.0" [⟨readGame, false, some .server⟩]] ++ steps 0 7 ++
   [.spawn (.decide ⟨readGame, .server, none, .denied, "owner".toList, true⟩)] ++ steps 1 7)).map (fun s =>
    ((plugin? s.shared.db).map (·.uninstalledAt),
     (grant? s.shared.db (serverGrant readGame)).map (·.status))) = some (some none, some .denied) := by
  decide +kernel
 obtain ⟨s, hrunning, hstate⟩ := exists_running hplay
 obtain ⟨hplugin, hgrant⟩ := Prod.mk.inj hstate
 obtain ⟨row, hrow, halive⟩ := Option.map_eq_some_iff.1 hplugin
 exact ⟨s, row, hrunning, ⟨hrow, halive⟩, hgrant, no_required_server_refusal hrunning ⟨hrow, halive⟩⟩

end ServerRefusals

section Baselines

def baselineHeld (entry : Entry Row Event) : Bool :=
  match entry.event with
  | .activated record =>
    match plugin? entry.before with
    | some row => row.manifestJson == .manifest record.activation.active.manifest
    | none => false
  | _ => true

def BaselinesHeld (ledger : List (Entry Row Event)) : Prop := ∀ entry ∈ ledger, baselineHeld entry = true

theorem baselinesHeld_init (ledger : List (Entry Row Event)) (entry : Entry Row Event)
  (h : BaselinesHeld (ledger ++ [entry])) : BaselinesHeld ledger :=
 fun earlier hearlier => h earlier (List.mem_append_left _ hearlier)

theorem baseline_of_held {σ : State} {record : ActivationRecord} {db' : Db}
  (h : BaselinesHeld (σ.commit (.activated record) db').ledger) :
  ∃ row, plugin? σ.db = some row ∧ row.manifestJson = .manifest record.activation.active.manifest := by
 have hentry := h _ (List.mem_append_right _ (List.mem_singleton.2 rfl))
 simp only [baselineHeld] at hentry
 split at hentry
 · rename_i row hrow
   exact ⟨row, hrow, by simpa using hentry⟩
 · cases hentry

def updatedHousehold : List (Action Row Request) :=
  [demoInstall "1.0.0" [⟨readGame, true, some .household⟩]] ++ steps 0 6 ++
    [.spawn (.enableHousehold ⟨"home".toList, none, true⟩)] ++ steps 1 8 ++
    [.spawn (.decide ⟨readGame, .household, some "home".toList, .granted, "owner".toList, true⟩)] ++
    steps 2 12 ++ [demoStage "1.1.0" [⟨readGame, true, some .household⟩]] ++ steps 3 9

theorem updatedHousehold_state : ∃ s row, Running demoHost s ∧ BaselinesHeld s.shared.ledger ∧
  Living s.shared.db row ∧
  (unit? s.shared.db (.household "home".toList)).map (·.suspendedForConsent) = some false ∧
  (grant? s.shared.db (unitGrant (.household "home".toList) readGame)).map (·.status) = some .granted := by
 have hplay : (play updatedHousehold).map (fun s => (s.shared.ledger.all baselineHeld,
   (plugin? s.shared.db).map (·.uninstalledAt),
   (unit? s.shared.db (.household "home".toList)).map (·.suspendedForConsent),
   (grant? s.shared.db (unitGrant (.household "home".toList) readGame)).map (·.status))) =
   some (true, some none, some false, some .granted) := by
  decide
 obtain ⟨s, hrunning, hstate⟩ := exists_running hplay
 simp only [Prod.mk.injEq] at hstate
 obtain ⟨hheld, hplugin, hunit, hgrant⟩ := hstate
 obtain ⟨row, hrow, halive⟩ := Option.map_eq_some_iff.1 hplugin
 exact ⟨s, row, hrunning, List.all_eq_true.1 hheld, ⟨hrow, halive⟩, hunit, hgrant⟩

end Baselines

section UnitRefusals

variable {host : Host} {s : System} {σ : State} {event : Event} {db db' : Db}

def NoUnitRefusal (db : Db) : Prop :=
  ∀ row m, plugin? db = some row → row.manifestJson = .manifest m → ∀ unit, Serving db unit →
    NoRefusal db m unit

theorem Harmless.noUnitRefusal (h : Harmless db db') (hinv : NoUnitRefusal db) :
  NoUnitRefusal db' := by
 intro row' m hrow' hjson' unit hserving slug hrequired g hg
 obtain ⟨row, hrow, hjson, -⟩ := h.plugin row' hrow'
 rcases h.grants (unitGrant unit slug) with heq | hnone
 · exact hinv row m hrow (hjson.symm.trans hjson') unit (serving_congr (h.units unit) hserving) slug
    hrequired
    g (heq ▸ hg)
 · rw [hnone] at hg
   cases hg

theorem reconsent_of_newlyRequired {a : Activation} (hactive : Validated a.active)
  (hnext : Validated a.next)
  (hcomparison : ∃ corePermissions grants, a.comparison = compare a.active a.next corePermissions grants)
  {axis : PluginConsentScope} (haxis : axis ≠ .server) {slug : Text}
  (hrequired : RequiredOf a.next.manifest axis slug)
  (hold : ¬ RequiredOf a.active.manifest axis slug) :
  slug ∈ reconsentSlugs a.comparison axis := by
 obtain ⟨corePermissions, grants, hcompare⟩ := hcomparison
 rw [hcompare, reconsentSlugs_compare _ _ _ haxis]
 refine List.mem_append_left _ ((mem_newlyRequired hactive).2 ⟨?_, ?_⟩)
 · obtain ⟨check, hcheck, hrest⟩ := hrequired
   exact ⟨check, hnext.checks ▸ hcheck, hrest⟩
 · rintro ⟨check, hcheck, hrest⟩
   exact hold ⟨check, hactive.checks ▸ hcheck, hrest⟩

theorem consentScope_ne_server (unit : UnitRef) : unit.consentScope ≠ .server := by
 cases unit <;> simp [UnitRef.consentScope]

theorem unitGrant_ne_serverGrant (unit : UnitRef) (slug slug' : Text) :
  unitGrant unit slug ≠ serverGrant slug' := by
 cases unit <;> simp [unitGrant, serverGrant, UnitRef.scope]

theorem Change.noUnitRefusal (h : Change σ event db')
  (hheld : BaselinesHeld (σ.commit event db').ledger) (hswept : Swept σ.db)
  (hinv : NoUnitRefusal σ.db) : NoUnitRefusal db' := by
 cases h with
 | harmless h => exact h.noUnitRefusal hinv
 | unit unit h =>
  intro row m hrow hjson other hserving
  have hplugin : plugin? db' = plugin? σ.db := h.frame .plugin (by simp)
  have hkept : Serving σ.db other → NoRefusal db' m other := by
   intro hbefore slug hrequired g hg
   exact hinv row m (hplugin.symm.trans hrow) hjson other hbefore slug hrequired g
    ((h.frame (.grant _) (by simp)).symm.trans hg)
  by_cases hother : other = unit
  · subst hother
    rcases h.serving hserving with hbefore | ⟨row', m', hliving, hjson', hnone⟩
    · exact hkept hbefore
    · cases hliving.1.symm.trans (hplugin.symm.trans hrow)
      cases hjson'.symm.trans hjson
      exact hnone
  · exact hkept (serving_congr (h.frame (.unit other) (by simpa using hother)) hserving)
 | decided key h =>
  obtain ⟨row, m, check, g, hliving, hjson, hvalid, hcheck, hslug, -, hgrant, hother, -, hunit⟩ :=
   h.decision
  intro row' m' hrow' hjson' unit hserving
  cases hliving.1.symm.trans (h.plugin.symm.trans hrow')
  cases hjson.symm.trans hjson'
  have hkept : Serving σ.db unit → (∀ slug, key = unitGrant unit slug → g.status = .denied →
    check.required = false) → NoRefusal db' m unit := by
   intro hbefore hoptional slug hrequired g' hg' hdenied
   by_cases hkey : unitGrant unit slug = key
   · rw [hkey] at hg'
     cases hgrant.symm.trans hg'
     obtain ⟨check', hcheck', hslug', -, hmust⟩ := hrequired
     have hsame : check'.canonicalSlug = check.canonicalSlug := by
      rw [hslug', ← hslug, ← hkey]
      rfl
     obtain rfl := check_eq_of_slug hvalid hcheck' hcheck hsame
     rw [hoptional slug hkey.symm hdenied] at hmust
     cases hmust
   · exact hinv row m hliving.1 hjson unit hbefore slug hrequired g'
      ((hother _ hkey).symm.trans hg') hdenied
  split at hunit
  · rename_i hnone
    refine hkept (serving_congr (hunit unit) hserving) fun slug hkey => ?_
    rw [hkey, show unitAt (unitGrant unit slug).scopeType (unitGrant unit slug).scopeId = some unit from
     unitAt_unit unit] at hnone
    cases hnone
  · rename_i decidedUnit hdecided
    by_cases hsame : unit = decidedUnit
    · subst hsame
      rcases hunit.serving hserving with ⟨hbefore, hkeeps⟩ | hnone
      · exact hkept hbefore fun _ _ hdenied => hkeeps hdenied
      · exact hnone
    · refine hkept (serving_congr (hunit.other unit hsame) hserving) fun slug hkey => ?_
      rw [hkey, show unitAt (unitGrant unit slug).scopeType (unitGrant unit slug).scopeId = some unit from
       unitAt_unit unit] at hdecided
      exact absurd (Option.some.inj hdecided) hsame
 | activated record hevent h =>
  subst hevent
  obtain ⟨row, hrow, hjson⟩ := baseline_of_held hheld
  obtain ⟨old, config, -, -, hafter⟩ := h.claim
  obtain ⟨done, -, hrows⟩ := h.rows
  intro row' m hrow' hjson' unit hserving slug hrequired g hg hdenied
  cases hafter.symm.trans hrow'
  cases hjson'
  -- the steps neither stamp nor seed a unit's decision
  have hbefore : grant? σ.db (unitGrant unit slug) = some g := by
   have hsteps := (hrows (.grant (unitGrant unit slug)) trivial).symm.trans hg
   rcases stepsRow_unstamped (a := record.activation) (x := σ.db.lookup (.grant (unitGrant unit slug)))
    (fun slug' (_ : .reStamp slug' ∈ done.map Prod.fst) => unitGrant_ne_serverGrant unit slug slug')
    fun check _ => unitGrant_ne_serverGrant unit slug _ with heq | ⟨hnone, -⟩
   · exact heq.symm.trans hsteps
   · rw [hnone] at hsteps
     cases hsteps
  by_cases hold : RequiredOf record.activation.active.manifest unit.consentScope slug
  · exact hinv row _ hrow hjson unit (h.serving unit hserving) slug hold g hbefore hdenied
  · exact h.reconsented unit hserving slug (reconsent_of_newlyRequired h.active h.next h.comparison
     (consentScope_ne_server unit) hrequired hold) g hg hdenied
 | installed validated h =>
  intro row m _ _ unit _ slug _ g hg hdenied
  rw [(installed_grant h hswept hg).1] at hdenied
  cases hdenied
 | uninstalled h =>
  intro row m _ _ unit _ slug _ g hg
  rw [h.grants] at hg
  cases hg

/-- Where every activation compared against the manifest it replaced, no
    unsuspended unit row has a refusal of a check required at its scope. -/
theorem serving_units_refuse_nothing (h : Running host s) (hheld : BaselinesHeld s.shared.ledger)
    {row : Plugin} (hrow : plugin? s.shared.db = some row) :
    ∃ m, row.manifestJson = .manifest m ∧ Valid m ∧ ∀ unit unitRow, unit? s.shared.db unit = some unitRow →
      unitRow.suspendedForConsent = false → ∀ check ∈ permissionChecksOf m,
      check.consentScope = unit.consentScope → check.required = true → ∀ g,
      grant? s.shared.db (unitGrant unit check.canonicalSlug) = some g → g.status ≠ .denied := by
 obtain ⟨m, hjson, hvalid⟩ := running_manifested h row hrow
 have hinv := running_invariant (fun db => Swept db ∧ NoUnitRefusal db) BaselinesHeld baselinesHeld_init
  (fun db hfresh => ⟨fresh_swept hfresh, fun row m hrow => by
   rw [fresh_plugin hfresh] at hrow
   cases hrow⟩)
  (fun _ _ h hinv => ⟨h.swept hinv.1, h.noUnitRefusal hinv.2⟩)
  (fun _ _ _ hheld hinv h => ⟨h.swept hinv.1, h.noUnitRefusal hheld hinv.1 hinv.2⟩) hheld h
 refine ⟨m, hjson, hvalid, fun unit unitRow hunit hopen check hcheck hscope hrequired => ?_⟩
 exact hinv.2 row m hrow hjson unit ⟨unitRow, hunit, hopen⟩ check.canonicalSlug
  ⟨check, hcheck, rfl, hscope, hrequired⟩

theorem updated_household_refuses_nothing :
  ∃ s row, Running demoHost s ∧ plugin? s.shared.db = some row ∧
    (unit? s.shared.db (.household "home".toList)).map (·.suspendedForConsent) = some false ∧
    ∃ m, row.manifestJson = .manifest m ∧ Valid m ∧ ∀ unit unitRow, unit? s.shared.db unit = some unitRow →
      unitRow.suspendedForConsent = false → ∀ check ∈ permissionChecksOf m,
      check.consentScope = unit.consentScope → check.required = true → ∀ g,
      grant? s.shared.db (unitGrant unit check.canonicalSlug) = some g → g.status ≠ .denied := by
 obtain ⟨s, row, hrunning, hheld, hliving, hunit, -⟩ := updatedHousehold_state
 exact ⟨s, row, hrunning, hliving.1, hunit, serving_units_refuse_nothing hrunning hheld hliving.1⟩

end UnitRefusals

section Orphans

variable {host : Host} {s : System} {σ : State} {event : Event} {db db' : Db}

def Requests (m : PluginManifest) (key : GrantKey) : Prop :=
  ∃ check ∈ permissionChecksOf m, check.canonicalSlug = key.permissionSlug ∧
    grantScopeOf check.consentScope = key.scopeType

def Fitting (db : Db) : Prop :=
  ∀ row m, Living db row → row.manifestJson = .manifest m →
    (∀ key g, grant? db key = some g → Requests m key) ∧
    ∀ slug, (declared? db slug).isSome = true ↔ slug ∈ (declaredPermissionsOf m).map (·.canonicalSlug)

theorem Harmless.fitting (h : Harmless db db') (hinv : Fitting db) : Fitting db' := by
 intro row' m hliving' hjson'
 obtain ⟨row, hliving, hjson⟩ := h.living hliving'
 obtain ⟨hgrants, hcatalog⟩ := hinv row m hliving (hjson.symm.trans hjson')
 refine ⟨fun key g hg => ?_, fun slug => by rw [h.catalog slug, hcatalog slug]⟩
 rcases h.grants key with heq | hnone
 · exact hgrants key g (heq ▸ hg)
 · rw [hnone] at hg
   cases hg

theorem requests_of_kept {a : Activation} (hactive : Validated a.active) (hnext : Validated a.next)
  (hcomparison : ∃ corePermissions grants, a.comparison = compare a.active a.next corePermissions grants)
  {seeded : List NormalizedPermissionRequest} {key : GrantKey}
  (hold : Requests a.active.manifest key)
  (hkept : ∀ step ∈ activationSteps a seeded, ¬ Erases key step) :
  Requests a.next.manifest key := by
 obtain ⟨check, hcheck, hslug, hscope⟩ := hold
 rw [← hactive.checks] at hcheck
 have hnotRemoved : key.permissionSlug ∉ (declaredSlugDiff a.active a.next).removed := by
  intro hmem
  obtain ⟨step, hstep, herases⟩ := erases_removed seeded (.inl hmem)
  exact hkept step hstep herases
 have hasked : ∃ next ∈ a.next.permissionChecks, next.canonicalSlug = key.permissionSlug := by
  by_contra hnone
  push Not at hnone
  obtain ⟨step, hstep, herases⟩ := erases_removed seeded
   (.inr (mem_requestedSlugsDropped.2 ⟨⟨check, hcheck, hslug⟩, hnone, hnotRemoved⟩))
  exact hkept step hstep herases
 obtain ⟨next, hmem, hnextSlug⟩ := hasked
 refine ⟨next, hnext.checks ▸ hmem, hnextSlug, ?_⟩
 by_contra hmoved
 obtain ⟨corePermissions, grants, hcompare⟩ := hcomparison
 have hmove : (key.permissionSlug, key.scopeType) ∈ scopeMoves a.comparison := by
  rw [hcompare, mem_scopeMoves]
  refine ⟨⟨next.canonicalSlug, next.consentScope, next.required⟩, List.mem_map_of_mem hmem, hnextSlug, _,
   (previousCheck_iff hactive).2 ⟨check, hcheck, hslug, rfl⟩, fun heq => hmoved ?_, hscope⟩
  simp only at heq
  rw [heq]
  exact hscope
 obtain ⟨step, hstep, herases⟩ := erases_moved seeded hmove
 exact hkept step hstep herases

theorem catalog_of_steps {a : Activation} (hactive : Validated a.active) (hnext : Validated a.next)
  {seeded : List NormalizedPermissionRequest} {done : List (ActivationStep × ℕ)}
  (hdone : done.map Prod.fst = activationSteps a seeded) {slug : Text} {x : Option PluginPermission}
  (hold : x.isSome = true ↔ slug ∈ (declaredPermissionsOf a.active.manifest).map (·.canonicalSlug)) :
  (stepsRow a done (.declared slug) x).isSome = true ↔
   slug ∈ (declaredPermissionsOf a.next.manifest).map (·.canonicalSlug) := by
 have hmem : ∀ {result : PluginManifestValidationResult}, Validated result →
   (slug ∈ declaredSlugs result ↔ slug ∈ (declaredPermissionsOf result.manifest).map
    (·.canonicalSlug)) := by
  intro result hresult
  rw [mem_declaredSlugs, hresult.declared, List.mem_map]
 rw [← hmem hactive] at hold
 rw [← hmem hnext, stepsRow_declared, hdone, createPermission_mem, hold]
 · simp only [deletePermissions_mem, declaredSlugDiff, List.mem_filter, Bool.not_eq_true',
    ← Bool.not_eq_true, List.contains_iff_mem]
   constructor
   · rintro (⟨hnew, -⟩ | ⟨hbefore, hkept⟩)
     · exact hnew
     · by_contra hgone
       have hremoved : slug ∈ (declaredSlugs a.active).filter
         fun slug => !(declaredSlugs a.next).contains slug := by
        simp [hbefore, hgone]
       exact hkept _ ⟨rfl, List.ne_nil_of_mem hremoved⟩ hremoved
   · intro hnew
     by_cases hbefore : slug ∈ declaredSlugs a.active
     · refine .inr ⟨hbefore, ?_⟩
       rintro slugs ⟨rfl, -⟩ hremoved
       simp [hnew] at hremoved
     · exact .inl ⟨hnew, hbefore⟩
 · intro slugs hslugs hin hcreate
   rw [hdone] at hslugs hcreate
   obtain ⟨rfl, -⟩ := deletePermissions_mem.1 hslugs
   have hadded := createPermission_mem.1 hcreate
   simp only [declaredSlugDiff, List.mem_filter] at hin hadded
   simp [hin.1] at hadded

theorem Change.fitting (h : Change σ event db') (hheld : BaselinesHeld (σ.commit event db').ledger)
  (hswept : Swept σ.db) (hinv : Fitting σ.db) : Fitting db' := by
 cases h with
 | harmless h => exact h.fitting hinv
 | unit unit h =>
  intro row m hliving hjson
  have hplugin : plugin? db' = plugin? σ.db := h.frame .plugin (by simp)
  obtain ⟨hgrants, hcatalog⟩ := hinv row m ⟨hplugin.symm.trans hliving.1, hliving.2⟩ hjson
  refine ⟨fun key g hg => hgrants key g ?_, fun slug => ?_⟩
  · exact (h.frame (.grant key) (by simp)).symm.trans hg
  · have hsame : declared? db' slug = declared? σ.db slug := h.frame (.declared slug) (by simp)
    rw [hsame, hcatalog slug]
 | decided key h =>
  obtain ⟨row, m, check, g, hliving, hjson, -, hcheck, hslug, hscope, -, hother, -, -⟩ := h.decision
  intro row' m' hliving' hjson'
  cases hliving.1.symm.trans (h.plugin.symm.trans hliving'.1)
  cases hjson.symm.trans hjson'
  obtain ⟨hgrants, hcatalog⟩ := hinv row m hliving hjson
  refine ⟨fun other g' hg' => ?_, fun slug => by rw [h.catalog slug, hcatalog slug]⟩
  by_cases heq : other = key
  · rw [heq]
    exact ⟨check, hcheck, hslug.symm, hscope.symm⟩
  · exact hgrants other g' ((hother other heq).symm.trans hg')
 | activated record hevent h =>
  subst hevent
  obtain ⟨row, hrow, hjson⟩ := baseline_of_held hheld
  obtain ⟨old, config, hbefore, hclaim, hafter⟩ := h.claim
  obtain ⟨done, hdone, hrows⟩ := h.rows
  simp only [claimable, Bool.and_eq_true, beq_iff_eq] at hclaim
  cases hbefore.symm.trans hrow
  obtain ⟨hgrants, hcatalog⟩ := hinv row _ ⟨hrow, hclaim.1.1⟩ hjson
  intro row' m hliving' hjson'
  cases hafter.symm.trans hliving'.1
  cases hjson'
  refine ⟨fun key g hg => ?_, fun slug => ?_⟩
  · rcases stepsRow_some ((hrows (.grant key) trivial).symm.trans hg) with ⟨check, hseed, hkey⟩
     | ⟨hsome, hkept⟩
    · rw [hdone] at hseed
      obtain ⟨hmem, hscope, -⟩ := h.seeds check (seed_mem.1 hseed)
      rw [hkey]
      exact ⟨check, h.next.checks ▸ hmem, rfl, by rw [hscope]; rfl⟩
    · rw [hdone] at hkept
      obtain ⟨g', hg'⟩ := Option.isSome_iff_exists.1 hsome
      exact requests_of_kept h.active h.next h.comparison (hgrants key g' hg') hkept
  · rw [declared?, hrows (.declared slug) trivial]
    exact catalog_of_steps h.active h.next hdone (hcatalog slug)
 | installed validated h =>
  intro row m hliving hjson
  obtain ⟨new, hnew, -, hnewJson⟩ := h.plugin
  cases hnew.1.symm.trans hliving.1
  cases hnewJson.symm.trans hjson
  refine ⟨fun key g hg => ?_, fun slug => ?_⟩
  · obtain ⟨-, check, hcheck, hscope, rfl⟩ := installed_grant h hswept hg
    exact ⟨check, hcheck, rfl, by rw [hscope]; rfl⟩
  · rw [h.catalog slug, (installed_swept h hswept).2 slug, h.valid.declared]
    simp
 | uninstalled h =>
  obtain ⟨old, initiatedAt, -, hafter⟩ := h.plugin
  intro row m hliving
  cases hafter.symm.trans hliving.1
  cases hliving.2

/-- Where every activation compared against the manifest it replaced, a living
    plugin has decisions only on what its manifest requests, at the scope it
    requests, and its catalog is the list of its declarations. -/
theorem no_orphaned_consent (h : Running host s) (hheld : BaselinesHeld s.shared.ledger)
    {row : Plugin} (hliving : Living s.shared.db row) :
    ∃ m, row.manifestJson = .manifest m ∧ Valid m ∧
      (∀ key g, grant? s.shared.db key = some g → ∃ check ∈ permissionChecksOf m,
        check.canonicalSlug = key.permissionSlug ∧ grantScopeOf check.consentScope = key.scopeType) ∧
      ∀ slug, (declared? s.shared.db slug).isSome = true ↔
        slug ∈ (declaredPermissionsOf m).map (·.canonicalSlug) := by
 obtain ⟨m, hjson, hvalid⟩ := running_manifested h row hliving.1
 have hinv := running_invariant (fun db => Swept db ∧ Fitting db) BaselinesHeld baselinesHeld_init
  (fun db hfresh => ⟨fresh_swept hfresh, fun row m hliving => by
   rw [Living, fresh_plugin hfresh] at hliving
   cases hliving.1⟩)
  (fun _ _ h hinv => ⟨h.swept hinv.1, h.fitting hinv.2⟩)
  (fun _ _ _ hheld hinv h => ⟨h.swept hinv.1, h.fitting hheld hinv.1 hinv.2⟩) hheld h
 exact ⟨m, hjson, hvalid, hinv.2 row m hliving hjson⟩

theorem updated_household_no_orphan : ∃ s row, Running demoHost s ∧ Living s.shared.db row ∧
    (grant? s.shared.db (unitGrant (.household "home".toList) readGame)).map (·.status) = some .granted ∧
    ∃ m, row.manifestJson = .manifest m ∧ Valid m ∧
      (∀ key g, grant? s.shared.db key = some g → ∃ check ∈ permissionChecksOf m,
        check.canonicalSlug = key.permissionSlug ∧ grantScopeOf check.consentScope = key.scopeType) ∧
      ∀ slug, (declared? s.shared.db slug).isSome = true ↔
        slug ∈ (declaredPermissionsOf m).map (·.canonicalSlug) := by
 obtain ⟨s, row, hrunning, hheld, hliving, -, hgrant⟩ := updatedHousehold_state
 exact ⟨s, row, hrunning, hliving, hgrant, no_orphaned_consent hrunning hheld hliving⟩

end Orphans

end BoardGamesEmpire.PluginInvariants
