import BoardGamesEmpire.PluginSystemSafe

set_option autoImplicit false

/-!
# What the ledger of a run says

Every entry of a reachable ledger had its effect, and what an activation's steps
did to a decision or a catalog row can be read off the list of its steps.
-/
namespace BoardGamesEmpire.PluginLedger
open JsText Manifest ReadCommitted ReadCommittedProtocol PluginStore PluginEscalation PluginActivation
  PluginSuspension PluginUpdateProgram PluginSystem PluginProtocol PluginUpdateSafe PluginSystemSafe

section Runs

variable {host : Host} {s : System}

theorem fresh_provenance {db : Db} (h : Fresh db) : Provenance ⟨db, 0, []⟩ := by
 refine ⟨by simp, by simp, fun row slot hrow => ?_⟩
 rw [plugin?, h .plugin rfl] at hrow
 cases hrow

theorem running_provenance (h : Running host s) : Provenance s.shared := by
 obtain ⟨db, hfresh, hreach⟩ := h
 exact (reachable_wellRun (protocol_sound host) (fresh_provenance hfresh) hreach).inv

theorem running_induction (motive : State → Prop) (hstart : ∀ db, Fresh db → motive ⟨db, 0, []⟩)
  (htick : ∀ σ, motive σ → motive σ.tick)
  (hcommit : ∀ σ event db', Provenance σ → motive σ → Effect σ event db' → motive (σ.commit event db'))
  (houtside : ∀ σ w, outside w.key = true → motive σ →
   motive { σ.tick with db := applyWrite σ.db w }) (h : Running host s) : motive s.shared := by
 obtain ⟨db, hfresh, hreach⟩ := h
 refine reachable_induction (protocol_sound host) (fresh_provenance hfresh) motive
  (hstart db hfresh) ?_ hreach
 intro σ σ' hinv h hmove
 cases hmove with
 | tick => exact htick σ h
 | commit event db' heffect => exact hcommit σ event db' hinv h heffect
 | outside w hkey => exact houtside σ w hkey h

def entryState (pre : List (Entry Row Event)) (entry : Entry Row Event) : State :=
  ⟨entry.before, entry.time, pre⟩

structure Recorded (σ : State) : Prop where
  effect : ∀ pre entry post, σ.ledger = pre ++ entry :: post →
    Effect (entryState pre entry) entry.event entry.after
  provenance : ∀ pre entry post, σ.ledger = pre ++ entry :: post → Provenance (entryState pre entry)
  past : ∀ entry ∈ σ.ledger, entry.time < σ.clock
  order : ∀ pre entry post, σ.ledger = pre ++ entry :: post → ∀ earlier ∈ pre, earlier.time < entry.time

theorem Recorded.commit {σ : State} {event : Event} {db' : Db} (h : Recorded σ)
  (hinv : Provenance σ) (heffect : Effect σ event db') : Recorded (σ.commit event db') := by
 -- an entry of the longer ledger is the new one or stands in the old one
 have hsplit : ∀ pre entry post, σ.ledger ++ [⟨event, σ.clock, σ.db, db'⟩] = pre ++ entry :: post →
   (pre = σ.ledger ∧ entry = ⟨event, σ.clock, σ.db, db'⟩) ∨
   ∃ rest, σ.ledger = pre ++ entry :: rest := by
  intro pre entry post heq
  rcases List.append_eq_append_iff.1 heq with ⟨more, rfl, hmore⟩ | ⟨more, hmore, heq'⟩
  · cases more with
    | nil =>
     simp only [List.nil_append, List.cons.injEq] at hmore
     exact .inl ⟨by simp, hmore.1.symm⟩
    | cons first more => simp at hmore
  · cases more with
    | nil =>
     simp only [List.nil_append, List.cons.injEq] at heq'
     exact .inl ⟨by simpa using hmore.symm, heq'.1⟩
    | cons first more =>
     simp only [List.cons_append, List.cons.injEq] at heq'
     exact .inr ⟨more, by rw [hmore, heq'.1]⟩
 refine ⟨fun pre entry post heq => ?_, fun pre entry post heq => ?_, fun entry hentry => ?_,
  fun pre entry post heq => ?_⟩
 · rcases hsplit pre entry post heq with ⟨rfl, rfl⟩ | ⟨rest, hrest⟩
   · exact heffect
   · exact h.effect pre entry rest hrest
 · rcases hsplit pre entry post heq with ⟨rfl, rfl⟩ | ⟨rest, hrest⟩
   · exact hinv
   · exact h.provenance pre entry rest hrest
 · rcases List.mem_append.1 hentry with hold | hnew
   · exact Nat.lt_succ_of_lt (h.past entry hold)
   · rw [List.mem_singleton.1 hnew]
     exact Nat.lt_succ_self _
 · rcases hsplit pre entry post heq with ⟨rfl, rfl⟩ | ⟨rest, hrest⟩
   · exact h.past
   · exact h.order pre entry rest hrest

theorem running_recorded (h : Running host s) : Recorded s.shared := by
 refine running_induction Recorded (fun db _ => ?_) (fun σ h => ?_)
  (fun σ event db' hinv h heffect => h.commit hinv heffect) (fun σ w _ h => ?_) h
 · exact ⟨by simp, by simp, by simp, by simp⟩
 · exact ⟨h.effect, h.provenance, fun entry hentry => Nat.lt_succ_of_lt (h.past entry hentry), h.order⟩
 · exact ⟨h.effect, h.provenance, fun entry hentry => Nat.lt_succ_of_lt (h.past entry hentry), h.order⟩

end Runs

section Steps

variable {a : Activation} {key : GrantKey}

def Erases (key : GrantKey) : ActivationStep → Prop
  | .deleteGrants slugs => key.permissionSlug ∈ slugs
  | .moveScope slug scopeType => key.permissionSlug = slug ∧ key.scopeType = scopeType
  | .deletePermissions _ | .createPermission _ | .reStamp _ | .seed _ => False

theorem stepRow_erases {step : ActivationStep} (h : Erases key step) (clock : ℕ)
  (x : Option PluginGrant) : stepRow a step clock (.grant key) x = none := by
 cases step with
 | deleteGrants slugs => exact if_pos (List.contains_iff_mem.2 h)
 | moveScope slug scopeType => exact if_pos (by simpa [Erases] using h)
 | deletePermissions _ | createPermission _ | reStamp _ | seed _ => exact h.elim

theorem stepRow_keeps {step : ActivationStep} (h : ¬ Erases key step) (clock : ℕ)
  (x : Option PluginGrant) : stepRow a step clock (.grant key) x = x ∨
   (∃ slug, step = .reStamp slug ∧ key = serverGrant slug ∧
    stepRow a step clock (.grant key) x = x.map (reStamped a slug)) ∨
   (∃ check, step = .seed check ∧ key = serverGrant check.canonicalSlug ∧
    stepRow a step clock (.grant key) x = some (seededGrant a clock check)) := by
 cases step with
 | deleteGrants slugs => exact .inl (if_neg fun hmem => h (List.contains_iff_mem.1 hmem))
 | moveScope slug scopeType => exact .inl (if_neg fun hmem => h (by simpa [Erases] using hmem))
 | deletePermissions _ | createPermission _ => exact .inl rfl
 | reStamp slug =>
  by_cases hkey : key = serverGrant slug
  · exact .inr (.inl ⟨slug, rfl, hkey, if_pos hkey⟩)
  · exact .inl (if_neg hkey)
 | seed check =>
  by_cases hkey : key = serverGrant check.canonicalSlug
  · exact .inr (.inr ⟨check, rfl, hkey, if_pos hkey⟩)
  · exact .inl (if_neg hkey)

theorem stepsRow_cons (step : ActivationStep × ℕ) (done : List (ActivationStep × ℕ)) (k : Key)
  (x : Option (Row k)) :
  stepsRow a (step :: done) k x = stepsRow a done k (stepRow a step.1 step.2 k x) := rfl

variable {done : List (ActivationStep × ℕ)}

theorem stepsRow_denied {x : Option PluginGrant} {g : PluginGrant}
  (h : stepsRow a done (.grant key) x = some g) (hdenied : g.status = .denied) :
  ∃ g', x = some g' ∧ g'.status = .denied := by
 induction done generalizing x with
 | nil => exact ⟨g, h, hdenied⟩
 | cons step done ih =>
  rw [stepsRow_cons] at h
  obtain ⟨g', hg', hdenied'⟩ := ih h
  by_cases herases : Erases key step.1
  · rw [stepRow_erases herases] at hg'
    cases hg'
  rcases stepRow_keeps herases step.2 x with heq | ⟨slug, -, -, heq⟩ | ⟨check, -, -, heq⟩
  · exact ⟨g', heq.symm.trans hg', hdenied'⟩
  · rw [heq] at hg'
    obtain ⟨old, rfl, rfl⟩ := Option.map_eq_some_iff.1 hg'
    exact ⟨old, rfl, hdenied'⟩
  · cases heq.symm.trans hg'
    cases hdenied'

theorem stepsRow_unstamped {x : Option PluginGrant}
  (hstamp : ∀ slug, .reStamp slug ∈ done.map Prod.fst → key ≠ serverGrant slug)
  (hseed : ∀ check, .seed check ∈ done.map Prod.fst → key ≠ serverGrant check.canonicalSlug) :
  stepsRow a done (.grant key) x = x ∨
   (stepsRow a done (.grant key) x = none ∧ ∃ step ∈ done.map Prod.fst, Erases key step) := by
 induction done generalizing x with
 | nil => exact .inl rfl
 | cons step done ih =>
  rw [List.map_cons] at hstamp hseed
  have hrest := fun y => ih (x := y) (fun slug hslug => hstamp slug (List.mem_cons_of_mem _ hslug))
   fun check hcheck => hseed check (List.mem_cons_of_mem _ hcheck)
  have htail : (∃ step ∈ done.map Prod.fst, Erases key step) →
    ∃ later ∈ (step :: done).map Prod.fst, Erases key later :=
   fun ⟨later, hlater, herases⟩ => ⟨later, List.mem_cons_of_mem _ hlater, herases⟩
  rw [stepsRow_cons]
  by_cases herases : Erases key step.1
  · rw [stepRow_erases herases]
    refine .inr ⟨(hrest none).elim id And.left, step.1, List.mem_cons_self, herases⟩
  rcases stepRow_keeps herases step.2 x with heq | ⟨slug, hstep, hkey, -⟩ | ⟨check, hstep, hkey, -⟩
  · rw [heq]
    exact (hrest x).imp id fun ⟨hnone, hlater⟩ => ⟨hnone, htail hlater⟩
  · exact absurd hkey (hstamp slug (by rw [← hstep]; exact List.mem_cons_self))
  · exact absurd hkey (hseed check (by rw [← hstep]; exact List.mem_cons_self))

theorem stepsRow_some {x : Option PluginGrant} {g : PluginGrant}
  (h : stepsRow a done (.grant key) x = some g) :
  (∃ check, .seed check ∈ done.map Prod.fst ∧ key = serverGrant check.canonicalSlug) ∨
   (x.isSome = true ∧ ∀ step ∈ done.map Prod.fst, ¬ Erases key step) := by
 induction done generalizing x with
 | nil =>
  right
  rw [show x = some g from h]
  simp
 | cons step done ih =>
  rw [stepsRow_cons] at h
  rcases ih h with ⟨check, hcheck, hkey⟩ | ⟨hsome, hnone⟩
  · exact .inl ⟨check, List.mem_cons_of_mem _ hcheck, hkey⟩
  by_cases herases : Erases key step.1
  · rw [stepRow_erases herases] at hsome
    cases hsome
  have hall : ∀ later ∈ (step :: done).map Prod.fst, ¬ Erases key later := by
   intro later hlater
   rcases List.mem_cons.1 hlater with rfl | hlater
   · exact herases
   · exact hnone later hlater
  rcases stepRow_keeps herases step.2 x with heq | ⟨slug, -, -, heq⟩ | ⟨check, hstep, hkey, -⟩
  · rw [heq] at hsome
    exact .inr ⟨hsome, hall⟩
  · rw [heq, Option.isSome_map] at hsome
    exact .inr ⟨hsome, hall⟩
  · exact .inl ⟨check, by rw [← hstep]; exact List.mem_cons_self, hkey⟩

theorem stepsRow_declared {slug : Text} {x : Option PluginPermission}
  (hdisjoint : ∀ slugs, .deletePermissions slugs ∈ done.map Prod.fst → slug ∈ slugs →
   .createPermission slug ∉ done.map Prod.fst) :
  (stepsRow a done (.declared slug) x).isSome = true ↔ .createPermission slug ∈ done.map Prod.fst ∨
   (x.isSome = true ∧ ∀ slugs, .deletePermissions slugs ∈ done.map Prod.fst → slug ∉ slugs) := by
 induction done generalizing x with
 | nil => simp [stepsRow]
 | cons step done ih =>
  obtain ⟨step, clock⟩ := step
  simp only [List.map_cons, List.mem_cons] at hdisjoint ⊢
  have hrest := fun y => ih (x := y) fun slugs hslugs hmem hcreate =>
   hdisjoint slugs (.inr hslugs) hmem (.inr hcreate)
  rw [stepsRow_cons, hrest]
  cases step with
  | deleteGrants _ | moveScope _ _ | reStamp _ | seed _ => simp [stepRow]
  | createPermission added =>
   by_cases hslug : slug = added
   · subst hslug
     have hkept : ∀ slugs, .deletePermissions slugs ∈ done.map Prod.fst → slug ∉ slugs :=
      fun slugs hslugs hmem => hdisjoint slugs (.inr hslugs) hmem (.inl rfl)
     simp only [stepRow, if_true, Option.isSome_some, true_and, true_or, iff_true]
     exact .inr hkept
   · simp [stepRow, hslug]
  | deletePermissions slugs =>
   by_cases hslug : slug ∈ slugs
   · have hnot := hdisjoint slugs (.inl rfl) hslug
     have hcreate : .createPermission slug ∉ done.map Prod.fst := fun h => hnot (.inr h)
     have hboth : ¬ ∀ other, (ActivationStep.deletePermissions other = .deletePermissions slugs ∨
       .deletePermissions other ∈ done.map Prod.fst) → slug ∉ other :=
      fun h => h slugs (.inl rfl) hslug
     simp only [stepRow, List.contains_iff_mem, hslug, if_true, Option.isSome_none, hcreate, hboth,
      Bool.false_eq_true, false_and, and_false, or_self, reduceCtorEq]
   · simp only [stepRow, List.contains_iff_mem, hslug, if_false, reduceCtorEq, false_or]
     refine or_congr_right (and_congr_right fun _ => ⟨fun h other hother => ?_, fun h other hother =>
      h other (.inr hother)⟩)
     rcases hother with heq | hother
     · cases heq
       exact hslug
     · exact h other hother

end Steps

section Members

variable {a : Activation} {seeded : List NormalizedPermissionRequest} {slug : Text}

theorem reStamp_mem : .reStamp slug ∈ activationSteps a seeded ↔
  slug ∈ a.comparison.serverRiskEscalatedSlugs := by
 simp only [activationSteps, removalSteps, List.mem_append, List.mem_map, reduceCtorEq, and_false,
  exists_false, or_false, ActivationStep.reStamp.injEq, exists_eq_right]
 refine ⟨fun h => h.resolve_left fun h => ?_, .inr⟩
 rcases h with h | h <;> split_ifs at h <;> simp at h

theorem seed_mem {check : NormalizedPermissionRequest} : .seed check ∈ activationSteps a seeded ↔
  check ∈ seeded := by
 simp only [activationSteps, removalSteps, List.mem_append, List.mem_map, reduceCtorEq, and_false,
  exists_false, or_false, ActivationStep.seed.injEq, exists_eq_right]
 refine ⟨fun h => h.resolve_left fun h => ?_, .inr⟩
 rcases h with h | h <;> split_ifs at h <;> simp at h

theorem createPermission_mem : .createPermission slug ∈ activationSteps a seeded ↔
  slug ∈ (declaredSlugDiff a.active a.next).added := by
 simp only [activationSteps, removalSteps, List.mem_append, List.mem_map, reduceCtorEq, and_false,
  exists_false, or_false, ActivationStep.createPermission.injEq, exists_eq_right]
 refine ⟨fun h => h.resolve_left fun h => ?_, .inr⟩
 rcases h with h | h <;> split_ifs at h <;> simp at h

theorem deletePermissions_mem {slugs : List Text} :
  .deletePermissions slugs ∈ activationSteps a seeded ↔
  slugs = (declaredSlugDiff a.active a.next).removed ∧ slugs ≠ [] := by
 simp only [activationSteps, removalSteps, List.mem_append, List.mem_map, reduceCtorEq, and_false,
  exists_false, or_false]
 constructor
 · rintro (h | h)
   · split_ifs at h with hnil
     · simp at h
     · simp only [List.mem_cons, reduceCtorEq, ActivationStep.deletePermissions.injEq, List.not_mem_nil,
        or_false, false_or] at h
       exact ⟨h, h ▸ hnil⟩
   · split_ifs at h <;> simp at h
 · rintro ⟨rfl, hne⟩
   rw [if_neg hne]
   exact .inl (by simp)

theorem erases_removed (seeded : List NormalizedPermissionRequest) {key : GrantKey}
  (h : key.permissionSlug ∈ (declaredSlugDiff a.active a.next).removed ∨ key.permissionSlug ∈
   requestedSlugsDropped a.active a.next (declaredSlugDiff a.active a.next).removed) :
  ∃ step ∈ activationSteps a seeded, Erases key step := by
 simp only [activationSteps, removalSteps, List.mem_append]
 rcases h with h | h
 · refine ⟨.deleteGrants (declaredSlugDiff a.active a.next).removed, ?_, h⟩
   rw [if_neg (List.ne_nil_of_mem h)]
   simp
 · refine ⟨.deleteGrants
    (requestedSlugsDropped a.active a.next (declaredSlugDiff a.active a.next).removed),
    ?_, h⟩
   rw [if_neg (List.ne_nil_of_mem h)]
   simp

theorem erases_moved (seeded : List NormalizedPermissionRequest) {key : GrantKey}
  (h : (key.permissionSlug, key.scopeType) ∈ scopeMoves a.comparison) :
  ∃ step ∈ activationSteps a seeded, Erases key step := by
 refine ⟨.moveScope key.permissionSlug key.scopeType, ?_, rfl, rfl⟩
 simp only [activationSteps, List.mem_append, List.mem_map]
 exact .inl (.inr ⟨_, h, rfl⟩)

theorem erases_cases {key : GrantKey} {step : ActivationStep}
  (hstep : step ∈ activationSteps a seeded) (h : Erases key step) :
  key.permissionSlug ∈ (declaredSlugDiff a.active a.next).removed ∨
   key.permissionSlug ∈ requestedSlugsDropped a.active a.next (declaredSlugDiff a.active a.next).removed ∨
   (key.permissionSlug, key.scopeType) ∈ scopeMoves a.comparison := by
 cases step with
 | deleteGrants slugs =>
  rcases mem_removed_steps hstep with rfl | rfl
  · exact .inl h
  · exact .inr (.inl h)
 | moveScope slug scopeType =>
  obtain ⟨rfl, rfl⟩ := h
  exact .inr (.inr (mem_move_steps hstep))
 | deletePermissions _ | createPermission _ | reStamp _ | seed _ => exact h.elim

end Members

section Samples

def demoHost : Host := ⟨⟨fun _ _ => []⟩, fun _ _ _ => true, fun _ _ => .conforms⟩

def demoManifest (version : String) (checks : List PluginPermissionRequest) : PluginManifest where
  slug := "demo".toList
  version := version.toList
  scope := .household
  declares := []
  checks := checks
  outboundDomains := .listed []
  writesCore := []
  configSchema := []
  requiresHouseholdConfig := false
  rest := []

def readGame : Text := "read:game".toList

def demoStore : Db :=
  ofRows [⟨.permission readGame, ⟨.low, "Game".toList, [], false⟩⟩, ⟨.home "home".toList, ⟨false⟩⟩]

def demoInstall (version : String) (checks : List PluginPermissionRequest) : Action Row Request :=
  .spawn (.install ⟨.manifest (demoManifest version checks), [], "admin".toList, [], true, true⟩)

def demoStage (version : String) (checks : List PluginPermissionRequest) : Action Row Request :=
  .spawn (.stage ⟨.manifest (demoManifest version checks), List.replicate 64 'a',
   "admin".toList, true, true⟩)

/-- Process `i` takes `n` steps. -/
def steps (i n : ℕ) : List (Action Row Request) := List.replicate n (.advance i)

def play (actions : List (Action Row Request)) : Option System :=
  run (program demoHost) outside (initial demoStore) actions

theorem demoStore_fresh : Fresh demoStore := by
 intro k hk
 have hpermission : k ≠ .permission readGame := by
  rintro rfl
  cases hk
 have hhome : k ≠ .home "home".toList := by
  rintro rfl
  cases hk
 simp only [demoStore, ofRows, List.foldr_cons, List.foldr_nil]
 rw [AList.lookup_insert_ne hpermission, AList.lookup_insert_ne hhome]
 rfl

theorem served_of_play {actions : List (Action Row Request)} {s : System}
  (h : play actions = some s) :
  Served demoHost (actions.flatMap spawned) s :=
 ⟨demoStore, demoStore_fresh, traced_of_run .start h⟩

theorem exists_running {α : Type} {actions : List (Action Row Request)} {f : System → α} {x : α}
  (h : (play actions).map f = some x) : ∃ s, Running demoHost s ∧ f s = x := by
 obtain ⟨s, hs, hf⟩ := Option.map_eq_some_iff.1 h
 exact ⟨s, (served_of_play hs).running, hf⟩

end Samples

end BoardGamesEmpire.PluginLedger
