import BoardGamesEmpire.PluginRevocationParts

set_option autoImplicit false

/-!
# Every deleted decision is reported once

The three requests one by one. A decision keeps every id; a revocation settles its
report with its deletion or with the read-back after it; an activation settles one
finding after the other under the exclusive lock.
-/
namespace BoardGamesEmpire.PluginRevocation
open JsText Manifest ReadCommitted ReadCommittedProtocol PluginStore PluginEscalation PluginActivation
  PluginUpdateProgram PluginGrantProgram PluginProtocol

section Decide

def Resumes (code : Program) : Prop := Resumable (relabel withoutDeletions code)

abbrev OrderlyDecision : List PluginLock → Program → Prop :=
  Orderly Resumes fun event => Silent (withoutDeletions event)

variable {host : Host} {known : List PluginLock}

theorem resumes_of_orderly {code : Program} (h : OrderlyDecision [] code) : Resumes code :=
 resumable_of_orderly (orderly_relabel h)

theorem orderly_refused : OrderlyDecision known (.rollback .halt) := resumable_halt

theorem orderly_done {event : Event} {next : Program} (h : Resumes next) :
  OrderlyDecision known (.commit event next) := ⟨⟨rfl, rfl⟩, h⟩

theorem orderly_lockLivePlugin {next : Plugin → Program}
  (h : ∀ known live, OrderlyDecision known (next live)) :
  OrderlyDecision known (lockLivePlugin next) := by
 refine orderly_lock fun _ v => ?_
 cases livingPlugin v with
 | none => exact orderly_done resumable_halt
 | some live => exact h _ live

theorem orderly_withCurrentManifest {live : Plugin}
  {next : PluginManifestValidationResult → Program}
  (h : ∀ validated, OrderlyDecision known (next validated)) :
  OrderlyDecision known (withCurrentManifest host live next) := by
 unfold withCurrentManifest
 cases revalidateStoredManifest host live with
 | error _ => exact orderly_refused
 | ok validated => exact h validated

theorem resumes_maybeReenable (unit : UnitRef) : Resumes (maybeReenable host unit) := by
 apply resumes_of_orderly
 refine orderly_lockLivePlugin fun _ live => orderly_lockUnitScope fun _ =>
  orderly_lockUnit fun _ found => ?_
 cases found with
 | none => exact orderly_done resumable_halt
 | some row =>
  dsimp only
  split_ifs
  · exact orderly_done resumable_halt
  · apply orderly_withCurrentManifest
    intro validated
    split_ifs
    · exact orderly_updateUnit (orderly_done resumable_halt)
    · apply orderly_readOutstanding
      intro outstanding
      split_ifs
      · exact orderly_updateUnit (orderly_done resumable_halt)
      · exact orderly_done resumable_halt

theorem resumes_maybeSuspend (unit : UnitRef) (deniedSlug : Text) (initiatedAt : ℕ) :
  Resumes (maybeSuspend host unit deniedSlug initiatedAt) := by
 apply resumes_of_orderly
 refine orderly_lockLivePlugin fun _ live => orderly_withCurrentManifest fun validated => ?_
 exact orderly_suspendUnit fun _ => orderly_done resumable_halt

theorem resumes_afterDecision (unit : Option UnitRef) (status : PluginGrantStatus) (required : Bool)
  (deniedSlug : Text) (changed : Bool) (initiatedAt : ℕ) :
  Resumes (afterDecision host unit status required deniedSlug changed initiatedAt) := by
 cases unit with
 | none => exact resumable_halt
 | some unit =>
  cases status with
  | granted => exact resumes_maybeReenable unit
  | denied =>
   change Resumes (if _ then _ else _)
   split_ifs
   · exact resumes_maybeSuspend unit deniedSlug initiatedAt
   · exact resumable_halt

variable {validated : PluginManifestValidationResult} {check : NormalizedPermissionRequest}

theorem orderly_createUserUnit {unit : UnitRef} {initiatedAt : ℕ} {next : Program}
  (h : ∀ known, OrderlyDecision known next) :
  OrderlyDecision known (createUserUnit validated unit check initiatedAt next) := by
 refine orderly_lockUnitScope fun known => orderly_query fun _ v => ?_
 refine orderly_execute (fun clock v w hw => ?_) fun _ _ => h known
 apply keepsId_other
 intro key heq
 split at hw
 · cases hw
 · rw [List.mem_singleton.1 hw] at heq
   cases heq

theorem orderly_settleUnit {unit : Option UnitRef} {status : PluginGrantStatus} {initiatedAt : ℕ}
  {next : Program} (h : ∀ known, OrderlyDecision known next) :
  OrderlyDecision known (settleUnit validated unit status check initiatedAt next) := by
 cases unit with
 | none => exact h known
 | some unit =>
  cases status with
  | denied =>
   change OrderlyDecision known (if _ then _ else _)
   split_ifs
   · exact orderly_suspendUnit h
   · exact h known
  | granted =>
   cases unit with
   | household id => exact h known
   | user id => exact orderly_createUserUnit h

theorem orderly_upsert {input : DecisionInput} {plugin : Plugin} {initiatedAt : ℕ} {key : GrantKey}
  {unit : Option UnitRef} {risk : RiskLevel} (hplugin : HoldsPlugin known) :
  OrderlyDecision known
   (decideClaimed.upsert host input plugin validated check initiatedAt key unit risk) := by
 refine orderly_execute (fun clock v w hw key' value heq => ?_) fun _ _ => ?_
 · obtain rfl := List.mem_singleton.1 hw
   cases heq
   exact ⟨hplugin, _, rfl, rfl⟩
 · exact orderly_settleUnit fun _ => orderly_done (resumes_afterDecision _ _ _ _ _ _)

theorem mem_lockPlugin {exclusive : Bool} {v : Db} {row : Plugin} (h : plugin? v = some row) :
  pluginLock exclusive ∈ lockPlugin exclusive v := by
 rw [lockPlugin, h]
 exact List.mem_cons_self

theorem orderly_decideClaimed {input : DecisionInput} {plugin : Plugin} {scopeId : Text}
  {initiatedAt : ℕ} :
  OrderlyDecision known (decideClaimed host input plugin validated check scopeId initiatedAt) := by
 refine orderly_lock fun _ v => ?_
 cases hrow : plugin? v with
 | none => exact orderly_refused
 | some claim =>
  have hplugin : HoldsPlugin (known ++ lockPlugin false v) :=
   ⟨false, List.mem_append_right _ (mem_lockPlugin hrow)⟩
  dsimp only
  split_ifs
  · exact orderly_refused
  · refine orderly_query fun _ v => ?_
    cases resolveRiskLevel host v check with
    | none => exact orderly_refused
    | some risk =>
     refine orderly_query fun _ v => ?_
     cases grant? v ⟨input.scopeType, scopeId, check.canonicalSlug⟩ with
     | none => exact orderly_upsert hplugin
     | some existing =>
      dsimp only
      split_ifs
      · exact orderly_done (resumes_afterDecision _ _ _ _ _ _)
      · exact orderly_upsert hplugin

theorem resumable_start {recover body : ReportingProgram} (hrecover : Resumable recover)
  (hbody : Resumable body) :
  Resumable (.start recover body) :=
 fun _ _ _ _ _ => ⟨hbody _ (Nat.succ_pos _), hrecover _ (Nat.succ_pos _)⟩

theorem resumes_openDecision {input : DecisionInput} {scopeId : Text} {next : Program}
  (h : ∀ known, OrderlyDecision known next) : Resumes (decide.openDecision input scopeId next) := by
 apply resumes_of_orderly
 unfold decide.openDecision
 cases input.scopeType with
 | server | user => exact h []
 | household =>
  refine orderly_lock fun _ v => ?_
  split_ifs
  · exact h _
  · exact orderly_refused

theorem safe_decide (host : Host) (input : DecisionInput) (σ : RevocationState) :
  Safe protocol (program host (.decide input)) [] [] σ := by
 refine safe_stmt (fun _ => stable_const protocol [] True) trivial fun σ' _ _ _ _ => ?_
 refine (show Resumes _ from ?_) σ'.tick (Nat.succ_pos _)
 dsimp only
 cases livingPlugin (view σ' []) with
 | none => exact resumable_halt
 | some plugin =>
  dsimp only
  cases revalidateStoredManifest host plugin with
  | error _ => exact resumable_halt
  | ok validated =>
   dsimp only
   cases validated.permissionChecks.find? fun check => check.canonicalSlug == input.permissionSlug with
   | none => exact resumable_halt
   | some check =>
    dsimp only
    split_ifs
    · exact resumable_halt
    · exact resumable_halt
    · cases normalizeScopeId input <;> exact resumable_halt
    · cases normalizeScopeId input with
      | none => exact resumable_halt
      | some scopeId =>
       have hbody : Resumes (decide.openDecision input scopeId
         (decideClaimed host input plugin validated check scopeId σ'.clock)) :=
        resumes_openDecision fun _ => orderly_decideClaimed
       exact resumable_start (resumable_start resumable_halt hbody) hbody

end Decide

section Revoke

theorem granted_sublist (unit : UnitRef) (v : Db) :
  ∀ found ∈ grantedOf unit v, found ∈ grantRows v :=
 fun _ hfound => (List.mem_filter.1 hfound).1

def taken (rows : List (GrantKey × PluginGrant)) (v : Db) : List (GrantKey × PluginGrant) :=
  (grantRows v).filter fun entry => (rows.any fun f => f.1 == entry.1 && f.2.id == entry.2.id) &&
    entry.2.status == .granted

variable {rows : List (GrantKey × PluginGrant)} {v : Db} {key : GrantKey} {row : PluginGrant}

theorem any_found : (rows.any fun f => f.1 == key && f.2.id == row.id) = true ↔
  (key, row.id) ∈ rows.map identity := by
 simp [identity, and_comm, Prod.ext_iff]

theorem mem_taken (h : grant? v key = some row) : (key, row.id) ∈ (taken rows v).map identity ↔
  ((rows.any fun f => f.1 == key && f.2.id == row.id) && row.status == .granted) = true := by
 constructor
 · intro hmem
   obtain ⟨⟨key', row'⟩, hfound, heq⟩ := List.mem_map.1 hmem
   obtain ⟨hrow', hp⟩ := List.mem_filter.1 hfound
   obtain ⟨rfl, -⟩ := Prod.mk.inj heq
   rw [mem_grantRows, h] at hrow'
   cases hrow'
   exact hp
 · exact fun hp => List.mem_map.2 ⟨(key, row), List.mem_filter.2 ⟨mem_grantRows.2 h, hp⟩, rfl⟩

theorem taken_subset : (taken rows v).map identity ⊆ rows.map identity := by
 intro ident hmem
 obtain ⟨⟨key, row⟩, hfound, rfl⟩ := List.mem_map.1 hmem
 have hp := (List.mem_filter.1 hfound).2
 rw [Bool.and_eq_true] at hp
 exact any_found.1 hp.1

theorem taken_nodup : ((taken rows v).map identity).Nodup := nodup_filter_grantRows _ v

theorem mem_taken_of_count (h : (deleteFound rows (·.status == .granted) v).length = rows.length)
  (hmem : (key, row.id) ∈ rows.map identity) : (key, row.id) ∈ (taken rows v).map identity := by
 have hnodup : ((taken rows v).map identity).Nodup := taken_nodup
 have hsub := List.subperm_of_subset hnodup taken_subset
 refine (hsub.perm_of_length_le ?_).mem_iff.2 hmem
 rw [List.length_map, List.length_map, ← h]
 exact (List.length_map _).le

theorem inFlight_taken {σ : RevocationState} (held : List PluginLock) :
  InFlight held (deleteFound rows (·.status == .granted) (view σ [])) [] (taken rows (view σ []))
   σ.tick where
 settled := fun _ => reportsExactly_nil.delete (fun _ _ hlives => hlives) taken_nodup
  (fun _ hfound => lives_of_mem (List.mem_filter.1 hfound).1) fun _ _ h => (mem_taken h).symm
 swept := fun _ hf => absurd hf List.not_mem_nil
 closed := fun _ hf => absurd hf List.not_mem_nil
 renewed := fun key id hlives => by
  obtain ⟨row, hrow, hid, -⟩ := lives_deleteGrants.1 hlives
  exact .inl ⟨row, hrow, hid⟩
 begun := Nat.succ_pos _

theorem watched_left {σ : RevocationState} {foundAt : ℕ} (h : Watched foundAt rows [] σ) :
  Watched foundAt (rows.filter fun found => identity found ∉ (taken rows (view σ [])).map identity)
   (deleteFound rows (·.status == .granted) (view σ [])) σ.tick := by
 refine ⟨Nat.le_succ_of_le h.1, fun found hfound => ?_⟩
 obtain ⟨hmem, hleft⟩ := List.mem_filter.1 hfound
 rcases h.2 found hmem with ⟨row, hrow, hid⟩ | hgone
 · refine .inl (lives_deleteGrants.2 ⟨row, hrow, hid, ?_⟩)
   rw [decide_eq_true_eq, identity, ← hid, mem_taken hrow] at hleft
   exact Bool.eq_false_iff.2 hleft
 · exact .inr hgone

theorem InFlight.readBack {held : List PluginLock} {log : List PluginWrite} {σ : RevocationState}
  {foundAt : ℕ} {reported : List (GrantKey × PluginGrant)} (h : InFlight held log [] reported σ)
  (hinv : Accounted σ)
  (hwatched : Watched foundAt (rows.filter fun found => identity found ∉ reported.map identity) log σ)
  (hsub : reported.map identity ⊆ rows.map identity) (hnodup : (rows.map identity).Nodup) :
  InFlight held log [⟨rows, foundAt, σ.clock⟩]
   (rows.filter fun found => !survives (view σ log) found) σ where
 settled hund := by
  have hexact := h.settled fun f hf => absurd hf List.not_mem_nil
  refine ⟨hnodup.sublist (List.filter_sublist.map _), fun key id => ?_⟩
  constructor
  · intro hmem
    obtain ⟨found, hfound, heq⟩ := List.mem_map.1 hmem
    obtain ⟨hrows, hnot⟩ := List.mem_filter.1 hfound
    have hdead : ¬ Lives (view σ log) found.1 found.2.id := by
     rw [← survives_iff]
     simpa using hnot
    rw [← hexact.2, ← heq]
    by_contra hleft
    apply hdead
    exact hwatched.lives hinv (List.mem_filter.2 ⟨hrows, by simpa using hleft⟩) hrows rfl rfl hund
  · intro hlost
    obtain ⟨found, hfound, heq⟩ := List.mem_map.1 (hsub ((hexact.2 key id).2 hlost))
    cases heq
    refine List.mem_map.2 ⟨found, List.mem_filter.2 ⟨hfound, ?_⟩, rfl⟩
    have hdead := mt survives_iff.1 hlost.2
    simpa using hdead
 swept := by
  intro f hf found hfound e he hfrom hto hdel
  obtain rfl := List.mem_singleton.1 hf
  refine List.mem_map.2 ⟨found, List.mem_filter.2 ⟨hfound, ?_⟩, rfl⟩
  have hdead : ¬ Lives (view σ log) found.1 found.2.id := by
   intro hlives
   rcases h.renewed _ _ hlives with hold | ⟨hunused, -⟩
   · exact (hinv.buried e he _ _ hdel).1 hold
   · exact hunused e he hdel
  have hgone := mt survives_iff.1 hdead
  simpa using hgone
 closed := fun f hf => by rw [List.mem_singleton.1 hf]
 renewed := h.renewed
 begun := h.begun

theorem safe_report {held : List PluginLock} {log : List PluginWrite} {findings : List Finding}
  {reported : List (GrantKey × PluginGrant)} {σ : RevocationState} {event : Event}
  (h : LogLocked held log → InFlight held log findings reported σ) (hbegun : 0 < σ.clock) :
  Safe protocol (.commit ⟨event, findings, reported⟩ .halt) held log σ := by
 have horderly : Orderly Resumable (fun e => e.findings = findings ∧ e.reported = reported) []
   (.commit ⟨event, findings, reported⟩ .halt) := ⟨⟨rfl, rfl⟩, resumable_halt⟩
 exact safe_of_orderly (fun _ he => he) horderly (List.nil_subset _) h hbegun

theorem safe_revokeForAuthorityLoss (unit : UnitRef) (skippedElsewhere : Bool) (σ : RevocationState) :
  Safe protocol (revokeForAuthorityLoss unit skippedElsewhere) [] [] σ := by
 unfold revokeForAuthorityLoss
 split_ifs
 · trivial
 · refine safe_stmt (fun _ => stable_const protocol [] True) trivial fun σ₁ _ _ _ _ => ?_
   dsimp only
   split_ifs
   · exact (show Resumes (.commit .unchanged .halt) from
      resumes_of_orderly (orderly_done resumable_halt)) σ₁.tick (Nat.succ_pos _)
   · have hnodup : ((grantedOf unit (view σ₁ [])).map identity).Nodup := nodup_filter_grantRows _ _
     refine safe_stmt (φ := fun σ => 0 < σ.clock ∧ Watched σ₁.clock (grantedOf unit (view σ₁ [])) [] σ)
      (fun hlog => (stable_begun _).and (stable_watched hlog))
      ⟨Nat.succ_pos _, watched_found (granted_sublist unit _)⟩ ?_
     intro σ₂ hinv₂ _ _ hφ
     obtain ⟨hbegun, hwatched⟩ := hφ
     split_ifs with hcount
     · refine safe_report (fun _ => ?_) (Nat.succ_pos _)
       refine (InFlight.start [] hbegun).delete hinv₂ _ (fun _ _ hlives => hlives) hwatched hnodup ?_
       intro key row hrow
       constructor
       · intro hp
         exact taken_subset ((mem_taken hrow).2 hp)
       · intro hmem
         exact (mem_taken hrow).1 (mem_taken_of_count hcount.1 hmem)
     · refine safe_stmt (fun hlog => (stable_inFlight hlog).and (stable_watched hlog))
        ⟨inFlight_taken _, watched_left hwatched⟩ ?_
       intro σ₃ hinv₃ _ _ hφ
       refine safe_report (fun _ => ?_) (Nat.succ_pos _)
       exact (hφ.1.readBack hinv₃ hφ.2 taken_subset hnodup).write hinv₃ _ fun w hw =>
        absurd hw List.not_mem_nil

end Revoke

section Activate

structure Activating (held : List PluginLock) (log : List PluginWrite) (findings : List Finding)
    (σ : RevocationState) : Prop where
  flight : InFlight held log findings (findings.flatMap (·.rows)) σ
  subsumed : ∀ key id, Lives (view σ log) key id → Lives σ.db key id

variable {held : List PluginLock} {log : List PluginWrite} {findings : List Finding} {σ : RevocationState}
  {a : Activation} {onCollision : ReportingProgram} {step : ActivationStep} {clock : ℕ} {v : Db}
  {ws : List PluginWrite} {key : GrantKey} {id : ℕ}

theorem stable_activating (hlog : LogLocked held log) :
  Stable protocol held (Activating held log findings) := by
 intro σ σ' h hinv hinv' hrely
 refine ⟨stable_inFlight hlog σ σ' h.flight hinv hinv' hrely, fun key id hlives => ?_⟩
 rcases hrely.view hlog (.grant key) with ⟨hdb, hview⟩ | ⟨hview, -⟩
 · exact (lives_congr hdb).2 (h.subsumed key id ((lives_congr hview).1 hlives))
 · exact (lives_congr hview).1 hlives

def Continues (next : List Finding → ReportingProgram) : Prop :=
  ∀ held log findings σ, pluginLock true ∈ held → Activating held log findings σ →
    Safe protocol (next findings) held log σ

def Complete (P : GrantKey → ℕ → Bool) (rows : List (GrantKey × PluginGrant)) (log : List PluginWrite)
    (σ : RevocationState) : Prop :=
  ∀ key id, Lives (view σ log) key id → P key id = true → (key, id) ∈ rows.map identity

theorem stable_complete (hlock : pluginLock true ∈ held) (hlog : LogLocked held log)
  {P : GrantKey → ℕ → Bool} {rows : List (GrantKey × PluginGrant)} :
  Stable protocol held (Complete P rows log) := by
 intro σ σ' h _ _ hrely key id hlives hP
 rcases hrely.view hlog (.grant key) with ⟨-, hview⟩ | ⟨hview, hview'⟩
 · exact h key id ((lives_congr hview).1 hlives) hP
 · have hlives' := rely_exclusive hlock hrely ((lives_congr hview).1 hlives)
   exact h key id ((lives_congr hview').2 hlives') hP

variable {next : List Finding → ReportingProgram}

theorem safe_deletion (hnext : Continues next) (hlock : pluginLock true ∈ held)
  (h : Activating held log findings σ) {foundAt : ℕ} {rows : List (GrantKey × PluginGrant)}
  (hnodup : (rows.map identity).Nodup) (hwatched : Watched foundAt rows log σ)
  {P : GrantKey → ℕ → Bool} (hcomplete : Complete P rows log σ)
  (hcover : ∀ key id, (key, id) ∈ rows.map identity → P key id = true)
  {p : GrantKey → PluginGrant → Bool} (hp : ∀ key row, p key row = P key row.id) :
  Safe protocol (.execute (fun _ v => deleteGrants p v)
   fun deletedAt _ => next (findings ++ [⟨rows, foundAt, deletedAt⟩])) held log σ := by
 refine safe_stmt (fun hlog => ((stable_activating hlog).and (stable_watched hlog)).and
  (stable_complete hlock hlog)) ⟨⟨h, hwatched⟩, hcomplete⟩ ?_
 intro σ' hinv _ _ hφ
 obtain ⟨⟨hactive, hwatched'⟩, hcomplete'⟩ := hφ
 refine hnext _ _ _ _ (List.mem_append_left _ hlock) ⟨?_, fun key id hlives => ?_⟩
 · rw [List.flatMap_append, List.flatMap_singleton]
   refine hactive.flight.delete hinv _ hactive.subsumed hwatched' hnodup fun key row hrow => ?_
   rw [hp]
   exact ⟨hcomplete' key row.id ⟨row, hrow, rfl⟩, hcover key row.id⟩
 · have hview : view σ'.tick (log ++ deleteGrants p (view σ' log)) =
     applyLog (view σ' log) (deleteGrants p (view σ' log)) := applyLog_append _ _ _
   rw [hview, lives_deleteGrants] at hlives
   obtain ⟨row, hrow, hid, -⟩ := hlives
   exact hactive.subsumed key id ⟨row, hrow, hid⟩

theorem safe_find (hlock : pluginLock true ∈ held) (h : Activating held log findings σ)
  {next : ℕ → Db → ReportingProgram}
  (hnext : ∀ held' log' σ', pluginLock true ∈ held' → Activating held' log' findings σ'.tick →
   view σ'.tick log' = view σ' log → Safe protocol (next σ'.clock (view σ' log)) held' log' σ'.tick) :
  Safe protocol (.query next) held log σ := by
 refine safe_stmt stable_activating h fun σ' hinv _ _ h' => ?_
 have hview : view σ'.tick (log ++ []) = view σ' log := by
  rw [List.append_nil]
  rfl
 refine hnext _ _ σ' (List.mem_append_left _ hlock) ⟨?_, fun key id hlives => ?_⟩ hview
 · exact h'.flight.write hinv _ fun w hw => absurd hw List.not_mem_nil
 · rw [hview] at hlives
   exact h'.subsumed key id hlives

theorem continues_deleteGrants (hnext : Continues next)
  (slugs : List Text) : Continues (reportStep a onCollision (.deleteGrants slugs) next) := by
 intro held log findings σ hlock h
 refine safe_find hlock h fun held' log' σ' hlock' h' hview => ?_
 have hmem : ∀ found, found ∈ rowsUnder slugs (view σ' log) ↔
   found ∈ grantRows (view σ' log) ∧ slugs.contains found.1.permissionSlug = true :=
    fun _ => List.mem_filter
 refine safe_deletion hnext hlock' h' (nodup_filter_grantRows _ _)
  ⟨Nat.le_succ _, fun found hfound => .inl ?_⟩
  (P := fun key _ => slugs.contains key.permissionSlug) (fun key id hlives hP => ?_)
   (fun key id hmem' => ?_)
  fun _ _ => rfl
 · rw [hview]
   exact lives_of_mem ((hmem found).1 hfound).1
 · rw [hview] at hlives
   obtain ⟨row, hrow, rfl⟩ := hlives
   exact List.mem_map.2 ⟨(key, row), (hmem _).2 ⟨mem_grantRows.2 hrow, hP⟩, rfl⟩
 · obtain ⟨found, hfound, heq⟩ := List.mem_map.1 hmem'
   cases heq
   exact ((hmem found).1 hfound).2

theorem continues_moveScope (hnext : Continues next) (slug : Text) (scopeType : PluginGrantScope) :
  Continues (reportStep a onCollision (.moveScope slug scopeType) next) := by
 intro held log findings σ hlock h
 refine safe_find hlock h fun held' log' σ' hlock' h' hview => ?_
 dsimp only
 split_ifs
 · exact hnext held' log' findings _ hlock' h'
 · have hany : ∀ key id,
    ((staleRows slug scopeType (view σ' log)).any fun f => f.1 == key && f.2.id == id) = true ↔
     (key, id) ∈ (staleRows slug scopeType (view σ' log)).map identity := by
    simp [identity, and_comm, Prod.ext_iff]
   refine safe_deletion hnext hlock' h' (nodup_filter_grantRows _ _)
    ⟨Nat.le_succ _, fun found hfound => .inl ?_⟩
    (P := fun key id => (staleRows slug scopeType (view σ' log)).any fun f => f.1 == key && f.2.id == id)
    (fun key id _ hP => (hany key id).1 hP) (fun key id hfound => (hany key id).2 hfound) fun _ _ =>
     Bool.and_true _
   rw [hview]
   exact lives_of_mem (List.mem_filter.1 hfound).1

/-- The steps that `writeStep` runs. -/
def Writes : ActivationStep → Prop
  | .deletePermissions _ | .createPermission _ | .reStamp _ | .seed _ => True
  | .deleteGrants _ | .moveScope _ _ => False

theorem reportStep_writes (h : Writes step) :
  reportStep a onCollision step next findings = writeStep a onCollision step (next findings) := by
 cases step with
 | deletePermissions _ | createPermission _ | reStamp _ | seed _ => rfl
 | deleteGrants _ | moveScope _ _ => exact h.elim

theorem keepsId_step {known : List PluginLock} (hwrites : Writes step) (hplugin : HoldsPlugin known)
  (h : stepWrites a step clock v = .ok ws) : ∀ w ∈ ws, KeepsId known clock v w := by
 cases step with
 | deleteGrants _ | moveScope _ _ => exact hwrites.elim
 | deletePermissions slugs =>
  cases h
  intro w hw
  obtain ⟨entry, -, rfl⟩ := List.mem_map.1 hw
  exact keepsId_other fun key heq => by cases heq
 | createPermission slug =>
  simp only [stepWrites] at h
  split at h
  · cases h
    intro w hw
    rw [List.mem_singleton.1 hw]
    exact keepsId_other fun key heq => by cases heq
  · cases h
 | reStamp slug =>
  simp only [stepWrites] at h
  split at h
  · rename_i row hrow
    cases h
    intro w hw key value heq
    rw [List.mem_singleton.1 hw] at heq
    cases heq
    rw [hrow]
    exact ⟨hplugin, reStamped a slug row, rfl, rfl⟩
  · cases h
 | seed check =>
  simp only [stepWrites] at h
  split at h
  · rename_i hnone
    cases h
    intro w hw key value heq
    rw [List.mem_singleton.1 hw] at heq
    cases heq
    rw [hnone]
    exact ⟨hplugin, seededGrant a clock check, rfl, rfl⟩
  · cases h

theorem keepsId_stepWrites {known : List PluginLock} (hwrites : Writes step)
  (hplugin : HoldsPlugin known) :
  ∀ w ∈ (stepWrites a step clock v).toOption.getD [], KeepsId known clock v w := by
 cases h : stepWrites a step clock v with
 | ok ws => exact keepsId_step hwrites hplugin h
 | error failure => exact fun w hw => absurd hw List.not_mem_nil

theorem lives_step (hwrites : Writes step) (hseed : ∀ check, step ≠ .seed check)
  (h : stepWrites a step clock v = .ok ws) (hlives : Lives (applyLog v ws) key id) :
  Lives v key id := by
 obtain ⟨row, hrow, hid⟩ := hlives
 rw [grant?, lookup_step h] at hrow
 cases step with
 | deleteGrants _ | moveScope _ _ => exact hwrites.elim
 | deletePermissions _ | createPermission _ => exact ⟨row, hrow, hid⟩
 | seed check => exact absurd rfl (hseed check)
 | reStamp slug =>
  simp only [stepRow] at hrow
  split at hrow
  · obtain ⟨old, hold, rfl⟩ := Option.map_eq_some_iff.1 hrow
    exact ⟨old, hold, hid⟩
  · exact ⟨row, hrow, hid⟩

theorem safe_rollback_to {code : ReportingProgram} (h : Resumable code) :
  Safe protocol (.rollback code) held log σ := fun _ _ _ => h _ (Nat.succ_pos _)

theorem continues_write (hnext : Continues next) (hcollision : Resumable onCollision)
  (hwrites : Writes step) (hseed : ∀ check, step ≠ .seed check) :
  Continues (reportStep a onCollision step next) := by
 intro held log findings σ hlock h
 rw [reportStep_writes hwrites]
 refine safe_stmt stable_activating h fun σ' hinv _ _ h' => ?_
 cases hstep : stepWrites a step σ'.clock (view σ' log) with
 | error failure =>
  cases failure with
  | decisionCollision => exact safe_rollback_to hcollision
  | other => exact safe_rollback_to resumable_halt
 | ok ws =>
  refine hnext _ _ _ _ (List.mem_append_left _ hlock) ⟨?_, fun key id hlives => ?_⟩
  · exact h'.flight.write hinv _ (keepsId_step hwrites ⟨true, List.mem_append_left _ hlock⟩ hstep)
  · have hview : view σ'.tick (log ++ ws) = applyLog (view σ' log) ws := applyLog_append _ _ _
    change Lives (view σ'.tick (log ++ ws)) key id at hlives
    rw [hview] at hlives
    exact h'.subsumed key id (lives_step hwrites hseed hstep hlives)

theorem continues_steps {finish : List Finding → ReportingProgram} (hfinish : Continues finish)
  (hcollision : Resumable onCollision) {steps : List ActivationStep}
  (hseed : ∀ step ∈ steps, ∀ check, step ≠ .seed check) :
  Continues (steps.foldr (reportStep a onCollision) finish) := by
 induction steps with
 | nil => exact hfinish
 | cons step rest ih =>
  have hrest := ih fun step' hstep' => hseed step' (List.mem_cons_of_mem _ hstep')
  have hhead := hseed step List.mem_cons_self
  rw [List.foldr_cons]
  cases step with
  | deleteGrants slugs => exact continues_deleteGrants hrest slugs
  | moveScope slug scopeType => exact continues_moveScope hrest slug scopeType
  | deletePermissions _ | createPermission _ | reStamp _ =>
   exact continues_write hrest hcollision trivial hhead
  | seed check => exact absurd rfl (hhead check)

def Says (findings : List Finding) (event : Report) : Prop :=
  event.findings = findings ∧ event.reported = findings.flatMap (·.rows)

theorem orderly_finishReporting (host : Host) (a : Activation)
  (seeded : List NormalizedPermissionRequest) (findings : List Finding) (known : List PluginLock) :
   Orderly Resumable (Says findings) known (finishReporting host a seeded findings) := by
 apply orderly_relabel
 refine orderly_suspendPass fun households => orderly_suspendPass fun users => ?_
 exact orderly_reconcileHouseholdDormancy ⟨⟨rfl, rfl⟩, resumable_halt⟩

theorem orderly_seeds {finish : List Finding → ReportingProgram}
  (hcollision : Resumable onCollision) {known : List PluginLock} (hplugin : HoldsPlugin known)
  (checks : List NormalizedPermissionRequest)
  (hfinish : ∀ known, Orderly Resumable (Says findings) known (finish findings)) :
  Orderly Resumable (Says findings) known
   ((checks.map ActivationStep.seed).foldr (reportStep a onCollision) finish findings) := by
 induction checks with
 | nil => exact hfinish known
 | cons check rest ih =>
  have hwrites : Writes (.seed check) := trivial
  rw [List.map_cons, List.foldr_cons, reportStep_writes hwrites]
  refine orderly_execute (fun clock v => keepsId_stepWrites hwrites hplugin) fun clock v => ?_
  cases stepWrites a (.seed check) clock v with
  | ok _ => exact ih
  | error failure =>
   cases failure with
   | decisionCollision => exact hcollision
   | other => exact resumable_halt

theorem continues_seeds (host : Host) (hcollision : Resumable onCollision)
  (seeded : List NormalizedPermissionRequest) :
  Continues ((seeded.map ActivationStep.seed).foldr (reportStep a onCollision)
   (finishReporting host a seeded)) := by
 intro held log findings σ hlock h
 have horderly := orderly_seeds (a := a) hcollision ⟨true, hlock⟩ seeded
  (orderly_finishReporting host a seeded findings)
 exact safe_of_orderly (fun _ hsays => hsays) horderly (List.Subset.refl held)
  (fun _ => h.flight) h.flight.begun

theorem safe_aside {locks : Db → List PluginLock} {writes : ℕ → Db → List PluginWrite}
  {next : ℕ → Db → ReportingProgram} (hwrites : ∀ clock v, ∀ w ∈ writes clock v, ∀ key, w.key ≠ .grant key)
  (hlock : pluginLock true ∈ held) (h : Activating held log findings σ)
  (hnext : ∀ held' log' clock v σ', pluginLock true ∈ held' → Activating held' log' findings σ' →
   Safe protocol (next clock v) held' log' σ') : Safe protocol (.stmt locks writes next) held log σ := by
 refine safe_stmt stable_activating h fun σ' hinv _ _ h' => ?_
 refine hnext _ _ _ _ _ (List.mem_append_left _ hlock) ⟨?_, fun key id hlives => ?_⟩
 · exact h'.flight.write hinv _ fun w hw => keepsId_other (hwrites _ _ w hw)
 · have hview : view σ'.tick (log ++ writes σ'.clock (view σ' log)) =
     applyLog (view σ' log) (writes σ'.clock (view σ' log)) := applyLog_append _ _ _
   rw [hview] at hlives
   apply h'.subsumed key id
   exact (lives_congr (lookup_applyLog_of_notMem _ fun w hw => hwrites _ _ w hw key)).1 hlives

theorem safe_activateClaimed (host : Host) (a : Activation) (hcollision : Resumable onCollision)
  (hlock : pluginLock true ∈ held) (h : Activating held log [] σ) :
  Safe protocol (activateClaimed host a onCollision) held log σ := by
 refine safe_aside (fun _ _ w hw => absurd hw List.not_mem_nil) hlock h
  fun held' log' _ v σ' hlock' h' => ?_
 dsimp only
 split_ifs
 · exact safe_rollback_to resumable_halt
 · rw [activationSteps, List.foldr_append]
   refine continues_steps (continues_seeds host hcollision _) hcollision ?_ held' log' [] σ' hlock' h'
   intro step hstep check heq
   subst heq
   simp only [removalSteps, List.mem_append, List.mem_map] at hstep
   rcases hstep with ((hstep | hstep) | hstep) | hstep
   · split_ifs at hstep <;> simp at hstep
   · simp at hstep
   · simp at hstep
   · simp at hstep
 · exact safe_rollback_to resumable_halt

theorem resumable_activateInTransaction (host : Host) (a : Activation)
  (hcollision : Resumable onCollision) :
  Resumable (activateInTransaction host a onCollision) := by
 intro σ hbegun
 refine safe_stmt (fun _ => stable_begun _) hbegun fun σ' hinv _ _ hbegun' => ?_
 cases hrow : plugin? (view σ' []) with
 | none => exact safe_rollback_to resumable_halt
 | some current =>
  have hactive : Activating _ [] [] σ'.tick :=
   ⟨.start ([] ++ (lockPlugin true (view σ' []) ++ [])) (Nat.succ_pos _), fun _ _ hlives => hlives⟩
  refine safe_aside (fun _ v w hw key heq => ?_) ?_ hactive fun held' log' _ v τ hlock h => ?_
  · unfold claimWrites at hw
    split at hw
    · split_ifs at hw
      · rw [List.mem_singleton.1 hw] at heq
        cases heq
      · cases hw
    · cases hw
  · exact List.mem_append_right _ (List.mem_append_left _ (mem_lockPlugin hrow))
  · cases plugin? v with
    | none => exact safe_rollback_to resumable_halt
    | some row =>
     dsimp only
     split_ifs
     · exact safe_activateClaimed host a hcollision hlock h
     · exact safe_rollback_to resumable_halt

theorem safe_activate (host : Host) (a : Activation) (σ : RevocationState) :
  Safe protocol (activate host a) [] [] σ := by
 have hagain : Resumable (.start .halt (activateInTransaction host a .halt)) :=
  resumable_start resumable_halt (resumable_activateInTransaction host a resumable_halt)
 intro σ' _ _
 exact ⟨resumable_activateInTransaction host a hagain _ (Nat.succ_pos _), hagain _ (Nat.succ_pos _)⟩

end Activate

section Runs

theorem sound (host : Host) : Sound protocol (program host) where
 safe := fun request σ _ => by
  cases request with
  | decide input => exact safe_decide host input σ
  | revokeForAuthorityLoss unit skippedElsewhere =>
   exact safe_revokeForAuthorityLoss unit skippedElsewhere σ
  | activate a => exact safe_activate host a σ
 tick := fun _ => .tick
 commit := fun _ _ _ hinv heffect => hinv.commit heffect
 outside := fun _ _ hinv hw => hinv.outside hw

/-- Every deleting transaction reports exactly what it deleted, just when no other
    deleted a row it had found before its report was settled; and no row is
    deleted twice. Ids count the statements of the run, so that 0 is the id of
    the rows from before. -/
theorem deletions_reported_exactly (host : Host) (db : Db)
    (hids : ∀ key row, grant? db key = some row → row.id = 0) (s : Sys Row UnitRef Report)
    (h : Reachable (program host) outside db s) :
    (∀ before e rest, s.shared.ledger = before ++ e :: rest →
      (ReportsExactly e.before e.after e.event.reported ↔ Undisturbed before e.event.findings)) ∧
    s.shared.ledger.Pairwise fun e e' => ∀ key id, Deletes e key id → ¬ Deletes e' key id := by
 have hinv := (reachable_wellRun (sound host) (accounted_initial hids) h).inv
 exact ⟨hinv.exact, hinv.once⟩

def plainHost : Host := ⟨⟨fun _ _ => []⟩, fun _ _ _ => true, fun _ _ => .conforms⟩

def lostHousehold : UnitRef := .household "h".toList

def lostGrant : GrantKey := unitGrant lostHousehold "read:game".toList

def grantedStore : Db := ofRows [⟨.grant lostGrant, ⟨0, .granted, "u".toList, "1.0.0".toList, .low, 0⟩⟩]

theorem grantedStore_ids : ∀ key row, grant? grantedStore key = some row → row.id = 0 := by
 intro key row hrow
 have hmem := mem_grantRows.2 hrow
 rw [show grantRows grantedStore =
  [(lostGrant, ⟨0, .granted, "u".toList, "1.0.0".toList, .low, 0⟩)] from rfl] at hmem
 cases List.mem_singleton.1 hmem
 rfl

/-- Two revocations for one unit: both read the row, one deletes it, and the other
    misses it in its read-back. -/
def twoRevocations : List (Action Row Request) :=
  [.spawn (.revokeForAuthorityLoss lostHousehold false),
   .spawn (.revokeForAuthorityLoss lostHousehold false),
    .advance 0, .advance 1, .advance 0, .advance 0, .advance 1, .advance 1, .advance 1]

def reportedAndBefore (e : Entry Row Report) : List (GrantKey × ℕ) × Option ℕ :=
  (e.event.reported.map identity, (grant? e.before lostGrant).map (·.id))

theorem twoRevocations_run : ∃ s, Reachable (program plainHost) outside grantedStore s ∧
  s.shared.ledger.map reportedAndBefore = [([(lostGrant, 0)], some 0), ([(lostGrant, 0)], none)] := by
 have hrun : (run (program plainHost) outside (initial grantedStore) twoRevocations).map
   (fun s => s.shared.ledger.map reportedAndBefore) =
    some [([(lostGrant, 0)], some 0), ([(lostGrant, 0)], none)] := by decide
 obtain ⟨s, hs, hledger⟩ := Option.map_eq_some_iff.1 hrun
 exact ⟨s, reachable_of_run hs, hledger⟩

theorem deletions_reported_exactly_two : ∃ s, Reachable (program plainHost) outside grantedStore s ∧
    s.shared.ledger.length = 2 ∧ ∀ before e rest, s.shared.ledger = before ++ e :: rest →
      (ReportsExactly e.before e.after e.event.reported ↔ Undisturbed before e.event.findings) := by
 obtain ⟨s, hreach, hledger⟩ := twoRevocations_run
 have hlength := congrArg List.length hledger
 rw [List.length_map] at hlength
 exact ⟨s, hreach, hlength,
  (deletions_reported_exactly plainHost grantedStore grantedStore_ids s hreach).1⟩

theorem revocation_reports_what_another_deleted : ¬ ∀ (host : Host) (db : Db),
    (∀ key row, grant? db key = some row → row.id = 0) →
    ∀ s : Sys Row UnitRef Report, Reachable (program host) outside db s →
      ∀ e ∈ s.shared.ledger, ReportsExactly e.before e.after e.event.reported := by
 intro h
 obtain ⟨s, hreach, hledger⟩ := twoRevocations_run
 have hmem : ([(lostGrant, 0)], none) ∈ s.shared.ledger.map reportedAndBefore := by
  rw [hledger]
  exact List.mem_cons_of_mem _ List.mem_cons_self
 obtain ⟨e, he, heq⟩ := List.mem_map.1 hmem
 obtain ⟨hreported, hbefore⟩ := Prod.mk.inj heq
 have hexact := h plainHost grantedStore grantedStore_ids s hreach e he
 have hlost : Lost e.before e.after lostGrant 0 := by
  rw [← hexact.2, hreported]
  exact List.mem_cons_self
 obtain ⟨row, hrow, -⟩ := hlost.1
 rw [hrow] at hbefore
 cases hbefore

end Runs

end BoardGamesEmpire.PluginRevocation
