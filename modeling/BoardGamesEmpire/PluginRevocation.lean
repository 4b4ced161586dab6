import BoardGamesEmpire.ReadCommittedStepwise
import BoardGamesEmpire.PluginGrantProgram

set_option autoImplicit false

/-!
# What a deletion of consent decisions reports

The programs that delete decisions, with the rows they hand to
`PluginGrantRevokedEvent`. A revocation reads its rows, deletes them while they
are granted and, when the counts differ, reads back which of them are left. An
activation reads the rows of a removed, a dropped or a moved permission and then
deletes them.
-/
namespace BoardGamesEmpire.PluginRevocation
open JsText Manifest ReadCommitted ReadCommittedProtocol PluginStore PluginEscalation PluginActivation
  PluginUpdateProgram PluginGrantProgram

/-- Rows that a transaction read in order to delete them, and the statement after
    which it knew which of them to report. -/
structure Finding where
  rows : List (GrantKey × PluginGrant)
  foundAt : ℕ
  settledAt : ℕ

structure Report where
  event : Event
  findings : List Finding
  reported : List (GrantKey × PluginGrant)

abbrev ReportingProgram := Code Row UnitRef Report

abbrev RevocationState := Shared Row Report

def withoutDeletions (event : Event) : Report := ⟨event, [], []⟩

section Revoke

def grantedOf (unit : UnitRef) (v : Db) : List (GrantKey × PluginGrant) :=
  (grantRows v).filter fun entry => entry.1.scopeType == unit.scope && entry.1.scopeId == unit.scopeId &&
    entry.2.status == .granted

def survives (v : Db) (found : GrantKey × PluginGrant) : Bool :=
  match grant? v found.1 with
  | some row => row.id == found.2.id
  | none => false

/-- Without a plugin id the call covers every plugin; `skippedElsewhere` says that
    rows of the others already keep the two counts apart. -/
def revokeForAuthorityLoss (unit : UnitRef) (skippedElsewhere : Bool) : ReportingProgram :=
  if unit.scopeId = serverScopeSentinel then .halt
  else .query fun foundAt v =>
    let rows := grantedOf unit v
    if rows = [] then .commit (withoutDeletions .unchanged) .halt
    else .execute (fun _ v => deleteFound rows (·.status == .granted) v) fun deletedAt v =>
      if (deleteFound rows (·.status == .granted) v).length = rows.length ∧ skippedElsewhere = false then
        .commit ⟨.revoked, [⟨rows, foundAt, deletedAt⟩], rows⟩ .halt
      else .query fun readBackAt v =>
        .commit ⟨.revoked, [⟨rows, foundAt, readBackAt⟩], rows.filter fun row => !survives v row⟩ .halt

end Revoke

section Activate

def rowsUnder (slugs : List Text) (v : Db) : List (GrantKey × PluginGrant) :=
  (grantRows v).filter fun entry => slugs.contains entry.1.permissionSlug

def staleRows (slug : Text) (scopeType : PluginGrantScope) (v : Db) : List (GrantKey × PluginGrant) :=
  (grantRows v).filter fun entry => entry.1.permissionSlug == slug && entry.1.scopeType == scopeType

def writeStep (a : Activation) (onCollision : ReportingProgram) (step : ActivationStep)
    (next : ReportingProgram) : ReportingProgram :=
  .execute (fun clock v => (stepWrites a step clock v).toOption.getD []) fun clock v =>
    match stepWrites a step clock v with
    | .ok _ => next
    | .error .decisionCollision => .rollback onCollision
    | .error .other => .rollback .halt

def reportStep (a : Activation) (onCollision : ReportingProgram) (step : ActivationStep)
    (next : List Finding → ReportingProgram) (findings : List Finding) : ReportingProgram :=
  match step with
  | .deleteGrants slugs =>
    .query fun foundAt v =>
      let rows := rowsUnder slugs v
      .execute (fun _ v => deleteGrants (fun key _ => slugs.contains key.permissionSlug) v)
        fun deletedAt _ => next (findings ++ [⟨rows, foundAt, deletedAt⟩])
  | .moveScope slug scopeType =>
    .query fun foundAt v =>
      let stale := staleRows slug scopeType v
      if stale = [] then next findings
      else .execute (fun _ v => deleteFound stale (fun _ => true) v)
        fun deletedAt _ => next (findings ++ [⟨stale, foundAt, deletedAt⟩])
  | .deletePermissions _ | .createPermission _ | .reStamp _ | .seed _ =>
    writeStep a onCollision step (next findings)

/-- `revokedGrants`, `unrequestedGrants` and `scopeMovedGrants`, in this order. -/
def reportActivation (findings : List Finding) (event : Event) : Report :=
  ⟨event, findings, findings.flatMap (·.rows)⟩

def finishReporting (host : Host) (a : Activation) (seeded : List NormalizedPermissionRequest)
    (findings : List Finding) : ReportingProgram :=
  relabel (reportActivation findings) (finishActivation host a seeded)

def activateClaimed (host : Host) (a : Activation) (onCollision : ReportingProgram) : ReportingProgram :=
  .lock lockServerGrants fun _ v =>
    if blockedByDenial a (serverRows v) ≠ [] then .rollback .halt
    else
      let seeded := seededChecks a (serverRows v)
      if reentryExact a seeded then
        (activationSteps a seeded).foldr (reportStep a onCollision) (finishReporting host a seeded) []
      else .rollback .halt

def activateInTransaction (host : Host) (a : Activation) (onCollision : ReportingProgram) :
    ReportingProgram :=
  .lock (lockPlugin true) fun _ v =>
    match plugin? v with
    | none => .rollback .halt
    | some current =>
      .execute (fun _ v => claimWrites a (retainedServerConfig host a.next.manifest current.config) v)
        fun _ v =>
          match plugin? v with
          | some row => if claimable a row then activateClaimed host a onCollision else .rollback .halt
          | none => .rollback .halt

def activate (host : Host) (a : Activation) : ReportingProgram :=
  let again : ReportingProgram := .start .halt (activateInTransaction host a .halt)
  .start again (activateInTransaction host a again)

end Activate

inductive Request where
  | decide (input : DecisionInput)
  | revokeForAuthorityLoss (unit : UnitRef) (skippedElsewhere : Bool)
  | activate (a : Activation)

def program (host : Host) : Request → ReportingProgram
  | .decide input => relabel withoutDeletions (PluginGrantProgram.decide host input)
  | .revokeForAuthorityLoss unit skippedElsewhere => revokeForAuthorityLoss unit skippedElsewhere
  | .activate a => activate host a

section Accounts

def identity (found : GrantKey × PluginGrant) : GrantKey × ℕ := (found.1, found.2.id)

def Lives (db : Db) (key : GrantKey) (id : ℕ) : Prop := ∃ row, grant? db key = some row ∧ row.id = id

def Lost (before after : Db) (key : GrantKey) (id : ℕ) : Prop :=
  Lives before key id ∧ ¬ Lives after key id

def Deletes (e : Entry Row Report) (key : GrantKey) (id : ℕ) : Prop := Lost e.before e.after key id

def ReportsExactly (before after : Db) (reported : List (GrantKey × PluginGrant)) : Prop :=
  (reported.map identity).Nodup ∧
    ∀ key id, (key, id) ∈ reported.map identity ↔ Lost before after key id

/-- No transaction that committed between the finding of a row and the statement that
    settled its report deleted that row. -/
def Undisturbed (ledger : List (Entry Row Report)) (findings : List Finding) : Prop :=
  ∀ f ∈ findings, ∀ found ∈ f.rows, ∀ e ∈ ledger, f.foundAt ≤ e.time → e.time < f.settledAt →
    ¬ Deletes e found.1 found.2.id

end Accounts

section Stores

variable {db v : Db} {key : GrantKey} {id : ℕ}

theorem survives_iff {found : GrantKey × PluginGrant} :
  survives v found = true ↔ Lives v found.1 found.2.id := by
 unfold survives Lives
 cases grant? v found.1 <;> simp

theorem lives_congr (h : grant? db key = grant? v key) : Lives db key id ↔ Lives v key id := by
 unfold Lives
 rw [h]

theorem lost_congr {db' v' : Db} (h : grant? db key = grant? db' key)
  (h' : grant? v key = grant? v' key) :
  Lost db v key id ↔ Lost db' v' key id := by
 unfold Lost
 rw [lives_congr h, lives_congr h']

theorem not_lost_self : ¬ Lost db db key id := fun h => h.2 h.1

theorem lives_of_mem {found : GrantKey × PluginGrant} (h : found ∈ grantRows v) :
  Lives v found.1 found.2.id := ⟨found.2, mem_grantRows.1 h, rfl⟩

theorem identity_nodup {rows : List (GrantKey × PluginGrant)} (h : (rows.map Prod.fst).Nodup) :
  (rows.map identity).Nodup := by
 apply List.Nodup.of_map Prod.fst
 rw [List.map_map]
 exact h

theorem nodup_filter_grantRows (p : GrantKey × PluginGrant → Bool) (v : Db) :
  (((grantRows v).filter p).map identity).Nodup :=
 identity_nodup ((grantRows_nodup v).sublist (List.filter_sublist.map _))

theorem lives_deleteGrants {p : GrantKey → PluginGrant → Bool} :
  Lives (applyLog v (deleteGrants p v)) key id ↔
   ∃ row, grant? v key = some row ∧ row.id = id ∧ p key row = false := by
 unfold Lives
 rw [lookup_deleteGrants]
 constructor
 · rintro ⟨row, hrow, hid⟩
   obtain ⟨hrow, hp⟩ := Option.filter_eq_some_iff.1 hrow
   exact ⟨row, hrow, hid, by simpa using hp⟩
 · rintro ⟨row, hrow, hid, hp⟩
   exact ⟨row, Option.filter_eq_some_iff.2 ⟨hrow, by simp [hp]⟩, hid⟩

theorem ReportsExactly.delete {p : GrantKey → PluginGrant → Bool}
  {reported rows : List (GrantKey × PluginGrant)} (h : ReportsExactly db v reported)
  (hsub : ∀ key id, Lives v key id → Lives db key id) (hnodup : (rows.map identity).Nodup)
  (hlives : ∀ found ∈ rows, Lives v found.1 found.2.id)
  (hp : ∀ key row, grant? v key = some row → (p key row = true ↔ (key, row.id) ∈ rows.map identity)) :
  ReportsExactly db (applyLog v (deleteGrants p v)) (reported ++ rows) := by
 have hlost : ∀ key id, (key, id) ∈ rows.map identity → Lives v key id := by
  intro key id hmem
  obtain ⟨found, hfound, heq⟩ := List.mem_map.1 hmem
  cases heq
  exact hlives found hfound
 refine ⟨?_, fun key id => ?_⟩
 · rw [List.map_append]
   apply h.1.append hnodup
   rintro ⟨key, id⟩ hold hnew
   exact ((h.2 key id).1 hold).2 (hlost key id hnew)
 · rw [List.map_append, List.mem_append, h.2]
   unfold Lost
   rw [lives_deleteGrants]
   constructor
   · rintro (⟨hdb, hnot⟩ | hmem)
     · refine ⟨hdb, fun hkept => ?_⟩
       obtain ⟨row, hrow, hid, -⟩ := hkept
       exact hnot ⟨row, hrow, hid⟩
     · refine ⟨hsub key id (hlost key id hmem), fun hkept => ?_⟩
       obtain ⟨row, hrow, hid, hfalse⟩ := hkept
       rw [← hid] at hmem
       rw [(hp key row hrow).2 hmem] at hfalse
       cases hfalse
   · rintro ⟨hdb, hnot⟩
     by_cases hv : Lives v key id
     · obtain ⟨row, hrow, rfl⟩ := hv
       right
       rw [← hp key row hrow]
       by_contra hfalse
       exact hnot ⟨row, hrow, rfl, by simpa using hfalse⟩
     · exact .inl ⟨hdb, hv⟩

theorem reportsExactly_nil : ReportsExactly db db [] :=
 ⟨List.nodup_nil, fun _ _ => ⟨fun h => absurd h List.not_mem_nil, fun h => absurd h not_lost_self⟩⟩

end Stores

end BoardGamesEmpire.PluginRevocation
