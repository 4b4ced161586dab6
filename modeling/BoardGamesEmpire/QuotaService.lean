import Mathlib

set_option autoImplicit false

/-!
# Quota rows and the decision of a consume

The pure parts of the quota service: which scope targets a context names, which
quota row governs a target, the advisory lock keys of the targets with an
enforced row, and the verdict on the usage measured for them.
-/
namespace BoardGamesEmpire.Quota

inductive QuotaScope where
  | Server
  | User
  | Household
  | HouseholdMember
deriving DecidableEq

def QuotaScope.text : QuotaScope → String
  | .Server => "Server"
  | .User => "User"
  | .Household => "Household"
  | .HouseholdMember => "HouseholdMember"

inductive QuotaResource where
  | household_member_count
  | webhook_subscription_count
  | storage_bytes
  | plugin_install_count
  | household_invite_daily_count
deriving DecidableEq

def QuotaResource.key : QuotaResource → String
  | .household_member_count => "household_member_count"
  | .webhook_subscription_count => "webhook_subscription_count"
  | .storage_bytes => "storage_bytes"
  | .plugin_install_count => "plugin_install_count"
  | .household_invite_daily_count => "household_invite_daily_count"

/-- `usage` says whether the resource has a usage provider yet. -/
structure QuotaResourceDefinition where
  applicableScopes : List QuotaScope
  usage : Bool

def definitions : QuotaResource → QuotaResourceDefinition
  | .household_member_count => ⟨[.Household], true⟩
  | .webhook_subscription_count => ⟨[.User], true⟩
  | .storage_bytes => ⟨[.Server, .User], true⟩
  | .plugin_install_count => ⟨[.Server, .Household], false⟩
  | .household_invite_daily_count => ⟨[.User, .Household], true⟩

theorem applicableScopes_nodup (resource : QuotaResource) :
  (definitions resource).applicableScopes.Nodup := by
 cases resource <;> decide

def DEFAULT_SCOPE_ID : String := "*"

structure QuotaCheckContext where
  userId : Option String
  householdId : Option String
  householdMemberId : Option String

/-- The id a context names in a scope. An absent or empty id names no target. -/
def QuotaCheckContext.scopeId? (ctx : QuotaCheckContext) : QuotaScope → Option String
  | .Server => some DEFAULT_SCOPE_ID
  | .User => ctx.userId.filter (· ≠ "")
  | .Household => ctx.householdId.filter (· ≠ "")
  | .HouseholdMember => ctx.householdMemberId.filter (· ≠ "")

structure ResolvedTarget where
  scope : QuotaScope
  scopeId : String
deriving DecidableEq

def resolveTargets (applicableScopes : List QuotaScope) (ctx : QuotaCheckContext) :
    List ResolvedTarget :=
  applicableScopes.filterMap fun scope => (ctx.scopeId? scope).map fun scopeId => ⟨scope, scopeId⟩

structure QuotaRow where
  resource : QuotaResource
  scope : QuotaScope
  scopeId : String
  limit : ℤ
  softOverage : Bool
  enforced : Bool
deriving DecidableEq

def QuotaRow.scopeKey (row : QuotaRow) : QuotaResource × QuotaScope × String :=
  (row.resource, row.scope, row.scopeId)

/-- The quota table: at most one row for a scope, a scope id and a resource. -/
structure QuotaTable where
  rows : List QuotaRow
  unique : ∀ row ∈ rows, ∀ other ∈ rows, row.scopeKey = other.scopeKey → row = other

/-- The row that governs a target: its own row, else the default row of its scope. -/
def QuotaTable.governing (table : QuotaTable) (resource : QuotaResource) (target : ResolvedTarget) :
    Option QuotaRow :=
  (table.rows.find? fun row => row.scopeKey = (resource, target.scope, target.scopeId)) <|>
    table.rows.find? fun row => row.scopeKey = (resource, target.scope, DEFAULT_SCOPE_ID)

/-- The disjuncts of the row read: a target's own row and its scope's default. -/
def rowConditions (targets : List ResolvedTarget) : List ResolvedTarget :=
  targets.flatMap fun target =>
    if target.scopeId = DEFAULT_SCOPE_ID then [target]
    else [target, ⟨target.scope, DEFAULT_SCOPE_ID⟩]

def QuotaTable.findMany (table : QuotaTable) (resource : QuotaResource) (targets : List ResolvedTarget) :
    List QuotaRow :=
  table.rows.filter fun row =>
    row.resource = resource && (rowConditions targets).contains ⟨row.scope, row.scopeId⟩

def mostSpecific (rows : List QuotaRow) (scope : QuotaScope) (scopeId : String) : Option QuotaRow :=
  (rows.find? fun row => row.scope = scope && row.scopeId = scopeId) <|>
    rows.find? fun row => row.scope = scope && row.scopeId = DEFAULT_SCOPE_ID

structure Applicable where
  target : ResolvedTarget
  row : QuotaRow
deriving DecidableEq

def loadApplicable (rows : List QuotaRow) (targets : List ResolvedTarget) : List Applicable :=
  targets.filterMap fun target =>
    ((mostSpecific rows target.scope target.scopeId).filter (·.enforced)).map fun row => ⟨target, row⟩

structure QuotaConstraint where
  scope : QuotaScope
  scopeId : String
  limit : ℤ
  currentUsage : ℤ
  softOverage : Bool
  exceeded : Bool
deriving DecidableEq

def toPublicScopeId (scopeId : String) : Option String :=
  if scopeId = DEFAULT_SCOPE_ID then none else some scopeId

structure QuotaSoftOverageEvent where
  scope : QuotaScope
  scopeId : Option String
  resource : QuotaResource
  currentUsage : String
  attemptedAmount : String
  limit : String
deriving DecidableEq

structure QuotaCheckResult where
  allowed : Bool
  scope : Option QuotaScope
  currentUsage : Option ℤ
  limit : Option ℤ
  softOverage : Bool
  constraints : List QuotaConstraint
  softOverages : List QuotaSoftOverageEvent
deriving DecidableEq

def unconstrained : QuotaCheckResult :=
  { allowed := true, scope := none, currentUsage := none, limit := none, softOverage := false,
    constraints := [], softOverages := [] }

def Applicable.constraint (a : Applicable) (currentUsage amount : ℤ) : QuotaConstraint :=
  { scope := a.target.scope
    scopeId := a.target.scopeId
    limit := a.row.limit
    currentUsage
    softOverage := a.row.softOverage
    exceeded := decide (a.row.limit < currentUsage + amount) }

def softOverageEvent (resource : QuotaResource) (amount : ℤ) (violation : QuotaConstraint) :
    QuotaSoftOverageEvent :=
  { scope := violation.scope
    scopeId := toPublicScopeId violation.scopeId
    resource
    currentUsage := toString violation.currentUsage
    attemptedAmount := toString amount
    limit := toString violation.limit }

def pickBinding (first : QuotaConstraint) (pool : List QuotaConstraint) : QuotaConstraint :=
  pool.foldl (fun tightest candidate =>
    if candidate.limit - candidate.currentUsage < tightest.limit - tightest.currentUsage then candidate
    else tightest) first

def QuotaConstraint.hardViolation (c : QuotaConstraint) : Bool := c.exceeded && !c.softOverage

def hardViolations (constraints : List QuotaConstraint) : List QuotaConstraint :=
  constraints.filter (·.hardViolation)

def bindingPool (constraints : List QuotaConstraint) : List QuotaConstraint :=
  if (hardViolations constraints).isEmpty then constraints else hardViolations constraints

/-- The verdict on the constraints. The reduce of the source has no value on an
    empty pool; a call that reaches it has an applicable target. -/
def verdict (resource : QuotaResource) (amount : ℤ) (constraints : List QuotaConstraint) :
    QuotaCheckResult :=
  match bindingPool constraints with
  | [] => unconstrained
  | first :: pool =>
    { allowed := (hardViolations constraints).isEmpty
      scope := some (pickBinding first pool).scope
      currentUsage := some (pickBinding first pool).currentUsage
      limit := some (pickBinding first pool).limit
      softOverage := (pickBinding first pool).softOverage
      constraints
      softOverages := (constraints.filter fun c => c.exceeded && c.softOverage).map
        (softOverageEvent resource amount) }

def constraintsOf (applicable : List Applicable) (usages : List ℤ) (amount : ℤ) : List QuotaConstraint :=
  applicable.zipWith (fun a currentUsage => a.constraint currentUsage amount) usages

def evaluate (resource : QuotaResource) (applicable : List Applicable) (usages : List ℤ) (amount : ℤ) :
    QuotaCheckResult :=
  verdict resource amount (constraintsOf applicable usages amount)

def readBigInt64BE (digest : List UInt8) : ℤ :=
  (BitVec.ofNat 64 ((digest.take 8).foldl (fun value byte => 256 * value + byte.toNat) 0)).toInt

section Locks

variable (sha1 : String → List UInt8)

def advisoryLockKey (resource : QuotaResource) (target : ResolvedTarget) : ℤ :=
  readBigInt64BE
    (sha1 ("quota:" ++ resource.key ++ ":" ++ target.scope.text ++ ":" ++ target.scopeId))

def lockKeys (resource : QuotaResource) (applicable : List Applicable) : List ℤ :=
  ((applicable.map fun a => advisoryLockKey sha1 resource a.target).dedup).insertionSort (· ≤ ·)

theorem mem_lockKeys {resource : QuotaResource} {applicable : List Applicable} {a : Applicable}
  (h : a ∈ applicable) :
  advisoryLockKey sha1 resource a.target ∈ lockKeys sha1 resource applicable := by
 unfold lockKeys
 rw [List.mem_insertionSort, List.mem_dedup]
 exact List.mem_map_of_mem h

theorem lockKeys_sorted (resource : QuotaResource) (applicable : List Applicable) :
  (lockKeys sha1 resource applicable).Pairwise (· < ·) := by
 have hle := List.pairwise_insertionSort (· ≤ ·)
  ((applicable.map fun a => advisoryLockKey sha1 resource a.target).dedup)
 have hne : (lockKeys sha1 resource applicable).Nodup :=
  (List.perm_insertionSort _ _).nodup_iff.2 (List.nodup_dedup _)
 exact (hle.and hne).imp fun h => lt_of_le_of_ne h.1 h.2

end Locks

section Targets

theorem resolveTargets_nodup {scopes : List QuotaScope} (h : scopes.Nodup) (ctx : QuotaCheckContext) :
  ((resolveTargets scopes ctx).map (·.scope)).Nodup := by
 induction scopes with
 | nil => simp [resolveTargets]
 | cons scope scopes ih =>
  have htail := ih h.of_cons
  cases hid : ctx.scopeId? scope with
  | none => simpa [resolveTargets, hid] using htail
  | some scopeId =>
   have hnot : scope ∉ (resolveTargets scopes ctx).map (·.scope) := by
    intro hmem
    obtain ⟨target, htarget, rfl⟩ := List.mem_map.1 hmem
    obtain ⟨other, hother, hname⟩ := List.mem_filterMap.1 htarget
    obtain ⟨id, hid', rfl⟩ := Option.map_eq_some_iff.1 hname
    exact (List.nodup_cons.1 h).1 hother
   have heq : resolveTargets (scope :: scopes) ctx = ⟨scope, scopeId⟩ :: resolveTargets scopes ctx := by
    simp [resolveTargets, hid]
   rw [heq, List.map_cons]
   exact List.nodup_cons.2 ⟨hnot, htail⟩

end Targets

section Rows

theorem find?_eq_of_unique {α : Type} {p q : α → Bool} {l l' : List α}
  (hsame : ∀ x, (x ∈ l ∧ p x = true) ↔ (x ∈ l' ∧ q x = true))
  (hunique : ∀ x ∈ l', ∀ y ∈ l', q x = true → q y = true → x = y) : l.find? p = l'.find? q := by
 cases hfound : l.find? p with
 | none =>
  symm
  rw [List.find?_eq_none] at hfound ⊢
  intro x hx hq
  obtain ⟨hmem, hp⟩ := (hsame x).2 ⟨hx, hq⟩
  exact hfound x hmem hp
 | some x =>
  obtain ⟨hx, hq⟩ := (hsame x).1 ⟨List.mem_of_find?_eq_some hfound, List.find?_some hfound⟩
  cases hother : l'.find? q with
  | none => exact absurd hq (by simpa using List.find?_eq_none.1 hother x hx)
  | some y =>
   rw [hunique x hx y (List.mem_of_find?_eq_some hother) hq (List.find?_some hother)]

variable {table : QuotaTable} {resource : QuotaResource} {targets : List ResolvedTarget}

theorem mem_rowConditions_own {target : ResolvedTarget} (h : target ∈ targets) :
  target ∈ rowConditions targets := by
 refine List.mem_flatMap.2 ⟨target, h, ?_⟩
 split <;> simp

theorem mem_rowConditions_default {target : ResolvedTarget} (h : target ∈ targets) :
  ⟨target.scope, DEFAULT_SCOPE_ID⟩ ∈ rowConditions targets := by
 refine List.mem_flatMap.2 ⟨target, h, ?_⟩
 split
 · next hid => simp [← hid]
 · simp

theorem find?_loaded {rows : List QuotaRow} {scope : QuotaScope} {scopeId : String}
  (hperm : rows.Perm (table.findMany resource targets))
  (hread : ⟨scope, scopeId⟩ ∈ rowConditions targets) :
  (rows.find? fun row => row.scope = scope && row.scopeId = scopeId) =
   table.rows.find? fun row => row.scopeKey = (resource, scope, scopeId) := by
 apply find?_eq_of_unique
 · intro row
   rw [hperm.mem_iff]
   simp only [QuotaTable.findMany, List.mem_filter, Bool.and_eq_true, decide_eq_true_eq,
    List.contains_iff_mem, QuotaRow.scopeKey, Prod.mk.injEq]
   constructor
   · rintro ⟨⟨hrow, hresource, -⟩, hscope, hid⟩
     exact ⟨hrow, hresource, hscope, hid⟩
   · rintro ⟨hrow, hresource, hscope, hid⟩
     exact ⟨⟨hrow, hresource, by rw [hscope, hid]; exact hread⟩, hscope, hid⟩
 · intro row hrow other hother hkey hkey'
   apply table.unique row hrow other hother
   rw [of_decide_eq_true hkey, of_decide_eq_true hkey']

theorem mostSpecific_loaded {rows : List QuotaRow}
  (hperm : rows.Perm (table.findMany resource targets)) {target : ResolvedTarget}
  (h : target ∈ targets) :
  mostSpecific rows target.scope target.scopeId = table.governing resource target := by
 unfold mostSpecific QuotaTable.governing
 rw [find?_loaded hperm (mem_rowConditions_own h), find?_loaded hperm (mem_rowConditions_default h)]

def QuotaTable.applicable (table : QuotaTable) (resource : QuotaResource)
    (targets : List ResolvedTarget) : List Applicable :=
  targets.filterMap fun target =>
    ((table.governing resource target).filter (·.enforced)).map fun row => ⟨target, row⟩

theorem loadApplicable_loaded {rows : List QuotaRow}
  (hperm : rows.Perm (table.findMany resource targets)) :
  loadApplicable rows targets = table.applicable resource targets := by
 apply List.filterMap_congr
 intro target h
 rw [mostSpecific_loaded hperm h]

theorem mem_applicable {a : Applicable} :
  a ∈ table.applicable resource targets ↔
   a.target ∈ targets ∧ table.governing resource a.target = some a.row ∧ a.row.enforced = true := by
 unfold QuotaTable.applicable
 rw [List.mem_filterMap]
 constructor
 · rintro ⟨target, htarget, hmap⟩
   obtain ⟨row, hrow, rfl⟩ := Option.map_eq_some_iff.1 hmap
   obtain ⟨hgoverning, henforced⟩ := Option.filter_eq_some_iff.1 hrow
   exact ⟨htarget, hgoverning, henforced⟩
 · intro ⟨htarget, hgoverning, henforced⟩
   exact ⟨a.target, htarget, by simp [hgoverning, henforced]⟩

end Rows

section Verdict

theorem pickBinding_mem (first : QuotaConstraint) (pool : List QuotaConstraint) :
  pickBinding first pool ∈ first :: pool := by
 induction pool generalizing first with
 | nil => simp [pickBinding]
 | cons candidate pool ih =>
  unfold pickBinding at ih ⊢
  rw [List.foldl_cons]
  split
  · exact List.mem_cons_of_mem _ (ih candidate)
  · rcases List.mem_cons.1 (ih first) with h | h
    · rw [h]
      exact List.mem_cons_self
    · exact List.mem_cons_of_mem _ (List.mem_cons_of_mem _ h)

theorem bindingPool_eq_nil {constraints : List QuotaConstraint} (h : bindingPool constraints = []) :
  constraints = [] := by
 unfold bindingPool at h
 split at h
 · exact h
 · next hnot => exact absurd (List.isEmpty_iff.2 h) hnot

variable {resource : QuotaResource} {amount : ℤ} {constraints : List QuotaConstraint}

theorem verdict_allowed_iff :
  (verdict resource amount constraints).allowed = true ↔ ∀ c ∈ constraints, c.hardViolation = false := by
 unfold verdict
 split
 · next hpool => simp [unconstrained, bindingPool_eq_nil hpool]
 · simp [hardViolations, List.isEmpty_iff, List.filter_eq_nil_iff]

theorem verdict_refused (h : (verdict resource amount constraints).allowed = false) :
  ∃ c ∈ constraints, c.hardViolation = true ∧
   (verdict resource amount constraints).scope = some c.scope ∧
   (verdict resource amount constraints).currentUsage = some c.currentUsage ∧
   (verdict resource amount constraints).limit = some c.limit ∧
   (verdict resource amount constraints).softOverage = c.softOverage := by
 unfold verdict at h ⊢
 split
 · next hpool => simp [hpool, unconstrained] at h
 · next first pool hpool =>
   have hsome : (hardViolations constraints).isEmpty = false := by simpa [hpool] using h
   have heq : hardViolations constraints = first :: pool := by simpa [bindingPool, hsome] using hpool
   have hmem : pickBinding first pool ∈ hardViolations constraints := by
    rw [heq]
    exact pickBinding_mem first pool
   obtain ⟨hin, hhard⟩ := List.mem_filter.1 hmem
   exact ⟨_, hin, hhard, rfl, rfl, rfl, rfl⟩

end Verdict

end BoardGamesEmpire.Quota
