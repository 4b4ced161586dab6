import BoardGamesEmpire.QuotaService

set_option autoImplicit false

/-!
# Consuming a quota inside a transaction

Transactions that consume a quota and then write. Usage is a number for each
target of a resource: what is committed, plus what a transaction has written
itself. A consume reads the quota rows, takes its advisory locks one by one,
measures its targets one by one, and returns; other transactions may move
between any two of these. The locks are held until the transaction ends.
-/
namespace BoardGamesEmpire.Quota

abbrev Usage := QuotaResource → ResolvedTarget → ℤ

inductive ConsumeError where
  | consume_amount_negative
  | not_enforceable
deriving DecidableEq

/-- Where a transaction is: before its consume, at one of its awaits, after it
    returned or threw, after the write it allowed, or over. -/
inductive Phase where
  | opened
  | loading (targets : List ResolvedTarget)
  | locking (applicable : List Applicable) (keys : List ℤ)
  | measuring (applicable : List Applicable) (usages : List (Option ℤ))
  | returned (result : QuotaCheckResult)
  | threw (error : ConsumeError)
  | written (result : QuotaCheckResult)
  | ended

structure Tx where
  resource : QuotaResource
  amount : ℤ
  ctx : QuotaCheckContext
  phase : Phase
  held : List ℤ
  delta : Usage

def Tx.targets (tx : Tx) : List ResolvedTarget :=
  resolveTargets (definitions tx.resource).applicableScopes tx.ctx

/-- `consume` up to its first await. -/
def Tx.consume (tx : Tx) : Phase :=
  if tx.amount < 0 then .threw .consume_amount_negative
  else if (definitions tx.resource).usage = false then .threw .not_enforceable
  else if tx.targets.isEmpty then .returned unconstrained
  else .loading tx.targets

/-- `consume` once its quota rows are read. -/
def Tx.loaded (sha1 : String → List UInt8) (tx : Tx) (targets : List ResolvedTarget)
    (rows : List QuotaRow) : Phase :=
  if (loadApplicable rows targets).isEmpty then .returned unconstrained
  else .locking (loadApplicable rows targets) (lockKeys sha1 tx.resource (loadApplicable rows targets))

structure State where
  usage : Usage
  txs : ℕ → Option Tx

def State.set (s : State) (i : ℕ) (tx : Tx) : State :=
  { s with txs := Function.update s.txs i (some tx) }

def State.Free (s : State) (i : ℕ) (key : ℤ) : Prop :=
  ∀ j tx, s.txs j = some tx → j ≠ i → key ∉ tx.held

def State.view (s : State) (tx : Tx) : Usage := fun resource target =>
  s.usage resource target + tx.delta resource target

def Lowers (change : Usage) : Prop := ∀ resource target, change resource target ≤ 0

/-- A change within what was consumed: at most the amount on the targets the
    context names, and nothing elsewhere. -/
structure Tx.Covers (tx : Tx) (change : Usage) : Prop where
  named : ∀ target ∈ tx.targets, change tx.resource target ≤ tx.amount
  unnamed : ∀ resource target, (resource = tx.resource → target ∉ tx.targets) →
    change resource target ≤ 0

section System

variable (sha1 : String → List UInt8) (table : QuotaTable)

inductive TxStep (s : State) (i : ℕ) : Tx → Tx → Prop where
  | consume (tx : Tx) (hphase : tx.phase = .opened) : TxStep s i tx { tx with phase := tx.consume }
  | load (tx : Tx) (targets : List ResolvedTarget) (rows : List QuotaRow)
      (hphase : tx.phase = .loading targets) (hrows : rows.Perm (table.findMany tx.resource targets)) :
      TxStep s i tx { tx with phase := tx.loaded sha1 targets rows }
  | lock (tx : Tx) (applicable : List Applicable) (key : ℤ) (keys : List ℤ)
      (hphase : tx.phase = .locking applicable (key :: keys)) (hfree : s.Free i key) :
      TxStep s i tx { tx with phase := .locking applicable keys, held := tx.held ++ [key] }
  | locked (tx : Tx) (applicable : List Applicable) (hphase : tx.phase = .locking applicable []) :
      TxStep s i tx { tx with phase := .measuring applicable (applicable.map fun _ => none) }
  | measure (tx : Tx) (applicable : List Applicable) (usages : List (Option ℤ)) (index : ℕ)
      (a : Applicable) (hphase : tx.phase = .measuring applicable usages)
      (ha : applicable[index]? = some a) (hnew : usages[index]? = some none) :
      TxStep s i tx { tx with
        phase := .measuring applicable (usages.set index (some (s.view tx tx.resource a.target))) }
  | evaluate (tx : Tx) (applicable : List Applicable) (usages : List ℤ)
      (hphase : tx.phase = .measuring applicable (usages.map some)) :
      TxStep s i tx { tx with phase := .returned (evaluate tx.resource applicable usages tx.amount) }
  | write (tx : Tx) (result : QuotaCheckResult) (change : Usage) (hphase : tx.phase = .returned result)
      (hallowed : result.allowed = true) (hchange : tx.Covers change) :
      TxStep s i tx { tx with phase := .written result, delta := tx.delta + change }
  | lower (tx : Tx) (change : Usage) (hphase : tx.phase ≠ .ended) (hchange : Lowers change) :
      TxStep s i tx { tx with delta := tx.delta + change }

/-- A transaction that is over: its locks are gone and its writes are not its own. -/
def Tx.end (tx : Tx) : Tx := { tx with phase := .ended, held := [], delta := 0 }

inductive Step (s : State) : State → Prop where
  | begin (i : ℕ) (resource : QuotaResource) (amount : ℤ) (ctx : QuotaCheckContext)
      (hnew : s.txs i = none) :
      Step s (s.set i { resource, amount, ctx, phase := .opened, held := [], delta := 0 })
  | tx (i : ℕ) (tx tx' : Tx) (htx : s.txs i = some tx) (hstep : TxStep sha1 table s i tx tx') :
      Step s (s.set i tx')
  | commit (i : ℕ) (tx : Tx) (htx : s.txs i = some tx) :
      Step s ({ s with usage := s.view tx }.set i tx.end)
  | rollback (i : ℕ) (tx : Tx) (htx : s.txs i = some tx) : Step s (s.set i tx.end)
  | lapse (change : Usage) (hchange : Lowers change) : Step s { s with usage := s.usage + change }

inductive Run : List State → Prop where
  | start (usage : Usage) : Run [{ usage, txs := fun _ => none }]
  | step {s s' : State} {past : List State} (hrun : Run (s :: past)) (hstep : Step sha1 table s s') :
      Run (s' :: s :: past)

/-- `i` waits for an advisory lock that `j` holds. -/
def WaitsFor (s : State) (i j : ℕ) : Prop :=
  i ≠ j ∧ ∃ tx tx' applicable key keys, s.txs i = some tx ∧ s.txs j = some tx' ∧
    tx.phase = .locking applicable (key :: keys) ∧ key ∈ tx'.held

end System

section Invariant

variable (sha1 : String → List UInt8) (table : QuotaTable)

def Tx.applicable (tx : Tx) : List Applicable := table.applicable tx.resource tx.targets

def Tx.lockKeys (tx : Tx) : List ℤ := Quota.lockKeys sha1 tx.resource (tx.applicable table)

/-- The governed targets keep within their hard limits after `extra` more. -/
def Tx.Room (usage : Usage) (tx : Tx) (extra : ℤ) : Prop :=
  ∀ a ∈ tx.applicable table, a.row.softOverage = false →
    usage tx.resource a.target + tx.delta tx.resource a.target + extra ≤ a.row.limit

/-- What a transaction sees on a measured target can only have sunk since. -/
def Tx.Measured (usage : Usage) (tx : Tx) (usages : List (Option ℤ)) : Prop :=
  ∀ (index : ℕ) (a : Applicable) (figure : ℤ), (tx.applicable table)[index]? = some a →
    usages[index]? = some (some figure) →
      usage tx.resource a.target + tx.delta tx.resource a.target ≤ figure

/-- What holds of a transaction at each phase, over the committed usage. Until it
    writes it has raised nothing; from its first measurement on it holds every
    lock of its targets. -/
inductive Tx.Ok (usage : Usage) (tx : Tx) : Phase → Prop where
  | opened (hheld : tx.held = []) (hlowers : Lowers tx.delta) : tx.Ok usage .opened
  | threw (error : ConsumeError) (hheld : tx.held = []) (hlowers : Lowers tx.delta) :
      tx.Ok usage (.threw error)
  | ended (hheld : tx.held = []) (hlowers : Lowers tx.delta) : tx.Ok usage .ended
  | loading (hheld : tx.held = []) (hlowers : Lowers tx.delta) : tx.Ok usage (.loading tx.targets)
  | locking (keys : List ℤ) (hheld : tx.held ++ keys = tx.lockKeys sha1 table)
      (hlowers : Lowers tx.delta) : tx.Ok usage (.locking (tx.applicable table) keys)
  | measuring (usages : List (Option ℤ)) (hheld : tx.held = tx.lockKeys sha1 table)
      (hlowers : Lowers tx.delta) (hlength : usages.length = (tx.applicable table).length)
      (hmeasured : tx.Measured table usage usages) :
      tx.Ok usage (.measuring (tx.applicable table) usages)
  | returned (result : QuotaCheckResult) (hheld : tx.held = tx.lockKeys sha1 table)
      (hlowers : Lowers tx.delta) (hroom : result.allowed = true → tx.Room table usage tx.amount) :
      tx.Ok usage (.returned result)
  | written (result : QuotaCheckResult) (hheld : tx.held = tx.lockKeys sha1 table)
      (hroom : tx.Room table usage 0)
      (hunnamed : ∀ resource target, (resource = tx.resource → target ∉ tx.targets) →
        tx.delta resource target ≤ 0) :
      tx.Ok usage (.written result)

variable {sha1 table} {usage usage' : Usage} {tx : Tx} {phase : Phase}

theorem lockKey_mem {a : Applicable} (ha : a ∈ tx.applicable table) :
  advisoryLockKey sha1 tx.resource a.target ∈ tx.lockKeys sha1 table :=
 mem_lockKeys sha1 ha

theorem Lowers.add {change change' : Usage} (h : Lowers change) (h' : Lowers change') :
  Lowers (change + change') := by
 intro resource target
 have := h resource target
 have := h' resource target
 simp only [Pi.add_apply]
 omega

/-- Committed usage has not risen on the targets a transaction has locked. -/
def Tx.Sunk (tx : Tx) (usage usage' : Usage) : Prop :=
  ∀ a ∈ tx.applicable table, advisoryLockKey sha1 tx.resource a.target ∈ tx.held →
    usage' tx.resource a.target ≤ usage tx.resource a.target

theorem Tx.Room.mono {extra : ℤ} (hroom : tx.Room table usage extra)
  (hheld : tx.held = tx.lockKeys sha1 table)
  (hsunk : @Tx.Sunk sha1 table tx usage usage') : tx.Room table usage' extra := by
 intro a hmem hhard
 have := hsunk a hmem (hheld ▸ lockKey_mem hmem)
 have := hroom a hmem hhard
 omega

theorem Tx.Ok.mono (hok : tx.Ok sha1 table usage phase)
  (hsunk : @Tx.Sunk sha1 table tx usage usage') : tx.Ok sha1 table usage' phase := by
 cases hok with
 | opened hheld hlowers => exact .opened hheld hlowers
 | threw error hheld hlowers => exact .threw error hheld hlowers
 | ended hheld hlowers => exact .ended hheld hlowers
 | loading hheld hlowers => exact .loading hheld hlowers
 | locking keys hheld hlowers => exact .locking keys hheld hlowers
 | measuring usages hheld hlowers hlength hmeasured =>
  refine .measuring usages hheld hlowers hlength fun index a figure ha hfigure => ?_
  have hmem := List.mem_of_getElem? ha
  have := hsunk a hmem (hheld ▸ lockKey_mem hmem)
  have := hmeasured index a figure ha hfigure
  omega
 | returned result hheld hlowers hroom =>
  exact .returned result hheld hlowers fun hallowed => (hroom hallowed).mono hheld hsunk
 | written result hheld hroom hunnamed =>
  exact .written result hheld (hroom.mono hheld hsunk) hunnamed

theorem Tx.Ok.raised (hok : tx.Ok sha1 table usage phase) {resource : QuotaResource}
  {target : ResolvedTarget} {row : QuotaRow}
  (hgoverning : table.governing resource target = some row) (henforced : row.enforced = true)
  (hraised : 0 < tx.delta resource target) :
  resource = tx.resource ∧ advisoryLockKey sha1 resource target ∈ tx.held ∧
   (row.softOverage = false → usage resource target + tx.delta resource target ≤ row.limit) := by
 have hnot : ¬ Lowers tx.delta := fun h => by
  have := h resource target
  omega
 cases hok with
 | opened _ hlowers | threw _ _ hlowers | ended _ hlowers | loading _ hlowers | locking _ _ hlowers
 | measuring _ _ hlowers | returned _ _ hlowers => exact absurd hlowers hnot
 | written result hheld hroom hunnamed =>
  have hnamed : resource = tx.resource ∧ target ∈ tx.targets := by
   by_contra hout
   have := hunnamed resource target fun heq hmem => hout ⟨heq, hmem⟩
   omega
  obtain ⟨rfl, htarget⟩ := hnamed
  have hmem : ⟨target, row⟩ ∈ tx.applicable table := mem_applicable.2 ⟨htarget, hgoverning, henforced⟩
  have hkey : advisoryLockKey sha1 tx.resource target ∈ tx.held := by
   rw [hheld]
   exact @lockKey_mem sha1 table tx ⟨target, row⟩ hmem
  refine ⟨rfl, hkey, fun hhard => ?_⟩
  have := hroom _ hmem hhard
  simpa using this

end Invariant

end BoardGamesEmpire.Quota
