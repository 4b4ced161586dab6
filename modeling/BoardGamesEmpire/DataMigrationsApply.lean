import BoardGamesEmpire.DataMigrations

set_option autoImplicit false

/-!
# Boots that apply data migrations

`applyDataMigrations` over a ledger and the data beside it, and sequences of
boots of one build. A boot holds the bootstrap lock, so boots do not overlap.
-/
namespace BoardGamesEmpire.DataMigrations
open JsText JsonText

local instance : LawfulBEq Text := inferInstance

structure System (δ : Type) where
  data : δ
  ledger : Ledger

/-- What `readDataMigrationLedger` meets; `findMany` names no order. -/
inductive LedgerRead where
  | rows (order : List DataMigrationLedgerRow → List DataMigrationLedgerRow) (perm : ∀ rows, (order rows).Perm rows)
  | tableMissing
  | failed

/-- How the commit of a transaction ends: it may be lost, and the word that it
    went through may be lost. -/
inductive Commit where
  | acknowledged | lost | unacknowledged
deriving DecidableEq

/-- What one boot meets. `invalidate` is the port, if given, and whether it
    returns. -/
structure Boot (ω : Type) where
  read : LedgerRead
  world : Text → ω
  commit : Text → Commit
  invalidate : Option Bool

inductive BootError where
  | tableMissing
  | ledgerRead
  | registry (error : RegistryError)
  | revision (edited : List RevisionMismatch)
  | entry (name : Text)
deriving DecidableEq

structure DataMigrationsResult where
  applied : List Text
  unknown : List Text
  invalidated : Bool
deriving DecidableEq

section Apply

variable {ω δ : Type}

/-- The ledger row of an entry; the check made its revision an integer. -/
def rowOf (entry : DataMigrationEntry ω δ) : DataMigrationLedgerRow := ⟨entry.name, entry.revision.num⟩

def Ledger.create (ledger : Ledger) (row : DataMigrationLedgerRow)
    (h : row.name ∉ ledger.rows.map (·.name)) :
    Ledger where
  rows := ledger.rows ++ [row]
  names := by
    rw [List.map_append, List.map_singleton]
    exact List.nodup_append.2 ⟨ledger.names, List.nodup_singleton _, fun a ha b hb => by
      rintro rfl
      exact h (List.mem_singleton.1 hb ▸ ha)⟩

inductive TransactionEnd (δ : Type) where
  | failed
  | unacknowledged (system : System δ)
  | returned (system : System δ)

def transaction (boot : Boot ω) (entry : DataMigrationEntry ω δ) (system : System δ) : TransactionEnd δ :=
  match entry.run (boot.world entry.name) system.data with
  | none => .failed
  | some data =>
    if h : (rowOf entry).name ∉ system.ledger.rows.map (·.name) then
      match boot.commit entry.name with
      | .lost => .failed
      | .unacknowledged => .unacknowledged ⟨data, system.ledger.create (rowOf entry) h⟩
      | .acknowledged => .returned ⟨data, system.ledger.create (rowOf entry) h⟩
    else .failed

structure Progress (ω δ : Type) where
  system : System δ
  started : List (DataMigrationEntry ω δ)
  committed : List (DataMigrationEntry ω δ)
  applied : List (DataMigrationEntry ω δ)
  failed : Option Text

def applyPending (boot : Boot ω) : List (DataMigrationEntry ω δ) → System δ → Progress ω δ
  | [], system => ⟨system, [], [], [], none⟩
  | entry :: rest, system =>
    match transaction boot entry system with
    | .failed => ⟨system, [entry], [], [], some entry.name⟩
    | .unacknowledged system => ⟨system, [entry], [entry], [], some entry.name⟩
    | .returned system =>
      let progress := applyPending boot rest system
      { progress with
        started := entry :: progress.started
        committed := entry :: progress.committed
        applied := entry :: progress.applied }

/-- One boot: the database around it, the entries whose `run` it started, whose
    transaction committed and whose transaction returned, and its outcome. -/
structure BootRecord (ω δ : Type) where
  boot : Boot ω
  before : System δ
  after : System δ
  started : List (DataMigrationEntry ω δ)
  committed : List (DataMigrationEntry ω δ)
  applied : List (DataMigrationEntry ω δ)
  flushed : Bool
  outcome : Except BootError DataMigrationsResult

def idle (boot : Boot ω) (system : System δ) (outcome : Except BootError DataMigrationsResult) :
    BootRecord ω δ :=
  ⟨boot, system, system, [], [], [], false, outcome⟩

/-- The boot refuses on the first failure, after the port has run for the
    entries before it. -/
def applyDataMigrations (boot : Boot ω) (entries : List (DataMigrationEntry ω δ)) (system : System δ) :
    BootRecord ω δ :=
  match boot.read with
  | .tableMissing => idle boot system (.error .tableMissing)
  | .failed => idle boot system (.error .ledgerRead)
  | .rows order _ =>
    match planDataMigrations entries (order system.ledger.rows) with
    | .error error => idle boot system (.error (.registry error))
    | .ok plan =>
      if plan.edited ≠ [] then idle boot system (.error (.revision plan.edited))
      else if plan.pending.isEmpty then idle boot system (.ok ⟨[], plan.unknown, false⟩)
      else
        let progress := applyPending boot plan.pending system
        let invalidated := boot.invalidate == some true
        { boot
          before := system
          after := progress.system
          started := progress.started
          committed := progress.committed
          applied := progress.applied
          flushed := !progress.applied.isEmpty && boot.invalidate.isSome
          outcome := match progress.failed with
            | some name => .error (.entry name)
            | none => .ok ⟨progress.applied.map (·.name), plan.unknown, invalidated⟩ }

inductive Step (ω δ : Type) where
  | boot (boot : Boot ω)
  | serve (change : δ → δ)

def execute (entries : List (DataMigrationEntry ω δ)) : List (Step ω δ) → System δ →
    System δ × List (BootRecord ω δ)
  | [], system => (system, [])
  | .serve change :: rest, system => execute entries rest { system with data := change system.data }
  | .boot boot :: rest, system =>
    let record := applyDataMigrations boot entries system
    let run := execute entries rest record.after
    (run.1, record :: run.2)

/-- The effects of the entries and their rows are in the second database, and
    nothing else happened to it. -/
structure Landed (boot : Boot ω) (entries : List (DataMigrationEntry ω δ)) (before after : System δ)
    : Prop where
  data : entries.foldlM (fun data entry => entry.run (boot.world entry.name) data) before.data
   = some after.data
  rows : after.ledger.rows = before.ledger.rows ++ entries.map rowOf

theorem Landed.nil (boot : Boot ω) (system : System δ) : Landed (ω := ω) boot [] system system :=
 ⟨rfl, (List.append_nil _).symm⟩

theorem Landed.cons {boot : Boot ω} {entry : DataMigrationEntry ω δ}
  {entries : List (DataMigrationEntry ω δ)} {before between after : System δ}
  (h : Landed boot [entry] before between) (h' : Landed boot entries between after) :
  Landed boot (entry :: entries) before after := by
 constructor
 · have hone : entry.run (boot.world entry.name) before.data = some between.data := by
    simpa using h.data
   rw [List.foldlM_cons, hone]
   exact h'.data
 · rw [h'.rows, h.rows, List.append_assoc]
   rfl

/-- How a boot ends beside its plan. It runs nothing where the ledger cannot be read
    or an entry is edited; else it applies every pending entry, in order, or stops at
    the first that throws or whose commit is not acknowledged. -/
inductive Ends (plan : DataMigrationsPlan ω δ) (record : BootRecord ω δ) : Prop where
  | unread (hread : ∀ order perm, record.boot.read ≠ .rows order perm) (started : record.started = [])
    (outcome : record.outcome = .error .tableMissing ∨ record.outcome = .error .ledgerRead)
  | edited (hedited : plan.edited ≠ []) (started : record.started = [])
   (outcome : record.outcome = .error (.revision plan.edited))
  | completed (hedited : plan.edited = []) (started : record.started = plan.pending)
   (committed : record.committed = plan.pending)
    (applied : record.applied = plan.pending)
     (outcome : record.outcome = .ok ⟨plan.pending.map (·.name), plan.unknown,
      !plan.pending.isEmpty && record.boot.invalidate == some true⟩)
  | failed (hedited : plan.edited = []) (entry : DataMigrationEntry ω δ)
   (rest : List (DataMigrationEntry ω δ)) (between : System δ)
    (pending : plan.pending = record.applied ++ entry :: rest)
     (started : record.started = record.applied ++ [entry])
    (landed : Landed record.boot record.applied record.before between)
    (fails : entry.run (record.boot.world entry.name) between.data = none ∨
     record.boot.commit entry.name ≠ .acknowledged)
    (outcome : record.outcome = .error (.entry entry.name))

end Apply

end BoardGamesEmpire.DataMigrations
