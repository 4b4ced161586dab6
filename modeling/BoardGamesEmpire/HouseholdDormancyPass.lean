import BoardGamesEmpire.HouseholdDormancy

set_option autoImplicit false

/-!
# One reconciliation of the household rows

`reconcileHouseholdDormancy` over the table of household rows, with the
statements it issues and the transitions it returns.
-/
namespace BoardGamesEmpire.HouseholdDormancyPass
open JsText Manifest PluginStore HouseholdDormancy

/-- The columns of `household_plugins`, less the two stamps the client writes. -/
structure HouseholdPlugin where
  id : ℕ
  householdId : Text
  pluginId : Text
  enabled : Bool
  suspendedForConsent : Bool
  suspendedAt : Option ℕ
  config : ConfigValue
  dormantReason : Option PluginUnitDormantReason
  dormantAt : Option ℕ
deriving DecidableEq

/-- The table; `id` is its primary key. -/
structure HouseholdPlugins where
  rows : List HouseholdPlugin
  ids : (rows.map (·.id)).Nodup

/-- `findMany` names no order. -/
structure ReadOrder where
  apply : List HouseholdPlugin → List HouseholdPlugin
  perm : ∀ rows, (apply rows).Perm rows

example : ReadOrder := ⟨List.reverse, List.reverse_perm⟩

inductive TransitionKind where
  | dormant | revived
deriving DecidableEq

structure HouseholdDormancyTransition where
  before : HouseholdPlugin
  after : HouseholdPlugin
  reason : PluginUnitDormantReason
  kind : TransitionKind
deriving DecidableEq

/-- The arguments of one `updateMany`. -/
structure UpdateMany where
  ids : List ℕ
  dormantReason : Option PluginUnitDormantReason
  dormantAt : Option ℕ
deriving DecidableEq

def UpdateMany.write (u : UpdateMany) (row : HouseholdPlugin) : HouseholdPlugin :=
  if row.id ∈ u.ids then { row with dormantReason := u.dormantReason, dormantAt := u.dormantAt } else row

theorem UpdateMany.write_id (u : UpdateMany) (row : HouseholdPlugin) :
  (u.write row).id = row.id := by
 unfold UpdateMany.write
 split <;> rfl

def HouseholdPlugins.map (table : HouseholdPlugins) (f : HouseholdPlugin → HouseholdPlugin)
    (hf : ∀ row, (f row).id = row.id) : HouseholdPlugins where
  rows := table.rows.map f
  ids := by
    rw [List.map_map]
    exact (List.map_congr_left fun row _ => hf row) ▸ table.ids

structure Tx where
  table : HouseholdPlugins
  statements : List UpdateMany

def updateMany (u : UpdateMany) : StateM Tx Unit := fun tx =>
  ((), ⟨tx.table.map u.write u.write_id, tx.statements ++ [u]⟩)

def findMany (order : ReadOrder) (pluginId : Text) : StateM Tx (List HouseholdPlugin) := fun tx =>
  (order.apply (tx.table.rows.filter fun row => row.pluginId == pluginId), tx)

def configConforms (host : Host) (manifest : PluginManifest) (row : HouseholdPlugin) : Bool :=
  match row.config with
  | .other _ => false
  | .object fields => host.validateConfig manifest fields != .issues

def dormant (reason : PluginUnitDormantReason) (initiatedAt : ℕ) (row : HouseholdPlugin) :
    HouseholdPlugin :=
  { row with dormantReason := some reason, dormantAt := some initiatedAt }

def revived (row : HouseholdPlugin) : HouseholdPlugin :=
    { row with dormantReason := none, dormantAt := none }

def applyDormancy (rows : List HouseholdPlugin) (reason : PluginUnitDormantReason) (initiatedAt : ℕ) :
    StateM Tx (List HouseholdDormancyTransition) := do
  if rows = [] then return []
  updateMany ⟨rows.map (·.id), some reason, some initiatedAt⟩
  return rows.map fun row => ⟨row, dormant reason initiatedAt row, reason, .dormant⟩

def revive (rows : List HouseholdPlugin) (cleared : PluginUnitDormantReason) :
    StateM Tx (List HouseholdDormancyTransition) := do
  if rows = [] then return []
  updateMany ⟨rows.map (·.id), none, none⟩
  return rows.map fun row => ⟨row, revived row, cleared, .revived⟩

def reconcileHouseholdDormancy (host : Host) (order : ReadOrder) (pluginId : Text)
    (manifest : PluginManifest)
    (initiatedAt : ℕ) : StateM Tx (List HouseholdDormancyTransition) := do
  let rows ← findMany order pluginId
  if rows = [] then return []
  if manifest.scope = .server then
    let stale := rows.filter fun row => row.dormantReason != some .scopeOrphaned
    return ← applyDormancy stale .scopeOrphaned initiatedAt
  let orphaned := rows.filter fun row => row.dormantReason == some .scopeOrphaned
  let serving := rows.filter fun row => row.dormantReason == none
  if orphaned = [] ∧ serving = [] then return []
  let nonConformingOrphaned := orphaned.filter fun row => !configConforms host manifest row
  let condemnedOrphaned := nonConformingOrphaned.map (·.id)
  let revivedOrphaned := orphaned.filter fun row => !condemnedOrphaned.contains row.id
  let newlyNonConforming := serving.filter fun row => !configConforms host manifest row
  let condemned ← applyDormancy (nonConformingOrphaned ++ newlyNonConforming) .needsConfiguration
   initiatedAt
  let lifted ← revive revivedOrphaned .scopeOrphaned
  return condemned ++ lifted

section Runs

variable {host : Host} {order : ReadOrder} {pluginId : Text} {m : PluginManifest} {initiatedAt : ℕ}
  {tx : Tx}

/-- A transaction after one `updateMany`, which an empty set of rows leaves out. -/
def issued (u : UpdateMany) (tx : Tx) : Tx :=
  if u.ids = [] then tx else ⟨tx.table.map u.write u.write_id, tx.statements ++ [u]⟩

theorem issued_rows (u : UpdateMany) (tx : Tx) :
  (issued u tx).table.rows = tx.table.rows.map u.write := by
 unfold issued
 split
 · next hempty =>
   have hwrite : u.write = id := by
    funext row
    rw [UpdateMany.write, hempty]
    simp
   rw [hwrite, List.map_id]
 · rfl

theorem applyDormancy_run (rows : List HouseholdPlugin) (reason : PluginUnitDormantReason) (tx : Tx) :
  applyDormancy rows reason initiatedAt tx =
   (rows.map fun row => ⟨row, dormant reason initiatedAt row, reason, .dormant⟩,
    issued ⟨rows.map (·.id), some reason, some initiatedAt⟩ tx) := by
 cases rows <;> rfl

theorem revive_run (rows : List HouseholdPlugin) (cleared : PluginUnitDormantReason) (tx : Tx) :
  revive rows cleared tx =
   (rows.map fun row => ⟨row, revived row, cleared, .revived⟩,
    issued ⟨rows.map (·.id), none, none⟩ tx) := by
 cases rows <;> rfl

def found (order : ReadOrder) (pluginId : Text) (table : HouseholdPlugins) : List HouseholdPlugin :=
  order.apply (table.rows.filter fun row => row.pluginId == pluginId)

def stale (rows : List HouseholdPlugin) : List HouseholdPlugin :=
  rows.filter fun row => row.dormantReason != some .scopeOrphaned

def failing (host : Host) (m : PluginManifest) (rows : List HouseholdPlugin) : List HouseholdPlugin :=
  ((rows.filter fun row => row.dormantReason == some .scopeOrphaned).filter fun row =>
   !configConforms host m row) ++
    ((rows.filter fun row => row.dormantReason == none).filter fun row => !configConforms host m row)

def reviving (host : Host) (m : PluginManifest) (rows : List HouseholdPlugin) : List HouseholdPlugin :=
  let orphaned := rows.filter fun row => row.dormantReason == some .scopeOrphaned
  orphaned.filter fun row =>
    !((orphaned.filter fun row => !configConforms host m row).map (·.id)).contains row.id

theorem reconcile_server (hscope : m.scope = .server) :
  reconcileHouseholdDormancy host order pluginId m initiatedAt tx =
   applyDormancy (stale (found order pluginId tx.table)) .scopeOrphaned initiatedAt tx := by
 simp only [reconcileHouseholdDormancy, findMany, bind, StateT.bind, pure, hscope, if_true,
  ← found.eq_1, ← stale.eq_1]
 by_cases hrows : found order pluginId tx.table = []
 · rw [if_pos hrows, hrows]
   rfl
 · rw [if_neg hrows]

theorem reconcile_household (hscope : m.scope = .household) :
  reconcileHouseholdDormancy host order pluginId m initiatedAt tx =
   let rows := found order pluginId tx.table
   let condemned := applyDormancy (failing host m rows) .needsConfiguration initiatedAt tx
   let lifted := revive (reviving host m rows) .scopeOrphaned condemned.2
   (condemned.1 ++ lifted.1, lifted.2) := by
 have hnot : ¬ PluginScope.household = .server := by simp
 simp only [reconcileHouseholdDormancy, findMany, bind, StateT.bind, pure, hscope, if_neg hnot,
  ← found.eq_1, ← failing.eq_1, ← reviving.eq_1]
 by_cases hrows : found order pluginId tx.table = []
 · rw [if_pos hrows, hrows]
   rfl
 rw [if_neg hrows]
 split
 · next hboth =>
   rw [failing, reviving, hboth.1, hboth.2]
   rfl
 · rfl

end Runs

section Rows

variable {host : Host} {order : ReadOrder} {pluginId : Text} {m : PluginManifest} {initiatedAt : ℕ}
  {table : HouseholdPlugins} {row : HouseholdPlugin}

def settledReason (host : Host) (m : PluginManifest) (row : HouseholdPlugin) :
    Option PluginUnitDormantReason :=
  reconciledReason host m (row.config, row.dormantReason)

def Moves (host : Host) (pluginId : Text) (m : PluginManifest) (row : HouseholdPlugin) : Prop :=
  row.pluginId = pluginId ∧ settledReason host m row ≠ row.dormantReason

instance : DecidablePred (Moves host pluginId m) := fun _ => inferInstanceAs (Decidable (_ ∧ _))

def reconciledRow (host : Host) (pluginId : Text) (m : PluginManifest) (initiatedAt : ℕ)
    (row : HouseholdPlugin) :
    HouseholdPlugin :=
  if Moves host pluginId m row then
    { row with dormantReason := settledReason host m row
               dormantAt := (settledReason host m row).map fun _ => initiatedAt }
  else row

def transitionOf (host : Host) (pluginId : Text) (m : PluginManifest) (initiatedAt : ℕ)
    (row : HouseholdPlugin) :
    HouseholdDormancyTransition where
  before := row
  after := reconciledRow host pluginId m initiatedAt row
  reason := (settledReason host m row).getD .scopeOrphaned
  kind := if (settledReason host m row).isSome then .dormant else .revived

theorem configConforms_takes (row : HouseholdPlugin) :
  configConforms host m row = takes host m row.config := by
 unfold configConforms takes
 rfl

theorem mem_found :
  row ∈ found order pluginId table ↔ row ∈ table.rows ∧ row.pluginId = pluginId := by
 rw [found, (order.perm _).mem_iff, List.mem_filter, beq_iff_eq]

theorem eq_of_id {other : HouseholdPlugin} (hrow : row ∈ table.rows) (hother : other ∈ table.rows)
  (hid : row.id = other.id) : row = other :=
 List.inj_on_of_nodup_map table.ids hrow hother hid

theorem mem_ids {listed : List HouseholdPlugin} (hlisted : ∀ row ∈ listed, row ∈ table.rows)
  (hrow : row ∈ table.rows) : row.id ∈ listed.map (·.id) ↔ row ∈ listed := by
 constructor
 · intro hid
   obtain ⟨other, hother, heq⟩ := List.mem_map.1 hid
   rwa [eq_of_id hrow (hlisted other hother) heq.symm]
 · exact List.mem_map_of_mem

theorem mem_stale (hscope : m.scope = .server) :
  row ∈ stale (found order pluginId table) ↔ row ∈ table.rows ∧ Moves host pluginId m row := by
 rw [stale, List.mem_filter, mem_found, Moves, settledReason, reconciledReason, if_pos hscope]
 simp [and_assoc, ne_comm]

theorem settledReason_household (hscope : m.scope = .household) (row : HouseholdPlugin) :
  settledReason host m row =
   if row.dormantReason = some .needsConfiguration ∨ takes host m row.config = false then
    some .needsConfiguration
   else none := by
 have hnot : ¬ m.scope = .server := by simp [hscope]
 rw [settledReason, reconciledReason, if_neg hnot]
 by_cases hneeds : row.dormantReason = some .needsConfiguration
 · simp [hneeds]
 · cases htakes : takes host m row.config <;> simp [hneeds]

theorem mem_failing (hscope : m.scope = .household) :
  row ∈ failing host m (found order pluginId table) ↔
   row ∈ table.rows ∧ Moves host pluginId m row ∧ settledReason host m row = some .needsConfiguration := by
 rw [Moves, settledReason_household hscope]
 simp only [failing, List.mem_append, List.mem_filter, mem_found, configConforms_takes]
 rcases row.dormantReason with _ | reason
 · cases takes host m row.config <;> simp
 · cases reason <;> cases takes host m row.config <;> simp

theorem filter_uncondemned {rows : List HouseholdPlugin} (hrows : ∀ row ∈ rows, row ∈ table.rows)
  (p : HouseholdPlugin → Bool) :
  (rows.filter fun row => !((rows.filter fun row => !p row).map (·.id)).contains row.id)
   = rows.filter p := by
 refine List.filter_congr fun row hrow => ?_
 have hids : row.id ∈ (rows.filter fun row => !p row).map (·.id) ↔ row ∈ rows.filter fun row => !p row :=
  mem_ids (fun other hother => hrows other (List.mem_filter.1 hother).1) (hrows row hrow)
 rw [Bool.eq_iff_iff, Bool.not_eq_true', ← Bool.not_eq_true, List.contains_iff_mem, hids, List.mem_filter]
 simp [hrow]

theorem mem_reviving (hscope : m.scope = .household) :
  row ∈ reviving host m (found order pluginId table) ↔
   row ∈ table.rows ∧ Moves host pluginId m row ∧ settledReason host m row = none := by
 have hin : ∀ row ∈ (found order pluginId table).filter fun row =>
  row.dormantReason == some .scopeOrphaned,
   row ∈ table.rows := fun row hrow => (mem_found.1 (List.mem_filter.1 hrow).1).1
 rw [reviving, filter_uncondemned hin, Moves, settledReason_household hscope]
 simp only [List.mem_filter, mem_found, configConforms_takes]
 rcases row.dormantReason with _ | reason
 · cases takes host m row.config <;> simp
 · cases reason <;> cases takes host m row.config <;> simp

end Rows

section Pass

variable {host : Host} {order : ReadOrder} {pluginId : Text} {m : PluginManifest} {initiatedAt : ℕ}
  {tx : Tx}

theorem nodup_rows (table : HouseholdPlugins) : table.rows.Nodup := List.Nodup.of_map _ table.ids

theorem nodup_found (table : HouseholdPlugins) : (found order pluginId table).Nodup :=
 (order.perm _).nodup_iff.2 ((nodup_rows table).filter _)

theorem nodup_failing {rows : List HouseholdPlugin} (h : rows.Nodup) :
  (failing host m rows).Nodup := by
 refine ((h.filter _).filter _).append ((h.filter _).filter _) fun row hleft hright => ?_
 have horphaned := (List.mem_filter.1 (List.mem_filter.1 hleft).1).2
 have hserving := (List.mem_filter.1 (List.mem_filter.1 hright).1).2
 rw [beq_iff_eq.1 hserving] at horphaned
 simp at horphaned

theorem perm_moves {table : HouseholdPlugins} {rows : List HouseholdPlugin} (hnodup : rows.Nodup)
  (h : ∀ row, row ∈ rows ↔ row ∈ table.rows ∧ Moves host pluginId m row) :
  rows.Perm (table.rows.filter fun row => Moves host pluginId m row) := by
 refine (List.perm_ext_iff_of_nodup hnodup ((nodup_rows table).filter _)).2 fun row => ?_
 rw [h, List.mem_filter, decide_eq_true_eq]

theorem write_listed {table : HouseholdPlugins} {listed : List HouseholdPlugin}
  {row : HouseholdPlugin} (hlisted : ∀ row ∈ listed, row ∈ table.rows) (hrow : row ∈ table.rows)
  (reason : Option PluginUnitDormantReason) (at' : Option ℕ) (column : HouseholdPlugin)
  (hid : column.id = row.id) :
  UpdateMany.write ⟨listed.map (·.id), reason, at'⟩ column =
   if row ∈ listed then { column with dormantReason := reason, dormantAt := at' } else column := by
 rw [UpdateMany.write, hid]
 exact if_congr (mem_ids hlisted hrow) rfl rfl

theorem server_pass (hscope : m.scope = .server) :
  let rows := stale (found order pluginId tx.table)
  let run := reconcileHouseholdDormancy host order pluginId m initiatedAt tx
  run.2.table.rows = tx.table.rows.map (reconciledRow host pluginId m initiatedAt) ∧
   run.1 = rows.map (transitionOf host pluginId m initiatedAt) ∧ (rows = [] → run.2 = tx) := by
 intro rows run
 have hrun : run = applyDormancy rows .scopeOrphaned initiatedAt tx := reconcile_server hscope
 have hsettled : ∀ row, settledReason host m row = some .scopeOrphaned := fun row => if_pos hscope
 have hmem : ∀ row, row ∈ rows ↔ row ∈ tx.table.rows ∧ Moves host pluginId m row :=
  fun row => mem_stale hscope
 rw [hrun, applyDormancy_run]
 refine ⟨?_, ?_, fun hnone => by simp [issued, hnone]⟩
 · rw [issued_rows]
   refine List.map_congr_left fun row hrow => ?_
   rw [write_listed (fun other h => ((hmem other).1 h).1) hrow _ _ row rfl, reconciledRow]
   refine if_congr (by simp [hmem, hrow]) ?_ rfl
   rw [hsettled]
   rfl
 · refine List.map_congr_left fun row hrow => ?_
   rw [transitionOf, reconciledRow, if_pos ((hmem row).1 hrow).2, hsettled]
   rfl

theorem household_pass (hscope : m.scope = .household) :
  let rows := found order pluginId tx.table
  let run := reconcileHouseholdDormancy host order pluginId m initiatedAt tx
  run.2.table.rows = tx.table.rows.map (reconciledRow host pluginId m initiatedAt) ∧
   run.1 = (failing host m rows ++ reviving host m rows).map (transitionOf host pluginId m initiatedAt) ∧
   (failing host m rows ++ reviving host m rows = [] → run.2 = tx) := by
 intro rows run
 have hrun : run = _ := reconcile_household hscope
 have hfailing : ∀ row, row ∈ failing host m rows ↔ row ∈ tx.table.rows ∧ Moves host pluginId m row ∧
  settledReason host m row = some .needsConfiguration := fun row => mem_failing hscope
 have hreviving : ∀ row, row ∈ reviving host m rows ↔ row ∈ tx.table.rows ∧ Moves host pluginId m row ∧
  settledReason host m row = none := fun row => mem_reviving hscope
 rw [hrun]
 simp only [applyDormancy_run, revive_run]
 refine ⟨?_, ?_, fun hnone => ?_⟩
 · rw [issued_rows, issued_rows, List.map_map]
   refine List.map_congr_left fun row hrow => ?_
   -- The ids of the second statement were read before the first one.
   rw [Function.comp_apply, write_listed (fun other h => ((hreviving other).1 h).1) hrow _ _ _
    (UpdateMany.write_id _ _), write_listed (fun other h => ((hfailing other).1 h).1) hrow _ _ row rfl,
    reconciledRow]
   simp only [hfailing, hreviving, hrow, true_and]
   rw [settledReason_household hscope]
   split_ifs <;> simp_all
 · rw [List.map_append]
   congr 1
   · refine List.map_congr_left fun row hrow => ?_
     obtain ⟨-, hmoves, hsettled⟩ := (hfailing row).1 hrow
     rw [transitionOf, reconciledRow, if_pos hmoves, hsettled]
     rfl
   · refine List.map_congr_left fun row hrow => ?_
     obtain ⟨-, hmoves, hsettled⟩ := (hreviving row).1 hrow
     rw [transitionOf, reconciledRow, if_pos hmoves, hsettled]
     rfl
 · obtain ⟨hnofailing, hnoreviving⟩ := List.append_eq_nil_iff.1 hnone
   simp only [issued, List.map_eq_nil_iff]
   rw [if_pos hnoreviving, if_pos hnofailing]

theorem reconcile_pass (host : Host) (order : ReadOrder) (pluginId : Text) (m : PluginManifest)
  (initiatedAt : ℕ) (tx : Tx) : ∃ rows : List HouseholdPlugin,
  rows.Perm (tx.table.rows.filter fun row => Moves host pluginId m row) ∧
   (reconcileHouseholdDormancy host order pluginId m initiatedAt tx).2.table.rows =
    tx.table.rows.map (reconciledRow host pluginId m initiatedAt) ∧
   (reconcileHouseholdDormancy host order pluginId m initiatedAt tx).1 =
    rows.map (transitionOf host pluginId m initiatedAt) ∧
   (rows = [] → (reconcileHouseholdDormancy host order pluginId m initiatedAt tx).2 = tx) := by
 cases hscope : m.scope with
 | server =>
  refine ⟨stale (found order pluginId tx.table), perm_moves ((nodup_found _).filter _) fun row => ?_,
   server_pass hscope⟩
  exact mem_stale hscope
 | household =>
  refine ⟨failing host m (found order pluginId tx.table) ++ reviving host m
   (found order pluginId tx.table),
   perm_moves ?_ fun row => ?_, household_pass hscope⟩
  · refine (nodup_failing (nodup_found _)).append (((nodup_found _).filter _).filter _)
     fun row hleft hright => ?_
    have hcondemned := ((mem_failing hscope).1 hleft).2.2
    rw [((mem_reviving hscope).1 hright).2.2] at hcondemned
    cases hcondemned
  · rw [List.mem_append, mem_failing hscope, mem_reviving hscope, ← and_or_left, ← and_or_left]
    have hreason : settledReason host m row = some .needsConfiguration ∨
     settledReason host m row = none := by
     rw [settledReason_household hscope]
     split_ifs
     · exact .inl rfl
     · exact .inr rfl
    tauto

theorem reconciledReason_idem (config : ConfigValue) (reason : Option PluginUnitDormantReason) :
  reconciledReason host m (config, reconciledReason host m (config, reason)) =
   reconciledReason host m (config, reason) := by
 cases hscope : m.scope with
 | server => simp [reconciledReason, hscope]
 | household =>
  by_cases hneeds : reason = some .needsConfiguration
  · simp [reconciledReason, hscope, hneeds]
  · cases htakes : takes host m config <;> simp [reconciledReason, hscope, hneeds, htakes]

theorem reconciledRow_settled (row : HouseholdPlugin) :
  ¬ Moves host pluginId m (reconciledRow host pluginId m initiatedAt row) := by
 unfold reconciledRow
 split
 · rintro ⟨-, hreason⟩
   exact hreason (reconciledReason_idem row.config row.dormantReason)
 · next hstays => exact hstays

theorem reconciledRow_reason (row : HouseholdPlugin) (hplugin : row.pluginId = pluginId) :
  (reconciledRow host pluginId m initiatedAt row).dormantReason = settledReason host m row := by
 unfold reconciledRow
 split
 · rfl
 · next hstays =>
   by_contra hne
   exact hstays ⟨hplugin, fun h => hne h.symm⟩

theorem moves_iff (initiatedAt : ℕ) (row : HouseholdPlugin) : Moves host pluginId m row ↔
  row.dormantReason ≠ (reconciledRow host pluginId m initiatedAt row).dormantReason := by
 unfold reconciledRow
 constructor
 · intro hmoves
   rw [if_pos hmoves]
   exact hmoves.2.symm
 · intro hne
   by_contra hstays
   exact hne (by rw [if_neg hstays])

structure RowSettled (host : Host) (pluginId : Text) (m : PluginManifest)
    (before after : HouseholdPlugin) : Prop where
  kept : after = { before with dormantReason := after.dormantReason, dormantAt := after.dormantAt }
  still : after.dormantReason = before.dormantReason → after = before
  foreign : before.pluginId ≠ pluginId → after = before
  orphans : before.pluginId = pluginId → m.scope = .server → after.dormantReason = some .scopeOrphaned
  surfaced : before.pluginId = pluginId → m.scope = .household → after.dormantReason ≠ some .scopeOrphaned
  serves : before.pluginId = pluginId → m.scope = .household → after.dormantReason = none →
    ∃ fields, after.config = .object fields ∧
      (host.validateConfig m fields = .conforms ∨ host.validateConfig m fields = .throws)
  needy : before.pluginId = pluginId → m.scope = .household →
    before.dormantReason = some .needsConfiguration → after.dormantReason = some .needsConfiguration

def Truthful (t : HouseholdDormancyTransition) : Prop :=
  (t.kind = .dormant ∧ t.after.dormantReason = some t.reason) ∨
    (t.kind = .revived ∧ t.before.dormantReason = some t.reason ∧ t.after.dormantReason = none)

theorem rowSettled (row : HouseholdPlugin) :
  RowSettled host pluginId m row (reconciledRow host pluginId m initiatedAt row) := by
 have hcolumns : reconciledRow host pluginId m initiatedAt row = { row with
   dormantReason := (reconciledRow host pluginId m initiatedAt row).dormantReason
   dormantAt := (reconciledRow host pluginId m initiatedAt row).dormantAt } := by
  unfold reconciledRow
  split <;> rfl
 refine ⟨hcolumns, fun hsame => ?_, fun hforeign => if_neg fun hmoves => hforeign hmoves.1,
  fun hplugin hscope => ?_, fun hplugin hscope => ?_, fun hplugin hscope hserves => ?_,
  fun hplugin hscope hneeds => ?_⟩
 · exact if_neg fun hmoves => (moves_iff initiatedAt row).1 hmoves hsame.symm
 · rw [reconciledRow_reason row hplugin]
   exact if_pos hscope
 · rw [reconciledRow_reason row hplugin, settledReason_household hscope]
   split_ifs <;> simp
 · rw [reconciledRow_reason row hplugin, settledReason_household hscope] at hserves
   have htakes : takes host m row.config = true := by
    by_contra hnot
    rw [if_pos (.inr (by simpa using hnot))] at hserves
    cases hserves
   rw [hcolumns]
   dsimp only
   cases hconfig : row.config with
   | other json => simp [hconfig, takes] at htakes
   | object fields =>
    refine ⟨fields, rfl, ?_⟩
    rw [hconfig, takes, bne_iff_ne] at htakes
    cases hverdict : host.validateConfig m fields with
    | conforms => exact .inl rfl
    | issues => exact absurd hverdict htakes
    | throws => exact .inr rfl
 · rw [reconciledRow_reason row hplugin, settledReason_household hscope, if_pos (.inl hneeds)]

theorem truthful_transitionOf (row : HouseholdPlugin) (hmoves : Moves host pluginId m row) :
  Truthful (transitionOf host pluginId m initiatedAt row) := by
 have hreason : (reconciledRow host pluginId m initiatedAt row).dormantReason = settledReason host m row :=
  reconciledRow_reason row hmoves.1
 cases hsettled : settledReason host m row with
 | some reason =>
  left
  rw [hsettled] at hreason
  exact ⟨by simp [transitionOf, hsettled], by simp [transitionOf, hsettled, hreason]⟩
 | none =>
  right
  rw [hsettled] at hreason
  have hscope : m.scope = .household := by
   cases hscope : m.scope with
   | household => rfl
   | server => simp [settledReason, reconciledReason, hscope] at hsettled
  have hbefore : row.dormantReason = some .scopeOrphaned := by
   have hne := hmoves.2
   rw [hsettled] at hne
   rw [settledReason_household hscope] at hsettled
   rcases hrow : row.dormantReason with _ | reason
   · exact absurd hrow.symm hne
   · cases reason
     · rfl
     · simp [hrow] at hsettled
  refine ⟨by simp [transitionOf, hsettled], ?_, hreason⟩
  simp [transitionOf, hsettled, hbefore]

/-- The pass is exact: it settles every row, returns each row that it moved
    once, and finds nothing to move when it is run again. -/
theorem reconcile_exact (host : Host) (order again : ReadOrder) (pluginId : Text)
    (m : PluginManifest) (initiatedAt later : ℕ) (tx : Tx) :
    let run := reconcileHouseholdDormancy host order pluginId m initiatedAt tx
    reconcileHouseholdDormancy host again pluginId m later run.2 = ([], run.2) ∧
      List.Forall₂ (RowSettled host pluginId m) tx.table.rows run.2.table.rows ∧
      (run.1.map fun t => (t.before, t.after)).Perm
        ((tx.table.rows.zip run.2.table.rows).filter fun p => p.1.dormantReason != p.2.dormantReason) ∧
      ∀ t ∈ run.1, Truthful t := by
 intro run
 obtain ⟨moved, hmoved, hrows, htransitions, -⟩ := reconcile_pass host order pluginId m initiatedAt tx
 have hrows' : run.2.table.rows = tx.table.rows.map (reconciledRow host pluginId m initiatedAt) := hrows
 have htransitions' : run.1 = moved.map (transitionOf host pluginId m initiatedAt) := htransitions
 refine ⟨?_, ?_, ?_, ?_⟩
 · obtain ⟨rest, hrest, -, hreturned, hkept⟩ := reconcile_pass host again pluginId m later run.2
   have hnone : rest = [] := by
    refine List.Perm.eq_nil (hrest.trans (List.Perm.of_eq ?_))
    rw [hrows', List.filter_eq_nil_iff]
    intro row hrow
    obtain ⟨before, -, rfl⟩ := List.mem_map.1 hrow
    simpa using reconciledRow_settled before
   rw [hnone, List.map_nil] at hreturned
   exact Prod.ext hreturned (hkept hnone)
 · rw [hrows', List.forall₂_map_right_iff, List.forall₂_same]
   exact fun row _ => rowSettled row
 · rw [hrows', htransitions', List.map_map, ← List.map_prod_left_eq_zip, List.filter_map]
   refine (hmoved.map _).trans (List.Perm.of_eq ?_)
   congr 1
   refine List.filter_congr fun row _ => ?_
   rw [Bool.eq_iff_iff, decide_eq_true_eq, moves_iff initiatedAt]
   simp
 · rw [htransitions']
   intro t ht
   obtain ⟨row, hrow, rfl⟩ := List.mem_map.1 ht
   have hmoves := List.mem_filter.1 (hmoved.mem_iff.1 hrow)
   exact truthful_transitionOf row (by simpa using hmoves.2)

end Pass

end BoardGamesEmpire.HouseholdDormancyPass
