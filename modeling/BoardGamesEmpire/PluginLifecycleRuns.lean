import BoardGamesEmpire.PluginLifecycle

set_option autoImplicit false

/-!
# The registry and the row in step

Commits move the row in one order and their answers reach the registry in
another. Where the answers of the flips arrive in the order the flips
committed, the registry serves what the row says whenever no call is in flight.
What does not depend on that order holds of every run.
-/
namespace BoardGamesEmpire.PluginLifecycle
open JsText PluginStore PhasedCalls

variable {Instance : Type} {slug : Text}

section Registry

theorem entry_setEnabled {registry registry' : Registry Instance} {enabled : Bool}
  (h : registry.setEnabled slug enabled = .ok registry') :
  registry'.entry slug = (registry.entry slug).map fun entry => { entry with enabled } := by
 unfold Registry.setEnabled at h
 cases hentry : registry.entry slug with
 | none =>
  rw [hentry] at h
  cases h
 | some entry =>
  rw [hentry] at h
  cases h
  exact AList.lookup_insert _

theorem entry_unregister {registry registry' : Registry Instance}
  (h : registry.unregister slug = .ok registry') :
  registry'.entry slug = none := by
 unfold Registry.unregister at h
 split at h
 · cases h
   exact AList.lookup_erase _ _
 · cases h

def servedEntry : Operation → Option (RegistryEntry Instance) → Option (RegistryEntry Instance)
  | .setEnabled enabled, entry => entry.map fun entry => { entry with enabled }
  | .uninstall _, _ => none

theorem entry_serve {registry registry' : Registry Instance} {operation : Operation}
  (h : serve slug operation registry = .ok registry') :
  registry'.entry slug = servedEntry operation (registry.entry slug) := by
 unfold serve at h
 split at h
 · cases operation with
   | setEnabled enabled => exact entry_setEnabled h
   | uninstall purgeData => exact entry_unregister h
 · rename_i hnone
   cases h
   rw [Registry.has, Option.not_isSome_iff_eq_none] at hnone
   rw [hnone]
   cases operation with
   | setEnabled enabled => rfl
   | uninstall purgeData => rfl

theorem serve_ok (operation : Operation) (registry : Registry Instance) :
  ∃ registry', serve slug operation registry = .ok registry' := by
 unfold serve
 by_cases hhas : registry.has slug = true
 · rw [if_pos hhas]
   cases operation with
   | setEnabled enabled =>
    obtain ⟨entry, hentry⟩ := Option.isSome_iff_exists.1 hhas
    simp only [Registry.setEnabled, hentry]
    exact ⟨_, rfl⟩
   | uninstall purgeData =>
    simp only [Registry.unregister, if_pos hhas]
    exact ⟨_, rfl⟩
 · rw [if_neg hhas]
   exact ⟨registry, rfl⟩

end Registry

section Moves

/-- A call whose transaction committed as the `position`-th and whose answer is
    still under way. -/
def Committed (call : Call) (position : ℕ) : Prop :=
  ∃ plugin updated affectedUnits, call.phase = .committed position plugin updated affectedUnits

inductive RowMove (row : Option Plugin) : Change → Plugin → Prop where
  | flipped (enabled : Bool) (current updated : Plugin) (hrow : row = some current)
      (hliving : current.uninstalledAt = none) (hcurrent : current.enabled = !enabled)
      (henabled : updated.enabled = enabled) (hkept : updated.uninstalledAt = none) :
      RowMove row (.flipped enabled) updated
  | tombstoned (current updated : Plugin) (hrow : row = some current) (hliving : current.uninstalledAt = none)
      (henabled : updated.enabled = false) (hgone : updated.uninstalledAt.isSome = true) :
      RowMove row .tombstoned updated

theorem claimFlip_move {enabled coldEnable : Bool} {row : Option Plugin} {updated : Plugin}
  (h : claimFlip enabled coldEnable row = some updated) :
  RowMove row (.flipped enabled) updated := by
 obtain ⟨current, hcurrent, rfl⟩ := Option.map_eq_some_iff.1 h
 obtain ⟨hrow, hguard⟩ := Option.filter_eq_some_iff.1 hcurrent
 obtain ⟨henabled, hliving⟩ := (Bool.and_eq_true _ _).mp hguard
 have hnone := Option.isNone_iff_eq_none.1 hliving
 exact .flipped enabled current _ hrow hnone (eq_of_beq henabled) rfl hnone

theorem claimTombstone_move {initiatedAt : ℕ} {row : Option Plugin} {updated : Plugin}
  (h : claimTombstone initiatedAt row = some updated) : RowMove row .tombstoned updated := by
 obtain ⟨current, hcurrent, rfl⟩ := Option.map_eq_some_iff.1 h
 obtain ⟨hrow, hliving⟩ := Option.filter_eq_some_iff.1 hcurrent
 exact .tombstoned current _ hrow (Option.isNone_iff_eq_none.1 hliving) rfl rfl

inductive Moved (slug : Text) (call : Call) (s : State Instance) : Call → State Instance → Prop where
  | quiet (phase : Phase) (hbefore : ∀ position, ¬ Committed call position)
      (hafter : ∀ position, ¬ Committed { call with phase } position) :
       Moved slug call s { call with phase } s
  | commit (plugin updated : Plugin) (affectedUnits : List UnitRef)
      (hbefore : ∀ position, ¬ Committed call position)
      (hrow : RowMove s.row call.request.operation.change updated) :
      Moved slug call s { call with phase := .committed s.changes.length plugin updated affectedUnits }
        { s with row := some updated, changes := s.changes ++ [call.request.operation.change] }
  | arrival (position : ℕ) (plugin updated : Plugin) (affectedUnits : List UnitRef) (registry : Registry Instance)
      (hcommitted : call.phase = .committed position plugin updated affectedUnits)
      (hserve : serve slug call.request.operation s.registry = .ok registry) :
      Moved slug call s { call with phase := .settled (.ok updated) }
        { s with
          registry
          arrived := s.arrived ++ [position]
          events := s.events ++ [emitted call.request plugin updated affectedUnits] }

theorem not_committed {call : Call} (h : ∀ position plugin updated units,
  call.phase ≠ .committed position plugin updated units) (position : ℕ) : ¬ Committed call position := by
 intro hcommitted
 obtain ⟨plugin, updated, units, hphase⟩ := hcommitted
 exact h _ _ _ _ hphase

theorem moved_settle {call : Call} {s : State Instance} (result : Except LifecycleError Plugin)
  (hbefore : ∀ position plugin updated units, call.phase ≠ .committed position plugin updated units) :
  Moved slug call s (settle call result) s :=
 .quiet _ (not_committed hbefore) (not_committed fun _ _ _ _ h => by cases h)

theorem moved_transact {call : Call} {s : State Instance} {plugin : Plugin} {coldEnable : Bool}
  {affectedUnits : List UnitRef}
  (hbefore : ∀ position plugin updated units, call.phase ≠ .committed position plugin updated units) :
  Moved slug call s (transact call plugin coldEnable affectedUnits s).1
   (transact call plugin coldEnable affectedUnits s).2 := by
 obtain ⟨⟨actorId, operation, initiatedAt⟩, phase⟩ := call
 cases operation with
 | setEnabled enabled =>
  cases hclaim : claimFlip enabled coldEnable s.row with
  | none =>
   simp only [transact, hclaim]
   exact .quiet _ (not_committed hbefore) (not_committed fun _ _ _ _ h => by cases h)
  | some updated =>
   simp only [transact, hclaim]
   exact .commit plugin updated affectedUnits (not_committed hbefore) (claimFlip_move hclaim)
 | uninstall purgeData =>
  cases hclaim : claimTombstone initiatedAt s.row with
  | none =>
   simp only [transact, hclaim]
   exact moved_settle _ hbefore
  | some updated =>
   simp only [transact, hclaim]
   exact .commit plugin updated affectedUnits (not_committed hbefore) (claimTombstone_move hclaim)

theorem moved_afterLoad {call : Call} {s : State Instance}
  (hbefore : ∀ position plugin updated units, call.phase ≠ .committed position plugin updated units) :
  Moved slug call s (afterLoad slug call s) s := by
 unfold afterLoad
 split
 · exact moved_settle _ hbefore
 · split
   · split
     · exact moved_settle _ hbefore
     · exact .quiet _ (not_committed hbefore) (not_committed fun _ _ _ _ h => by cases h)
   · exact .quiet _ (not_committed hbefore) (not_committed fun _ _ _ _ h => by cases h)

theorem moved_of_move {answer : Answer} {call : Call} {s : State Instance}
  {moved : Call × State Instance} (h : move slug answer call s = some moved) :
  Moved slug call s moved.1 moved.2 := by
 unfold move at h
 cases hphase : call.phase with
 | begun =>
  have hbefore :
   ∀ position plugin updated units, call.phase ≠ .committed position plugin updated units := by
   simp [hphase]
  simp only [hphase] at h
  split at h
  · cases h
    exact moved_settle _ hbefore
  · split at h
    · cases h
      exact .quiet _ (not_committed hbefore) (not_committed fun _ _ _ _ h => by cases h)
    · cases h
      exact moved_settle _ hbefore
 | authorized =>
  have hbefore :
   ∀ position plugin updated units, call.phase ≠ .committed position plugin updated units := by
   simp [hphase]
  simp only [hphase] at h
  split at h
  · cases h
    exact moved_settle _ hbefore
  · cases h
    exact moved_afterLoad hbefore
 | loaded plugin coldEnable =>
  have hbefore :
   ∀ position plugin updated units, call.phase ≠ .committed position plugin updated units := by
   simp [hphase]
  simp only [hphase] at h
  split at h
  · cases h
    exact moved_settle _ hbefore
  · cases h
    exact moved_transact hbefore
 | committed position plugin updated affectedUnits =>
  simp only [hphase] at h
  cases h
  obtain ⟨registry, hserve⟩ : ∃ registry, serve slug call.request.operation s.registry = .ok registry :=
   serve_ok call.request.operation s.registry
  simp only [arrive, hserve]
  exact .arrival position plugin updated affectedUnits registry hphase hserve
 | lost =>
  have hbefore :
   ∀ position plugin updated units, call.phase ≠ .committed position plugin updated units := by
   simp [hphase]
  simp only [hphase] at h
  split at h
  · cases h
    exact moved_settle _ hbefore
  · cases h
    exact moved_settle _ hbefore
 | settled result =>
  simp only [hphase] at h
  cases h

end Moves

section Tracking

def lastFlip (initial : Bool) (changes : List Change) : Bool :=
  changes.foldl (fun last change => match change with
    | .flipped enabled => enabled
    | .tombstoned => last) initial

theorem lastFlip_concat (initial : Bool) (changes : List Change) (change : Change) :
  lastFlip initial (changes ++ [change]) =
   match change with
   | .flipped enabled => enabled
   | .tombstoned => lastFlip initial changes := by
 rw [lastFlip, List.foldl_append]
 rfl

def arrivedChanges (s : State Instance) : List Change :=
    s.arrived.filterMap fun position => s.changes[position]?

theorem emitted_change (request : Request) (plugin updated : Plugin) (affectedUnits : List UnitRef) :
  (emitted request plugin updated affectedUnits).change = request.operation.change := by
 unfold emitted
 cases request.operation with
 | setEnabled enabled => cases enabled <;> rfl
 | uninstall purgeData => rfl

structure Tracked (initial : Bool) (slug : Text) (s : Sys (State Instance) Call) : Prop where
  row : ∃ row, s.shared.row = some row ∧
   (row.uninstalledAt.isSome = true ↔ Change.tombstoned ∈ s.shared.changes) ∧
    row.enabled = (row.uninstalledAt.isNone && lastFlip initial s.shared.changes)
  gone : s.shared.registry.entry slug = none ↔ Change.tombstoned ∈ arrivedChanges s.shared
  flag : ∀ entry, s.shared.registry.entry slug = some entry →
    entry.enabled = lastFlip initial (arrivedChanges s.shared)
  bounded : ∀ position ∈ s.shared.arrived, position < s.shared.changes.length
  once : s.shared.arrived.Nodup
  awaiting : ∀ (i : ℕ) call position, s.calls[i]? = some call → Committed call position →
    s.shared.changes[position]? = some call.request.operation.change ∧ position ∉ s.shared.arrived
  apart : ∀ (i j : ℕ) call other position, s.calls[i]? = some call → s.calls[j]? = some other →
    Committed call position → Committed other position → i = j
  accounted : ∀ position < s.shared.changes.length,
    position ∈ s.shared.arrived ∨ ∃ (i : ℕ) (call : Call), s.calls[i]? = some call ∧
     Committed call position
  events : s.shared.events.map LifecycleEvent.change = arrivedChanges s.shared

structure Loaded (initial : Bool) (slug : Text) (s : State Instance) : Prop where
  row : ∃ row, s.row = some row ∧ row.uninstalledAt = none ∧ row.enabled = initial
  entry : ∃ entry, s.registry.entry slug = some entry ∧ entry.enabled = initial
  quiet : s.changes = [] ∧ s.arrived = [] ∧ s.events = []

variable {initial : Bool} {s : Sys (State Instance) Call}

theorem Loaded.tracked {shared : State Instance} (h : Loaded initial slug shared) :
  Tracked initial slug (⟨shared, []⟩ : Sys (State Instance) Call) := by
 obtain ⟨hchanges, harrived, hevents⟩ := h.quiet
 obtain ⟨row, hrow, hliving, henabled⟩ := h.row
 obtain ⟨entry, hentry, hflag⟩ := h.entry
 have hnone : arrivedChanges shared = [] := by rw [arrivedChanges, harrived, List.filterMap_nil]
 refine ⟨⟨row, hrow, ?_, ?_⟩, ?_, ?_, ?_, ?_, ?_, ?_, ?_, ?_⟩
 · rw [hliving, hchanges]
   exact iff_of_false Bool.false_ne_true List.not_mem_nil
 · rw [hliving, hchanges, henabled]
   rfl
 · rw [hnone, hentry]
   exact iff_of_false (by simp) List.not_mem_nil
 · intro other hother
   rw [hnone, ← Option.some.inj (hentry.symm.trans hother), hflag]
   rfl
 · simp [harrived]
 · simp [harrived]
 · intro i call position hcall
   cases hcall
 · intro i j call other position hcall
   cases hcall
 · simp [hchanges]
 · rw [hnone, hevents, List.map_nil]

theorem Tracked.begun (h : Tracked initial slug s) (request : Request) :
  Tracked initial slug ⟨s.shared, s.calls ++ [begin request s.shared]⟩ := by
 have hold : ∀ (i : ℕ) call position, (s.calls ++ [begin request s.shared])[i]? = some call →
   Committed call position → s.calls[i]? = some call := by
  intro i call position hcall hcommitted
  rcases getElem?_concat_cases hcall with hcall | ⟨-, rfl⟩
  · exact hcall
  · exact absurd hcommitted (not_committed (fun _ _ _ _ hphase => by cases hphase) position)
 refine ⟨h.row, h.gone, h.flag, h.bounded, h.once, fun i call position hcall hcommitted => ?_,
  fun i j call other position hcall hother hcommitted hcommitted' => ?_, fun position hlt => ?_, h.events⟩
 · exact h.awaiting i call position (hold i call position hcall hcommitted) hcommitted
 · exact h.apart i j call other position (hold i call position hcall hcommitted)
    (hold j other position hother hcommitted') hcommitted hcommitted'
 · refine (h.accounted position hlt).imp_right fun hcall => ?_
   obtain ⟨i, call, hcall, hcommitted⟩ := hcall
   have hi := (List.getElem?_eq_some_iff.1 hcall).1
   exact ⟨i, call, (List.getElem?_append_left hi).trans hcall, hcommitted⟩

section Step

variable {i : ℕ} {call : Call}

theorem Tracked.quiet (h : Tracked initial slug s) (hcall : s.calls[i]? = some call) {phase : Phase}
  (hbefore : ∀ position, ¬ Committed call position)
  (hafter : ∀ position, ¬ Committed { call with phase } position) :
  Tracked initial slug ⟨s.shared, s.calls.set i { call with phase }⟩ := by
 have hold : ∀ (j : ℕ) other position, (s.calls.set i { call with phase })[j]? = some other →
   Committed other position → s.calls[j]? = some other := by
  intro j other position hother hcommitted
  rcases getElem?_set_cases hother with ⟨-, rfl⟩ | ⟨-, hother⟩
  · exact absurd hcommitted (hafter position)
  · exact hother
 refine ⟨h.row, h.gone, h.flag, h.bounded, h.once, fun j other position hother hcommitted => ?_,
  fun j k other third position hother hthird hcommitted hcommitted' => ?_, fun position hlt => ?_,
   h.events⟩
 · exact h.awaiting j other position (hold j other position hother hcommitted) hcommitted
 · exact h.apart j k other third position (hold j other position hother hcommitted)
    (hold k third position hthird hcommitted') hcommitted hcommitted'
 · refine (h.accounted position hlt).imp_right fun hother => ?_
   obtain ⟨j, other, hother, hcommitted⟩ := hother
   have hne : i ≠ j := by
    rintro rfl
    obtain rfl : call = other := Option.some.inj (hcall.symm.trans hother)
    exact hbefore position hcommitted
   exact ⟨j, other, (List.getElem?_set_ne hne).trans hother, hcommitted⟩

theorem arrivedChanges_commit (h : Tracked initial slug s) (row : Option Plugin) (change : Change) :
  arrivedChanges { s.shared with row, changes := s.shared.changes ++ [change] } = arrivedChanges
   s.shared := by
 apply List.filterMap_congr
 intro position hmem
 exact List.getElem?_append_left (h.bounded position hmem)

theorem Tracked.commit (h : Tracked initial slug s) (hcall : s.calls[i]? = some call)
  {plugin updated : Plugin} {affectedUnits : List UnitRef}
  (hbefore : ∀ position, ¬ Committed call position)
  (hrow : RowMove s.shared.row call.request.operation.change updated) :
  Tracked initial slug ⟨{ s.shared with
    row := some updated, changes := s.shared.changes ++ [call.request.operation.change] },
   s.calls.set i
    { call with phase := .committed s.shared.changes.length plugin updated affectedUnits }⟩ := by
 have hi : i < s.calls.length := (List.getElem?_eq_some_iff.1 hcall).1
 have harrived := arrivedChanges_commit h (some updated) call.request.operation.change
 have hold : ∀ (j : ℕ) other position,
   (s.calls.set i
    { call with phase := .committed s.shared.changes.length plugin updated affectedUnits })[j]? =
    some other → Committed other position →
   (j = i ∧ position = s.shared.changes.length ∧ other.request = call.request) ∨
    (j ≠ i ∧ s.calls[j]? = some other ∧ position < s.shared.changes.length) := by
  intro j other position hother hcommitted
  rcases getElem?_set_cases hother with ⟨rfl, rfl⟩ | ⟨hne, hother⟩
  · obtain ⟨_, _, _, hphase⟩ := hcommitted
    cases hphase
    exact .inl ⟨rfl, rfl, rfl⟩
  · have hat := (h.awaiting j other position hother hcommitted).1
    exact .inr ⟨hne, hother, (List.getElem?_eq_some_iff.1 hat).1⟩
 refine ⟨?_, ?_, ?_, fun position hmem => ?_, h.once, ?_, ?_, ?_, h.events.trans harrived.symm⟩
 · obtain ⟨row, hfound, htombstoned, henabled⟩ := h.row
   refine ⟨updated, rfl, ?_, ?_⟩
   · generalize call.request.operation.change = change at hrow ⊢
     cases hrow with
     | flipped enabled current _ hcurrent hliving _ _ hkept =>
      obtain rfl : row = current := Option.some.inj (hfound.symm.trans hcurrent)
      rw [hkept, List.mem_append]
      rw [hliving] at htombstoned
      simpa using htombstoned
     | tombstoned current _ hcurrent hliving _ hgone =>
      exact iff_of_true hgone (List.mem_append_right _ (List.mem_singleton.2 rfl))
   · rw [lastFlip_concat]
     generalize call.request.operation.change = change at hrow ⊢
     cases hrow with
     | flipped enabled current _ _ _ _ hset hkept =>
      rw [hkept, hset]
      rfl
     | tombstoned current _ _ _ hset hgone =>
      rw [hset, Option.isNone_eq_false_iff.2 hgone]
      rfl
 · rw [harrived]
   exact h.gone
 · intro entry hentry
   rw [harrived]
   exact h.flag entry hentry
 · exact (h.bounded position hmem).trans (by simp)
 · intro j other position hother hcommitted
   rcases hold j other position hother hcommitted with ⟨rfl, rfl, hrequest⟩ | ⟨-, hother, hlt⟩
   · rw [hrequest]
     refine ⟨by simp, fun hmem => ?_⟩
     have := h.bounded _ hmem
     omega
   · rw [List.getElem?_append_left hlt]
     exact h.awaiting j other position hother hcommitted
 · intro j k other third position hother hthird hcommitted hcommitted'
   rcases hold j other position hother hcommitted with ⟨rfl, hposition, -⟩ | ⟨-, hother, hlt⟩
   · rcases hold k third position hthird hcommitted' with ⟨rfl, -⟩ | ⟨-, -, hlt⟩
     · rfl
     · omega
   · rcases hold k third position hthird hcommitted' with ⟨rfl, hposition, -⟩ | ⟨-, hthird, -⟩
     · omega
     · exact h.apart j k other third position hother hthird hcommitted hcommitted'
 · intro position hlt
   rw [List.length_append, List.length_singleton] at hlt
   by_cases hlast : position = s.shared.changes.length
   · subst hlast
     exact .inr ⟨i, _, List.getElem?_set_self hi, plugin, updated, affectedUnits, rfl⟩
   · refine (h.accounted position (by omega)).imp_right fun hother => ?_
     obtain ⟨j, other, hother, hcommitted⟩ := hother
     have hne : i ≠ j := by
      rintro rfl
      obtain rfl : call = other := Option.some.inj (hcall.symm.trans hother)
      exact hbefore position hcommitted
     exact ⟨j, other, (List.getElem?_set_ne hne).trans hother, hcommitted⟩

theorem arrivedChanges_arrival (h : Tracked initial slug s) (hcall : s.calls[i]? = some call)
  {position : ℕ} (hcommitted : Committed call position) (registry : Registry Instance)
  (events : List LifecycleEvent) :
  arrivedChanges { s.shared with registry, arrived := s.shared.arrived ++ [position], events } =
   arrivedChanges s.shared ++ [call.request.operation.change] := by
 have hchange := (h.awaiting i call position hcall hcommitted).1
 simp only [arrivedChanges, List.filterMap_append, List.filterMap_cons, List.filterMap_nil, hchange]

theorem Tracked.arrival (h : Tracked initial slug s) (hcall : s.calls[i]? = some call)
  {position : ℕ} {plugin updated : Plugin} {affectedUnits : List UnitRef}
  {registry : Registry Instance}
  (hcommitted : call.phase = .committed position plugin updated affectedUnits)
  (hserve : serve slug call.request.operation s.shared.registry = .ok registry) :
  Tracked initial slug ⟨{ s.shared with
    registry
    arrived := s.shared.arrived ++ [position]
    events := s.shared.events ++ [emitted call.request plugin updated affectedUnits] },
   s.calls.set i { call with phase := .settled (.ok updated) }⟩ := by
 have hmine : Committed call position := ⟨plugin, updated, affectedUnits, hcommitted⟩
 obtain ⟨hchange, hnew⟩ := h.awaiting i call position hcall hmine
 have harrived := arrivedChanges_arrival h hcall hmine registry
  (s.shared.events ++ [emitted call.request plugin updated affectedUnits])
 have hentry := entry_serve hserve
 have hold : ∀ (j : ℕ) other place,
  (s.calls.set i { call with phase := .settled (.ok updated) })[j]? = some other →
   Committed other place → j ≠ i ∧ s.calls[j]? = some other := by
  intro j other place hother hplace
  rcases getElem?_set_cases hother with ⟨-, rfl⟩ | hother
  · exact absurd hplace (not_committed (fun _ _ _ _ hphase => by cases hphase) place)
  · exact hother
 refine ⟨h.row, ?_, ?_, fun place hmem => ?_, ?_, fun j other place hother hplace => ?_,
  fun j k other third place hother hthird hplace hplace' => ?_, fun place hlt => ?_, ?_⟩
 · rw [harrived, hentry, List.mem_append, List.mem_singleton]
   generalize call.request.operation = operation
   cases operation with
   | setEnabled enabled =>
    rw [servedEntry, Option.map_eq_none_iff, h.gone]
    simp [Operation.change]
   | uninstall purgeData => exact iff_of_true rfl (.inr rfl)
 · intro entry hsome
   rw [harrived, lastFlip_concat]
   rw [hentry] at hsome
   generalize call.request.operation = operation at hsome ⊢
   cases operation with
   | setEnabled enabled =>
    obtain ⟨old, -, rfl⟩ := Option.map_eq_some_iff.1 hsome
    rfl
   | uninstall purgeData => cases hsome
 · rcases List.mem_append.1 hmem with hmem | hmem
   · exact h.bounded place hmem
   · rw [List.mem_singleton.1 hmem]
     exact (List.getElem?_eq_some_iff.1 hchange).1
 · exact List.nodup_append.2 ⟨h.once, List.nodup_singleton _, fun a ha b hb hab =>
    hnew (List.mem_singleton.1 hb ▸ hab ▸ ha)⟩
 · obtain ⟨hne, hold⟩ := hold j other place hother hplace
   obtain ⟨hat, hnot⟩ := h.awaiting j other place hold hplace
   refine ⟨hat, fun hmem => ?_⟩
   rcases List.mem_append.1 hmem with hmem | hmem
   · exact hnot hmem
   · rw [List.mem_singleton.1 hmem] at hplace
     exact hne (h.apart j i other call position hold hcall hplace hmine)
 · obtain ⟨-, hother⟩ := hold j other place hother hplace
   obtain ⟨-, hthird⟩ := hold k third place hthird hplace'
   exact h.apart j k other third place hother hthird hplace hplace'
 · rcases h.accounted place hlt with hmem | ⟨j, other, hother, hplace⟩
   · exact .inl (List.mem_append_left _ hmem)
   · by_cases hne : i = j
     · subst hne
       obtain rfl : call = other := Option.some.inj (hcall.symm.trans hother)
       obtain ⟨_, _, _, hphase⟩ := hplace
       obtain rfl : position = place := by
        rw [hcommitted] at hphase
        cases hphase
        rfl
       exact .inl (List.mem_append_right _ List.mem_cons_self)
     · exact .inr ⟨j, other, (List.getElem?_set_ne hne).trans hother, hplace⟩
 · rw [harrived, List.map_append, h.events, List.map_singleton, emitted_change]

end Step

theorem Tracked.step (h : Tracked initial slug s) {s' : Sys (State Instance) Call}
  {a : Action Request Answer Empty}
  (hstep : PhasedCalls.step (lifecycle Instance slug) s a = some s') : Tracked initial slug s' := by
 rcases step_cases hstep with ⟨request, -, rfl⟩ | ⟨i, answer, call, moved, -, hcall, hmove, rfl⟩ | ⟨e, -⟩
 · exact h.begun request
 · have hmoved := moved_of_move hmove
   obtain ⟨call', shared'⟩ := moved
   cases hmoved with
   | quiet phase hbefore hafter => exact h.quiet hcall hbefore hafter
   | commit plugin updated affectedUnits hbefore hrow => exact h.commit hcall hbefore hrow
   | arrival position plugin updated affectedUnits registry hcommitted hserve =>
    exact h.arrival hcall hcommitted hserve
 · exact e.elim

end Tracking

section Order

def isFlip (changes : List Change) (position : ℕ) : Bool :=
  match changes[position]? with
  | some (.flipped _) => true
  | some .tombstoned | none => false

/-- The answer of a flip does not arrive after that of a flip that committed
    later. -/
def InOrder (s : Sys (State Instance) Call) : Action Request Answer Empty → Prop
  | .advance i _ => ∀ call position, s.calls[i]? = some call → Committed call position →
    isFlip s.shared.changes position = true →
    ∀ earlier ∈ s.shared.arrived, isFlip s.shared.changes earlier = true → earlier < position
  | .begin _ | .outside _ => True

def Ordered (s : State Instance) : Prop := (s.arrived.filter (isFlip s.changes)).Pairwise (· < ·)

variable {initial : Bool} {s : Sys (State Instance) Call}

theorem isFlip_commit {changes : List Change} {position : ℕ} (hlt : position < changes.length)
  (change : Change) :
  isFlip (changes ++ [change]) position = isFlip changes position := by
 rw [isFlip, isFlip, List.getElem?_append_left hlt]

theorem Ordered.step (h : Ordered s.shared) (htracked : Tracked initial slug s)
  {s' : Sys (State Instance) Call} {a : Action Request Answer Empty} (hallowed : InOrder s a)
  (hstep : PhasedCalls.step (lifecycle Instance slug) s a = some s') : Ordered s'.shared := by
 rcases step_cases hstep with ⟨request, -, rfl⟩ | ⟨i, answer, call, moved, rfl, hcall, hmove, rfl⟩ | ⟨e, -⟩
 · exact h
 · have hmoved := moved_of_move hmove
   obtain ⟨call', shared'⟩ := moved
   cases hmoved with
   | quiet phase hbefore hafter => exact h
   | commit plugin updated affectedUnits hbefore hrow =>
    have hsame : s.shared.arrived.filter (isFlip (s.shared.changes ++ [call.request.operation.change])) =
      s.shared.arrived.filter (isFlip s.shared.changes) :=
     List.filter_congr fun position hmem => isFlip_commit (htracked.bounded position hmem) _
    simp only [Ordered, hsame]
    exact h
   | arrival position plugin updated affectedUnits registry hcommitted hserve =>
    simp only [Ordered, List.filter_append]
    by_cases hflip : isFlip s.shared.changes position = true
    · rw [List.filter_cons_of_pos hflip, List.filter_nil]
      refine List.pairwise_append.2 ⟨h, List.pairwise_singleton _ _, fun earlier hearlier last hlast => ?_⟩
      obtain ⟨hmem, hearlierFlip⟩ := List.mem_filter.1 hearlier
      rw [List.mem_singleton.1 hlast]
      exact hallowed call position hcall ⟨plugin, updated, affectedUnits, hcommitted⟩ hflip earlier
       hmem hearlierFlip
    · rw [List.filter_cons_of_neg hflip, List.filter_nil, List.append_nil]
      exact h
 · exact e.elim

end Order

section Rest

def Call.isSettled (call : Call) : Bool :=
  match call.phase with
  | .settled _ => true
  | .begun | .authorized | .loaded _ _ | .committed _ _ _ _ | .lost => false

def AtRest (s : Sys (State Instance) Call) : Prop := ∀ call ∈ s.calls, call.isSettled = true

variable {initial : Bool} {s : Sys (State Instance) Call}

theorem lastFlip_flips (initial : Bool) (changes : List Change) (positions : List ℕ) :
  lastFlip initial (positions.filterMap fun position => changes[position]?) =
   lastFlip initial
    ((positions.filter (isFlip changes)).filterMap fun position => changes[position]?) := by
 induction positions generalizing initial with
 | nil => rfl
 | cons position rest ih =>
  cases hat : changes[position]? with
  | none =>
   have hflip : ¬ isFlip changes position = true := by simp [isFlip, hat]
   rw [List.filter_cons_of_neg hflip, List.filterMap_cons_none hat]
   exact ih initial
  | some change =>
   rw [List.filterMap_cons_some hat]
   cases change with
   | tombstoned =>
    have hflip : ¬ isFlip changes position = true := by simp [isFlip, hat]
    rw [List.filter_cons_of_neg hflip]
    exact ih initial
   | flipped enabled =>
    have hflip : isFlip changes position = true := by simp [isFlip, hat]
    rw [List.filter_cons_of_pos hflip, List.filterMap_cons_some hat]
    exact ih enabled

theorem range_changes (changes : List Change) :
  ((List.range changes.length).filterMap fun position => changes[position]?) = changes := by
 induction changes using List.reverseRecOn with
 | nil => rfl
 | append_singleton changes change ih =>
  rw [List.length_append, List.length_singleton, List.range_succ, List.filterMap_append]
  have hsame : ((List.range changes.length).filterMap fun position => (changes ++ [change])[position]?) =
    (List.range changes.length).filterMap fun position => changes[position]? := by
   apply List.filterMap_congr
   intro position hmem
   exact List.getElem?_append_left (List.mem_range.1 hmem)
  rw [hsame, ih]
  simp

theorem Tracked.all_arrived (h : Tracked initial slug s) (hrest : AtRest s) :
  s.shared.arrived.Perm (List.range s.shared.changes.length) := by
 refine (List.perm_ext_iff_of_nodup h.once List.nodup_range).2 fun position => ?_
 rw [List.mem_range]
 refine ⟨h.bounded position, fun hlt => (h.accounted position hlt).resolve_right fun hcall => ?_⟩
 obtain ⟨i, call, hcall, plugin, updated, affectedUnits, hphase⟩ := hcall
 have hsettled := hrest call (List.mem_of_getElem? hcall)
 simp [Call.isSettled, hphase] at hsettled

theorem Tracked.all_changes (h : Tracked initial slug s) (hrest : AtRest s) :
  (arrivedChanges s.shared).Perm s.shared.changes := by
 have hperm := (h.all_arrived hrest).filterMap fun position => s.shared.changes[position]?
 rwa [range_changes] at hperm

theorem Tracked.lastFlip_rest (h : Tracked initial slug s) (hordered : Ordered s.shared)
  (hrest : AtRest s) :
  lastFlip initial (arrivedChanges s.shared) = lastFlip initial s.shared.changes := by
 have hflips : s.shared.arrived.filter (isFlip s.shared.changes) =
   (List.range s.shared.changes.length).filter (isFlip s.shared.changes) := by
  refine ((h.all_arrived hrest).filter _).eq_of_pairwise ?_ hordered (List.pairwise_lt_range.filter _)
  intro a b _ _ hab hba
  omega
 calc lastFlip initial (arrivedChanges s.shared)
     = lastFlip initial ((s.shared.arrived.filter (isFlip s.shared.changes)).filterMap
         fun position => s.shared.changes[position]?) := lastFlip_flips _ _ _
  _ = lastFlip initial ((List.range s.shared.changes.length).filterMap
     fun position => s.shared.changes[position]?) := by rw [hflips, ← lastFlip_flips]
  _ = lastFlip initial s.shared.changes := by rw [range_changes]

theorem Tracked.silent (h : Tracked initial slug s) :
  (s.shared.events.map LifecycleEvent.change).Subperm s.shared.changes := by
 have hsubset : s.shared.arrived ⊆ List.range s.shared.changes.length :=
  fun position hmem => List.mem_range.2 (h.bounded position hmem)
 obtain ⟨positions, hperm, hsub⟩ := h.once.subperm hsubset
 have hsub' := hsub.filterMap fun position => s.shared.changes[position]?
 rw [range_changes] at hsub'
 rw [h.events]
 exact ⟨_, hperm.filterMap _, hsub'⟩

structure InStep (slug : Text) (s : Sys (State Instance) Call) : Prop where
  uninstalled : AtRest s → ∀ row, s.shared.row = some row → row.uninstalledAt.isSome = true →
    s.shared.registry.entry slug = none
  living : AtRest s → ∀ row, s.shared.row = some row → row.uninstalledAt = none →
    ∃ entry, s.shared.registry.entry slug = some entry ∧ entry.enabled = row.enabled
  announced : AtRest s → (s.shared.events.map LifecycleEvent.change).Perm s.shared.changes
  silent : (s.shared.events.map LifecycleEvent.change).Subperm s.shared.changes
  disabled : ∀ row, s.shared.row = some row → ¬ (row.enabled = true ∧ row.uninstalledAt.isSome = true)

theorem Tracked.uninstalled (h : Tracked initial slug s) (hrest : AtRest s) {row : Plugin}
  (hrow : s.shared.row = some row) (hgone : row.uninstalledAt.isSome = true) :
  s.shared.registry.entry slug = none := by
 obtain ⟨found, hfound, htombstoned, -⟩ := h.row
 obtain rfl : found = row := Option.some.inj (hfound.symm.trans hrow)
 exact h.gone.2 ((h.all_changes hrest).mem_iff.2 (htombstoned.1 hgone))

theorem Tracked.disabled (h : Tracked initial slug s) {row : Plugin}
  (hrow : s.shared.row = some row) :
  ¬ (row.enabled = true ∧ row.uninstalledAt.isSome = true) := by
 intro hboth
 obtain ⟨found, hfound, -, henabled⟩ := h.row
 obtain rfl : found = row := Option.some.inj (hfound.symm.trans hrow)
 rw [Option.isNone_eq_false_iff.2 hboth.2, hboth.1] at henabled
 cases henabled

theorem Tracked.inStep (h : Tracked initial slug s) (hordered : Ordered s.shared) :
  InStep slug s where
 uninstalled hrest _ hrow hgone := h.uninstalled hrest hrow hgone
 living := by
  intro hrest row hrow hliving
  obtain ⟨found, hfound, htombstoned, henabled⟩ := h.row
  obtain rfl : found = row := Option.some.inj (hfound.symm.trans hrow)
  rw [hliving] at htombstoned henabled
  cases hentry : s.shared.registry.entry slug with
  | none =>
   have hmem := (h.all_changes hrest).mem_iff.1 (h.gone.1 hentry)
   exact absurd (htombstoned.2 hmem) Bool.false_ne_true
  | some entry =>
   refine ⟨entry, rfl, ?_⟩
   rw [h.flag entry hentry, h.lastFlip_rest hordered hrest, henabled]
   rfl
 announced hrest := by
  rw [h.events]
  exact h.all_changes hrest
 silent := h.silent
 disabled _ hrow := h.disabled hrow

theorem reachable_tracked {shared : State Instance} (hloaded : Loaded initial slug shared)
  {allowed : Sys (State Instance) Call → Action Request Answer Empty → Prop}
  (hs : ReachableBy (lifecycle Instance slug) allowed shared s) : Tracked initial slug s := by
 induction hs with
 | start => exact hloaded.tracked
 | step a _ _ hstep ih => exact ih.step hstep

/-- In every run where flips are answered in the order they committed, what is
    served is what the row says, and what was committed is what was announced. -/
theorem disabled_not_served {shared : State Instance} (hloaded : Loaded initial slug shared)
    (hs : ReachableBy (lifecycle Instance slug) InOrder shared s) : InStep slug s := by
 refine (reachable_tracked hloaded hs).inStep ?_
 induction hs with
 | start => simp [Ordered, hloaded.quiet.2.1]
 | step a h hallowed hstep ih => exact ih.step (reachable_tracked hloaded h) hallowed hstep

end Rest

section Samples

def sampleSlug : Text := "demo".toList

def samplePlugin : Plugin :=
  ⟨sampleSlug, "1.0.0".toList, .server, true, .malformed [], emptyConfig, [], [], 0, false, none, none⟩

def sampleState : State Unit :=
  ⟨some samplePlugin, ⟨AList.insert sampleSlug ⟨(), true⟩ ∅⟩, [], [], []⟩

theorem loaded_sample : Loaded true sampleSlug sampleState :=
 ⟨⟨samplePlugin, rfl, rfl, rfl⟩, ⟨⟨(), true⟩, by decide, rfl⟩, rfl, rfl, rfl⟩

def sampleRequest (operation : Operation) : Request := ⟨"admin".toList, operation, 0⟩

/-- A step of call `i` that nothing refuses. -/
def proceed (i : ℕ) : Action Request Answer Empty := .advance i ⟨false, true, []⟩

def outcome (s : Sys (State Unit) Call) : Option (Bool × Option ℕ) × Option (RegistryEntry Unit) × Bool :=
  (s.shared.row.map fun row => (row.enabled, row.uninstalledAt), s.shared.registry.entry sampleSlug,
    s.calls.all Call.isSettled)

def inOrder (s : Sys (State Unit) Call) : Action Request Answer Empty → Bool
  | .advance i _ =>
    (s.calls[i]?).all fun call =>
      match call.phase with
      | .committed position _ _ _ => s.shared.arrived.all fun earlier => decide (earlier < position)
      | .begun | .authorized | .loaded _ _ | .lost | .settled _ => true
  | .begin _ | .outside _ => true

theorem inOrder_allows (s : Sys (State Unit) Call) (a : Action Request Answer Empty)
  (h : inOrder s a = true) :
  InOrder s a := by
 cases a with
 | begin request => trivial
 | outside e => trivial
 | advance i answer =>
  intro call position hcall hcommitted _ earlier hmem _
  obtain ⟨plugin, updated, affectedUnits, hphase⟩ := hcommitted
  simp only [inOrder, hcall, Option.all_some, hphase, List.all_eq_true, decide_eq_true_eq] at h
  exact h earlier hmem

/-- A disable and an enable overlap and are answered in commit order, then the
    plugin is uninstalled. -/
def orderly : List (Action Request Answer Empty) :=
  [.begin (sampleRequest (.setEnabled false)), .begin (sampleRequest (.setEnabled true)),
    proceed 0, proceed 0, proceed 0, proceed 1, proceed 1, proceed 1, proceed 0, proceed 1,
    .begin (sampleRequest (.uninstall false)), proceed 2, proceed 2, proceed 2, proceed 2]

theorem disabled_not_served_orderly :
    ∃ s, outcome s = (some (false, some 0), none, true) ∧ InStep sampleSlug s := by
 have hrun : (runChecked (lifecycle Unit sampleSlug) inOrder ⟨sampleState, []⟩ orderly).map outcome =
   some (some (false, some 0), none, true) := by decide +kernel
 obtain ⟨s, hs, houtcome⟩ := Option.map_eq_some_iff.1 hrun
 exact ⟨s, houtcome, disabled_not_served loaded_sample (reachable_of_runChecked inOrder_allows .start hs)⟩

/-- Disabled, then enabled and disabled by two calls that overlap: the later
    commit is answered first. -/
def overtaken : List (Action Request Answer Empty) :=
  [.begin (sampleRequest (.setEnabled false)), proceed 0, proceed 0, proceed 0, proceed 0,
    .begin (sampleRequest (.setEnabled true)), .begin (sampleRequest (.setEnabled false)),
    proceed 1, proceed 1, proceed 1, proceed 2, proceed 2, proceed 2, proceed 2, proceed 1]

theorem disabled_served_overtaken :
    ∃ s, Reachable (lifecycle Unit sampleSlug) sampleState s ∧ AtRest s ∧
      s.shared.row.map (fun row => (row.enabled, row.uninstalledAt)) = some (false, none) ∧
      s.shared.registry.resolve sampleSlug = .ok () ∧ ¬ InStep sampleSlug s := by
 have hrun : (run (lifecycle Unit sampleSlug) ⟨sampleState, []⟩ overtaken).map outcome =
   some (some (false, none), some ⟨(), true⟩, true) := by decide +kernel
 obtain ⟨s, hs, houtcome⟩ := Option.map_eq_some_iff.1 hrun
 simp only [outcome, Prod.mk.injEq] at houtcome
 obtain ⟨hrow, hentry, hsettled⟩ := houtcome
 have hrest : AtRest s := List.all_eq_true.1 hsettled
 refine ⟨s, reachable_of_run .start hs, hrest, hrow, by simp [Registry.resolve, hentry], fun hstep => ?_⟩
 obtain ⟨row, hfound, hcolumns⟩ := Option.map_eq_some_iff.1 hrow
 obtain ⟨entry, hsome, henabled⟩ := hstep.living hrest row hfound (Prod.mk.inj hcolumns).2
 obtain rfl := Option.some.inj (hentry.symm.trans hsome)
 exact absurd (henabled.trans (Prod.mk.inj hcolumns).1) (by decide)

end Samples

end BoardGamesEmpire.PluginLifecycle
