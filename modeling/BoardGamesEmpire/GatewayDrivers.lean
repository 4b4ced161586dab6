import BoardGamesEmpire.GatewayWaits

set_option autoImplicit false

/-!
# Every driver is cached or closed

In every state of a process, whatever fails and whatever overlaps: the cached
drivers are open, each gateway has at most one, and a driver whose call has
settled is cached or was disposed.
-/
namespace BoardGamesEmpire.GatewayDriver
open JsText JsonText AsyncTasks

section Custody

variable {ν : Type}

structure Custody (ν : Type) where
  clients : List (ℕ × CachedDriver)
  drivers : List (DriverRecord ν)
  calls : List CallRecord

def custody (m : Memory ν) : Custody ν := ⟨m.registry.clients, m.registry.drivers, m.registry.calls⟩

def Cached (k : Custody ν) (driver : ℕ) : Prop :=
  ∃ gatewayId entry, k.clients.lookup gatewayId = some entry ∧ entry.driver = driver

structure Pending (k : Custody ν) (driver : ℕ) (record : DriverRecord ν) : Prop where
  built : k.drivers[driver]? = some record
  live : record.disposed = false
  uncached : ¬ Cached k driver

structure Kept (k : Custody ν) : Prop where
  keys : (k.clients.map Prod.fst).Nodup
  live : ∀ gatewayId entry, k.clients.lookup gatewayId = some entry →
    ∃ record, k.drivers[entry.driver]? = some record ∧ record.gatewayId = gatewayId ∧
     record.disposed = false
  held : ∀ driver record, Pending k driver record → ∃ task, k.calls[record.call]? = some ⟨task, false⟩

/-- What a task leaves the others: their calls, and the drivers these hold. -/
structure Leaves (me : ℕ) (k k' : Custody ν) : Prop where
  calls : ∀ (call : ℕ) record, record.task ≠ me →
   (k'.calls[call]? = some record ↔ k.calls[call]? = some record)
  pending : ∀ driver record task, task ≠ me → k.calls[record.call]? = some ⟨task, false⟩ →
    (Pending k' driver record ↔ Pending k driver record)

def Owes (me : ℕ) (owed : Option ℕ) (k : Custody ν) : Prop :=
  ∀ driver record, Pending k driver record → k.calls[record.call]? = some ⟨me, false⟩ → owed = some driver

def Opened (me call : ℕ) (k : Custody ν) : Prop :=
  k.calls[call]? = some ⟨me, false⟩ ∧ Owes me none k

def Holds (me call gatewayId driver : ℕ) (k : Custody ν) : Prop :=
  k.calls[call]? = some ⟨me, false⟩ ∧
   (∃ record, Pending k driver record ∧ record.call = call ∧ record.gatewayId = gatewayId) ∧
    Owes me (some driver) k

def custodyContract (ν : Type) : Contract (Custody ν) (Elsewhere ν) where
  inv := Kept
  moves := Leaves
  outside _ k k' := k' = k
  unborn t k := ∀ (call : ℕ) record, k.calls[call]? = some record → record.task ≠ t

variable {me call gatewayId driver : ℕ} {owed : Option ℕ}

theorem Leaves.refl (me : ℕ) (k : Custody ν) :
  Leaves me k k := ⟨fun _ _ _ => Iff.rfl, fun _ _ _ _ _ => Iff.rfl⟩

theorem owes_stable : Stable (custodyContract ν) me (Owes me owed) where
 moves j k k' hne _ hmoves howes driver record hpending hcall := by
  have hcall' := (hmoves.calls record.call ⟨me, false⟩ (Ne.symm hne)).1 hcall
  exact howes driver record ((hmoves.pending driver record me (Ne.symm hne) hcall').1 hpending) hcall'
 outside e k k' _ hout howes := by
  obtain rfl : k' = k := hout
  exact howes

theorem opened_stable : Stable (custodyContract ν) me (Opened me call) where
 moves j k k' hne hinv hmoves hopened :=
  ⟨(hmoves.calls call ⟨me, false⟩ (Ne.symm hne)).2 hopened.1,
   owes_stable.moves j k k' hne hinv hmoves hopened.2⟩
 outside e k k' _ hout hopened := by
  obtain rfl : k' = k := hout
  exact hopened

theorem holds_stable : Stable (custodyContract ν) me (Holds me call gatewayId driver) where
 moves j k k' hne hinv hmoves hholds := by
  obtain ⟨hcall, ⟨record, hpending, rfl, hgateway⟩, howes⟩ := hholds
  refine ⟨(hmoves.calls record.call ⟨me, false⟩ (Ne.symm hne)).2 hcall, ⟨record, ?_, rfl, hgateway⟩,
   owes_stable.moves j k k' hne hinv hmoves howes⟩
  exact (hmoves.pending driver record me (Ne.symm hne) hcall).2 hpending
 outside e k k' _ hout hholds := by
  obtain rfl : k' = k := hout
  exact hholds

theorem unborn_stable (t : ℕ) : Stable (custodyContract ν) t ((custodyContract ν).unborn t) where
 moves j k k' hne _ hmoves hunborn call record hcall htask := by
  have hcall' := (hmoves.calls call record (by omega)).1 hcall
  exact hunborn call record hcall' htask
 outside e k k' _ hout hunborn := by
  obtain rfl : k' = k := hout
  exact hunborn

theorem blind_custody : Blind custody (custodyContract ν) where
 view m m' h := by rw [custody, custody, h]
 refl j k _ := Leaves.refl j k
 unborn := unborn_stable

theorem owes_of_unborn {t : ℕ} {k : Custody ν} (h : (custodyContract ν).unborn t k) :
  Owes t none k :=
 fun _ _ _ hcall => absurd rfl (h _ _ hcall)

end Custody

section Steps

variable {ν : Type} {me call gatewayId driver : ℕ} {k k' : Custody ν}

theorem kept_of_pending (hk : Kept k) (hkeys : (k'.clients.map Prod.fst).Nodup)
  (hlive : ∀ gatewayId entry, k'.clients.lookup gatewayId = some entry →
   ∃ record, k'.drivers[entry.driver]? = some record ∧ record.gatewayId = gatewayId ∧
    record.disposed = false)
  (hcalls : k'.calls = k.calls) (hpending : ∀ driver record, Pending k' driver record →
   Pending k driver record) : Kept k' where
 keys := hkeys
 live := hlive
 held driver record h := by
  rw [hcalls]
  exact hk.held driver record (hpending driver record h)

theorem leaves_of_pending (hcalls : k'.calls = k.calls)
  (hpending : ∀ driver record task, task ≠ me → k.calls[record.call]? = some ⟨task, false⟩ →
   (Pending k' driver record ↔ Pending k driver record)) : Leaves me k k' where
 calls call record _ := by rw [hcalls]
 pending := hpending

def dropped (gatewayId : ℕ) (entry : CachedDriver) (k : Custody ν) : Custody ν :=
  { k with
    clients := mapDelete gatewayId k.clients
    drivers := k.drivers.modify entry.driver fun record => { record with disposed := true } }

variable {record : DriverRecord ν}

theorem disposed_of_modify {drivers : List (DriverRecord ν)} {driver d : ℕ}
  (h : (drivers.modify driver fun record => { record with disposed := true })[d]? = some record) :
  (d ≠ driver ∧ drivers[d]? = some record) ∨ (d = driver ∧ record.disposed = true) := by
 by_cases hd : driver = d
 · subst hd
   rw [List.getElem?_modify_eq] at h
   obtain ⟨old, -, rfl⟩ := Option.map_eq_some_iff.1 h
   exact .inr ⟨rfl, rfl⟩
 · rw [List.getElem?_modify_ne _ _ hd] at h
   exact .inl ⟨Ne.symm hd, h⟩

theorem pending_dropped {entry : CachedDriver} (hentry : k.clients.lookup gatewayId = some entry)
  (d : ℕ) (record : DriverRecord ν) :
  Pending (dropped gatewayId entry k) d record ↔ Pending k d record := by
 constructor
 · intro h
   rcases disposed_of_modify h.built with ⟨hne, hbuilt⟩ | ⟨-, hdisposed⟩
   · refine ⟨hbuilt, h.live, ?_⟩
     rintro ⟨g, entry', hlookup, hdriver⟩
     refine h.uncached ⟨g, entry', ?_, hdriver⟩
     have hg : g ≠ gatewayId := by
      rintro rfl
      obtain rfl := Option.some.inj (hentry.symm.trans hlookup)
      exact hne hdriver.symm
     exact (lookup_mapDelete_ne hg _).trans hlookup
   · rw [h.live] at hdisposed
     cases hdisposed
 · intro h
   have hne : d ≠ entry.driver := fun heq => h.uncached ⟨gatewayId, entry, hentry, heq.symm⟩
   refine ⟨(List.getElem?_modify_ne _ _ (Ne.symm hne)).trans h.built, h.live, ?_⟩
   rintro ⟨g, entry', hlookup, hdriver⟩
   by_cases hg : g = gatewayId
   · subst hg
     rw [dropped, lookup_mapDelete_self] at hlookup
     cases hlookup
   · exact h.uncached ⟨g, entry', (lookup_mapDelete_ne hg _).symm.trans hlookup, hdriver⟩

theorem kept_dropped {entry : CachedDriver} (hk : Kept k)
  (hentry : k.clients.lookup gatewayId = some entry) :
  Kept (dropped gatewayId entry k) := by
 refine kept_of_pending hk (nodup_mapDelete hk.keys) (fun g entry' hlookup => ?_) rfl
  fun d record => (pending_dropped hentry d record).1
 by_cases hg : g = gatewayId
 · subst hg
   rw [dropped, lookup_mapDelete_self] at hlookup
   cases hlookup
 · have hold := (lookup_mapDelete_ne hg k.clients).symm.trans hlookup
   obtain ⟨record, hbuilt, hgateway, hlive⟩ := hk.live g entry' hold
   have hne : entry'.driver ≠ entry.driver := by
    intro heq
    obtain ⟨record', hbuilt', hgateway', -⟩ := hk.live gatewayId entry hentry
    rw [heq, hbuilt'] at hbuilt
    obtain rfl := Option.some.inj hbuilt
    exact hg (hgateway.symm.trans hgateway')
   exact ⟨record, (List.getElem?_modify_ne _ _ (Ne.symm hne)).trans hbuilt, hgateway, hlive⟩

def shut (driver : ℕ) (k : Custody ν) : Custody ν :=
  { k with drivers := k.drivers.modify driver fun record => { record with disposed := true } }

variable {d : ℕ}

theorem pending_closed :
  Pending (shut driver k) d record ↔ Pending k d record ∧ d ≠ driver := by
 constructor
 · intro h
   rcases disposed_of_modify h.built with ⟨hne, hbuilt⟩ | ⟨-, hdisposed⟩
   · exact ⟨⟨hbuilt, h.live, h.uncached⟩, hne⟩
   · rw [h.live] at hdisposed
     cases hdisposed
 · rintro ⟨h, hne⟩
   exact ⟨(List.getElem?_modify_ne _ _ (Ne.symm hne)).trans h.built, h.live, h.uncached⟩

theorem held_by {task : ℕ} (h : Holds me call gatewayId driver k)
  (hpending : Pending k driver record) (hcall : k.calls[record.call]? = some ⟨task, false⟩) :
  task = me := by
 obtain ⟨hopen, ⟨record', hpending', hrecord, -⟩, -⟩ := h
 obtain rfl := Option.some.inj (hpending.built.symm.trans hpending'.built)
 rw [hrecord, hopen] at hcall
 exact (congrArg CallRecord.task (Option.some.inj hcall)).symm

theorem kept_closed (hk : Kept k) (h : Holds me call gatewayId driver k) :
  Kept (shut driver k) := by
 refine kept_of_pending hk hk.keys (fun g entry hlookup => ?_) rfl fun d record hd =>
  (pending_closed.1 hd).1
 obtain ⟨record, hbuilt, hrecord⟩ := hk.live g entry hlookup
 have hne : entry.driver ≠ driver := by
  rintro rfl
  obtain ⟨record', hpending, -⟩ := h.2.1
  exact hpending.uncached ⟨g, entry, hlookup, rfl⟩
 exact ⟨record, (List.getElem?_modify_ne _ _ (Ne.symm hne)).trans hbuilt, hrecord⟩

theorem leaves_closed (h : Holds me call gatewayId driver k) : Leaves me k (shut driver k) := by
 refine leaves_of_pending rfl fun d record task hne hcall => ?_
 rw [pending_closed]
 refine ⟨fun hd => hd.1, fun hd => ⟨hd, ?_⟩⟩
 rintro rfl
 exact hne (held_by h hd hcall)

theorem opened_closed (h : Holds me call gatewayId driver k) : Opened me call (shut driver k) :=
 ⟨h.1, fun _ _ hd hcall => absurd (Option.some.inj (h.2.2 _ _ (pending_closed.1 hd).1 hcall)).symm
  (pending_closed.1 hd).2⟩

def begun (me : ℕ) (k : Custody ν) : Custody ν := { k with calls := k.calls ++ [⟨me, false⟩] }

theorem pending_begun : Pending (begun me k) d record ↔ Pending k d record :=
 ⟨fun h => ⟨h.built, h.live, h.uncached⟩, fun h => ⟨h.built, h.live, h.uncached⟩⟩

theorem kept_begun (hk : Kept k) : Kept (begun me k) where
 keys := hk.keys
 live := hk.live
 held d record h := by
  obtain ⟨task, hcall⟩ := hk.held d record (pending_begun.1 h)
  exact ⟨task, (List.getElem?_append_left (List.getElem?_eq_some_iff.1 hcall).1).trans hcall⟩

theorem calls_begun {record : CallRecord} {c : ℕ} (h : record.task ≠ me) :
  (begun me k).calls[c]? = some record ↔ k.calls[c]? = some record := by
 constructor
 · intro hc
   rcases Nat.lt_or_ge c k.calls.length with hlt | hge
   · rwa [begun, List.getElem?_append_left hlt] at hc
   · rw [begun, List.getElem?_append_right hge, List.getElem?_singleton] at hc
     split at hc
     · obtain rfl := Option.some.inj hc
       exact absurd rfl h
     · cases hc
 · intro hc
   exact (List.getElem?_append_left (List.getElem?_eq_some_iff.1 hc).1).trans hc

theorem leaves_begun : Leaves me k (begun me k) :=
 ⟨fun _ _ hne => calls_begun hne, fun _ _ _ _ _ => pending_begun⟩

theorem opened_begun (hk : Kept k) (h : Owes me none k) :
  Opened me k.calls.length (begun me k) := by
 refine ⟨by simp [begun], fun d record hpending hcall => ?_⟩
 have hold := pending_begun.1 hpending
 obtain ⟨task, hopen⟩ := hk.held d record hold
 have hsame := (List.getElem?_append_left (List.getElem?_eq_some_iff.1 hopen).1).symm.trans hcall
 exact h d record hold hsame

def ended (me call : ℕ) (k : Custody ν) : Custody ν := { k with calls := k.calls.set call ⟨me, true⟩ }

theorem pending_ended : Pending (ended me call k) d record ↔ Pending k d record :=
 ⟨fun h => ⟨h.built, h.live, h.uncached⟩, fun h => ⟨h.built, h.live, h.uncached⟩⟩

theorem calls_ended {c : ℕ} (h : c ≠ call) : (ended me call k).calls[c]? = k.calls[c]? :=
 List.getElem?_set_ne (Ne.symm h)

theorem not_call (h : Opened me call k) (hpending : Pending k d record) :
  record.call ≠ call := by
 rintro rfl
 cases h.2 d record hpending h.1

theorem kept_ended (hk : Kept k) (h : Opened me call k) : Kept (ended me call k) where
 keys := hk.keys
 live := hk.live
 held d record hd := by
  have hold := pending_ended.1 hd
  obtain ⟨task, hopen⟩ := hk.held d record hold
  exact ⟨task, (calls_ended (not_call h hold)).trans hopen⟩

theorem leaves_ended (h : Opened me call k) : Leaves me k (ended me call k) := by
 refine ⟨fun c record hne => ?_, fun _ _ _ _ _ => pending_ended⟩
 by_cases hc : c = call
 · subst hc
   have hlt := (List.getElem?_eq_some_iff.1 h.1).1
   rw [ended, List.getElem?_set_self hlt, h.1]
   constructor
   · intro hrecord
     exact absurd (congrArg CallRecord.task (Option.some.inj hrecord)).symm hne
   · intro hrecord
     exact absurd (congrArg CallRecord.task (Option.some.inj hrecord)).symm hne
 · rw [calls_ended hc]

theorem owes_ended (h : Opened me call k) : Owes me none (ended me call k) := by
 intro d record hd hcall
 have hold := pending_ended.1 hd
 exact h.2 d record hold ((calls_ended (not_call h hold)).symm.trans hcall)

def owning (record : DriverRecord ν) (k : Custody ν) : Custody ν :=
    { k with drivers := k.drivers ++ [record] }

theorem pending_owning {record new : DriverRecord ν} (h : Pending (owning new k) d record) :
  Pending k d record ∨ (d = k.drivers.length ∧ record = new) := by
 rcases Nat.lt_or_ge d k.drivers.length with hlt | hge
 · exact .inl ⟨(List.getElem?_append_left hlt).symm.trans h.built, h.live, h.uncached⟩
 · have hbuilt := h.built
   rw [owning, List.getElem?_append_right hge, List.getElem?_singleton] at hbuilt
   split at hbuilt
   · exact .inr ⟨by omega, (Option.some.inj hbuilt).symm⟩
   · cases hbuilt

theorem pending_owning_old {record new : DriverRecord ν} (h : Pending k d record) :
  Pending (owning new k) d record :=
 ⟨(List.getElem?_append_left (List.getElem?_eq_some_iff.1 h.built).1).trans h.built, h.live, h.uncached⟩

theorem uncached_new (hk : Kept k) : ¬ Cached k k.drivers.length := by
 rintro ⟨g, entry, hlookup, hdriver⟩
 obtain ⟨record, hbuilt, -⟩ := hk.live g entry hlookup
 have hlt := (List.getElem?_eq_some_iff.1 hbuilt).1
 omega

variable {new : DriverRecord ν}

theorem kept_owning (hk : Kept k) (h : k.calls[new.call]? = some ⟨me, false⟩) :
  Kept (owning new k) where
 keys := hk.keys
 live g entry hlookup := by
  obtain ⟨record, hbuilt, hrecord⟩ := hk.live g entry hlookup
  exact ⟨record, (List.getElem?_append_left (List.getElem?_eq_some_iff.1 hbuilt).1).trans hbuilt, hrecord⟩
 held d record hd := by
  rcases pending_owning hd with hold | ⟨-, rfl⟩
  · exact hk.held d record hold
  · exact ⟨me, h⟩

theorem leaves_owning (h : k.calls[new.call]? = some ⟨me, false⟩) : Leaves me k (owning new k) := by
 refine leaves_of_pending rfl fun d record task hne hcall => ⟨fun hd => ?_, pending_owning_old⟩
 rcases pending_owning hd with hold | ⟨-, rfl⟩
 · exact hold
 · rw [h] at hcall
   exact absurd (congrArg CallRecord.task (Option.some.inj hcall)).symm hne

theorem holds_owning (hk : Kept k) (h : Opened me new.call k) (hlive : new.disposed = false) :
  Holds me new.call new.gatewayId k.drivers.length (owning new k) := by
 refine ⟨h.1, ⟨new, ⟨by simp [owning], hlive, uncached_new hk⟩, rfl, rfl⟩, fun d record hd hcall => ?_⟩
 rcases pending_owning hd with hold | ⟨rfl, -⟩
 · cases h.2 d record hold hcall
 · rfl

/-- A held driver takes its gateway's slot, and the driver there is closed. -/
def caching (gatewayId : ℕ) (entry : CachedDriver) (k : Custody ν) : Custody ν :=
  { k with
    clients := mapSet gatewayId entry k.clients
    drivers := match k.clients.lookup gatewayId with
      | some existing => k.drivers.modify existing.driver fun record => { record with disposed := true }
      | none => k.drivers }

theorem drivers_caching_ne {entry : CachedDriver}
  (h : ∀ existing, k.clients.lookup gatewayId = some existing → d ≠ existing.driver) :
  (caching gatewayId entry k).drivers[d]? = k.drivers[d]? := by
 unfold caching
 cases hlookup : k.clients.lookup gatewayId with
 | none => rfl
 | some existing => exact List.getElem?_modify_ne _ _ (Ne.symm (h existing hlookup))

theorem pending_caching {entry : CachedDriver}
  (h : Pending (caching gatewayId entry k) d record) : Pending k d record ∧ d ≠ entry.driver := by
 have hself : d ≠ entry.driver := by
  rintro rfl
  exact h.uncached ⟨gatewayId, entry, lookup_mapSet_self _ _ _, rfl⟩
 have hother : ∀ existing, k.clients.lookup gatewayId = some existing → d ≠ existing.driver := by
  rintro existing hlookup rfl
  have hbuilt := h.built
  unfold caching at hbuilt
  rw [hlookup] at hbuilt
  rcases disposed_of_modify hbuilt with ⟨hne, -⟩ | ⟨-, hdisposed⟩
  · exact hne rfl
  · rw [h.live] at hdisposed
    cases hdisposed
 refine ⟨⟨(drivers_caching_ne hother).symm.trans h.built, h.live, ?_⟩, hself⟩
 rintro ⟨g, entry', hlookup, hdriver⟩
 by_cases hg : g = gatewayId
 · subst hg
   exact hother entry' hlookup hdriver.symm
 · exact h.uncached ⟨g, entry', (lookup_mapSet_ne hg _ _).trans hlookup, hdriver⟩

theorem pending_caching_old {entry : CachedDriver} (h : Pending k d record)
  (hne : d ≠ entry.driver) : Pending (caching gatewayId entry k) d record := by
 refine ⟨(drivers_caching_ne ?_).trans h.built, h.live, ?_⟩
 · rintro existing hlookup rfl
   exact h.uncached ⟨gatewayId, existing, hlookup, rfl⟩
 · rintro ⟨g, entry', hlookup, hdriver⟩
   by_cases hg : g = gatewayId
   · subst hg
     have hset : (mapSet g entry k.clients).lookup g = some entry' := hlookup
     rw [lookup_mapSet_self] at hset
     obtain rfl := Option.some.inj hset
     exact hne hdriver.symm
   · exact h.uncached ⟨g, entry', (lookup_mapSet_ne hg entry k.clients).symm.trans hlookup, hdriver⟩

variable {entry : CachedDriver}

theorem kept_caching (hk : Kept k) (h : Holds me call gatewayId entry.driver k) :
  Kept (caching gatewayId entry k) := by
 refine kept_of_pending hk (nodup_mapSet hk.keys) (fun g entry' hlookup => ?_) rfl
  fun d record hd => (pending_caching hd).1
 by_cases hg : g = gatewayId
 · subst hg
   have hset : (mapSet g entry k.clients).lookup g = some entry' := hlookup
   rw [lookup_mapSet_self] at hset
   obtain rfl := Option.some.inj hset
   obtain ⟨record, hpending, -, hgateway⟩ := h.2.1
   refine ⟨record, (drivers_caching_ne fun existing hexisting => ?_).trans hpending.built, hgateway,
    hpending.live⟩
   intro heq
   exact hpending.uncached ⟨g, existing, hexisting, heq.symm⟩
 · have hold := (lookup_mapSet_ne hg entry k.clients).symm.trans hlookup
   obtain ⟨record, hbuilt, hgateway, hlive⟩ := hk.live g entry' hold
   refine ⟨record, (drivers_caching_ne fun existing hexisting => ?_).trans hbuilt, hgateway, hlive⟩
   intro heq
   obtain ⟨record', hbuilt', hgateway', -⟩ := hk.live gatewayId existing hexisting
   rw [heq, hbuilt'] at hbuilt
   obtain rfl := Option.some.inj hbuilt
   exact hg (hgateway.symm.trans hgateway')

theorem leaves_caching (h : Holds me call gatewayId entry.driver k) :
  Leaves me k (caching gatewayId entry k) := by
 refine leaves_of_pending rfl fun d record task hne hcall =>
  ⟨fun hd => (pending_caching hd).1, fun hd => ?_⟩
 refine pending_caching_old hd ?_
 rintro rfl
 exact hne (held_by h hd hcall)

theorem opened_caching (h : Holds me call gatewayId entry.driver k) :
  Opened me call (caching gatewayId entry k) := by
 refine ⟨h.1, fun d record hd hcall => ?_⟩
 obtain ⟨hold, hne⟩ := pending_caching hd
 exact absurd (Option.some.inj (h.2.2 d record hold hcall)).symm hne

end Steps

section Programs

variable {ν : Type} {me call gatewayId : ℕ} {Ψ : Custody ν → Prop}

abbrev KeepsCustody (me : ℕ) (work : Work ν) (Ψ : Custody ν → Prop) :
    Prop := Safe custody (custodyContract ν) me work Ψ

def Unmoved (Ψ : Custody ν → Prop) : Prop :=
  ∀ k k' : Custody ν, k'.calls = k.calls → (∀ d record, Pending k' d record ↔ Pending k d record) →
   Ψ k → Ψ k'

theorem unmoved_owes {owed : Option ℕ} : Unmoved (Owes (ν := ν) me owed) := by
 intro k k' hcalls hpending h d record hd hcall
 rw [hcalls] at hcall
 exact h d record ((hpending d record).1 hd) hcall

theorem unmoved_opened : Unmoved (Opened (ν := ν) me call) := by
 intro k k' hcalls hpending h
 exact ⟨hcalls ▸ h.1, unmoved_owes k k' hcalls hpending h.2⟩

theorem custody_disconnect (gatewayId : ℕ) (m : Memory ν) :
  custody (disconnect gatewayId m) = custody m ∨
   ∃ cached, (custody m).clients.lookup gatewayId = some cached ∧
   custody (disconnect gatewayId m) = dropped gatewayId cached (custody m) := by
 cases hlookup : m.registry.clients.lookup gatewayId with
 | none =>
  refine .inl ?_
  unfold disconnect
  rw [hlookup]
 | some cached =>
  refine .inr ⟨cached, hlookup, ?_⟩
  unfold disconnect
  rw [hlookup]
  rfl

theorem safe_drops {f : ℕ → Memory ν → Memory ν} {next : ℕ → Memory ν → Work ν}
  (hunmoved : Unmoved Ψ) (gatewayId : ℕ)
  (hf : ∀ m, custody (f me m) = custody m ∨
   ∃ m', custody m' = custody m ∧ custody (f me m) = custody (disconnect gatewayId m'))
  (hnext : ∀ m, KeepsCustody me (next me m) Ψ) : KeepsCustody me (.sync f next) Ψ := by
 intro m hinv hm
 have hsame : custody (f me m) = custody m ∨ ∃ cached, (custody m).clients.lookup gatewayId = some cached ∧
   custody (f me m) = dropped gatewayId cached (custody m) := by
  rcases hf m with h | ⟨m', hsame, h⟩
  · exact .inl h
  · rw [h, ← hsame]
    exact custody_disconnect gatewayId m'
 rcases hsame with h | ⟨cached, hlookup, h⟩
 · rw [h]
   exact ⟨hinv, Leaves.refl me _, Ψ, hm, hnext m⟩
 · rw [h]
   refine ⟨kept_dropped hinv hlookup, leaves_of_pending rfl fun d record _ _ _ =>
    pending_dropped hlookup d record, Ψ,
    hunmoved (custody m) _ rfl (pending_dropped hlookup) hm, hnext m⟩

theorem safe_disconnect {next : Work ν} (hunmoved : Unmoved Ψ) (hnext : KeepsCustody me next Ψ) :
  KeepsCustody me (act (disconnect gatewayId) next) Ψ :=
 safe_drops hunmoved gatewayId (fun m => .inr ⟨m, rfl, rfl⟩) fun _ => hnext

theorem safe_apart {f : ℕ → Memory ν → Memory ν} {next : ℕ → Memory ν → Work ν}
  (hf : ∀ m, custody (f me m) = custody m)
  (hnext : ∀ m, KeepsCustody me (next me m) Ψ) : KeepsCustody me (.sync f next) Ψ :=
 safe_quiet hf (fun k _ => Leaves.refl me k) fun m _ => hnext m

theorem safe_apart_act {f : Memory ν → Memory ν} {next : Work ν}
  (hf : ∀ m, custody (f m) = custody m) (hnext : KeepsCustody me next Ψ) :
  KeepsCustody me (act f next) Ψ :=
 safe_apart hf fun _ => hnext

theorem safe_disableGateway {track : FailureTrack} {reason : GatewayAutoDisableReason}
  {threw next : Work ν} (hΨ : Stable (custodyContract ν) me Ψ) (hunmoved : Unmoved Ψ)
  (hthrew : KeepsCustody me threw Ψ) (hnext : KeepsCustody me next Ψ) :
  KeepsCustody me (disableGateway gatewayId track reason threw next) Ψ := by
 have hfailed : KeepsCustody me (turn threw) Ψ := safe_turn hΨ hthrew
 refine safe_wait hΨ fun a => ?_
 split
 · exact hfailed
 · refine safe_apart (fun m => ?_) fun m => safe_wait hΨ fun b => ?_
   · split <;> rfl
   · split
     · exact hfailed
     · refine safe_drops hunmoved gatewayId (fun m' => .inr ⟨m', rfl, rfl⟩) fun m' => ?_
       split
       · refine safe_wait hΨ fun c => safe_apart_act (fun m'' => ?_) (safe_turn hΨ ?_)
         · split <;> rfl
         · exact safe_apart_act (fun _ => rfl) (safe_turn hΨ hnext)
       · exact safe_turn hΨ hnext

theorem safe_reportFailure {reason : GatewayAutoDisableReason} {threw next : Work ν}
  (hΨ : Stable (custodyContract ν) me Ψ)
  (hunmoved : Unmoved Ψ) (hthrew : KeepsCustody me threw Ψ) (hnext : KeepsCustody me next Ψ) :
  KeepsCustody me (reportFailure gatewayId reason threw next) Ψ := by
 refine safe_apart (fun _ => rfl) fun m => ?_
 dsimp only
 split
 · exact safe_disableGateway hΨ hunmoved (safe_turn hΨ hthrew) (safe_turn hΨ hnext)
 · exact safe_turn hΨ hnext

theorem safe_openCall {next : ℕ → Work ν}
  (hnext : ∀ call, KeepsCustody me (next call) (Opened me call)) :
  KeepsCustody me (openCall next) (Owes me none) := by
 intro m hinv hm
 exact ⟨kept_begun hinv, leaves_begun, Opened me _, opened_begun hinv hm, hnext _⟩

theorem safe_settleCall {next : Work ν} (hnext : KeepsCustody me next (Owes me none)) :
  KeepsCustody me (settleCall call next) (Opened me call) := by
 intro m hinv hm
 exact ⟨kept_ended hinv hm, leaves_ended hm, Owes me none, owes_ended hm, safe_turn owes_stable hnext⟩

theorem safe_ownDriver {options : Option (GatewayConnectionOptions ν)} {readAt : ℕ}
  {next : ℕ → Work ν}
  (hnext : ∀ driver, KeepsCustody me (next driver) (Holds me call gatewayId driver)) :
  KeepsCustody me (ownDriver gatewayId call options readAt next) (Opened me call) := by
 intro m hinv hm
 have hholds : Holds me call gatewayId (custody m).drivers.length
   (owning ⟨gatewayId, call, options, readAt, false⟩ (custody m)) := holds_owning hinv hm rfl
 exact ⟨kept_owning hinv hm.1, leaves_owning hm.1, Holds me call gatewayId _, hholds, hnext _⟩

theorem safe_shut {driver : ℕ} {f : ℕ → Memory ν → Memory ν} {next : Work ν}
  (hf : ∀ m, custody (f me m) = shut driver (custody m))
  (hnext : KeepsCustody me next (Opened me call)) :
  KeepsCustody me (.sync f fun _ _ => next) (Holds me call gatewayId driver) := by
 intro m hinv hm
 rw [hf m]
 exact ⟨kept_closed hinv hm, leaves_closed hm, Opened me call, opened_closed hm, hnext⟩

theorem safe_create {options : GatewayConnectionOptions ν} {readAt : ℕ} {threw : Work ν}
  {next : ℕ → Work ν} (hthrew : KeepsCustody me threw (Opened me call))
  (hnext : ∀ driver, KeepsCustody me (next driver) (Holds me call options.gatewayId driver)) :
  KeepsCustody me (create call options readAt threw next) (Opened me call) := by
 unfold create
 split
 · refine safe_ownDriver fun driver => safe_wait holds_stable fun a => ?_
   split
   · exact safe_shut (fun _ => rfl) (safe_turn opened_stable hthrew)
   · exact safe_turn holds_stable (hnext driver)
 · exact safe_turn opened_stable hthrew

theorem safe_discardIfInvalidated {driver generation : ℕ} {discarded next : Work ν}
  (hdiscarded : KeepsCustody me discarded (Opened me call))
  (hnext : KeepsCustody me next (Holds me call gatewayId driver)) :
  KeepsCustody me (discardIfInvalidated gatewayId driver generation discarded next)
   (Holds me call gatewayId driver) := by
 intro m hinv hm
 by_cases hgeneration : m.registry.connectGeneration gatewayId ≠ generation
 · simp only [if_pos hgeneration]
   exact safe_shut (f := fun _ => disposeDriver gatewayId driver) (fun _ => rfl) hdiscarded m hinv hm
 · simp only [if_neg hgeneration]
   exact ⟨hinv, Leaves.refl me _, _, hm, hnext⟩

theorem custody_cacheDriver {entry : CachedDriver} {m : Memory ν}
  (h : Holds me call gatewayId entry.driver (custody m)) :
  custody (cacheDriver gatewayId entry m) = caching gatewayId entry (custody m) := by
 obtain ⟨-, ⟨record, hpending, -⟩, -⟩ := h
 unfold cacheDriver caching
 cases hlookup : m.registry.clients.lookup gatewayId with
 | none =>
  have hlookup' : (custody m).clients.lookup gatewayId = none := hlookup
  simp only [hlookup']
  rfl
 | some existing =>
  have hlookup' : (custody m).clients.lookup gatewayId = some existing := hlookup
  have hne : existing.driver ≠ entry.driver :=
   fun heq => hpending.uncached ⟨gatewayId, existing, hlookup', heq⟩
  simp only [hlookup', if_pos hne]
  rfl

theorem safe_interviewAndCache {entry : CachedDriver} {generation : ℕ} {next : Bool → Work ν}
  (hnext : ∀ ok, KeepsCustody me (next ok) (Opened me call)) :
  KeepsCustody me (interviewAndCache gatewayId entry generation next)
   (Holds me call gatewayId entry.driver) := by
 have hdone : ∀ ok, KeepsCustody me (turn (next ok)) (Opened me call) :=
  fun ok => safe_turn opened_stable (hnext ok)
 refine safe_discardIfInvalidated (hdone true) ?_
 refine blind_custody.interviewUnlessDone holds_stable fun interviewed => ?_
 cases interviewed with
 | none => exact safe_discardIfInvalidated (hdone true) (safe_shut (fun _ => rfl) (hdone false))
 | some interviewedNow =>
  refine safe_discardIfInvalidated (hdone true) ?_
  intro m hinv hm
  rw [custody_cacheDriver hm]
  refine ⟨kept_caching hinv hm, leaves_caching hm, Opened me call, opened_caching hm, ?_⟩
  dsimp only
  split
  · exact hdone true
  · exact safe_spawn opened_stable (fun t => blind_custody.refreshIfStale (unborn_stable t))
     fun _ => hdone true

variable {F : NumberFormat ν}

theorem safe_connect {options : GatewayConnectionOptions ν} {readAt : ℕ} {next : Bool → Work ν}
  (hnext : ∀ ok, KeepsCustody me (next ok) (Owes me none)) :
  KeepsCustody me (connect F options readAt next) (Owes me none) := by
 refine safe_openCall fun call => safe_disconnect unmoved_opened ?_
 refine blind_custody.look fun m => safe_create ?_ fun driver => ?_
 · exact safe_reportFailure opened_stable unmoved_opened (safe_settleCall (hnext false))
    (safe_settleCall (hnext false))
 · exact safe_interviewAndCache fun ok => safe_settleCall (hnext ok)

theorem safe_register {configHash : Text} {next : Bool → Work ν}
  (hnext : ∀ ok, KeepsCustody me (next ok) (Owes me none)) :
  KeepsCustody me (register gatewayId configHash next) (Owes me none) := by
 refine safe_openCall fun call => blind_custody.look fun m => safe_ownDriver fun driver => ?_
 exact blind_custody.look fun m' => safe_interviewAndCache fun ok => safe_settleCall (hnext ok)

theorem safe_attempt (gatewayId t : ℕ) :
  KeepsCustody t (attempt F gatewayId) fun k => (custodyContract ν).unborn t k ∧ True := by
 refine Safe.mono (Φ := Owes t none) ?_ fun k _ h => owes_of_unborn h.1
 have hdone : ∀ ok : Bool, KeepsCustody t (turn <| act (fun m : Memory ν => { m with registry := { m.registry with
   connecting := mapDelete gatewayId m.registry.connecting } }) (settle ok)) (Owes t none) :=
  fun ok => safe_turn owes_stable (safe_apart_act (fun _ => rfl) trivial)
 refine safe_apart (fun _ => rfl) fun m => safe_wait owes_stable fun a => ?_
 split
 · exact hdone false
 · refine safe_apart (fun _ =>
    rfl) fun m' => safe_wait owes_stable fun b => safe_apart_act (fun _ => rfl) ?_
   split
   · exact hdone false
   · cases (m'.registry.rows gatewayId).filter fun row => row.enabled && row.deletedAt.isNone with
     | none => exact hdone false
     | some row => exact safe_connect hdone

theorem safe_handleConfigUpdate (event : GatewayConfigEvent) :
  KeepsCustody me (handleConfigUpdate F event id) (Owes me none) := by
 refine blind_custody.look fun m => ?_
 dsimp only
 split
 · exact safe_apart_act (fun _ => rfl) trivial
 · split
   · exact safe_drops unmoved_owes event.gatewayId
      (fun m' => .inr ⟨bumpConnectGeneration event.gatewayId m', rfl, rfl⟩) fun _ => trivial
   · split
     · refine safe_drops unmoved_owes event.gatewayId (fun m' => .inr ⟨m', rfl, rfl⟩) fun _ => ?_
       exact safe_ensureConnected blind_custody (fun _ _ _ _ => trivial) safe_attempt owes_stable
        fun _ => trivial
     · refine safe_drops unmoved_owes event.gatewayId (fun m' => ?_) fun _ => trivial
       have hbumped : ∀ bumps : Bool, custody (if bumps = true then
         { bumpConnectGeneration event.gatewayId m' with
           connectionChanged := event.gatewayId :: m'.connectionChanged.erase event.gatewayId } else
            m') = custody m' := by
        intro bumps
        cases bumps <;> rfl
       dsimp only [id]
       split
       · exact .inr ⟨_, hbumped _, rfl⟩
       · exact .inl (hbumped _)

theorem safe_program (request : Request ν) :
  KeepsCustody me (program F request) (Owes me none) := by
 have hsettle : ∀ ok, KeepsCustody me (settle (ν := ν) ok) (Owes me none) := safe_settle
 cases request with
 | connect options => exact blind_custody.look fun m => safe_connect hsettle
 | register gatewayId configHash => exact safe_register hsettle
 | resolve gatewayId capability =>
  exact safe_resolve blind_custody (fun _ _ _ _ => trivial) safe_attempt owes_stable gatewayId capability
 | searchRoute gatewayId =>
  exact safe_searchRoute blind_custody (fun _ _ _ _ => trivial) safe_attempt owes_stable gatewayId
 | disconnect gatewayId => exact safe_disconnect unmoved_owes trivial
 | reportFailure gatewayId reason =>
  exact safe_reportFailure owes_stable unmoved_owes (hsettle false) (hsettle true)
 | reinterview gatewayId =>
  exact safe_reinterview blind_custody (fun _ _ _ _ => trivial) safe_attempt owes_stable gatewayId
 | refreshInterview gatewayId => exact safe_refreshInterview blind_custody owes_stable gatewayId
 | configEvent event => exact safe_handleConfigUpdate event

end Programs

section Runs

variable {ν : Type} (F : NumberFormat ν)

def always {R M : Type} : R → M → Bool := fun _ _ => true

theorem custody_elsewhere {e : Elsewhere ν} {m m' : Memory ν} (h : elsewhere F e m = some m') :
  custody m' = custody m := by
 cases e with
 | commit gatewayId change =>
  obtain ⟨⟨row, event⟩, -, rfl⟩ := Option.map_eq_some_iff.1 h
  rfl
 | reconnect gatewayId => exact (Option.some.inj h) ▸ rfl
 | publish event =>
  rw [elsewhere] at h
  split at h
  · exact (Option.some.inj h) ▸ rfl
  · cases h
 | interviewed gatewayId answers => exact (Option.some.inj h) ▸ rfl
 | time ms => exact (Option.some.inj h) ▸ rfl

theorem custody_sound : Sound custody (custodyContract ν) (program F) always (elsewhere F) where
 unborn := unborn_stable
 safe request _ t _ _ := ⟨Owes t none, owes_of_unborn, safe_program request⟩
 outside _ _ _ h hinv := by
  have hsame := custody_elsewhere F h
  exact ⟨hsame ▸ hinv, hsame⟩

abbrev ProcessReachable (rows : ℕ → Option (DataGateway ν)) (answers : ℕ → InterviewAnswers)
    (s : Sys (Memory ν) Answer Outcome) : Prop :=
  Reachable (program F) always (elsewhere F) (started rows answers) s

variable {F}

/-- In every state each cached driver is its gateway's and open, no gateway has
    two, and the driver of a call that has settled is cached or disposed. -/
theorem no_leaked_driver {rows : ℕ → Option (DataGateway ν)} {answers : ℕ → InterviewAnswers}
    {s : Sys (Memory ν) Answer Outcome} (h : ProcessReachable F rows answers s) :
    let registry := s.memory.registry
    (registry.clients.map Prod.fst).Nodup ∧
    (∀ gatewayId entry, registry.clients.lookup gatewayId = some entry →
      ∃ record, registry.drivers[entry.driver]? = some record ∧ record.gatewayId = gatewayId ∧
       record.disposed = false) ∧
    ∀ (driver : ℕ) record, registry.drivers[driver]? = some record →
      (∀ task, registry.calls[record.call]? ≠ some ⟨task, false⟩) →
        record.disposed = true ∨ ∃ entry, registry.clients.lookup record.gatewayId = some entry ∧
         entry.driver = driver := by
 have hstart : Kept (custody (started rows answers)) := by
  refine ⟨List.nodup_nil, fun gatewayId entry hlookup => ?_, fun driver record hpending => ?_⟩
  · simp [custody, started] at hlookup
  · have hbuilt := hpending.built
    simp [custody, started] at hbuilt
 have hkept := (reachable_meets (custody_sound F) hstart
  (fun t call record hcall => by simp [custody, started] at hcall) h).inv
 refine ⟨hkept.keys, hkept.live, fun driver record hbuilt hsettled => ?_⟩
 cases hdisposed : record.disposed with
 | true => exact .inl rfl
 | false =>
  refine .inr ?_
  by_contra hnone
  have hpending : Pending (custody s.memory) driver record := by
   refine ⟨hbuilt, hdisposed, ?_⟩
   rintro ⟨gatewayId, entry, hlookup, rfl⟩
   obtain ⟨record', hbuilt', hgateway, -⟩ := hkept.live gatewayId entry hlookup
   obtain rfl := Option.some.inj (hbuilt.symm.trans hbuilt')
   rw [hgateway] at hnone
   exact hnone ⟨entry, hlookup, rfl⟩
  obtain ⟨task, hopen⟩ := hkept.held driver record hpending
  exact hsettled task hopen

end Runs

section Samples

abbrev Literal : Type := { s : Text // s ≠ [] ∧ s.all isNumberChar = true }

def sampleRow (port : ℕ) : DataGateway Literal := ⟨"bgg".toList, port, .none, none, true, none, []⟩

def sampleStart : Memory Literal :=
  started (fun gatewayId => if gatewayId = 1 then some (sampleRow 50051) else none)
    fun _ => ⟨[.search], none, some 0, some 0⟩

def replies {R : Type} (i n : ℕ) : List (Action R Answer (Elsewhere Literal)) :=
    List.replicate n (.answer i .ok)

/-- A connect on request overtakes a lazy one, which then takes its slot. -/
def overtaken : List (Action (Request Literal) Answer (Elsewhere Literal)) :=
  .call (.resolve 1 .search) :: replies 0 3 ++ replies 1 4 ++
    .call (.connect ((sampleRow 50052).options 1)) :: replies 2 7 ++ replies 1 6

def slots (s : Sys (Memory Literal) Answer Outcome) : List (ℕ × ℕ) × List Bool :=
  (s.memory.registry.clients.map fun client => (client.1, client.2.driver),
   s.memory.registry.drivers.map (·.disposed))

theorem no_leaked_driver_overtaken :
  ∃ s : Sys (Memory Literal) Answer Outcome, slots s = ([(1, 0)], [false, true]) ∧
    let registry := s.memory.registry
    (registry.clients.map Prod.fst).Nodup ∧
    (∀ gatewayId entry, registry.clients.lookup gatewayId = some entry →
      ∃ record, registry.drivers[entry.driver]? = some record ∧ record.gatewayId = gatewayId ∧
       record.disposed = false) ∧
    ∀ (driver : ℕ) record, registry.drivers[driver]? = some record →
      (∀ task, registry.calls[record.call]? ≠ some ⟨task, false⟩) →
        record.disposed = true ∨ ∃ entry, registry.clients.lookup record.gatewayId = some entry ∧
         entry.driver = driver := by
 have hrun : (run (program literalFormat) always (elsewhere literalFormat)
  ⟨sampleStart, []⟩ overtaken).map slots =
   some ([(1, 0)], [false, true]) := by decide +kernel
 obtain ⟨s, hs, hslots⟩ := Option.map_eq_some_iff.1 hrun
 exact ⟨s, hslots, no_leaked_driver (reachable_of_run .start hs)⟩

end Samples

end BoardGamesEmpire.GatewayDriver
