import BoardGamesEmpire.GatewayStale

set_option autoImplicit false

/-!
# No stale driver, unless an event is handled during a read

Every lazy connect keeps the cached drivers fresh: what it read stands as long
as its gateway's generation does, and no event comes between the read and the
sample of the generation. Where one does, a stale driver is cached and stays.
-/
namespace BoardGamesEmpire.GatewayDriver
open JsText JsonText AsyncTasks

section Programs

variable {ν : Type} {F : NumberFormat ν} {me gatewayId : ℕ} {Ψ : Registry ν → Prop}

theorem safe_beside {f : ℕ → Memory ν → Memory ν} {next : ℕ → Memory ν → Work ν}
  (hΨ : Stable (freshContract F) me Ψ)
  (hf : ∀ m, AllFresh F m.registry → AllFresh F (f me m).registry ∧ Beside F m.registry (f me m).registry)
  (hnext : ∀ m, KeepsFresh F me (next me m) Ψ) : KeepsFresh F me (.sync f next) Ψ := by
 intro m hinv hm
 obtain ⟨hinv', hbeside⟩ := hf m hinv
 exact ⟨hinv', hbeside.keeps, Ψ, hΨ.outside (.time 0) _ _ hinv hbeside hm, hnext m⟩

theorem safe_disconnect_fresh {f : Memory ν → Memory ν} {next : Work ν} (hsteady : Steady Ψ)
  (hf : ∀ m, (f m).registry = (disconnect gatewayId m).registry) (hnext : KeepsFresh F me next Ψ) :
  KeepsFresh F me (act f next) Ψ :=
 safe_drop hsteady (fun m => (hf m).trans (registry_disconnect gatewayId m)) fun _ => hnext

theorem beside_refl {r : Registry ν} (hr : AllFresh F r) : AllFresh F r ∧ Beside F r r :=
 beside_step hr rfl rfl rfl rfl rfl rfl ⟨[], (List.append_nil _).symm⟩ fun _ _ => id

theorem fresh_disableGateway {track : FailureTrack} {reason : GatewayAutoDisableReason}
  {threw next : Work ν} (hΨ : Stable (freshContract F) me Ψ) (hsteady : Steady Ψ)
  (hthrew : KeepsFresh F me threw Ψ) (hnext : KeepsFresh F me next Ψ) :
  KeepsFresh F me (disableGateway gatewayId track reason threw next) Ψ := by
 refine safe_wait hΨ fun a => ?_
 split
 · exact safe_turn hΨ hthrew
 · refine safe_beside hΨ (fun m hinv => ?_) fun m => safe_wait hΨ fun b => ?_
   · dsimp only
     split
     · exact disableRow_step hinv
     · exact beside_refl hinv
   · split
     · exact safe_turn hΨ hthrew
     · refine safe_disconnect_fresh hsteady (fun _ => rfl) ?_
       split
       · refine safe_wait hΨ fun c => safe_beside hΨ (fun m' hinv => ?_) fun _ => safe_turn hΨ ?_
         · split
           · exact beside_refl hinv
           · exact publish_step hinv
         · exact blind_fresh.act (fun _ => rfl) (safe_turn hΨ hnext)
       · exact safe_turn hΨ hnext

theorem fresh_reportFailure {reason : GatewayAutoDisableReason} {threw next : Work ν}
  (hΨ : Stable (freshContract F) me Ψ)
  (hsteady : Steady Ψ) (hthrew : KeepsFresh F me threw Ψ) (hnext : KeepsFresh F me next Ψ) :
  KeepsFresh F me (reportFailure gatewayId reason threw next) Ψ := by
 refine blind_fresh.sync (fun _ => rfl) fun m => ?_
 dsimp only
 split
 · exact fresh_disableGateway hΨ hsteady (safe_turn hΨ hthrew) (safe_turn hΨ hnext)
 · exact safe_turn hΨ hnext

theorem fresh_openCall {next : ℕ → Work ν} (hsteady : Steady Ψ)
  (hnext : ∀ call, KeepsFresh F me (next call) Ψ) :
  KeepsFresh F me (openCall next) Ψ :=
 safe_aside hsteady (fun m =>
  ⟨m.registry.drivers, m.registry.calls ++ [⟨me, false⟩], rfl, fun _ _ _ h => h⟩) fun _ => hnext _

theorem fresh_settleCall {call : ℕ} {next : Work ν} (hΨ : Stable (freshContract F) me Ψ)
  (hsteady : Steady Ψ) (hnext : KeepsFresh F me next Ψ) :
  KeepsFresh F me (settleCall call next) Ψ :=
 safe_aside hsteady
  (fun m => ⟨m.registry.drivers, m.registry.calls.set call ⟨me, true⟩, rfl, fun _ _ _ h => h⟩)
  fun _ => safe_turn hΨ hnext

theorem safe_driver {f : Memory ν → Memory ν} {next : Work ν} {driver : ℕ} (hsteady : Steady Ψ)
  (hf : ∀ m, (f m).registry = closeDriver driver m.registry) (hnext : KeepsFresh F me next Ψ) :
  KeepsFresh F me (act f next) Ψ :=
 safe_aside hsteady (fun m => ⟨_, m.registry.calls, hf m, driversKept_closeDriver⟩) fun _ => hnext

section Attempt

variable {options : GatewayConnectionOptions ν} {readAt generation driver : ℕ}

theorem owned_of_building {r : Registry ν} (h : Building F me readAt generation driver options r) :
  Owned me options.gatewayId r := h.1.1.1

theorem fresh_create {call : ℕ} {threw : Work ν} {next : ℕ → Work ν}
  (hthrew : KeepsFresh F me threw (Owned me options.gatewayId))
  (hnext : ∀ driver, KeepsFresh F me (next driver) (Building F me readAt generation driver options)) :
  KeepsFresh F me (create call options readAt threw next)
   (Sampled F me options.gatewayId readAt generation options.settings) := by
 have hturn : KeepsFresh F me (turn threw) (Owned me options.gatewayId) := safe_turn owned_stable hthrew
 unfold create
 split
 · intro m hinv hm
   have hkept : DriversKept m.registry { m.registry with
     drivers := m.registry.drivers ++ [⟨options.gatewayId, call, some options, readAt, false⟩] } :=
      driversKept_append
   have hsame : SameEvents m.registry { m.registry with
     drivers := m.registry.drivers ++ [⟨options.gatewayId, call, some options, readAt, false⟩] } :=
      ⟨rfl, rfl, rfl, rfl⟩
   refine ⟨hinv.move hsame hkept fun _ _ => .inl,
    ⟨hkept, leavesConnects_of rfl rfl fun _ h => h, hsame.kept fun _ => Nat.le_refl _⟩,
    Building F me readAt generation m.registry.drivers.length options,
     ⟨?_, ?_⟩, safe_wait building_stable fun a => ?_⟩
   · exact steady_sampled _ _ hsame rfl rfl rfl hkept (fun _ h => h) hm
   · exact ⟨⟨options.gatewayId, call, some options, readAt, false⟩, by simp, rfl, rfl⟩
   · split
     · exact (safe_driver steady_owned (fun _ => rfl) hturn).mono fun _ _ => owned_of_building
     · exact safe_turn building_stable (hnext _)
 · exact hturn.mono fun _ _ h => h.1.1

theorem fresh_discardIfInvalidated {discarded next : Work ν}
  (hdiscarded : KeepsFresh F me discarded (Owned me options.gatewayId))
  (hnext : KeepsFresh F me next fun r => Building F me readAt generation driver options r ∧
   r.connectGeneration options.gatewayId = generation) :
  KeepsFresh F me (discardIfInvalidated options.gatewayId driver generation discarded next)
   (Building F me readAt generation driver options) := by
 intro m hinv hm
 by_cases hgeneration : m.registry.connectGeneration options.gatewayId ≠ generation
 · simp only [if_pos hgeneration]
   exact safe_driver steady_owned (f := disposeDriver options.gatewayId driver) (fun _ =>
    rfl) hdiscarded m hinv
    (owned_of_building hm)
 · simp only [if_neg hgeneration]
   exact ⟨hinv, Keeps.refl me _, _, ⟨hm, not_not.1 hgeneration⟩, hnext⟩

theorem clients_cacheDriver {entry : CachedDriver} {m : Memory ν}
  (h : m.registry.clients.lookup gatewayId = none) :
  (cacheDriver gatewayId entry m).registry =
   { m.registry with clients := mapSet gatewayId entry m.registry.clients } := by
 unfold cacheDriver
 rw [h]
 rfl

theorem fresh_cacheDriver {next : ℕ → Memory ν → Work ν}
  (hnext : ∀ m, KeepsFresh F me (next me m) (Owned me options.gatewayId)) :
  KeepsFresh F me
   (.sync (fun _ m => cacheDriver options.gatewayId ⟨driver, hashGatewayConfig F options, .remote⟩ m) next)
   fun r => Building F me readAt generation driver options r ∧
    r.connectGeneration options.gatewayId = generation := by
 intro m hinv hm
 obtain ⟨⟨⟨⟨howned, hnone⟩, -, hgood⟩, hbuilt⟩, hgeneration⟩ := hm
 obtain ⟨hup, hundisturbed⟩ := hgood hgeneration
 rw [clients_cacheDriver hnone]
 have hsame : SameEvents m.registry { m.registry with
   clients := mapSet options.gatewayId ⟨driver, hashGatewayConfig F options, .remote⟩
    m.registry.clients } := ⟨rfl, rfl, rfl, rfl⟩
 have hconnects : LeavesConnects me m.registry { m.registry with
   clients := mapSet options.gatewayId ⟨driver, hashGatewayConfig F options, .remote⟩
    m.registry.clients } := by
  refine ⟨fun _ _ _ => Iff.rfl, fun g t hne hconnecting hlookup => ?_, fun _ _ _ _ h => h⟩
  have hg : g ≠ options.gatewayId := by
   rintro rfl
   exact hne (Option.some.inj (hconnecting.symm.trans howned))
  exact (lookup_mapSet_ne hg _ _).trans hlookup
 refine ⟨hinv.move hsame (.refl _) fun g entry hlookup => ?_,
  ⟨.refl _, hconnects, hsame.kept fun _ => Nat.le_refl _⟩,
  Owned me options.gatewayId, howned, hnext m⟩
 by_cases hg : g = options.gatewayId
 · subst hg
   have hentry := hlookup.symm.trans (lookup_mapSet_self _ _ _)
   cases hentry
   exact .inr ⟨options, readAt, hbuilt, rfl, rfl, hup, hundisturbed⟩
 · exact .inl ((lookup_mapSet_ne hg _ _).symm.trans hlookup)

theorem fresh_interviewAndCache {next : Bool → Work ν}
  (hnext : ∀ ok, KeepsFresh F me (next ok) (Owned me options.gatewayId)) :
  KeepsFresh F me
   (interviewAndCache options.gatewayId ⟨driver, hashGatewayConfig F options, .remote⟩ generation next)
   (Building F me readAt generation driver options) := by
 have hdone : ∀ ok, KeepsFresh F me (turn (next ok)) (Owned me options.gatewayId) := fun ok =>
  safe_turn owned_stable (hnext ok)
 refine fresh_discardIfInvalidated (hdone true) (Safe.mono ?_ fun _ _ h => h.1)
 refine blind_fresh.interviewUnlessDone building_stable fun interviewed => ?_
 cases interviewed with
 | none =>
  refine fresh_discardIfInvalidated (hdone true) (Safe.mono ?_ fun _ _ h => owned_of_building h.1)
  exact safe_driver steady_owned (fun _ => rfl) (hdone false)
 | some interviewedNow =>
  refine fresh_discardIfInvalidated (hdone true) (fresh_cacheDriver fun m => ?_)
  split
  · exact hdone true
  · exact safe_spawn owned_stable (fun t => blind_fresh.refreshIfStale (unborn_fresh t)) fun _ =>
     hdone true

theorem fresh_connect {next : Bool → Work ν}
  (hnext : ∀ ok, KeepsFresh F me (next ok) (Owned me options.gatewayId)) :
  KeepsFresh F me (connect F options readAt next) fun r =>
   Connecting me options.gatewayId r ∧ Good F options.gatewayId readAt options.settings r := by
 have hsteady : Steady fun r : Registry ν =>
   Connecting me options.gatewayId r ∧ Good F options.gatewayId readAt options.settings r := by
  intro r r' hsame _ hconnecting _ _ hclients h
  exact ⟨⟨hconnecting ▸ h.1.1, hclients _ h.1.2⟩, hsame.upToDate.2 h.2.1, hsame.undisturbed.2 h.2.2⟩
 refine fresh_openCall hsteady fun call => safe_disconnect_fresh hsteady (fun _ => rfl) ?_
 intro m' hinv hm
 refine ⟨hinv, Keeps.refl me _,
  Sampled F me options.gatewayId readAt (m'.registry.connectGeneration options.gatewayId)
  options.settings, ⟨hm.1, Nat.le_refl _, fun _ => hm.2⟩, fresh_create ?_ fun driver => ?_⟩
 · exact fresh_reportFailure owned_stable steady_owned
    (fresh_settleCall owned_stable steady_owned (hnext false))
    (fresh_settleCall owned_stable steady_owned (hnext false))
 · exact fresh_interviewAndCache fun ok => fresh_settleCall owned_stable steady_owned (hnext ok)

end Attempt

def Absent (gatewayId : ℕ) (r : Registry ν) : Prop :=
  r.clients.lookup gatewayId = none ∧ r.connecting.lookup gatewayId = none

theorem safe_connects {f : ℕ → Memory ν → Memory ν} {next : ℕ → Memory ν → Work ν}
  {Φ : Memory ν → Registry ν → Prop}
  (hf : ∀ m, ∃ connecting reading,
   (f me m).registry = { m.registry with connecting := connecting, reading := reading } ∧
   (Ψ m.registry →
    LeavesConnects me m.registry { m.registry with connecting := connecting, reading := reading }))
  (hΦ : ∀ m, AllFresh F m.registry → Ψ m.registry → Φ m (f me m).registry)
  (hnext : ∀ m, KeepsFresh F me (next me m) (Φ m)) : KeepsFresh F me (.sync f next) Ψ := by
 refine safe_move (fun m => ?_) (fun m g => ?_) (fun m => ?_) (fun m => ?_) (fun m hm => ?_) hΦ hnext
 all_goals obtain ⟨connecting, reading, hregistry, hleaves⟩ := hf m
 all_goals rw [hregistry]
 · exact ⟨rfl, rfl, rfl, rfl⟩
 · exact fun _ _ _ h => h
 · exact hleaves hm

theorem safe_arrive {next : Work ν} {Φ : Registry ν → Prop}
  (howned : ∀ r, Ψ r → Owned me gatewayId r)
  (hΦ : ∀ r reading, Ψ r → Φ { r with reading := reading }) (hnext : KeepsFresh F me next Φ) :
  KeepsFresh F me (act (fun m => { m with registry := { m.registry with
   reading := m.registry.reading.erase gatewayId } }) next) Ψ := by
 refine safe_connects (Φ := fun _ => Φ)
  (fun m => ⟨m.registry.connecting, m.registry.reading.erase gatewayId, rfl, fun hm => ?_⟩)
  (fun m _ hm => hΦ m.registry _ hm) fun _ => hnext
 refine ⟨fun _ _ _ => Iff.rfl, fun _ _ _ _ h => h, fun g t hne hconnecting hmem =>
  (List.mem_erase_of_ne ?_).2 hmem⟩
 rintro rfl
 exact hne (Option.some.inj (hconnecting.symm.trans (howned _ hm)))

theorem fresh_connectFromDb {next : Bool → Work ν}
  (hnext : ∀ ok, KeepsFresh F me (next ok) (Owned me gatewayId)) :
  KeepsFresh F me (connectFromDb F gatewayId next) (Connecting me gatewayId) := by
 refine safe_wait connecting_stable fun a => ?_
 split
 · exact (hnext false).mono fun _ _ h => h.1
 · have hleaves : ∀ m : Memory ν,
    LeavesConnects me m.registry { m.registry with reading := m.registry.reading ++ [gatewayId] } :=
    fun m => ⟨fun _ _ _ => Iff.rfl, fun _ _ _ _ h => h, fun _ _ _ _ h => List.mem_append_left _ h⟩
   refine safe_connects
    (fun m => ⟨m.registry.connecting, m.registry.reading ++ [gatewayId], rfl, fun _ => hleaves m⟩)
    (Φ := fun m r => Connecting me gatewayId r ∧ ∀ row, (m.registry.rows gatewayId).filter
     (fun row => row.enabled && row.deletedAt.isNone) = some row →
      Reading F me gatewayId m.registry.handled (row.options gatewayId).settings r)
    (fun m hinv hm =>
     ⟨hm, fun row hrow => ⟨hm, by simp, .inl ⟨row, (Option.filter_eq_some_iff.1 hrow).1, rfl⟩,
     Nat.le_refl _, fun i event hi hlt => absurd hi (Nat.not_le.2 hlt)⟩⟩) fun m => ?_
   cases hrow : (m.registry.rows gatewayId).filter fun row => row.enabled && row.deletedAt.isNone with
   | none =>
    refine ⟨Connecting me gatewayId, connecting_stable, fun _ _ h => h.1, fun b => ?_⟩
    refine safe_arrive (Φ := Owned me gatewayId) (fun _ h => h.1) (fun _ _ h => h.1) ?_
    split
    · exact hnext false
    · exact hnext false
   | some row =>
    refine ⟨Reading F me gatewayId m.registry.handled (row.options gatewayId).settings, reading_stable,
     fun _ _ h => h.2 row rfl, fun b => ?_⟩
    have harrived : ∀ (r : Registry ν) reading, Reading F me gatewayId m.registry.handled
     (row.options gatewayId).settings r →
      Connecting me gatewayId { r with reading := reading } ∧
       Good F gatewayId m.registry.handled (row.options gatewayId).settings
        { r with reading := reading } :=
     fun _ _ h => ⟨h.1, h.2.2⟩
    refine safe_arrive (Φ := fun r => Connecting me gatewayId r ∧
     Good F gatewayId m.registry.handled (row.options gatewayId).settings r) (fun _ h => h.1.1) harrived ?_
    split
    · exact (hnext false).mono fun _ _ h => h.1.1
    · exact fresh_connect hnext

theorem fresh_attempt (gatewayId t : ℕ) :
  KeepsFresh F t (attempt F gatewayId) fun r => (freshContract F).unborn t r ∧ Absent gatewayId r := by
 refine safe_connects
  (fun m => ⟨mapSet gatewayId t m.registry.connecting, m.registry.reading, rfl, fun hm => ?_⟩)
  (Φ := fun _ => Connecting t gatewayId) (fun m _ hm => ⟨lookup_mapSet_self _ _ _, hm.2.1⟩) fun m => ?_
 · refine ⟨fun g t' hne => ?_, fun _ _ _ _ h => h, fun _ _ _ _ h => h⟩
   by_cases hg : g = gatewayId
   · subst hg
     have hset : (mapSet g t m.registry.connecting).lookup g = some t := lookup_mapSet_self _ _ _
     rw [hset, hm.2.2]
     exact ⟨fun h => absurd (Option.some.inj h).symm hne, fun h => (by cases h)⟩
   · rw [lookup_mapSet_ne hg]
 · refine fresh_connectFromDb fun ok => safe_turn owned_stable ?_
   refine safe_connects
    (fun m' => ⟨mapDelete gatewayId m'.registry.connecting, m'.registry.reading, rfl, fun howned => ?_⟩)
    (Φ := fun _ _ => True) (fun _ _ _ => trivial) fun _ => safe_settle ok
   refine ⟨fun g t' hne => ?_, fun _ _ _ _ h => h, fun _ _ _ _ h => h⟩
   by_cases hg : g = gatewayId
   · subst hg
     have hgone : (mapDelete g m'.registry.connecting).lookup g = none := lookup_mapDelete_self _ _
     rw [hgone]
     exact ⟨fun h => (by cases h), fun h => absurd (Option.some.inj (h.symm.trans howned)) hne⟩
   · rw [lookup_mapDelete_ne hg]

theorem fresh_ensureConnected {next : Bool → Work ν} (hΨ : Stable (freshContract F) me Ψ)
  (hnext : ∀ ok, KeepsFresh F me (next ok) Ψ) :
  KeepsFresh F me (ensureConnected F gatewayId next) Ψ := by
 have habsent : ∀ gatewayId (m : Memory ν), m.registry.clients.lookup gatewayId = none →
   m.registry.connecting.lookup gatewayId = none → Absent gatewayId m.registry := fun _ _ => And.intro
 exact safe_ensureConnected blind_fresh habsent fresh_attempt hΨ hnext

end Programs

section Delivery

variable {ν : Type} {F : NumberFormat ν} {me : ℕ}

def take (m : Memory ν) : Memory ν :=
    { m with registry := { m.registry with handled := m.registry.handled + 1 } }

def deliver (F : NumberFormat ν) : Work ν :=
  look fun m => match m.registry.stream[m.registry.handled]? with
    | some event => handleConfigUpdate F event take
    | none => .settled .returned

def bumped (bumps : Bool) (gatewayId : ℕ) (r : Registry ν) : Registry ν :=
  if bumps then
    { r with connectGeneration := Function.update r.connectGeneration gatewayId (r.connectGeneration gatewayId + 1) }
  else r

def handled (bumps disconnects : Bool) (gatewayId : ℕ) (r : Registry ν) : Registry ν :=
  let left : Registry ν := if disconnects then dropClient gatewayId (bumped bumps gatewayId r) else
   bumped bumps gatewayId r
  { left with handled := left.handled + 1 }

theorem bumped_generation (bumps : Bool) (gatewayId g : ℕ) (r : Registry ν) :
  r.connectGeneration g ≤ (bumped bumps gatewayId r).connectGeneration g := by
 cases bumps with
 | false => exact Nat.le_refl _
 | true =>
  by_cases hg : g = gatewayId
  · subst hg
    simp [bumped]
  · exact Nat.le_of_eq (Function.update_of_ne hg _ _).symm

theorem bumped_self (gatewayId : ℕ) (r : Registry ν) :
  r.connectGeneration gatewayId < (bumped true gatewayId r).connectGeneration gatewayId := by
 simp [bumped]

theorem bumped_rest (bumps : Bool) (gatewayId : ℕ) (r : Registry ν) :
  ∃ generation, bumped bumps gatewayId r = { r with connectGeneration := generation } := by
 cases bumps with
 | false => exact ⟨r.connectGeneration, rfl⟩
 | true => exact ⟨_, rfl⟩

theorem handled_step {r : Registry ν} {event : GatewayConfigEvent} {bumps disconnects : Bool}
  (hr : AllFresh F r)
  (hnext : r.stream[r.handled]? = some event) (hunread : event.gatewayId ∉ r.reading)
  (hspared : disconnects = false → ∀ entry, r.clients.lookup event.gatewayId = some entry →
   ¬ Invalidates entry.configHash event)
  (hbumps : drops event = true → r.clients.lookup event.gatewayId = none → bumps = true) :
  AllFresh F (handled bumps disconnects event.gatewayId r) ∧
   Keeps F me r (handled bumps disconnects event.gatewayId r) := by
 have hgeneration := fun g => bumped_generation bumps event.gatewayId g r
 have hself := fun hdrops hnone => (hbumps hdrops hnone) ▸ bumped_self event.gatewayId r
 obtain ⟨generation, hbumped⟩ := bumped_rest bumps event.gatewayId r
 unfold handled
 rw [hbumped] at hgeneration hself ⊢
 cases disconnects with
 | false =>
  refine take_step hr ⟨rfl, hnext⟩ hunread rfl rfl rfl rfl rfl (fun _ _ _ h => h) hgeneration
   (fun g entry hlookup => ⟨hlookup, ?_⟩) hself
  rintro rfl
  exact hspared rfl entry hlookup
 | true =>
  have hdropped := dropped_dropClient event.gatewayId { r with connectGeneration := generation }
  refine take_step hr ⟨congrArg (· + 1) hdropped.same.handled, hnext⟩ hunread hdropped.same.rows
   hdropped.same.unpublished
   hdropped.same.stream hdropped.connecting hdropped.reading hdropped.drivers (fun g => ?_)
    (fun g entry hlookup => ?_)
   fun hdrops hnone => ?_
  · exact (hgeneration g).trans (Nat.le_of_eq (congrFun hdropped.generation g).symm)
  · obtain ⟨hne, hold⟩ := hdropped.lookup hlookup
    exact ⟨hold, fun hg => absurd hg hne⟩
  · exact (hself hdrops hnone).trans_eq (congrFun hdropped.generation event.gatewayId).symm

theorem safe_handled {f : Memory ν → Memory ν} {next : Work ν} {r : Registry ν}
  {event : GatewayConfigEvent}
  (bumps disconnects : Bool) (hnext : r.stream[r.handled]? = some event)
   (hunread : event.gatewayId ∉ r.reading)
  (hspared : disconnects = false → ∀ entry, r.clients.lookup event.gatewayId = some entry →
   ¬ Invalidates entry.configHash event)
  (hbumps : drops event = true → r.clients.lookup event.gatewayId = none → bumps = true)
  (hf : ∀ m, m.registry = r → (f m).registry = handled bumps disconnects event.gatewayId r)
  (hrest : KeepsFresh F me next fun _ => True) : KeepsFresh F me (act f next) (· = r) := by
 intro m hinv hm
 have hstep : AllFresh F (handled bumps disconnects event.gatewayId r) ∧
   Keeps F me r (handled bumps disconnects event.gatewayId r) := handled_step
    (hm ▸ hinv) hnext hunread hspared hbumps
 rw [hf m hm, hm]
 exact ⟨hstep.1, hstep.2, fun _ => True, trivial, hrest⟩

theorem fresh_handleConfigUpdate {r : Registry ν} {event : GatewayConfigEvent}
  (hnext : r.stream[r.handled]? = some event) (hunread : event.gatewayId ∉ r.reading) :
  KeepsFresh F me (handleConfigUpdate F event take) (· = r) := by
 intro m hinv hm
 subst hm
 refine ⟨hinv, Keeps.refl me _, (· = m.registry), rfl, ?_⟩
 have hremote : ∀ entry, m.registry.clients.lookup event.gatewayId = some entry →
  entry.origin = .remote := by
  intro entry hlookup
  obtain ⟨options, readAt, hfresh⟩ := hinv.2 _ _ hlookup
  exact hfresh.remote
 have hkept : ¬ (((m.registry.clients.lookup event.gatewayId).any (·.origin = .registered) &&
   (event.changeType == .updated || event.changeType == .reconnectRequested)) = true) := by
  cases hlookup : m.registry.clients.lookup event.gatewayId with
  | none => exact Bool.false_ne_true
  | some entry => simp [hremote entry hlookup]
 dsimp only
 rw [if_neg hkept]
 by_cases hends : ends event.changeType = true
 · rw [if_pos hends]
   refine safe_handled true true hnext hunread (fun h => by cases h) (fun _ _ =>
    rfl) (fun m' hm' => ?_) trivial
   have hleft := registry_disconnect event.gatewayId (bumpConnectGeneration event.gatewayId m')
   rw [← hm']
   exact congrArg (fun left : Registry ν => { left with handled := left.handled + 1 }) hleft
 · rw [if_neg hends]
   by_cases hreconnect : event.changeType = .reconnectRequested
   · rw [if_pos hreconnect]
     refine safe_handled false true hnext hunread (fun h => by cases h) (fun hdrops => ?_)
      (fun m' hm' => ?_)
      (fresh_ensureConnected (stable_true me) fun _ => trivial)
     · simp [drops, ends, hreconnect] at hdrops
     · have hleft := registry_disconnect event.gatewayId m'
       rw [← hm']
       exact congrArg (fun left : Registry ν => { left with handled := left.handled + 1 }) hleft
   · rw [if_neg hreconnect]
     refine safe_handled (decide (event.changeType = .updated) &&
       (m.registry.clients.lookup event.gatewayId).all (·.configHash ≠ event.configHash))
      ((m.registry.clients.lookup event.gatewayId).all (·.configHash ≠ event.configHash)) hnext hunread
      (fun hsame entry hlookup hinvalidates => ?_) (fun hdrops hnone => ?_) (fun m' hm' => ?_) trivial
     · rw [hlookup] at hsame
       rcases hinvalidates with hend | ⟨-, hhash⟩
       · exact hends hend
       · simp [Ne.symm hhash] at hsame
     · have hupdated : event.changeType = .updated := by
        rcases Bool.or_eq_true_iff.1 hdrops with hend | hupdated
        · exact absurd hend hends
        · exact eq_of_beq hupdated
       rw [hnone, hupdated]
       rfl
     · generalize (m.registry.clients.lookup event.gatewayId).all (·.configHash ≠ event.configHash)
        = changed
       rw [← hm']
       cases changed with
       | false =>
        rw [Bool.and_false]
        rfl
       | true =>
        cases decide (event.changeType = .updated) with
        | false =>
         exact congrArg (fun left : Registry ν => { left with handled := left.handled + 1 })
          (registry_disconnect event.gatewayId m')
        | true =>
         exact congrArg (fun left : Registry ν => { left with handled := left.handled + 1 })
          (registry_disconnect event.gatewayId { bumpConnectGeneration event.gatewayId m' with
           connectionChanged := event.gatewayId :: m'.connectionChanged.erase event.gatewayId })

end Delivery

section Runs

variable {ν : Type} (F : NumberFormat ν)

inductive LazyRequest where
  | resolve (gatewayId : ℕ) (capability : DataGatewayCapability)
  | searchRoute (gatewayId : ℕ)
  | disconnect (gatewayId : ℕ)
  | reportFailure (gatewayId : ℕ) (reason : GatewayAutoDisableReason)
  | reinterview (gatewayId : ℕ)
  | refreshInterview (gatewayId : ℕ)
  | deliver

def lazyProgram : LazyRequest → Work ν
  | .resolve gatewayId capability => program F (.resolve gatewayId capability)
  | .searchRoute gatewayId => program F (.searchRoute gatewayId)
  | .disconnect gatewayId => program F (.disconnect gatewayId)
  | .reportFailure gatewayId reason => program F (.reportFailure gatewayId reason)
  | .reinterview gatewayId => program F (.reinterview gatewayId)
  | .refreshInterview gatewayId => program F (.refreshInterview gatewayId)
  | .deliver => deliver F

def unread : LazyRequest → Memory ν → Bool
  | .deliver, m => (m.registry.stream[m.registry.handled]?).all fun event =>
   !m.registry.reading.contains event.gatewayId
  | .resolve _ _, _ | .searchRoute _, _ | .disconnect _, _ | .reportFailure _ _, _ | .reinterview _, _
  | .refreshInterview _, _ => true

variable {F}

theorem fresh_deliver {m : Memory ν} {t : ℕ} (h : unread .deliver m = true) :
  KeepsFresh F t (deliver F) (· = m.registry) := by
 intro m' hinv hm
 refine ⟨hinv, Keeps.refl t _, (· = m.registry), hm, ?_⟩
 dsimp only
 rw [hm]
 cases hnext : m.registry.stream[m.registry.handled]? with
 | none => trivial
 | some event =>
  refine fresh_handleConfigUpdate hnext fun hmem => ?_
  simp [unread, hnext, hmem] at h

theorem fresh_lazyProgram {request : LazyRequest} {m : Memory ν} {t : ℕ}
  (h : unread request m = true) :
  KeepsFresh F t (lazyProgram F request) (· = m.registry) := by
 have hstable := stable_true (C := freshContract F) t
 have hall : ∀ work : Work ν, KeepsFresh F t work (fun _ => True) → KeepsFresh F t work (· = m.registry) :=
  fun work hwork => hwork.mono fun _ _ _ => trivial
 have habsent : ∀ gatewayId (m : Memory ν), m.registry.clients.lookup gatewayId = none →
   m.registry.connecting.lookup gatewayId = none → Absent gatewayId m.registry := fun _ _ => And.intro
 cases request with
 | resolve gatewayId capability =>
  exact hall _ (safe_resolve blind_fresh habsent fresh_attempt hstable gatewayId capability)
 | searchRoute gatewayId =>
  exact hall _ (safe_searchRoute blind_fresh habsent fresh_attempt hstable gatewayId)
 | disconnect gatewayId => exact hall _ (safe_disconnect_fresh steady_true (fun _ => rfl) trivial)
 | reportFailure gatewayId reason =>
  exact hall _ (fresh_reportFailure hstable steady_true (safe_settle false) (safe_settle true))
 | reinterview gatewayId =>
  exact hall _ (safe_reinterview blind_fresh habsent fresh_attempt hstable gatewayId)
 | refreshInterview gatewayId => exact hall _ (safe_refreshInterview blind_fresh hstable gatewayId)
 | deliver => exact fresh_deliver h

theorem fresh_sound :
  Sound Memory.registry (freshContract F) (lazyProgram F) unread (elsewhere F) where
 unborn := unborn_fresh
 safe _ m _ h _ := ⟨(· = m.registry), fun _ => rfl, fresh_lazyProgram h⟩
 outside _ _ _ h hinv := elsewhere_step h hinv

structure Quiet (r : Registry ν) (gatewayId : ℕ) : Prop where
  connecting : r.connecting.lookup gatewayId = none
  published : ∀ event ∈ r.unpublished, event.gatewayId ≠ gatewayId
  handled : ∀ event ∈ r.stream.drop r.handled, event.gatewayId ≠ gatewayId

/-- A cached driver has its row's settings once nothing is under way, and they
    were read after the last time its gateway was disabled or deleted. -/
def NoStale (r : Registry ν) : Prop :=
  ∀ gatewayId entry, r.clients.lookup gatewayId = some entry → ∃ record options,
    r.drivers[entry.driver]? = some record ∧ record.options = some options ∧
    (Quiet r gatewayId → Current r gatewayId options.settings) ∧
    ∀ (i : ℕ) event, r.stream[i]? = some event → i < r.handled → event.gatewayId = gatewayId →
     ends event.changeType = true →
      i < record.readAt

theorem AllFresh.noStale {r : Registry ν} (h : AllFresh F r) : NoStale r := by
 intro gatewayId entry hlookup
 obtain ⟨options, readAt, ⟨record, hbuilt, hoptions, hread⟩, -, -, hup, hundisturbed⟩ :=
  h.2 gatewayId entry hlookup
 refine ⟨record, options, hbuilt, hoptions, fun hquiet => ?_, fun i event hevent hlt hgateway hends => ?_⟩
 · rcases hup with hcurrent | ⟨event, hunpub | hqueued, hgateway, -⟩
   · exact hcurrent
   · exact absurd hgateway (hquiet.published event hunpub)
   · exact absurd hgateway (hquiet.handled event hqueued)
 · rw [hread]
   by_contra hge
   have hkept := hundisturbed.2 i event (Nat.not_lt.1 hge) hlt hevent hgateway
   rw [hends] at hkept
   cases hkept

/-- No stale driver survives, in a run whose events all wait for the reads of
    their gateway's row. -/
theorem no_stale_driver {rows : ℕ → Option (DataGateway ν)} {answers : ℕ → InterviewAnswers}
    {s : Sys (Memory ν) Answer Outcome}
    (h : Reachable (lazyProgram F) unread (elsewhere F) (started rows answers) s) :
    NoStale s.memory.registry := by
 have hstart : AllFresh F (started rows answers).registry :=
  ⟨Nat.le_refl _, fun gatewayId entry hlookup => by simp [started] at hlookup⟩
 exact (reachable_meets fresh_sound hstart
  (fun t gatewayId hconnecting => by simp [started] at hconnecting) h).inv.noStale

end Runs

section Samples

def moved : GatewayConfigEvent :=
    ⟨1, hashGatewayConfig literalFormat ((sampleRow 50052).options 1), .updated⟩

/-- The row changes after a lazy connect has read it, and the event of the
    change is handled once the row has arrived. The next one connects afresh. -/
def handledAfter : List (Action LazyRequest Answer (Elsewhere Literal)) :=
  [[.call (.resolve 1 .search)], replies 0 3, replies 1 1,
    [.outside (.commit 1 (.updated (sampleRow 50052))), .outside (.publish moved)], replies 1 1,
    [.call .deliver], replies 1 5, [.call (.resolve 1 .search)], replies 3 3, replies 4 10].flatten

def handledBefore : List (Action LazyRequest Answer (Elsewhere Literal)) :=
  [[.call (.resolve 1 .search)], replies 0 3, replies 1 1,
    [.outside (.commit 1 (.updated (sampleRow 50052))), .outside (.publish moved)],
     [.call .deliver], replies 1 9].flatten

def ports (s : Sys (Memory Literal) Answer Outcome) : List (ℕ × ℕ) × List (Option ℕ) × Option ℕ :=
  let registry := s.memory.registry
  (registry.clients.map fun client => (client.1, client.2.driver),
    registry.drivers.map fun record => record.options.map (·.connectionPort),
     (registry.rows 1).map (·.connectionPort))

def atRest (s : Sys (Memory Literal) Answer Outcome) : Bool :=
  let registry := s.memory.registry
  registry.connecting.isEmpty && registry.unpublished.isEmpty && registry.stream.length ≤ registry.handled

theorem quiet_of_atRest {s : Sys (Memory Literal) Answer Outcome} (h : atRest s = true)
  (gatewayId : ℕ) :
  Quiet s.memory.registry gatewayId := by
 simp only [atRest, Bool.and_eq_true, List.isEmpty_iff, decide_eq_true_eq] at h
 obtain ⟨⟨hconnecting, hunpublished⟩, hhandled⟩ := h
 refine ⟨by rw [hconnecting]; rfl, fun event hevent => ?_, fun event hevent => ?_⟩
 · rw [hunpublished] at hevent
   cases hevent
 · rw [List.drop_eq_nil_of_le hhandled] at hevent
   cases hevent

theorem no_stale_driver_moved : ∃ s : Sys (Memory Literal) Answer Outcome,
    ports s = ([(1, 1)], [some 50051, some 50052], some 50052) ∧ NoStale s.memory.registry := by
 have hrun : (run (lazyProgram literalFormat) unread (elsewhere literalFormat)
  ⟨sampleStart, []⟩ handledAfter).map ports =
   some ([(1, 1)], [some 50051, some 50052], some 50052) := by decide +kernel
 obtain ⟨s, hs, hports⟩ := Option.map_eq_some_iff.1 hrun
 exact ⟨s, hports, no_stale_driver (reachable_of_run .start hs)⟩

/-- Handled during a read, an update does not reach what the read brings. -/
theorem stale_driver_kept : ¬ ∀ s : Sys (Memory Literal) Answer Outcome,
    Reachable (lazyProgram literalFormat) always (elsewhere literalFormat) sampleStart s →
     NoStale s.memory.registry := by
 intro h
 have hrun : (run (lazyProgram literalFormat) always (elsewhere literalFormat)
  ⟨sampleStart, []⟩ handledBefore).map
   (fun s => (s.memory.registry.clients.lookup 1,
    (s.memory.registry.drivers[0]?.bind (·.options)).map (·.connectionPort),
    (s.memory.registry.rows 1).map (·.connectionPort), atRest s)) =
   some (some ⟨0, hashGatewayConfig literalFormat ((sampleRow 50051).options 1), .remote⟩,
    some 50051, some 50052, true) := by
  decide +kernel
 obtain ⟨s, hs, hstate⟩ := Option.map_eq_some_iff.1 hrun
 obtain ⟨hlookup, hdriver, hrow, hrest⟩ : _ ∧ _ ∧ _ ∧ _ := by simpa only [Prod.mk.injEq] using hstate
 obtain ⟨record, options, hbuilt, hoptions, hcurrent, -⟩ := h s (reachable_of_run .start hs) 1 _ hlookup
 obtain ⟨row, hrow', hsettings⟩ := hcurrent (quiet_of_atRest hrest 1)
 rw [hbuilt, Option.bind_some, hoptions] at hdriver
 rw [hrow'] at hrow
 have hport : row.connectionPort = options.connectionPort :=
  congrArg ConnectionSettings.connectionPort hsettings
 rw [Option.map_some, Option.some.injEq] at hdriver hrow
 omega

end Samples

end BoardGamesEmpire.GatewayDriver
