import BoardGamesEmpire.GatewayDrivers

set_option autoImplicit false

/-!
# What a config event invalidates

A process connects its gateways lazily, from rows it reads, while the rows
change and the events of the changes arrive later. A cached driver has the
settings of the row, or an event that will drop it is still to come, as long as
no event is handled between a read of the row and its arrival.
-/
namespace BoardGamesEmpire.GatewayDriver
open JsText JsonText AsyncTasks

section Contract

variable {ν : Type} (F : NumberFormat ν)

def Current (r : Registry ν) (gatewayId : ℕ) (settings : ConnectionSettings ν) : Prop :=
  ∃ row, r.rows gatewayId = some row ∧ (row.options gatewayId).settings = settings

def Unhandled (r : Registry ν) (event : GatewayConfigEvent) : Prop :=
  event ∈ r.unpublished ∨ event ∈ r.stream.drop r.handled

def Invalidates (hash : Text) (event : GatewayConfigEvent) : Prop :=
  ends event.changeType = true ∨ event.changeType = .updated ∧ event.configHash ≠ hash

def UpToDate (r : Registry ν) (gatewayId : ℕ) (settings : ConnectionSettings ν) : Prop :=
  Current r gatewayId settings ∨
    ∃ event, Unhandled r event ∧ event.gatewayId = gatewayId ∧ Invalidates (settings.hash F) event

def Undisturbed (r : Registry ν) (gatewayId since : ℕ) : Prop :=
  since ≤ r.handled ∧ ∀ i event, since ≤ i → i < r.handled → r.stream[i]? = some event →
   event.gatewayId = gatewayId →
    ends event.changeType = false

/-- The settings a driver was built from, and the events handled before they
    were read. -/
def BuiltFrom (r : Registry ν) (driver : ℕ) (options : GatewayConnectionOptions ν) (readAt : ℕ) : Prop :=
  ∃ record, r.drivers[driver]? = some record ∧ record.options = some options ∧ record.readAt = readAt

structure Fresh (r : Registry ν) (gatewayId : ℕ) (entry : CachedDriver)
    (options : GatewayConnectionOptions ν)
    (readAt : ℕ) : Prop where
  built : BuiltFrom r entry.driver options readAt
  hash : entry.configHash = hashGatewayConfig F options
  remote : entry.origin = .remote
  upToDate : UpToDate F r gatewayId options.settings
  undisturbed : Undisturbed r gatewayId readAt

def AllFresh (r : Registry ν) : Prop :=
  r.handled ≤ r.stream.length ∧ ∀ gatewayId entry, r.clients.lookup gatewayId = some entry →
    ∃ options readAt, Fresh F r gatewayId entry options readAt

def Takes (r r' : Registry ν) (event : GatewayConfigEvent) : Prop :=
  r'.handled = r.handled + 1 ∧ r.stream[r.handled]? = some event

def drops (event : GatewayConfigEvent) : Bool := ends event.changeType || event.changeType == .updated

def DriversKept (r r' : Registry ν) : Prop :=
  ∀ driver options readAt, BuiltFrom r driver options readAt → BuiltFrom r' driver options readAt

structure LeavesConnects (me : ℕ) (r r' : Registry ν) : Prop where
  connecting : ∀ gatewayId t, t ≠ me →
   (r'.connecting.lookup gatewayId = some t ↔ r.connecting.lookup gatewayId = some t)
  clients : ∀ gatewayId t, t ≠ me → r.connecting.lookup gatewayId = some t →
   r.clients.lookup gatewayId = none →
    r'.clients.lookup gatewayId = none
  reading : ∀ gatewayId t, t ≠ me → r.connecting.lookup gatewayId = some t → gatewayId ∈ r.reading →
   gatewayId ∈ r'.reading

/-- What happens to the events: one may be handled, whose gateway has no read
    under way, and a connect of that gateway can tell. -/
structure EventsKept (r r' : Registry ν) : Prop where
  generation : ∀ gatewayId, r.connectGeneration gatewayId ≤ r'.connectGeneration gatewayId
  published : ∃ more, r'.stream = r.stream ++ more
  handled : r'.handled = r.handled ∨ ∃ event, Takes r r' event ∧ event.gatewayId ∉ r.reading ∧
    (drops event = true → r.clients.lookup event.gatewayId = none →
      r.connectGeneration event.gatewayId < r'.connectGeneration event.gatewayId)
  upToDate : ∀ gatewayId settings, UpToDate F r gatewayId settings → UpToDate F r' gatewayId settings ∨
    ∃ event, Takes r r' event ∧ event.gatewayId = gatewayId ∧ drops event = true

structure Keeps (me : ℕ) (r r' : Registry ν) : Prop where
  drivers : DriversKept r r'
  connects : LeavesConnects me r r'
  events : EventsKept F r r'

structure Beside (r r' : Registry ν) : Prop where
  clients : r'.clients = r.clients
  drivers : r'.drivers = r.drivers
  connecting : r'.connecting = r.connecting
  reading : r'.reading = r.reading
  handled : r'.handled = r.handled
  events : EventsKept F r r'

def freshContract : Contract (Registry ν) (Elsewhere ν) where
  inv := AllFresh F
  moves := Keeps F
  outside _ := Beside F
  unborn t r := ∀ gatewayId, r.connecting.lookup gatewayId ≠ some t

variable {F} {r r' : Registry ν} {me gatewayId driver readAt since generation : ℕ}
  {options : GatewayConnectionOptions ν} {settings : ConnectionSettings ν}

theorem stream_before (h : EventsKept F r r') {i : ℕ} {event : GatewayConfigEvent}
  (hi : i < r.stream.length) :
  r'.stream[i]? = some event ↔ r.stream[i]? = some event := by
 obtain ⟨more, hmore⟩ := h.published
 rw [hmore, List.getElem?_append_left hi]

theorem handled_le (h : EventsKept F r r') : r.handled ≤ r'.handled := by
 rcases h.handled with hsame | ⟨event, htakes, -⟩
 · omega
 · have hnext := htakes.1
   omega

theorem Undisturbed.keep (hlength : r.handled ≤ r.stream.length) (h : EventsKept F r r')
  (hr : Undisturbed r gatewayId since)
  (hother : ∀ event, Takes r r' event → event.gatewayId = gatewayId → ends event.changeType = false) :
  Undisturbed r' gatewayId since := by
 obtain ⟨hsince, hquiet⟩ := hr
 refine ⟨Nat.le_trans hsince (handled_le h), fun i event hi hlt hevent hgateway => ?_⟩
 rcases Nat.lt_or_ge i r.handled with hold | hnew
 · exact hquiet i event hi hold ((stream_before h (by omega)).1 hevent) hgateway
 · rcases h.handled with hsame | ⟨event', htakes, -⟩
   · omega
   · have hnext := htakes.1
     obtain rfl : i = r.handled := by omega
     have hbefore := (List.getElem?_eq_some_iff.1 htakes.2).1
     have hevent' := (stream_before h hbefore).1 hevent
     exact hother event ⟨hnext, hevent'⟩ hgateway

theorem UpToDate.keep (h : EventsKept F r r') (hr : UpToDate F r gatewayId settings)
  (hother : ∀ event, Takes r r' event → event.gatewayId = gatewayId → drops event = false) :
  UpToDate F r' gatewayId settings := by
 rcases h.upToDate gatewayId settings hr with hkept | ⟨event, htakes, hgateway, hdrops⟩
 · exact hkept
 · rw [hother event htakes hgateway] at hdrops
   cases hdrops

theorem ends_of_drops {event : GatewayConfigEvent} (h : drops event = false) :
  ends event.changeType = false :=
 (Bool.or_eq_false_iff.1 h).1

def Connecting (me gatewayId : ℕ) (r : Registry ν) : Prop :=
  r.connecting.lookup gatewayId = some me ∧ r.clients.lookup gatewayId = none

/-- What is known of settings that were read: they stand, unless the generation
    has moved on. -/
def Good (F : NumberFormat ν) (gatewayId readAt : ℕ) (settings : ConnectionSettings ν)
    (r : Registry ν) : Prop :=
  UpToDate F r gatewayId settings ∧ Undisturbed r gatewayId readAt

def Reading (F : NumberFormat ν) (me gatewayId readAt : ℕ) (settings : ConnectionSettings ν)
    (r : Registry ν) : Prop :=
  Connecting me gatewayId r ∧ gatewayId ∈ r.reading ∧ Good F gatewayId readAt settings r

def Sampled (F : NumberFormat ν) (me gatewayId readAt generation : ℕ)
    (settings : ConnectionSettings ν) (r : Registry ν) :
    Prop :=
  Connecting me gatewayId r ∧ generation ≤ r.connectGeneration gatewayId ∧
    (r.connectGeneration gatewayId = generation → Good F gatewayId readAt settings r)

def Building (F : NumberFormat ν) (me readAt generation driver : ℕ) (options : GatewayConnectionOptions ν)
    (r : Registry ν) : Prop :=
  Sampled F me options.gatewayId readAt generation options.settings r ∧ BuiltFrom r driver options readAt

def Owned (me gatewayId : ℕ) (r : Registry ν) : Prop := r.connecting.lookup gatewayId = some me

theorem owned_keep {j : ℕ} (hne : j ≠ me) (h : Keeps F j r r') (hr : Owned me gatewayId r) :
  Owned me gatewayId r' :=
 (h.connects.connecting gatewayId me (Ne.symm hne)).2 hr

theorem owned_stable : Stable (freshContract F) me (Owned me gatewayId) where
 moves _ _ _ hne _ hmoves hr := owned_keep hne hmoves hr
 outside _ _ _ _ hout hr := by rw [Owned, hout.connecting]; exact hr

theorem connecting_keep {j : ℕ} (hne : j ≠ me) (h : Keeps F j r r') (hr : Connecting me gatewayId r) :
  Connecting me gatewayId r' :=
 ⟨owned_keep hne h hr.1, h.connects.clients gatewayId me (Ne.symm hne) hr.1 hr.2⟩

theorem connecting_beside (h : Beside F r r') (hr : Connecting me gatewayId r) :
  Connecting me gatewayId r' := by
 rw [Connecting, h.connecting, h.clients]
 exact hr

theorem connecting_stable : Stable (freshContract F) me (Connecting me gatewayId) where
 moves _ _ _ hne _ hmoves hr := connecting_keep hne hmoves hr
 outside _ _ _ _ hout hr := connecting_beside hout hr

theorem not_takes (h : Beside F r r') (event : GatewayConfigEvent) : ¬ Takes r r' event := by
 intro htakes
 have hsame := h.handled
 have hnext := htakes.1
 omega

theorem Good.keep (hlength : r.handled ≤ r.stream.length) (h : EventsKept F r r')
  (hr : Good F gatewayId readAt settings r)
  (hother : ∀ event, Takes r r' event → event.gatewayId = gatewayId → drops event = false) :
  Good F gatewayId readAt settings r' :=
 ⟨hr.1.keep h hother, hr.2.keep hlength h fun event htakes hgateway =>
  ends_of_drops (hother event htakes hgateway)⟩

theorem Good.beside (hlength : r.handled ≤ r.stream.length) (h : Beside F r r')
  (hr : Good F gatewayId readAt settings r) :
  Good F gatewayId readAt settings r' :=
 hr.keep hlength h.events fun event htakes => absurd htakes (not_takes h event)

theorem reading_stable : Stable (freshContract F) me (Reading F me gatewayId readAt settings) where
 moves j r r' hne hinv hmoves hr := by
  obtain ⟨hconnecting, hreading, hgood⟩ := hr
  refine ⟨connecting_keep hne hmoves hconnecting,
   hmoves.connects.reading gatewayId me (Ne.symm hne) hconnecting.1 hreading, ?_⟩
  refine hgood.keep hinv.1 hmoves.events fun event htakes hgateway => ?_
  rcases hmoves.events.handled with hsame | ⟨event', htakes', hunread, -⟩
  · have hnext := htakes.1
    omega
  · obtain rfl := Option.some.inj (htakes.2.symm.trans htakes'.2)
    rw [hgateway] at hunread
    exact absurd hreading hunread
 outside _ r r' hinv hout hr :=
  ⟨connecting_beside hout hr.1, hout.reading ▸ hr.2.1, hr.2.2.beside hinv.1 hout⟩

theorem sampled_stable :
  Stable (freshContract F) me (Sampled F me gatewayId readAt generation settings) where
 moves j r r' hne hinv hmoves hr := by
  obtain ⟨hconnecting, hgeneration, hgood⟩ := hr
  have hmono := hmoves.events.generation gatewayId
  refine ⟨connecting_keep hne hmoves hconnecting, by omega, fun hsame => ?_⟩
  refine (hgood (by omega)).keep hinv.1 hmoves.events fun event htakes hgateway => ?_
  rcases hmoves.events.handled with hkept | ⟨event', htakes', -, hbumps⟩
  · have hnext := htakes.1
    omega
  · obtain rfl := Option.some.inj (htakes.2.symm.trans htakes'.2)
    subst hgateway
    cases hdrops : drops event with
    | false => rfl
    | true =>
     have hbump := hbumps hdrops hconnecting.2
     omega
 outside _ r r' hinv hout hr := by
  obtain ⟨hconnecting, hgeneration, hgood⟩ := hr
  have hmono := hout.events.generation gatewayId
  exact ⟨connecting_beside hout hconnecting, by omega, fun hsame => (hgood (by omega)).beside hinv.1 hout⟩

theorem building_stable :
  Stable (freshContract F) me (Building F me readAt generation driver options) where
 moves j r r' hne hinv hmoves hr :=
  ⟨sampled_stable.moves j r r' hne hinv hmoves hr.1, hmoves.drivers driver options readAt hr.2⟩
 outside e r r' hinv hout hr := by
  refine ⟨sampled_stable.outside e r r' hinv hout hr.1, ?_⟩
  rw [BuiltFrom, hout.drivers]
  exact hr.2

theorem unborn_fresh (t : ℕ) : Stable (freshContract F) t ((freshContract F).unborn t) where
 moves j r r' hne _ hmoves hr gatewayId hconnecting :=
  hr gatewayId ((hmoves.connects.connecting gatewayId t (by omega)).1 hconnecting)
 outside _ r r' _ hout hr gatewayId hconnecting := by
  rw [hout.connecting] at hconnecting
  exact hr gatewayId hconnecting

end Contract

section Steps

variable {ν : Type} {F : NumberFormat ν} {r r' : Registry ν} {me gatewayId driver : ℕ}

structure SameEvents (r r' : Registry ν) : Prop where
  rows : r'.rows = r.rows
  unpublished : r'.unpublished = r.unpublished
  stream : r'.stream = r.stream
  handled : r'.handled = r.handled

theorem SameEvents.upToDate (h : SameEvents r r') {settings : ConnectionSettings ν} :
  UpToDate F r' gatewayId settings ↔ UpToDate F r gatewayId settings := by
 unfold UpToDate Current Unhandled
 rw [h.rows, h.unpublished, h.stream, h.handled]

theorem SameEvents.undisturbed (h : SameEvents r r') {since : ℕ} :
  Undisturbed r' gatewayId since ↔ Undisturbed r gatewayId since := by
 unfold Undisturbed
 rw [h.stream, h.handled]

theorem SameEvents.kept (h : SameEvents r r')
  (hgeneration : ∀ gatewayId, r.connectGeneration gatewayId ≤ r'.connectGeneration gatewayId) :
  EventsKept F r r' where
 generation := hgeneration
 published := ⟨[], by rw [h.stream, List.append_nil]⟩
 handled := .inl h.handled
 upToDate _ _ hr := .inl (h.upToDate.2 hr)

theorem Fresh.move {entry : CachedDriver} {options : GatewayConnectionOptions ν} {readAt : ℕ}
  (h : SameEvents r r') (hdrivers : DriversKept r r')
  (hr : Fresh F r gatewayId entry options readAt) :
   Fresh F r' gatewayId entry options readAt :=
 ⟨hdrivers _ _ _ hr.built, hr.hash, hr.remote, h.upToDate.2 hr.upToDate, h.undisturbed.2 hr.undisturbed⟩

theorem AllFresh.move (h : SameEvents r r') (hdrivers : DriversKept r r')
  (hclients : ∀ gatewayId entry, r'.clients.lookup gatewayId = some entry →
   r.clients.lookup gatewayId = some entry ∨
   ∃ options readAt, Fresh F r gatewayId entry options readAt) (hr : AllFresh F r) : AllFresh F r' := by
 refine ⟨by rw [h.handled, h.stream]; exact hr.1, fun gatewayId entry hlookup => ?_⟩
 have hfresh : ∃ options readAt, Fresh F r gatewayId entry options readAt := by
  rcases hclients gatewayId entry hlookup with hold | hnew
  · exact hr.2 gatewayId entry hold
  · exact hnew
 obtain ⟨options, readAt, hfresh⟩ := hfresh
 exact ⟨options, readAt, hfresh.move h hdrivers⟩

theorem DriversKept.refl (r : Registry ν) : DriversKept r r := fun _ _ _ h => h

theorem driversKept_closeDriver : DriversKept r (closeDriver driver r) := by
 rintro d options readAt ⟨record, hbuilt, hoptions, hread⟩
 by_cases hd : driver = d
 · subst hd
   refine ⟨{ record with disposed := true }, ?_, hoptions, hread⟩
   rw [closeDriver, List.getElem?_modify_eq, hbuilt]
   rfl
 · exact ⟨record, (List.getElem?_modify_ne _ _ hd).trans hbuilt, hoptions, hread⟩

theorem driversKept_append {record : DriverRecord ν} :
  DriversKept r { r with drivers := r.drivers ++ [record] } := by
 rintro d options readAt ⟨old, hbuilt, hrest⟩
 exact ⟨old, (List.getElem?_append_left (List.getElem?_eq_some_iff.1 hbuilt).1).trans hbuilt, hrest⟩

theorem leavesConnects_of (hconnecting : r'.connecting = r.connecting)
  (hreading : r'.reading = r.reading)
  (hclients : ∀ gatewayId, r.clients.lookup gatewayId = none → r'.clients.lookup gatewayId = none) :
  LeavesConnects me r r' where
 connecting _ _ _ := by rw [hconnecting]
 clients gatewayId _ _ _ := hclients gatewayId
 reading _ _ _ _ h := hreading ▸ h

theorem Keeps.refl (me : ℕ) (r : Registry ν) : Keeps F me r r :=
 ⟨.refl r, leavesConnects_of rfl rfl fun _ h => h, SameEvents.kept ⟨rfl, rfl, rfl, rfl⟩ fun _ =>
  Nat.le_refl _⟩

theorem blind_fresh : Blind (ν := ν) Memory.registry (freshContract F) where
 view _ _ h := h
 refl j r _ := Keeps.refl j r
 unborn := unborn_fresh

def dropClient (gatewayId : ℕ) (r : Registry ν) : Registry ν :=
  match r.clients.lookup gatewayId with
  | some cached => { closeDriver cached.driver r with clients := mapDelete gatewayId r.clients }
  | none => r

theorem registry_disconnect (gatewayId : ℕ) (m : Memory ν) :
  (disconnect gatewayId m).registry = dropClient gatewayId m.registry := by
 unfold disconnect dropClient
 cases m.registry.clients.lookup gatewayId with
 | some cached => rfl
 | none => rfl

structure Dropped (gatewayId : ℕ) (r r' : Registry ν) : Prop where
  same : SameEvents r r'
  generation : r'.connectGeneration = r.connectGeneration
  connecting : r'.connecting = r.connecting
  reading : r'.reading = r.reading
  drivers : DriversKept r r'
  gone : r'.clients.lookup gatewayId = none
  others : ∀ other, other ≠ gatewayId → r'.clients.lookup other = r.clients.lookup other

theorem dropped_dropClient (gatewayId : ℕ) (r : Registry ν) :
  Dropped gatewayId r (dropClient gatewayId r) := by
 unfold dropClient
 cases hlookup : r.clients.lookup gatewayId with
 | some cached =>
  exact ⟨⟨rfl, rfl, rfl, rfl⟩, rfl, rfl, rfl, driversKept_closeDriver, lookup_mapDelete_self _ _,
   fun other hne => lookup_mapDelete_ne hne _⟩
 | none => exact ⟨⟨rfl, rfl, rfl, rfl⟩, rfl, rfl, rfl, .refl r, hlookup, fun _ _ => rfl⟩

theorem Dropped.lookup (h : Dropped gatewayId r r') {other : ℕ} {entry : CachedDriver}
  (hlookup : r'.clients.lookup other = some entry) :
  other ≠ gatewayId ∧ r.clients.lookup other = some entry := by
 have hne : other ≠ gatewayId := by
  rintro rfl
  rw [h.gone] at hlookup
  cases hlookup
 exact ⟨hne, (h.others other hne).symm.trans hlookup⟩

theorem Dropped.none (h : Dropped gatewayId r r') {other : ℕ}
  (hlookup : r.clients.lookup other = none) :
  r'.clients.lookup other = none := by
 by_cases hne : other = gatewayId
 · subst hne
   exact h.gone
 · exact (h.others other hne).trans hlookup

theorem Dropped.keeps (h : Dropped gatewayId r r') : Keeps F me r r' :=
 ⟨h.drivers, leavesConnects_of h.connecting h.reading fun _ hnone => h.none hnone,
  h.same.kept fun _ => by rw [h.generation]⟩

theorem Dropped.allFresh (h : Dropped gatewayId r r') (hr : AllFresh F r) : AllFresh F r' :=
 hr.move h.same h.drivers fun _ _ hlookup => .inl (h.lookup hlookup).2

theorem unhandled_take {event other : GatewayConfigEvent}
  (hunpublished : r'.unpublished = r.unpublished) (hstream : r'.stream = r.stream)
  (htakes : Takes r r' event) (hne : other ≠ event) (h : Unhandled r other) :
  Unhandled r' other := by
 obtain ⟨hhandled, hnext⟩ := htakes
 rcases h with hunpub | hqueued
 · exact .inl (hunpublished ▸ hunpub)
 · refine .inr ?_
   obtain ⟨hlt, hget⟩ := List.getElem?_eq_some_iff.1 hnext
   rw [List.drop_eq_getElem_cons hlt, hget] at hqueued
   rw [hstream, hhandled]
   exact (List.mem_cons.1 hqueued).resolve_left hne

variable {event : GatewayConfigEvent}

theorem take_step (hr : AllFresh F r) (htakes : Takes r r' event)
  (hunread : event.gatewayId ∉ r.reading) (hrows : r'.rows = r.rows)
   (hunpublished : r'.unpublished = r.unpublished)
  (hstream : r'.stream = r.stream) (hconnecting : r'.connecting = r.connecting)
   (hreading : r'.reading = r.reading)
  (hdrivers : DriversKept r r')
  (hgeneration : ∀ gatewayId, r.connectGeneration gatewayId ≤ r'.connectGeneration gatewayId)
  (hclients : ∀ gatewayId entry, r'.clients.lookup gatewayId = some entry →
   r.clients.lookup gatewayId = some entry ∧
   (gatewayId = event.gatewayId → ¬ Invalidates entry.configHash event))
  (hbumps : drops event = true → r.clients.lookup event.gatewayId = none →
   r.connectGeneration event.gatewayId < r'.connectGeneration event.gatewayId) :
  AllFresh F r' ∧ Keeps F me r r' := by
 have hupToDate : ∀ gatewayId settings, UpToDate F r gatewayId settings →
   (gatewayId = event.gatewayId → ¬ Invalidates (settings.hash F) event) →
    UpToDate F r' gatewayId settings := by
  rintro gatewayId settings (hcurrent | ⟨other, hunhandled, rfl, hinvalidates⟩) hspared
  · exact .inl (by rw [Current, hrows]; exact hcurrent)
  · refine .inr ⟨other, unhandled_take hunpublished hstream htakes ?_ hunhandled, rfl, hinvalidates⟩
    rintro rfl
    exact hspared rfl hinvalidates
 have hevents : EventsKept F r r' := by
  refine ⟨hgeneration, ⟨[], by rw [hstream, List.append_nil]⟩,
   .inr ⟨event, htakes, hunread, hbumps⟩, fun g settings hup => ?_⟩
  by_cases hg : g = event.gatewayId
  · cases hdrops : drops event with
    | true => exact .inr ⟨event, htakes, hg.symm, hdrops⟩
    | false =>
     refine .inl (hupToDate g settings hup fun _ hinvalidates => ?_)
     obtain ⟨hends, hupdated⟩ := Bool.or_eq_false_iff.1 hdrops
     rcases hinvalidates with hend | ⟨hup', -⟩
     · rw [hends] at hend
       cases hend
     · rw [hup'] at hupdated
       cases hupdated
  · exact .inl (hupToDate g settings hup fun h => absurd h hg)
 have hnone : ∀ gatewayId, r.clients.lookup gatewayId = none → r'.clients.lookup gatewayId = none := by
  intro g hg
  cases hlookup : r'.clients.lookup g with
  | none => rfl
  | some entry =>
   rw [(hclients g entry hlookup).1] at hg
   cases hg
 refine ⟨⟨?_, fun g entry hlookup => ?_⟩, hdrivers, leavesConnects_of hconnecting hreading hnone, hevents⟩
 · have hlt := (List.getElem?_eq_some_iff.1 htakes.2).1
   rw [htakes.1, hstream]
   omega
 · obtain ⟨hold, hspared⟩ := hclients g entry hlookup
   obtain ⟨options, readAt, hfresh⟩ := hr.2 g entry hold
   refine ⟨options, readAt, hdrivers _ _ _ hfresh.built, hfresh.hash, hfresh.remote,
    hupToDate g _ hfresh.upToDate fun hg => ?_,
     hfresh.undisturbed.keep hr.1 hevents fun event' htakes' hg => ?_⟩
   · have hspared' := hspared hg
     rw [hfresh.hash] at hspared'
     exact hspared'
   · obtain rfl := Option.some.inj (htakes.2.symm.trans htakes'.2)
     have hspared' := hspared hg.symm
     cases hends : ends event.changeType with
     | true => exact absurd (.inl hends) hspared'
     | false => rfl

theorem Beside.keeps (h : Beside F r r') : Keeps F me r r' where
 drivers d options readAt := by rw [BuiltFrom, BuiltFrom, h.drivers]; exact id
 connects := leavesConnects_of h.connecting h.reading fun _ hnone => by rw [h.clients]; exact hnone
 events := h.events

theorem beside_step (hr : AllFresh F r) (hclients : r'.clients = r.clients)
  (hdrivers : r'.drivers = r.drivers) (hconnecting : r'.connecting = r.connecting)
  (hreading : r'.reading = r.reading) (hhandled : r'.handled = r.handled)
  (hgeneration : r'.connectGeneration = r.connectGeneration)
  (hstream : ∃ more, r'.stream = r.stream ++ more)
  (hupToDate : ∀ gatewayId settings, UpToDate F r gatewayId settings → UpToDate F r' gatewayId settings) :
  AllFresh F r' ∧ Beside F r r' := by
 have hevents : EventsKept F r r' :=
  ⟨fun g => by rw [hgeneration], hstream, .inl hhandled, fun g settings h => .inl (hupToDate g settings h)⟩
 have hbeside : Beside F r r' := ⟨hclients, hdrivers, hconnecting, hreading, hhandled, hevents⟩
 refine ⟨⟨?_, fun g entry hlookup => ?_⟩, hbeside⟩
 · obtain ⟨more, hmore⟩ := hstream
   have hlength := hr.1
   rw [hhandled, hmore, List.length_append]
   omega
 · rw [hclients] at hlookup
   obtain ⟨options, readAt, hfresh⟩ := hr.2 g entry hlookup
   refine ⟨options, readAt, ?_, hfresh.hash, hfresh.remote, hupToDate g _ hfresh.upToDate, ?_⟩
   · rw [BuiltFrom, hdrivers]
     exact hfresh.built
   · exact hfresh.undisturbed.keep hr.1 hevents fun event htakes => absurd htakes (not_takes hbeside event)

theorem current_update {row : DataGateway ν} {settings : ConnectionSettings ν} {g : ℕ}
  (hrows : r'.rows = Function.update r.rows gatewayId (some row)) (h : Current r g settings)
  (hrow : g = gatewayId → (row.options gatewayId).settings = settings) : Current r' g settings := by
 by_cases hg : g = gatewayId
 · subst hg
   exact ⟨row, by rw [hrows, Function.update_self], hrow rfl⟩
 · obtain ⟨old, hold, hsettings⟩ := h
   exact ⟨old, by rw [hrows, Function.update_of_ne hg]; exact hold, hsettings⟩

theorem commit_step {row : DataGateway ν} (hr : AllFresh F r)
  (hevent : event.gatewayId = gatewayId) (hchanged : ∀ settings, Current r gatewayId settings →
   (row.options gatewayId).settings = settings ∨ Invalidates (settings.hash F) event) :
  let r' := { r with rows := Function.update r.rows gatewayId (some row), unpublished := r.unpublished ++ [event] }
  AllFresh F r' ∧ Beside F r r' := by
 refine beside_step hr rfl rfl rfl rfl rfl rfl ⟨[], (List.append_nil _).symm⟩ fun g settings hup => ?_
 rcases hup with hcurrent | ⟨other, hunpub | hqueued, hgateway, hinvalidates⟩
 · by_cases hg : g = gatewayId
   · subst hg
     rcases hchanged settings hcurrent with hsame | hinvalidates
     · exact .inl (current_update rfl hcurrent fun _ => hsame)
     · exact .inr ⟨event, .inl (by simp), hevent, hinvalidates⟩
   · exact .inl (current_update rfl hcurrent fun h => absurd h hg)
 · exact .inr ⟨other, .inl (List.mem_append_left _ hunpub), hgateway, hinvalidates⟩
 · exact .inr ⟨other, .inr hqueued, hgateway, hinvalidates⟩

theorem publish_step {m : Memory ν} (hr : AllFresh F m.registry) :
  AllFresh F (publish event m).registry ∧ Beside F m.registry (publish event m).registry := by
 refine beside_step hr rfl rfl rfl rfl rfl rfl ⟨[event], rfl⟩ fun g settings hup => ?_
 rcases hup with hcurrent | ⟨other, hunhandled, hgateway, hinvalidates⟩
 · exact .inl hcurrent
 · refine .inr ⟨other, ?_, hgateway, hinvalidates⟩
   have hdrop : (m.registry.stream ++ [event]).drop m.registry.handled = m.registry.stream.drop
    m.registry.handled ++ [event] :=
    List.drop_append_of_le_length hr.1
   rcases hunhandled with hunpub | hqueued
   · by_cases hsame : other = event
     · exact .inr (by rw [publish, hdrop, hsame]; simp)
     · exact .inl ((List.mem_erase_of_ne hsame).2 hunpub)
   · exact .inr (by rw [publish, hdrop]; exact List.mem_append_left _ hqueued)

theorem disableRow_step {m : Memory ν} (hr : AllFresh F m.registry) :
  AllFresh F (disableRow gatewayId m).registry ∧
   Beside F m.registry (disableRow gatewayId m).registry := by
 refine beside_step hr rfl rfl rfl rfl rfl rfl ⟨[], (List.append_nil _).symm⟩ fun g settings hup => ?_
 rcases hup with ⟨row, hrow, hsettings⟩ | ⟨other, hunpub | hqueued, hgateway, hinvalidates⟩
 · by_cases hg : g = gatewayId
   · subst hg
     exact .inl ⟨{ row with enabled := false }, by simp [disableRow, hrow], hsettings⟩
   · exact .inl ⟨row, (Function.update_of_ne hg _ _).trans hrow, hsettings⟩
 · exact .inr ⟨other, .inl (List.mem_append_left _ hunpub), hgateway, hinvalidates⟩
 · exact .inr ⟨other, .inr hqueued, hgateway, hinvalidates⟩

theorem elsewhere_step {e : Elsewhere ν} {m m' : Memory ν} (h : elsewhere F e m = some m')
  (hr : AllFresh F m.registry) :
  AllFresh F m'.registry ∧ Beside F m.registry m'.registry := by
 have hrefl : AllFresh F m.registry ∧ Beside F m.registry m.registry :=
  beside_step hr rfl rfl rfl rfl rfl rfl ⟨[], (List.append_nil _).symm⟩ fun _ _ => id
 cases e with
 | commit gatewayId change =>
  obtain ⟨⟨row, event⟩, happly, rfl⟩ := Option.map_eq_some_iff.1 h
  cases hold : m.registry.rows gatewayId with
  | none =>
   rw [hold] at happly
   cases change with
   | created row' =>
    cases happly
    refine commit_step hr rfl fun settings hcurrent => ?_
    obtain ⟨old, hrow, -⟩ := hcurrent
    rw [hold] at hrow
    cases hrow
   | updated row' => cases happly
   | disabled => cases happly
   | deleted now => cases happly
  | some old =>
   rw [hold] at happly
   have hcurrent : ∀ settings, Current m.registry gatewayId settings →
    (old.options gatewayId).settings = settings := by
    intro settings hcurrent
    obtain ⟨row', hrow, hsettings⟩ := hcurrent
    rw [hold] at hrow
    cases hrow
    exact hsettings
   cases change with
   | created row' => cases happly
   | updated row' =>
    cases happly
    refine commit_step hr rfl fun settings _ => ?_
    by_cases hhash : hashGatewayConfig F (row.options gatewayId) = settings.hash F
    · exact .inl (hash_injective F hhash)
    · exact .inr (.inr ⟨rfl, hhash⟩)
   | disabled =>
    cases happly
    exact commit_step hr rfl fun settings h => .inl (hcurrent settings h)
   | deleted now =>
    cases happly
    exact commit_step hr rfl fun settings h => .inl (hcurrent settings h)
 | reconnect gatewayId =>
  obtain rfl := Option.some.inj h
  refine beside_step hr rfl rfl rfl rfl rfl rfl ⟨[], (List.append_nil _).symm⟩ fun g settings hup => ?_
  rcases hup with hcurrent | ⟨other, hunpub | hqueued, hrest⟩
  · exact .inl hcurrent
  · exact .inr ⟨other, .inl (List.mem_append_left _ hunpub), hrest⟩
  · exact .inr ⟨other, .inr hqueued, hrest⟩
 | publish event =>
  rw [elsewhere] at h
  split at h
  · obtain rfl := Option.some.inj h
    exact publish_step hr
  · cases h
 | interviewed gatewayId answers =>
  obtain rfl := Option.some.inj h
  exact hrefl
 | time ms =>
  obtain rfl := Option.some.inj h
  exact hrefl

end Steps

section Programs

variable {ν : Type} {F : NumberFormat ν} {me gatewayId : ℕ} {Ψ : Registry ν → Prop}

abbrev KeepsFresh (F : NumberFormat ν) (me : ℕ) (work : Work ν) (Ψ : Registry ν → Prop) : Prop :=
  Safe Memory.registry (freshContract F) me work Ψ

theorem safe_move {f : ℕ → Memory ν → Memory ν} {next : ℕ → Memory ν → Work ν}
  {Φ : Memory ν → Registry ν → Prop}
  (hsame : ∀ m, SameEvents m.registry (f me m).registry)
  (hgeneration : ∀ m gatewayId, m.registry.connectGeneration gatewayId ≤
   (f me m).registry.connectGeneration gatewayId)
  (hclients : ∀ m, (f me m).registry.clients = m.registry.clients)
  (hdrivers : ∀ m, DriversKept m.registry (f me m).registry)
  (hconnects : ∀ m, Ψ m.registry → LeavesConnects me m.registry (f me m).registry)
  (hΦ : ∀ m, AllFresh F m.registry → Ψ m.registry → Φ m (f me m).registry)
  (hnext : ∀ m, KeepsFresh F me (next me m) (Φ m)) : KeepsFresh F me (.sync f next) Ψ := by
 intro m hinv hm
 refine ⟨?_, ⟨hdrivers m, hconnects m hm, (hsame m).kept (hgeneration m)⟩, Φ m, hΦ m hinv hm, hnext m⟩
 exact AllFresh.move (hsame m) (hdrivers m)
  (fun _ _ hlookup => .inl (by rw [hclients m] at hlookup; exact hlookup)) hinv

def Steady (Ψ : Registry ν → Prop) : Prop :=
  ∀ r r' : Registry ν, SameEvents r r' → r'.connectGeneration = r.connectGeneration →
   r'.connecting = r.connecting →
    r'.reading = r.reading → DriversKept r r' →
      (∀ gatewayId, r.clients.lookup gatewayId = none → r'.clients.lookup gatewayId = none) → Ψ r → Ψ r'

theorem steady_true : Steady fun _ : Registry ν => True := fun _ _ _ _ _ _ _ _ _ => trivial

theorem steady_owned : Steady (ν := ν) (Owned me gatewayId) := by
 intro r r' _ _ hconnecting _ _ _ h
 rw [Owned, hconnecting]
 exact h

theorem steady_sampled {readAt generation : ℕ} {settings : ConnectionSettings ν} :
  Steady (Sampled F me gatewayId readAt generation settings) := by
 intro r r' hsame hgeneration hconnecting _ _ hclients h
 obtain ⟨⟨howned, hnone⟩, hle, hgood⟩ := h
 refine ⟨⟨hconnecting ▸ howned, hclients _ hnone⟩, hgeneration ▸ hle, fun h => ?_⟩
 rw [hgeneration] at h
 exact ⟨hsame.upToDate.2 (hgood h).1, hsame.undisturbed.2 (hgood h).2⟩

theorem safe_aside {f : ℕ → Memory ν → Memory ν} {next : ℕ → Memory ν → Work ν} (hΨ : Steady Ψ)
  (hf : ∀ m, ∃ drivers calls, (f me m).registry = { m.registry with drivers := drivers, calls := calls } ∧
   DriversKept m.registry { m.registry with drivers := drivers, calls := calls })
  (hnext : ∀ m, KeepsFresh F me (next me m) Ψ) : KeepsFresh F me (.sync f next) Ψ := by
 have hsame : ∀ m, SameEvents m.registry (f me m).registry := by
  intro m
  obtain ⟨drivers, calls, hregistry, -⟩ := hf m
  rw [hregistry]
  exact ⟨rfl, rfl, rfl, rfl⟩
 have hdrivers : ∀ m, DriversKept m.registry (f me m).registry := by
  intro m
  obtain ⟨drivers, calls, hregistry, hkept⟩ := hf m
  rw [hregistry]
  exact hkept
 have hrest : ∀ m, (f me m).registry.clients = m.registry.clients ∧
  (f me m).registry.connecting = m.registry.connecting ∧
   (f me m).registry.reading = m.registry.reading ∧
    (f me m).registry.connectGeneration = m.registry.connectGeneration := by
  intro m
  obtain ⟨drivers, calls, hregistry, -⟩ := hf m
  rw [hregistry]
  exact ⟨rfl, rfl, rfl, rfl⟩
 refine safe_move (Φ := fun _ => Ψ) hsame (fun m g => by rw [(hrest m).2.2.2])
  (fun m => (hrest m).1) hdrivers (fun m _ => ?_)
  (fun m _ hm => ?_) hnext
 · exact leavesConnects_of (hrest m).2.1 (hrest m).2.2.1 fun _ hnone => by rw [(hrest m).1]; exact hnone
 · exact hΨ _ _ (hsame m) (hrest m).2.2.2 (hrest m).2.1 (hrest m).2.2.1 (hdrivers m)
    (fun _ hnone => by rw [(hrest m).1]; exact hnone) hm

theorem safe_drop {f : ℕ → Memory ν → Memory ν} {next : ℕ → Memory ν → Work ν} (hΨ : Steady Ψ)
  (hf : ∀ m, (f me m).registry = dropClient gatewayId m.registry)
  (hnext : ∀ m, KeepsFresh F me (next me m) Ψ) :
  KeepsFresh F me (.sync f next) Ψ := by
 intro m hinv hm
 have hdropped := dropped_dropClient gatewayId m.registry
 rw [hf m]
 exact ⟨hdropped.allFresh hinv, hdropped.keeps, Ψ,
  hΨ _ _ hdropped.same hdropped.generation hdropped.connecting
  hdropped.reading hdropped.drivers (fun _ hnone => hdropped.none hnone) hm, hnext m⟩

end Programs

end BoardGamesEmpire.GatewayDriver
