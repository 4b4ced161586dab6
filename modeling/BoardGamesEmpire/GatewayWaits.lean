import BoardGamesEmpire.GatewayRegistry

set_option autoImplicit false

/-!
# What asking a gateway leaves alone

The interview and the routing decisions change nothing that decides which
driver is cached, so they keep to every contract about that, whatever is known
while they wait.
-/
namespace BoardGamesEmpire.GatewayDriver
open JsText JsonText AsyncTasks

section Waits

variable {ν K E : Type} {π : Memory ν → K} {C : Contract K E}

/-- The contract looks at the registry only, and a step that changes nothing
    keeps to it. -/
structure Blind (π : Memory ν → K) (C : Contract K E) : Prop where
  view : ∀ m m' : Memory ν, m'.registry = m.registry → π m' = π m
  refl : ∀ j k, C.inv k → C.moves j k k
  unborn : ∀ t, Stable C t (C.unborn t)

variable {me : ℕ} {Ψ : K → Prop}

theorem Blind.sync (hblind : Blind π C) {f : ℕ → Memory ν → Memory ν} {next : ℕ → Memory ν → Work ν}
  (hf : ∀ m, (f me m).registry = m.registry) (hnext : ∀ m, Safe π C me (next me m) Ψ) :
  Safe π C me (.sync f next) Ψ :=
 safe_quiet (fun m => hblind.view m _ (hf m)) (fun k hk => hblind.refl me k hk) fun m _ => hnext m

theorem Blind.act (hblind : Blind π C) {f : Memory ν → Memory ν} {next : Work ν}
  (hf : ∀ m, (f m).registry = m.registry) (hnext : Safe π C me next Ψ) :
  Safe π C me (act f next) Ψ :=
 hblind.sync hf fun _ => hnext

theorem Blind.look (hblind : Blind π C) {next : Memory ν → Work ν}
  (hnext : ∀ m, Safe π C me (next m) Ψ) : Safe π C me (look next) Ψ :=
 hblind.sync (fun _ => rfl) hnext

theorem safe_turn (hΨ : Stable C me Ψ) {next : Work ν} (hnext : Safe π C me next Ψ) :
  Safe π C me (turn next) Ψ :=
 safe_wait hΨ fun _ => hnext

theorem Blind.dbRead (hblind : Blind π C) (hΨ : Stable C me Ψ) {α : Type} {query : Memory ν → α}
  {failed : Work ν} {next : α → Work ν} (hfailed : Safe π C me failed Ψ)
  (hnext : ∀ a, Safe π C me (next a) Ψ) :
  Safe π C me (dbRead query failed next) Ψ := by
 refine safe_wait hΨ fun a => ?_
 split
 · exact hfailed
 · refine hblind.look fun m => safe_wait hΨ fun b => ?_
   split
   · exact hfailed
   · exact hnext _

theorem Blind.dbWrite (hblind : Blind π C) (hΨ : Stable C me Ψ) {matched : Memory ν → Bool}
  {write : Memory ν → Memory ν} {failed : Work ν} {next : Bool → Work ν}
  (hwrite : ∀ m, (write m).registry = m.registry) (hfailed : Safe π C me failed Ψ)
  (hnext : ∀ found, Safe π C me (next found) Ψ) :
  Safe π C me (dbWrite matched write failed next) Ψ := by
 refine safe_wait hΨ fun a => ?_
 split
 · exact hfailed
 · refine hblind.sync (fun m => ?_) fun m => safe_wait hΨ fun b => ?_
   · by_cases hm : matched m = true
     · rw [if_pos hm, hwrite m]
     · rw [if_neg hm]
   · split
     · exact hfailed
     · exact hnext _

variable {signal gatewayId : ℕ}

theorem Blind.firstAnswer (hblind : Blind π C) (hΨ : Stable C me Ψ) {failed : Work ν}
  {next : Answer → Work ν} (hfailed : Safe π C me failed Ψ) (hnext : ∀ a, Safe π C me (next a) Ψ) :
  Safe π C me (firstAnswer signal failed next) Ψ := by
 refine hblind.look fun m => ?_
 split
 · exact hfailed
 · refine safe_wait hΨ fun a => ?_
   split
   · exact hfailed
   · exact hnext a

theorem Blind.ask (hblind : Blind π C) (hΨ : Stable C me Ψ) {threw : Work ν}
  {next : Answer → Work ν} (hthrew : Safe π C me threw Ψ) (hnext : ∀ a, Safe π C me (next a) Ψ) :
  Safe π C me (ask signal threw next) Ψ := by
 refine hblind.firstAnswer hΨ (hblind.look fun m => ?_) hnext
 split
 · exact hthrew
 · exact safe_wait hΨ fun _ => hthrew

theorem Blind.store (hblind : Blind π C) (hΨ : Stable C me Ψ)
  {capabilities : List DataGatewayCapability} {version : Option Text} {interviewedAt : ℕ}
  {next : Bool → Work ν} (hnext : ∀ ok, Safe π C me (next ok) Ψ) (attempts : ℕ) : ∀ before,
   Safe π C me (store gatewayId signal capabilities version interviewedAt next attempts before) Ψ := by
 induction attempts with
 | zero => exact fun _ => hnext false
 | succ attempts ih =>
  intro before
  refine hblind.look fun m => ?_
  split
  · exact hnext false
  · refine hblind.dbWrite hΨ (fun _ => rfl) (hnext false) fun written => ?_
    split
    · exact hnext true
    · refine hblind.dbRead hΨ (hnext false) fun current => ?_
      split
      · exact ih current.2
      · exact hnext false

theorem Blind.conductInterview (hblind : Blind π C) (hΨ : Stable C me Ψ)
  {knownPing : Option Answer} {next : Bool → Work ν} (hnext : ∀ ok, Safe π C me (next ok) Ψ) :
  Safe π C me (conductInterview gatewayId signal knownPing next) Ψ := by
 refine hblind.dbRead hΨ (hnext false) fun row => ?_
 split
 · have hdescribe : ∀ ping : Answer, Safe π C me (GatewayDriver.ask signal (next false) fun description =>
     GatewayDriver.look fun m => GatewayDriver.store gatewayId signal (declared description)
      (reported ping) m.clock next
      storeAttempts row.2) Ψ := fun ping =>
    hblind.ask hΨ (hnext false) fun description => hblind.look fun m => hblind.store hΨ hnext _ _
   cases knownPing with
   | some ping => exact hdescribe ping
   | none => exact hblind.ask hΨ (hnext false) hdescribe
 · exact hnext false

theorem Blind.startOrJoin (hblind : Blind π C) (hΨ : Stable C me Ψ) {gatewayId driver : ℕ}
  {knownPing : Option Answer} {next : Bool → Work ν} (hnext : ∀ ok, Safe π C me (next ok) Ψ) :
  Safe π C me (startOrJoin gatewayId driver knownPing next) Ψ := by
 refine hblind.look fun m => ?_
 cases m.inFlight.lookup gatewayId with
 | some attempt => exact safe_join hΨ fun outcome => hnext _
 | none =>
  refine hblind.sync (fun _ => rfl) fun m' => safe_spawn hΨ (fun t => ?_) fun t => ?_
  · refine hblind.conductInterview (hblind.unborn t) fun ok => safe_turn (hblind.unborn t) ?_
    refine hblind.sync (fun m'' => ?_) fun _ => trivial
    split <;> rfl
  · exact hblind.act (fun _ => rfl) (safe_join hΨ fun outcome => hnext _)

theorem Blind.interviewUnlessDone (hblind : Blind π C) (hΨ : Stable C me Ψ) {gatewayId driver : ℕ}
  {next : Option Bool → Work ν} (hnext : ∀ result, Safe π C me (next result) Ψ) :
  Safe π C me (interviewUnlessDone gatewayId driver next) Ψ := by
 refine hblind.sync (fun _ => rfl) fun m => ?_
 have hleft : ∀ result, Safe π C me (GatewayDriver.act (fun m' : Memory ν =>
   { m' with lookups := m'.lookups.filter (·.signal ≠ m.signals) }) (turn (next result))) Ψ :=
  fun result => hblind.act (fun _ => rfl) (safe_turn hΨ (hnext result))
 refine hblind.dbRead hΨ (hleft none) fun done => ?_
 split
 · exact hleft _
 · refine hblind.look fun m' => ?_
   split
   · exact hleft none
   · exact hblind.act (fun _ => rfl) (hblind.startOrJoin hΨ fun ok => safe_turn hΨ (hnext _))

theorem Blind.refreshIfStale (hblind : Blind π C) (hΨ : Stable C me Ψ) {gatewayId driver : ℕ}
  {changed : Bool} :
  Safe π C me (refreshIfStale gatewayId driver changed) Ψ := by
 refine hblind.look fun m => ?_
 split
 · exact trivial
 · refine hblind.sync (fun _ => rfl) fun m' => ?_
   have hdone : Safe π C me (GatewayDriver.act (fun m : Memory ν =>
     { m with checks := m.checks.filter (·.driver ≠ driver) }) (.settled .returned)) Ψ :=
    hblind.act (fun _ => rfl) trivial
   refine hblind.dbRead hΨ hdone fun row => ?_
   split
   · refine hblind.firstAnswer hΨ hdone fun ping => hblind.look fun m'' => ?_
     split
     · split
       · exact hdone
       · exact hblind.startOrJoin hΨ fun _ => hdone
     · exact hdone
   · exact hdone

end Waits

section Routing

variable {ν K E : Type} {π : Memory ν → K} {C : Contract K E} {F : NumberFormat ν} {me : ℕ} {Ψ : K → Prop}

theorem safe_settle (ok : Bool) : Safe π C me (settle ok) Ψ := by
 trivial

theorem safe_answerWith (driver : Option ℕ) : Safe π C me (answerWith driver) Ψ := by
 trivial

variable {Absent : ℕ → K → Prop} (hblind : Blind π C)
  (habsent : ∀ gatewayId (m : Memory ν), m.registry.clients.lookup gatewayId = none →
    m.registry.connecting.lookup gatewayId = none → Absent gatewayId (π m))
  (hattempt : ∀ gatewayId t, Safe π C t (attempt F gatewayId) fun k => C.unborn t k ∧ Absent gatewayId k)
  (hΨ : Stable C me Ψ)

include hblind habsent hattempt hΨ

theorem safe_ensureConnected {gatewayId : ℕ} {next : Bool → Work ν}
  (hnext : ∀ ok, Safe π C me (next ok) Ψ) :
  Safe π C me (ensureConnected F gatewayId next) Ψ := by
 intro m hinv hm
 refine ⟨hinv, hblind.refl me _ hinv, ?_⟩
 dsimp only
 cases hcached : m.registry.clients.lookup gatewayId with
 | some cached =>
  rw [Option.isSome_some, if_pos rfl]
  exact ⟨Ψ, hm, safe_turn hΨ (hnext true)⟩
 | none =>
  rw [Option.isSome_none, if_neg Bool.false_ne_true]
  cases hconnecting : m.registry.connecting.lookup gatewayId with
  | some task => exact ⟨Ψ, hm, safe_join hΨ fun outcome => safe_turn hΨ (hnext _)⟩
  | none =>
   refine ⟨fun k => Ψ k ∧ Absent gatewayId k, ⟨hm, habsent gatewayId m hcached hconnecting⟩,
    fun t => ?_, Ψ, hΨ,
    fun _ _ h => h.1, fun t => safe_join hΨ fun outcome => safe_turn hΨ (hnext _)⟩
   exact (hattempt gatewayId t).mono fun _ _ h => ⟨h.1, h.2.2⟩

theorem safe_driverFor {gatewayId : ℕ} {next : Option ℕ → Work ν}
  (hnext : ∀ driver, Safe π C me (next driver) Ψ) :
  Safe π C me (driverFor F gatewayId next) Ψ := by
 refine hblind.look fun m => ?_
 cases m.registry.clients.lookup gatewayId with
 | some cached => exact safe_turn hΨ (hnext _)
 | none =>
  refine safe_ensureConnected hblind habsent hattempt hΨ fun ok => ?_
  cases ok with
  | true => exact hblind.look fun m' => safe_turn hΨ (hnext _)
  | false => exact safe_turn hΨ (hnext none)

theorem safe_resolve (gatewayId : ℕ) (capability : DataGatewayCapability) :
  Safe π C me (resolve F gatewayId capability) Ψ := by
 have hrouted : ∀ routed : Bool,
  Safe π C me (if routed then driverFor F gatewayId answerWith else settle false) Ψ := by
  intro routed
  cases routed with
  | true => exact safe_driverFor hblind habsent hattempt hΨ safe_answerWith
  | false => exact safe_settle false
 unfold resolve routedRow
 dsimp only
 refine hblind.dbRead hΨ (hrouted false) fun row => ?_
 split
 · refine safe_ensureConnected hblind habsent hattempt hΨ fun ok => ?_
   cases ok with
   | true =>
    rw [if_pos rfl]
    refine hblind.dbRead hΨ (hrouted false) fun row' => ?_
    exact safe_turn hΨ (hrouted _)
   | false => exact hrouted false
 · exact safe_turn hΨ (hrouted _)

theorem safe_searchRoute (gatewayId : ℕ) : Safe π C me (searchRoute F gatewayId) Ψ := by
 refine hblind.dbRead hΨ (safe_settle false) fun row => ?_
 split
 · trivial
 · refine safe_wait hΨ fun a => ?_
   split
   · exact safe_driverFor hblind habsent hattempt hΨ safe_answerWith
   · trivial

theorem safe_reinterview (gatewayId : ℕ) : Safe π C me (reinterview F gatewayId) Ψ := by
 refine hblind.dbRead hΨ (safe_settle false) fun row => ?_
 split
 · exact safe_settle false
 · refine hblind.look fun m => ?_
   split
   · refine safe_ensureConnected hblind habsent hattempt hΨ fun ok => ?_
     cases ok with
     | true => exact hblind.look fun m' => safe_settle _
     | false => exact safe_settle false
   · refine safe_driverFor hblind habsent hattempt hΨ fun driver => ?_
     cases driver with
     | some driver => exact hblind.startOrJoin hΨ safe_settle
     | none => exact safe_settle false

omit habsent hattempt in
theorem safe_refreshInterview (gatewayId : ℕ) : Safe π C me (refreshInterview gatewayId) Ψ := by
 refine hblind.look fun m => ?_
 cases m.registry.clients.lookup gatewayId with
 | some cached => exact hblind.refreshIfStale hΨ
 | none => trivial

end Routing

end BoardGamesEmpire.GatewayDriver
