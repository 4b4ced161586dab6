import BoardGamesEmpire.BootSequence

set_option autoImplicit false

/-!
# Boots take turns

What a sequence did is judged by its history, newest event first; what its lock
is worth, by the connections the server knows.
-/
namespace BoardGamesEmpire.BootSequence
open JsText JsonText PhasedCalls

section History

/-- Whether the sequence took the lock and neither handed it back nor was told
    of its loss. -/
def lockWord : List Event → Bool
  | [] => false
  | .acquired :: _ => true
  | .releasing :: _ | .lossReported :: _ => false
  | .raised _ :: past | .read _ _ :: past | .started _ :: past => lockWord past

def releaseOwed : List Event → Bool
  | [] => false
  | .acquired :: _ => true
  | .releasing :: _ => false
  | .lossReported :: past | .raised _ :: past | .read _ _ :: past | .started _ :: past => releaseOwed past

def lastRead : List Event → Option MigrationState
  | [] => none
  | .read state _ :: _ => some state
  | .acquired :: past | .releasing :: past | .lossReported :: past | .raised _ :: past | .started
   _ :: past => lastRead past

def firstRaised : List Event → Option BootError
  | [] => none
  | .raised error :: past => firstRaised past <|> some error
  | .acquired :: past | .releasing :: past | .lossReported :: past | .read _ _ :: past | .started
   _ :: past => firstRaised past

def MigrationState.UpToDate (state : MigrationState) : Prop := state.failed = [] ∧ state.pending = []

def Work.Ready : Work → MigrationState → Prop
  | .migrate, state => state.failed = [] ∧ state.pending ≠ []
  | .seeds, state | .dataMigrations, state => state.UpToDate ∧ state.unknown = []

def Early (deadlineAt : ℕ) (history : List Event) : Prop :=
  ∀ state t, .read state t ∈ history → state.kind = .behind ∧ t < deadlineAt

def Rested (pollMs deadlineAt : ℕ) (history : List Event) (now : ℕ) : Prop :=
  ∀ state t, .read state t ∈ history → min (t + pollMs) deadlineAt ≤ now

/-- Every write phase starts in a build with a migrator, under a lock that was
    taken and not reported lost, on the read it needs. Reads happen under the
    lock too, and no lock is taken before the last one's release. A build
    without a migrator reads again only before its deadline, and a poll later. -/
def Orderly (options : Options) (deadlineAt : ℕ) : List Event → Prop
  | [] => True
  | .acquired :: past => lockWord past = false ∧ releaseOwed past = false ∧ Orderly options deadlineAt past
  | .releasing :: past | .lossReported :: past | .raised _ :: past => Orderly options deadlineAt past
  | .read _ t :: past => lockWord past = true ∧
      (options.migrator = false → Early deadlineAt past ∧ Rested options.schemaPollMs deadlineAt past t) ∧
      Orderly options deadlineAt past
  | .started work :: past => options.migrator = true ∧ lockWord past = true ∧
      (∃ state, lastRead past = some state ∧ work.Ready state) ∧ Orderly options deadlineAt past

def Phase.inside : Phase → Bool
  | .reading | .working _ _ | .rereading _ => true
  | _ => false

def Phase.error : Phase → Option BootError
  | .failing _ error | .threw error => some error
  | _ => none

def Phase.left : Phase → Bool
  | .closing _ | .failing _ _ | .returned | .threw _ => true
  | _ => false

def Phase.ended : Phase → Bool
  | .returned | .threw _ => true
  | _ => false

def Phase.resumes (now : ℕ) : Phase → Option ℕ
  | .sleeping wake => some wake
  | .connecting | .attempting _ | .namingHolder _ | .reading => some now
  | _ => none

def Stage (migrator : Bool) (last : Option MigrationState) : Phase → Prop
  | .working .migrate _ | .rereading _ => migrator = true
  | .working .seeds _ | .working .dataMigrations _ => migrator = true ∧ ∃ state, last = some state ∧
   state.UpToDate ∧ state.unknown = []
  | .closing _ | .returned => ∃ state, last = some state ∧ state.UpToDate
  | _ => True

def MigrationState.Classified (state : MigrationState) :
    Prop := state.kind = kindOf state.pending state.unknown state.failed

theorem MigrationState.Classified.behind {state : MigrationState} (h : state.Classified)
  (hkind : state.kind = .behind) :
  Work.Ready .migrate state := by
 rw [Classified, hkind, kindOf] at h
 split_ifs at h with hfailed hpending
 exact ⟨not_not.1 hfailed, hpending⟩

theorem MigrationState.Classified.upToDate {state : MigrationState} (h : state.Classified)
  (hkind : state.kind = .inSync ∨ state.kind = .ahead) : state.UpToDate := by
 rw [h, kindOf] at hkind
 split_ifs at hkind with hfailed hpending
 all_goals simp_all [UpToDate]

theorem MigrationState.Classified.inSync {state : MigrationState} (h : state.Classified)
  (hkind : state.kind = .inSync) :
  state.UpToDate ∧ state.unknown = [] := by
 refine ⟨h.upToDate (.inl hkind), ?_⟩
 rw [Classified, hkind, kindOf] at h
 split_ifs at h with hfailed hpending hunknown
 exact not_not.1 hunknown

end History

section Sound

variable {s s' : Server} {b b' : Boot}

def Server.lockAt (s : Server) (c : ℕ) : Option LockWait := (s.connections[c]?).map (·.lock)

def Phase.conn : Phase → Option ℕ
  | .attempting c | .namingHolder c | .yielding c | .closing c | .failing c _ => some c
  | _ => none

structure Kept (s : Server) (client : Option ℕ) (lockHeld lost : Bool) (history : List Event)
    (options : Options)
    (deadlineAt : ℕ) : Prop where
  bounded : ∀ c, client = some c → c < s.connections.length
  kept : lockHeld = true → lost = false → ∃ c, client = some c
  granted : lockHeld = true → ∀ c, client = some c → s.lockAt c = some .granted
  word : lockWord history = lockHeld
  orderly : Orderly options deadlineAt history
  reads : ∀ state t, .read state t ∈ history → t ≤ s.now

abbrev Core (s : Server) (b : Boot) : Prop :=
  Kept s b.client b.lockHeld b.lost b.history b.options b.deadlineAt

structure Going (s : Server) (b : Boot) : Prop where
  core : Core s b
  held : b.lockHeld = true → b.held = true
  owed : releaseOwed b.history = true → b.held = true
  unraised : firstRaised b.history = none

structure Waits (s : Server) (b : Boot) : Prop where
  early : b.phase.left = false → Early b.deadlineAt b.history
  rested : ∀ now, b.phase.resumes s.now = some now →
   Rested b.options.schemaPollMs b.deadlineAt b.history now

structure Sound (s : Server) (b : Boot) : Prop where
  core : Core s b
  held : b.lockHeld = true → b.held = true
  inside : b.phase.inside = b.lockHeld
  released : b.phase.inside = false → releaseOwed b.history = false
  raised : firstRaised b.history = b.phase.error
  conn : ∀ c, b.phase.conn = some c → c < s.connections.length
  waits : b.options.migrator = false → Waits s b
  stage : Stage b.options.migrator (lastRead b.history) b.phase

theorem Sound.going (h : Sound s b) (herror : b.phase.error = none) : Going s b where
 core := h.core
 held := h.held
 owed := fun howed => h.held (h.inside ▸ by
  by_contra hout
  simp [h.released (Bool.eq_false_iff.2 hout)] at howed)
 unraised := h.raised.trans herror

structure Next (s : Server) (b b' : Boot) : Prop where
  sound : Sound s b'
  client : b'.client = b.client
  conn : ∀ c, b'.phase.conn = some c → b.client = some c

/-- What `release` leaves, up to its COMMIT. -/
structure Handed (s : Server) (b r : Boot) (kind : Release) : Prop where
  core : Core s r
  free : r.lockHeld = false
  client : r.client = b.client
  options : r.options = b.options
  startedAt : r.startedAt = b.startedAt
  history : r.history = .releasing :: b.history
  commits : ∀ c, kind = .commits c → b.client = some c

theorem Kept.log (h : Core s b) (e : Event) (hword : lockWord (e :: b.history) = b.lockHeld)
  (horderly : Orderly b.options b.deadlineAt (e :: b.history))
  (hread : ∀ state t, e ≠ .read state t) : Core s (b.log e) :=
 ⟨h.bounded, h.kept, h.granted, hword, horderly, fun state t ht =>
  h.reads state t ((List.mem_cons.1 ht).resolve_left fun heq => hread state t heq.symm)⟩

theorem Kept.free (h : Core s b) :
  Core s { b with lockHeld := false, lost := false, history := .releasing :: b.history } :=
 ⟨h.bounded, nofun, nofun, rfl, h.orderly, fun state t ht => h.reads state t (by simpa using ht)⟩

theorem release_handed (h : Core s b) : ∃ kind r, release b = (kind, r) ∧ Handed s b r kind := by
 refine ⟨(release b).1, (release b).2, rfl, ?_⟩
 unfold release
 dsimp only
 split
 · refine ⟨h.free, rfl, rfl, rfl, rfl, rfl, fun c hc => ?_⟩
   cases hlost : b.lost <;> cases hclient : b.client <;> simp_all [Boot.log]
 · rename_i hfree
   have hfree' : b.lockHeld = false := Bool.eq_false_iff.2 hfree
   exact ⟨h.log .releasing hfree'.symm h.orderly nofun, hfree', rfl, rfl, rfl, rfl, nofun⟩

theorem free_held (hfree : b.lockHeld = false) :
  b.lockHeld = true → b.held = true := by simp [hfree]

variable {phase : Phase} {error : BootError}

theorem Phase.error_left (h : phase.error = some error) :
  phase.inside = false ∧ phase.left = true ∧ ∀ now, phase.resumes now = none := by
 cases phase <;> simp_all [Phase.error, Phase.inside, Phase.left, Phase.resumes]

theorem stage_error (h : phase.error = some error)
  (migrator : Bool) (last : Option MigrationState) : Stage migrator last phase := by
 cases phase <;> simp_all [Phase.error, Stage]

theorem next_refused (h : Core s b') (hfree : b'.lockHeld = false) (hclient : b'.client = b.client)
  (howed : releaseOwed b'.history = false)
  (hraised : firstRaised b'.history = some error) (hrefused : b'.phase.error = some error)
  (hconn : ∀ c, b'.phase.conn = some c → b.client = some c) : Next s b b' where
 sound :=
  { core := h
    held := free_held hfree
    inside := (Phase.error_left hrefused).1.trans hfree.symm
    released := fun _ => howed
    raised := hraised.trans hrefused.symm
    conn := fun c hc => h.bounded c (hclient ▸ hconn c hc)
    waits := fun _ =>
     { early := fun hno => by simp [(Phase.error_left hrefused).2.1] at hno
       rested := fun now hnow => by simp [(Phase.error_left hrefused).2.2] at hnow }
    stage := stage_error hrefused _ _ }
 client := hclient
 conn := hconn

theorem next_fail (h : Going s b) (error : BootError) : Next s b (fail error b) := by
 have hfirst : firstRaised (.raised error :: b.history) = some error := by simp [firstRaised, h.unraised]
 have hcore : Core s (b.log (.raised error)) := h.core.log _ h.core.word h.core.orderly nofun
 unfold fail
 dsimp only
 split
 · obtain ⟨kind, r, hrelease, hr⟩ :=
    release_handed (b := { b.log (.raised error) with held := false }) hcore
   have howed : releaseOwed r.history = false := hr.history ▸ rfl
   have hraised : firstRaised r.history = some error := hr.history ▸ hfirst
   rw [hrelease]
   cases kind with
   | commits c =>
    exact next_refused hr.core hr.free hr.client howed hraised rfl fun d hd =>
     Option.some.inj hd ▸ hr.commits c rfl
   | nothing => exact next_refused hr.core hr.free hr.client howed hraised rfl nofun
   | refused =>
    have hlast : firstRaised (.raised .lockLost :: r.history) = some
     error := by simp [firstRaised, hraised]
    exact next_refused
     (hr.core.log _ hr.core.word hr.core.orderly nofun) hr.free hr.client howed hlast rfl nofun
 · rename_i hout
   exact next_refused hcore (Bool.eq_false_iff.2 fun hlock => hout (h.held hlock)) rfl
    (Bool.eq_false_iff.2 fun howed => hout (h.owed howed)) hfirst rfl nofun

theorem no_waits (hmigrator : b.options.migrator = true) : b.options.migrator = false → Waits s b :=
 fun hno => absurd (hno.symm.trans hmigrator) nofun

variable {state : MigrationState}

theorem next_startWork (h : Going s b) (hlock : b.lockHeld = true) (work : Work)
  (hmigrator : b.options.migrator = true) (hread : lastRead b.history = some state)
  (hready : work.Ready state) (pending : List Text) : Next s b (startWork work pending b) := by
 rw [startWork]
 split
 · have hcore : Core s ({ b with lockHeld := false, lost := false }.log .lossReported) :=
    ⟨h.core.bounded, nofun, nofun, rfl, h.core.orderly,
     fun state t ht => h.core.reads state t (by simpa [Boot.log] using ht)⟩
   obtain ⟨hsound, hclient, hconn⟩ := next_fail ⟨hcore, nofun, h.owed, h.unraised⟩ .lockLost
   exact ⟨hsound, hclient, hconn⟩
 · refine ⟨⟨h.core.log (.started work) h.core.word ⟨hmigrator, hlock ▸ h.core.word,
    ⟨state, hread, hready⟩, h.core.orderly⟩ nofun,
    h.held, hlock.symm, nofun, h.unraised, nofun, no_waits hmigrator, ?_⟩, rfl, nofun⟩
   cases work
   · exact hmigrator
   · exact ⟨hmigrator, state, hread, hready⟩
   · exact ⟨hmigrator, state, hread, hready⟩

theorem next_finish (h : Going s b)
  (hread : lastRead b.history = some state) (hup : state.UpToDate) :
  Next s b (finish b) := by
 rw [finish]
 obtain ⟨kind, r, hrelease, hr⟩ :=
  release_handed (b := { b with held := false }) h.core
 rw [hrelease]
 have hlast : ∃ state, lastRead r.history = some state ∧ state.UpToDate := ⟨state, hr.history ▸ hread, hup⟩
 have howed : releaseOwed r.history = false := hr.history ▸ rfl
 have hraised : firstRaised r.history = none := hr.history ▸ h.unraised
 cases kind with
 | commits c =>
  have hconn : ∀ d, some c = some d → b.client = some d :=
   fun d hd => Option.some.inj hd ▸ hr.commits c rfl
  exact ⟨⟨hr.core, free_held hr.free, hr.free.symm, fun _ => howed, hraised,
   fun d hd => h.core.bounded d (hconn d hd),
   fun _ => ⟨nofun, nofun⟩, hlast⟩, hr.client, hconn⟩
 | nothing =>
  exact ⟨⟨hr.core, free_held hr.free, hr.free.symm, fun _ => howed, hraised, nofun, fun _ =>
   ⟨nofun, nofun⟩, hlast⟩, hr.client, nofun⟩
 | refused =>
  have hgoing : Going s r := ⟨hr.core, free_held hr.free, by simp [howed], hraised⟩
  obtain ⟨hsound, hclient, hconn⟩ := next_fail hgoing .lockLost
  exact ⟨hsound, hclient.trans hr.client, fun c hc => hr.client ▸ hconn c hc⟩

theorem next_settle (h : Going s b) (hlock : b.lockHeld = true)
  (hread : lastRead b.history = some state)
  (hstate : state.Classified) (hkind : state.kind = .inSync ∨ state.kind = .ahead) :
   Next s b (settle state.kind b) := by
 rw [settle]
 split
 · rename_i hwrites
   simp only [Bool.and_eq_true, bne_iff_ne, ne_eq] at hwrites
   exact next_startWork h hlock .seeds hwrites.1 hread (hstate.inSync (hkind.resolve_right hwrites.2)) []
 · exact next_finish h hread (hstate.upToDate hkind)

theorem Next.of_client {b₁ : Boot} (h : Next s b₁ b') (hclient : b₁.client = b.client) :
  Next s b b' :=
 ⟨h.sound, h.client.trans hclient, fun c hc => hclient ▸ h.conn c hc⟩

theorem next_sleep (h : Going s b) (hfree : b.lockHeld = false)
  (howed : releaseOwed b.history = false)
  (hearly : b.options.migrator = false → Early b.deadlineAt b.history) : Next s b (sleep b s) where
 sound :=
  { core := h.core
    held := free_held hfree
    inside := hfree.symm
    released := fun _ => howed
    raised := h.unraised
    conn := nofun
    waits := fun hno =>
     { early := fun _ => hearly hno
       rested := fun now hnow state t ht => by
        have hread := h.core.reads state t ht
        cases hnow
        change min (t + b.options.schemaPollMs) b.deadlineAt ≤
         s.now + min b.options.schemaPollMs (b.deadlineAt - s.now)
        omega }
    stage := trivial }
 client := rfl
 conn := nofun

theorem Going.read (h : Going s b) (hlock : b.lockHeld = true) (state : MigrationState)
  (hwaits : b.options.migrator = false → Early b.deadlineAt b.history ∧
   Rested b.options.schemaPollMs b.deadlineAt b.history s.now) :
  Going s (b.log (.read state s.now)) where
 core :=
  { bounded := h.core.bounded
    kept := h.core.kept
    granted := h.core.granted
    word := h.core.word
    orderly := ⟨h.core.word.trans hlock, hwaits, h.core.orderly⟩
    reads := fun state' t ht => by
     rcases List.mem_cons.1 ht with heq | ht
     · cases heq
       exact le_rfl
     · exact h.core.reads state' t ht }
 held := h.held
 owed := h.owed
 unraised := h.unraised

theorem Early.read {deadlineAt : ℕ} {history : List Event} (h : Early deadlineAt history) {t : ℕ}
  (hkind : state.kind = .behind) (ht : t < deadlineAt) :
  Early deadlineAt (.read state t :: history) := by
 intro state' u hu
 rcases List.mem_cons.1 hu with heq | hu
 · cases heq
   exact ⟨hkind, ht⟩
 · exact h state' u hu

theorem next_awaitSchema (h : Going s b)
  (hearly : s.now < b.deadlineAt → b.options.migrator = false → Early b.deadlineAt b.history)
  (pending : List Text) :
  Next s b (awaitSchema pending b s) := by
 rw [awaitSchema]
 split
 · exact next_fail h _
 · rename_i htime
   obtain ⟨kind, r, hrelease, hr⟩ := release_handed h.core
   have howed : releaseOwed r.history = false := hr.history ▸ rfl
   have hraised : firstRaised r.history = none := hr.history ▸ h.unraised
   have hlate : r.options.migrator = false → Early r.deadlineAt r.history := fun hno state t ht => by
    rw [hr.history] at ht
    rw [Boot.deadlineAt, hr.options, hr.startedAt]
    exact hearly (Nat.lt_of_not_le htime) (hr.options ▸ hno) state t (by simpa using ht)
   have hgoing : Going s r := ⟨hr.core, free_held hr.free, by simp [howed], hraised⟩
   rw [hrelease]
   cases kind with
   | commits c =>
    have hconn : ∀ d, some c = some d → b.client = some d :=
     fun d hd => Option.some.inj hd ▸ hr.commits c rfl
    exact ⟨⟨hr.core, free_held hr.free, hr.free.symm, fun _ => howed, hraised,
     fun d hd => h.core.bounded d (hconn d hd),
     fun hno => ⟨fun _ => hlate hno, nofun⟩, trivial⟩, hr.client, hconn⟩
   | nothing =>
    have hout : Going s { r with held := false } := ⟨hr.core, by simp [hr.free], by simp [howed], hraised⟩
    exact (next_sleep hout hr.free howed hlate).of_client hr.client
   | refused => exact (next_fail hgoing .lockLost).of_client hr.client

theorem next_afterRead (h : Going s b) (hlock : b.lockHeld = true)
  (hwaits : b.options.migrator = false → Early b.deadlineAt b.history ∧
   Rested b.options.schemaPollMs b.deadlineAt b.history s.now)
  (applied : List AppliedMigrationRow) : Next s b (afterRead applied b s) := by
 unfold afterRead
 obtain ⟨state, hstate, hclass⟩ :
  ∃ state, classifyMigrationState b.options.expected applied = state ∧ state.Classified :=
  ⟨_, rfl, rfl⟩
 rw [hstate]
 obtain ⟨hcore, hheld, howed, hraised⟩ := h.read hlock state hwaits
 have hgoing : Going s (b.noted state s.now) := ⟨hcore, hheld, howed, hraised⟩
 have hwaited : Going s ((b.noted state s.now).waited s.now) := ⟨hcore, hheld, howed, hraised⟩
 dsimp only
 split
 · exact (next_fail hgoing _).of_client rfl
 · rename_i hkind
   split
   · rename_i hmigrator
     exact (next_startWork hgoing hlock .migrate hmigrator rfl (hclass.behind hkind) _).of_client rfl
   · have hearly : s.now < b.deadlineAt → b.options.migrator = false →
      Early b.deadlineAt (.read state s.now :: b.history) :=
      fun htime hno => (hwaits hno).1.read hkind htime
     exact (next_awaitSchema (b := (b.noted state s.now).waited s.now) hwaited hearly _).of_client rfl
 · rename_i hfailed hbehind
   have hgood : state.kind = .inSync ∨ state.kind = .ahead := by
    cases hkind : state.kind <;> simp_all
   split
   · exact (next_settle (b := (b.noted state s.now).waited s.now) hwaited hlock rfl hclass
      hgood).of_client rfl
   · exact (next_settle hgoing hlock rfl hclass hgood).of_client rfl

theorem next_afterMigrate (h : Going s b) (hlock : b.lockHeld = true)
  (hmigrator : b.options.migrator = true) (pending : List Text) (applied : List AppliedMigrationRow) :
  Next s b (afterMigrate pending applied b s) := by
 unfold afterMigrate
 obtain ⟨after, hafter, hclass⟩ :
  ∃ after, classifyMigrationState b.options.expected applied = after ∧ after.Classified :=
  ⟨_, rfl, rfl⟩
 rw [hafter]
 obtain ⟨hcore, hheld, howed, hraised⟩ :=
  h.read hlock after fun hno => absurd (hno.symm.trans hmigrator) nofun
 have hgoing : Going s (b.log (.read after s.now)) := ⟨hcore, hheld, howed, hraised⟩
 dsimp only
 split
 · exact (next_fail hgoing _).of_client rfl
 · rename_i hfailed
   split
   · exact (next_fail hgoing _).of_client rfl
   · rename_i hdone
     have hgood : after.kind = .inSync ∨ after.kind = .ahead := by
      cases hkind : after.kind with
      | inSync => exact .inl rfl
      | ahead => exact .inr rfl
      | behind => exact absurd (hclass.behind hkind).2 hdone
      | failed => exact absurd hkind hfailed
     have hmigrated : Going s
      { b.log (.read after s.now) with summary := { b.summary with migrationsApplied := pending } } :=
      ⟨hcore, hheld, howed, hraised⟩
     exact (next_settle hmigrated hlock rfl hclass hgood).of_client rfl

def Server.Holds (s : Server) (c : ℕ) : Prop := ∃ conn, s.connections[c]? = some conn ∧ conn.holds = true

def Uses (b : Boot) (c : ℕ) : Prop := b.client = some c ∨ b.phase.conn = some c

structure Moved (s : Server) (b : Boot) (s' : Server) (b' : Boot) : Prop where
  sound : Sound s' b'
  length : s.connections.length ≤ s'.connections.length
  now : s'.now = s.now
  others : ∀ c < s.connections.length, ¬ Uses b c → s'.connections[c]? = s.connections[c]?
  holds : ∀ c, s'.Holds c → s.Holds c
  uses : ∀ c, Uses b' c → Uses b c ∨ s.connections.length ≤ c

theorem Going.outside (h : Going s b) (hfree : b.lockHeld = false)
  (howed : releaseOwed b.history = false) (hinside : phase.inside = false)
  (herror : phase.error = none) (hwaits : b.options.migrator = false → Waits s { b with phase })
  (hconn : ∀ c, phase.conn = some c → c < s.connections.length)
  (hstage : Stage b.options.migrator (lastRead b.history) phase) : Sound s { b with phase } :=
 ⟨h.core, free_held hfree, hinside.trans hfree.symm, fun _ => howed, h.unraised.trans herror.symm,
  hconn, hwaits, hstage⟩

theorem Rested.mono {pollMs deadlineAt now later : ℕ} {history : List Event}
  (h : Rested pollMs deadlineAt history now) (hle : now ≤ later) :
  Rested pollMs deadlineAt history later := fun state t ht => (h state t ht).trans hle

theorem Waits.later (h : Waits s b) (hnow : s.now ≤ s'.now) : Waits s' b where
 early := h.early
 rested := fun later hlater => by
  cases hphase : b.phase <;> rw [hphase] at hlater <;> cases hlater
  case sleeping.refl => exact h.rested later (by rw [hphase]; rfl)
  all_goals exact (h.rested s.now (by rw [hphase]; rfl)).mono hnow

theorem Sound.server (h : Sound s b) (hlength : s.connections.length ≤ s'.connections.length)
  (hnow : s.now ≤ s'.now)
  (hkeep : b.lockHeld = true → ∀ c, b.client = some c → s.lockAt c = some .granted →
   s'.lockAt c = some .granted) :
  Sound s' b where
 core :=
  { bounded := fun c hc => (h.core.bounded c hc).trans_le hlength
    kept := h.core.kept
    granted := fun hlock c hc => hkeep hlock c hc (h.core.granted hlock c hc)
    word := h.core.word
    orderly := h.core.orderly
    reads := fun state t ht => (h.core.reads state t ht).trans hnow }
 held := h.held
 inside := h.inside
 released := h.released
 raised := h.raised
 conn := fun c hc => (h.conn c hc).trans_le hlength
 waits := fun hno => (h.waits hno).later hnow
 stage := h.stage

theorem Moved.stay (h : Sound s b') (huses : ∀ c, Uses b' c → Uses b c) : Moved s b s b' :=
 ⟨h, le_rfl, rfl, fun _ _ _ => rfl, fun _ => id, fun c hc => .inl (huses c hc)⟩

theorem Next.stay (h : Next s b b') : Moved s b s b' :=
 .stay h.sound fun c hc => .inl (hc.elim (fun hc => h.client ▸ hc) (h.conn c))

theorem Server.getElem_setLock (s : Server) (c d : ℕ) (lock : LockWait) :
  (s.setLock c lock).connections[d]? =
  (s.connections[d]?).map fun conn => if c = d then { conn with lock } else conn := by
 rw [Server.setLock, List.getElem?_modify]
 split <;> simp_all

theorem Sound.unlock (h : Sound s b') (hfree : b'.lockHeld = false) {c : ℕ} (hc : Uses b c)
  {lock : LockWait} (hlock : lock ≠ .granted) (huses : ∀ c, Uses b' c → Uses b c) :
  Moved s b (s.setLock c lock) b' where
 sound := h.server (by simp [Server.setLock]) le_rfl (by simp [hfree])
 length := by simp [Server.setLock]
 now := rfl
 others := fun d _ hd => by
  have hne : c ≠ d := fun heq => hd (heq ▸ hc)
  rw [s.getElem_setLock]
  cases s.connections[d]? <;> simp [hne]
 holds := fun d ⟨conn, hconn, hholds⟩ => by
  rw [s.getElem_setLock] at hconn
  obtain ⟨old, hold, rfl⟩ := Option.map_eq_some_iff.1 hconn
  split at hholds
  · simp [Connection.holds, hlock] at hholds
  · exact ⟨old, hold, hholds⟩
 uses := fun c hc => .inl (huses c hc)

theorem Moved.of_uses {b₁ : Boot} (h : Moved s b₁ s' b') (hsub : ∀ c, Uses b₁ c → Uses b c) :
  Moved s b s' b' :=
 ⟨h.sound, h.length, h.now, fun c hc hno => h.others c hc fun huses => hno (hsub c huses), h.holds,
  fun c hc => (h.uses c hc).imp_left (hsub c)⟩

structure Ready (s : Server) (b : Boot) : Prop where
  going : Going s b
  free : b.lockHeld = false
  owed : releaseOwed b.history = false
  waits : b.options.migrator = false → Early b.deadlineAt b.history ∧
   Rested b.options.schemaPollMs b.deadlineAt b.history s.now

theorem Ready.waiting (h : Ready s b) (hresumes : phase.resumes s.now = some s.now) :
  b.options.migrator = false → Waits s { b with phase } := fun hno =>
 ⟨fun _ => (h.waits hno).1, fun _ hnow => Option.some.inj (hresumes.symm.trans hnow) ▸ (h.waits hno).2⟩

theorem Sound.ready (h : Sound s b) (hout : b.phase.inside = false) (hleft : b.phase.left = false)
  (hresumes : b.options.migrator = false →
   Rested b.options.schemaPollMs b.deadlineAt b.history s.now) : Ready s b where
 going := h.going (by cases hphase : b.phase <;> simp_all [Phase.left, Phase.error])
 free := h.inside ▸ hout
 owed := h.released hout
 waits := fun hno => ⟨(h.waits hno).early hleft, hresumes hno⟩

theorem moved_attempt (h : Ready s b) : Moved s b (attempt b s).2 (attempt b s).1 := by
 rw [attempt]
 split
 · rename_i c hc
   have hsame : ∀ d, Uses { b with phase := .attempting c } d → Uses b d := fun d hd =>
    .inl (hd.elim id fun hd => Option.some.inj hd ▸ hc)
   have hsound : Sound s { b with phase := .attempting c } :=
    h.going.outside h.free h.owed rfl rfl (h.waiting rfl)
     (fun d hd => Option.some.inj hd ▸ h.going.core.bounded c hc) trivial
   exact hsound.unlock h.free (.inl hc) nofun hsame
 · have hsound : Sound s { b with phase := .connecting } :=
    h.going.outside h.free h.owed rfl rfl (h.waiting rfl) nofun trivial
   exact .stay hsound fun d hd => .inl (hd.elim id nofun)

theorem moved_notTaken (h : Ready s b) (unanswered : Bool) :
  Moved s b (notTaken unanswered b s).2 (notTaken unanswered b s).1 := by
 rw [notTaken]
 split
 · exact (next_fail h.going _).stay
 · exact moved_attempt h

theorem abandon_kept (c : ℕ) (b : Boot) :
  abandon c b = b ∨ abandon c b = { b with client := none } := by
 unfold abandon
 split
 · exact .inr rfl
 · exact .inl rfl

theorem uses_abandon (c d : ℕ) (h : Uses (abandon c b) d) : Uses b d := by
 rcases abandon_kept c b with hsame | hnone
 · exact hsame ▸ h
 · rw [hnone] at h
   exact h.imp nofun id

theorem Going.abandon (h : Going s b) (hfree : b.lockHeld = false) (c : ℕ) :
  Going s (abandon c b) := by
 rcases abandon_kept c b with hsame | hnone
 · exact hsame.symm ▸ h
 · rw [hnone]
   exact ⟨⟨nofun, by simp [hfree], by simp [hfree], h.core.word, h.core.orderly, h.core.reads⟩,
    h.held, h.owed, h.unraised⟩

theorem Ready.abandon (h : Ready s b) (c : ℕ) : Ready s (abandon c b) := by
 have hgoing := h.going.abandon h.free c
 rcases abandon_kept c b with hsame | hnone
 · exact hsame.symm ▸ h
 · rw [hnone] at hgoing ⊢
   exact ⟨hgoing, h.free, h.owed, h.waits⟩

theorem moved_listener (h : Sound s b) : Moved s b s (listener b) := by
 rw [listener]
 split
 · exact .stay h fun _ => id
 · refine .stay ⟨⟨nofun, fun hlock hlost => ?_, fun _ => nofun, h.core.word, h.core.orderly,
    h.core.reads⟩, h.held, h.inside,
    h.released, h.raised, h.conn, fun hno => ⟨(h.waits hno).early, (h.waits hno).rested⟩, h.stage⟩
    fun c hc => .inr (hc.elim nofun id)
   have hyes : b.lockHeld = true := hlock
   simp [hyes] at hlost

theorem moved_committed (h : Going s b) {c : ℕ} (hfree : b.lockHeld = false)
  (hconn : b.phase.conn = some c) {next : Boot → Boot} (hnext : Next s b (next b))
  (hnextFree : (next b).lockHeld = false) {answer : Answer}
  (hmove : committed c next answer b s = some (b', s')) : Moved s b s' b' := by
 unfold committed at hmove
 split at hmove <;> cases hmove
 · exact hnext.sound.unlock hnextFree (.inr hconn) nofun fun d hd =>
    .inl (hd.elim (fun hd => hnext.client ▸ hd) (hnext.conn d))
 · exact (next_fail h .lockLost).stay
 · exact (next_fail (h.abandon hfree c) .lockLost).stay.of_uses fun d hd => uses_abandon c d hd

theorem moved_connect (h : Ready s b) :
  Moved s b ⟨s.connections ++ [⟨.waiting, false⟩], s.now⟩
   { b with client := some s.connections.length, phase := .attempting s.connections.length } := by
 have hlength (opened : Connection) : s.connections.length < (s.connections ++ [opened]).length := by simp
 have hready : Ready ⟨s.connections ++ [⟨.waiting, false⟩], s.now⟩
  { b with client := some s.connections.length } :=
  ⟨⟨⟨fun c hc => Option.some.inj hc ▸ hlength
   _, by simp [h.free], by simp [h.free], h.going.core.word, h.going.core.orderly,
    h.going.core.reads⟩, h.going.held, h.going.owed, h.going.unraised⟩, h.free, h.owed, h.waits⟩
 have hsound : Sound ⟨s.connections ++ [⟨.waiting, false⟩], s.now⟩
   { b with client := some s.connections.length, phase := .attempting s.connections.length } :=
  hready.going.outside h.free h.owed rfl rfl (hready.waiting rfl)
   (fun c hc => Option.some.inj hc ▸ hlength _) trivial
 refine ⟨hsound, (hlength _).le, rfl, ?_, ?_, ?_⟩
 · exact fun c hc _ => List.getElem?_append_left hc
 · rintro c ⟨conn, hconn, hholds⟩
   rcases getElem?_concat_cases hconn with hold | ⟨-, rfl⟩
   · exact ⟨conn, hold, hholds⟩
   · cases hholds
 · exact fun c hc => .inr (hc.elim (fun hc => (Option.some.inj hc).le) fun hc => (Option.some.inj hc).le)

theorem sound_acquired (h : Ready s b) {c : ℕ} (hclient : b.client = some c)
  (hgranted : s.lockAt c = some .granted) :
  Sound s { b.log .acquired with lockHeld := true, held := true, phase := .reading } where
 core :=
  { bounded := h.going.core.bounded
    kept := fun _ _ => ⟨c, hclient⟩
    granted := fun _ d hd => Option.some.inj (hclient.symm.trans hd) ▸ hgranted
    word := rfl
    orderly := ⟨h.going.core.word.trans h.free, h.owed, h.going.core.orderly⟩
    reads := fun state t ht => h.going.core.reads state t (by simpa [Boot.log] using ht) }
 held := fun _ => rfl
 inside := rfl
 released := nofun
 raised := h.going.unraised
 conn := nofun
 waits := fun hno =>
  { early := fun _ state t ht => (h.waits hno).1 state t (by simpa [Boot.log] using ht)
    rested := fun now hnow state t ht => Option.some.inj hnow ▸ (h.waits hno).2 state t
     (by simpa [Boot.log] using ht) }
 stage := trivial

theorem Sound.free (h : Sound s b) (hphase : b.phase = phase) (hout : phase.inside = false) :
  b.lockHeld = false ∧ releaseOwed b.history = false :=
 ⟨h.inside ▸ hphase ▸ hout, h.released (hphase ▸ hout)⟩

/-- A release that failed behind the first error is one more error, and only
    the first is thrown. -/
theorem next_threw (h : Sound s b) {c : ℕ} (hphase : b.phase = .failing c error) :
  Next s b { b.log (.raised .lockLost) with phase := .threw error } := by
 obtain ⟨hfree, howed⟩ := h.free hphase rfl
 have hraised : firstRaised (.raised .lockLost :: b.history) = some error := by
  simp [firstRaised, h.raised, hphase, Phase.error]
 exact next_refused (h.core.log _ h.core.word h.core.orderly nofun) hfree rfl howed hraised rfl nofun

theorem Sound.abandon (h : Sound s b) (hfree : b.lockHeld = false) (c : ℕ) :
  Sound s (abandon c b) := by
 rcases abandon_kept c b with hsame | hnone
 · exact hsame.symm ▸ h
 · rw [hnone]
   exact ⟨⟨nofun, by simp [hfree], by simp [hfree], h.core.word, h.core.orderly, h.core.reads⟩,
    h.held, h.inside, h.released,
    h.raised, h.conn, fun hno => ⟨(h.waits hno).early, (h.waits hno).rested⟩, h.stage⟩

theorem moved_of_move (h : Sound s b) {answer : Answer} (hmove : move answer b s = some (b', s')) :
  Moved s b s' b' := by
 have hlock : b.phase.inside = true → b.lockHeld = true := fun hin => h.inside ▸ hin
 have hgoing : b.phase.error = none → Going s b := h.going
 have hready : b.phase.inside = false → b.phase.left = false → b.phase.resumes s.now = some s.now →
  Ready s b :=
  fun hout hleft hresumes => h.ready hout hleft fun hno => (h.waits hno).rested _ hresumes
 have hfail : ∀ error, b.phase.error = none → Moved s b s (fail error b) := fun error hno =>
  (next_fail (h.going hno) error).stay
 have hstage := h.stage
 have hconn : ∀ c, b.phase.conn = some c → Uses b c := fun _ hc => .inr hc
 have hout : ∀ phase, (∀ c, phase.conn = some c → b.phase.conn = some c) →
  ∀ c, Uses { b with phase } c → Uses b c :=
  fun phase hsub c hc => hc.imp_right (hsub c)
 unfold move at hmove
 split at hmove <;> try cases hmove
 case h_3.refl => exact moved_listener h
 case h_4.refl hphase =>
  rw [hphase] at hready
  exact moved_connect (hready rfl rfl rfl)
 case h_6 c hphase =>
  rw [hphase] at hready hfail
  split at hmove <;> try cases hmove
  rename_i hgranted
  split at hmove <;> cases hmove
  · rename_i hclient
    exact .stay (sound_acquired (hready rfl rfl rfl) hclient hgranted) fun d hd => .inl (hd.elim id nofun)
  · exact hfail _ rfl
 case h_7 c hphase =>
  rw [hphase] at hready hconn hout
  split at hmove <;> cases hmove
  obtain hgo := hready rfl rfl rfl
  have hsound : Sound s { b with phase := .namingHolder c } :=
   hgo.going.outside hgo.free hgo.owed rfl rfl (hgo.waiting rfl)
    (fun d hd => h.conn d (by rw [hphase]; exact hd)) trivial
  exact hsound.unlock hgo.free (hconn c rfl) nofun (hout _ fun _ => id)
 case h_8 c hphase | h_9 c hphase =>
  rw [hphase] at hready
  have hmoved := moved_notTaken ((hready rfl rfl rfl).abandon c) true
  rw [Option.some.inj hmove] at hmoved
  exact hmoved.of_uses fun d => uses_abandon c d
 case h_10 hphase =>
  rw [hphase] at hready
  have hmoved := moved_notTaken (hready rfl rfl rfl) false
  rw [Option.some.inj hmove] at hmoved
  exact hmoved
 case h_11.refl =>
  rename b.phase = .reading => hphase
  rw [hphase] at hlock hgoing
  have hwaits : b.options.migrator = false → Early b.deadlineAt b.history ∧
   Rested b.options.schemaPollMs b.deadlineAt b.history s.now :=
   fun hno => ⟨(h.waits hno).early (by rw [hphase]; rfl), (h.waits hno).rested _ (by rw [hphase]; rfl)⟩
  exact (next_afterRead (hgoing rfl) (hlock rfl) hwaits _).stay
 case h_12 c _ hphase _ =>
  rw [hphase] at hgoing
  obtain ⟨hfree, howed⟩ := h.free hphase rfl
  obtain ⟨hcore, -, -, hraised⟩ := hgoing rfl
  have hrest : Going s { b with held := false } := ⟨hcore, by simp [hfree], by simp [howed], hraised⟩
  have hnext : Next s b (sleep { b with held := false } s) :=
   (next_sleep hrest hfree howed fun hno => (h.waits hno).early (by rw [hphase]; rfl)).of_client rfl
  exact moved_committed (hgoing rfl) hfree (by rw [hphase]; rfl) hnext hfree hmove
 case h_13 wake hphase =>
  split at hmove
  · rename_i hwake
    have hrested : Ready s b := h.ready (by rw [hphase]; rfl) (by rw [hphase]; rfl) fun hno =>
     ((h.waits hno).rested wake (by rw [hphase]; rfl)).mono hwake
    obtain ⟨⟨hcore, hheld, howed, hraised⟩, hfree, hreleased, hwaits⟩ := hrested
    have hmoved := moved_attempt (b := { b with acquireAt := s.now })
     ⟨⟨hcore, hheld, howed, hraised⟩, hfree, hreleased, hwaits⟩
    rw [show attempt { b with acquireAt := s.now } s = (b', s') from Option.some.inj hmove] at hmoved
    exact hmoved.of_uses fun _ => id
  · cases hmove
 case h_14.refl pending hphase =>
  rw [hphase] at hlock hgoing hstage hout
  have hsound : Sound s { b with phase := .rereading pending } :=
   ⟨h.core, h.held, (hlock rfl).symm, nofun, (hgoing rfl).unraised, nofun, no_waits hstage, hstage⟩
  exact .stay hsound (hout _ nofun)
 case h_15.refl _ _ hphase =>
  rw [hphase] at hlock hgoing hstage
  exact (next_afterMigrate (hgoing rfl) (hlock rfl) hstage _ _).stay
 case h_16.refl _ hphase =>
  rw [hphase] at hlock hgoing hstage
  obtain ⟨hcore, hheld, howed, hraised⟩ := hgoing rfl
  have hseeded : Going s { b with summary := { b.summary with seedsRun := true } } :=
   ⟨hcore, hheld, howed, hraised⟩
  obtain ⟨hmigrator, state, hread, hready'⟩ := hstage
  have hnext : Next s b _ :=
   (next_startWork hseeded (hlock rfl) .dataMigrations hmigrator hread hready' []).of_client rfl
  exact hnext.stay
 case h_17.refl _ hphase =>
  rw [hphase] at hgoing hstage
  obtain ⟨hcore, hheld, howed, hraised⟩ := hgoing rfl
  have hshaped : Going s { b with summary := { b.summary with dataMigrationsRun := true } } :=
   ⟨hcore, hheld, howed, hraised⟩
  obtain ⟨-, state, hread, hup, -⟩ := hstage
  have hnext : Next s b _ := (next_finish hshaped hread hup).of_client rfl
  exact hnext.stay
 case h_18 c _ hphase _ =>
  rw [hphase] at hgoing hstage
  obtain ⟨hfree, howed⟩ := h.free hphase rfl
  have hwaits : b.options.migrator = false → Waits s { b with phase := .returned } :=
   fun _ => ⟨nofun, nofun⟩
  have hsound : Sound s { b with phase := .returned } :=
   (hgoing rfl).outside hfree howed rfl rfl hwaits nofun hstage
  have hnext : Next s b { b with phase := .returned } := ⟨hsound, rfl, nofun⟩
  exact moved_committed (hgoing rfl) hfree (by rw [hphase]; rfl) hnext hfree hmove
 case h_19.refl c error hphase =>
  rw [hphase] at hconn hout
  obtain ⟨hfree, howed⟩ := h.free hphase rfl
  have hthrew : Next s b { b with phase := .threw error } :=
   next_refused h.core hfree rfl howed (h.raised.trans (by rw [hphase]; rfl)) rfl nofun
  exact hthrew.sound.unlock hfree (hconn c rfl) nofun (hout _ nofun)
 case h_20.refl hphase => exact (next_threw h hphase).stay
 case h_21.refl c _ hphase =>
  have hgiven : (abandon c b).phase = b.phase := by rcases abandon_kept c b with hsame | hnone <;> simp [*]
  exact (next_threw (h.abandon (h.free hphase rfl).1 c) (hgiven.trans hphase)).stay.of_uses fun d =>
   uses_abandon c d
 all_goals exact hfail _ (by simp [*, Phase.error])

end Sound

section Turns

variable {sys : Sys Server Boot} {s : Server}

/-- No two sequences share a connection, and one open transaction at most has
    the lock. -/
structure Turns (sys : Sys Server Boot) : Prop where
  sound : ∀ (i : ℕ) (b : Boot), sys.calls[i]? = some b → Sound sys.shared b
  apart : ∀ (i j : ℕ) (b b' : Boot) (c : ℕ), i ≠ j → sys.calls[i]? = some b →
   sys.calls[j]? = some b' → Uses b c → ¬ Uses b' c
  one : ∀ c d, sys.shared.Holds c → sys.shared.Holds d → c = d

theorem sound_start (options : Options) (s : Server) : Sound s (start options s) :=
 ⟨⟨nofun, nofun, nofun, rfl, trivial, nofun⟩, nofun, rfl, fun _ => rfl, rfl, nofun, fun _ =>
  ⟨fun _ => nofun, fun _ _ => nofun⟩, trivial⟩

theorem Turns.begin (h : Turns sys) (options : Options) :
  Turns ⟨sys.shared, sys.calls ++ [start options sys.shared]⟩ where
 sound := fun i b hb => by
  rcases getElem?_concat_cases hb with hold | ⟨-, rfl⟩
  · exact h.sound i b hold
  · exact sound_start options sys.shared
 apart := fun i j b b' c hne hb hb' hc hc' => by
  rcases getElem?_concat_cases hb with hold | ⟨-, rfl⟩
  · rcases getElem?_concat_cases hb' with hold' | ⟨-, rfl⟩
    · exact h.apart i j b b' c hne hold hold' hc hc'
    · exact hc'.elim nofun nofun
  · exact hc.elim nofun nofun
 one := h.one

theorem Sound.uses_lt {b : Boot} (h : Sound s b) {c : ℕ} (hc : Uses b c) :
  c < s.connections.length :=
 hc.elim (h.core.bounded c) (h.conn c)

theorem Turns.advance (h : Turns sys) {i : ℕ} {b b' : Boot} {s' : Server}
  (hb : sys.calls[i]? = some b) (hmoved : Moved sys.shared b s' b') :
  Turns ⟨s', sys.calls.set i b'⟩ := by
 have hfresh : ∀ (j : ℕ) (other : Boot) (c : ℕ), j ≠ i → sys.calls[j]? = some other → Uses other c →
  ¬ Uses b' c := by
  intro j other c hne hother hc hc'
  rcases hmoved.uses c hc' with hold | hnew
  · exact h.apart j i other b c hne hother hb hc hold
  · exact absurd ((h.sound j other hother).uses_lt hc) (Nat.not_lt.2 hnew)
 refine ⟨fun j other hother => ?_, fun j k x y c hne hx hy hc hc' => ?_,
  fun c d hc hd => h.one c d (hmoved.holds c hc) (hmoved.holds d hd)⟩
 · rcases getElem?_set_cases hother with ⟨-, rfl⟩ | ⟨hne, hold⟩
   · exact hmoved.sound
   · refine (h.sound j other hold).server hmoved.length hmoved.now.ge fun _ c hc hgranted => ?_
     have hsame := hmoved.others c ((h.sound j other hold).core.bounded c hc)
      (h.apart j i other b c hne hold hb (.inl hc))
     rw [Server.lockAt, hsame]
     exact hgranted
 · rcases getElem?_set_cases hx with ⟨rfl, rfl⟩ | ⟨hjne, hxold⟩
   · rcases getElem?_set_cases hy with ⟨rfl, -⟩ | ⟨hkne, hyold⟩
     · exact hne rfl
     · exact hfresh k y c hkne hyold hc' hc
   · rcases getElem?_set_cases hy with ⟨rfl, rfl⟩ | ⟨-, hyold⟩
     · exact hfresh j x c hjne hxold hc hc'
     · exact h.apart j k x y c hne hxold hyold hc hc'

theorem Turns.outside (h : Turns sys) {e : ServerEvent} {s' : Server}
  (hevent : serverStep e sys.shared = some s') :
  Turns ⟨s', sys.calls⟩ := by
 have hrest : sys.shared.connections.length ≤ s'.connections.length → sys.shared.now ≤ s'.now →
   (∀ c, sys.shared.lockAt c = some .granted → s'.lockAt c = some .granted) →
   (∀ c d, s'.Holds c → s'.Holds d → c = d) → Turns ⟨s', sys.calls⟩ := fun hlength hnow hkeep hone =>
  ⟨fun i b hb => (h.sound i b hb).server hlength hnow fun _ c _ => hkeep c, h.apart, hone⟩
 cases e with
 | ticks ms =>
  cases hevent
  exact hrest le_rfl (Nat.le_add_right _ _) (fun _ => id) h.one
 | ends c =>
  cases hevent
  have hget : ∀ d, (sys.shared.connections.modify c fun conn => { conn with ended := true })[d]? =
    (sys.shared.connections[d]?).map fun conn => if c = d then { conn with ended := true } else conn := by
   intro d
   rw [List.getElem?_modify]
   split <;> simp_all
  have hholds : ∀ d, Server.Holds ⟨sys.shared.connections.modify c fun conn =>
   { conn with ended := true }, sys.shared.now⟩ d →
    sys.shared.Holds d := by
   rintro d ⟨conn, hconn, hheld⟩
   obtain ⟨old, hold, rfl⟩ := Option.map_eq_some_iff.1 ((hget d).symm.trans hconn)
   refine ⟨old, hold, ?_⟩
   split at hheld
   · simp [Connection.holds] at hheld
   · exact hheld
  refine hrest (by simp) le_rfl (fun d hd => ?_) fun d d' hd hd' => h.one d d' (hholds d hd)
   (hholds d' hd')
  obtain ⟨old, hold, hlock⟩ := Option.map_eq_some_iff.1 hd
  rw [Server.lockAt, hget d, hold, Option.map_some, Option.map_some]
  split <;> exact congrArg some hlock
 | grants c =>
  rw [serverStep] at hevent
  split at hevent <;> cases hevent
  rename_i hfree
  obtain ⟨-, hnone⟩ := hfree
  have honly : ∀ d, (sys.shared.setLock c .granted).Holds d → d = c := by
   rintro d ⟨conn, hconn, hheld⟩
   rw [Server.getElem_setLock] at hconn
   obtain ⟨old, hold, rfl⟩ := Option.map_eq_some_iff.1 hconn
   by_contra hne
   rw [if_neg (Ne.symm hne)] at hheld
   have hno := List.all_eq_true.1 hnone old (List.mem_of_getElem? hold)
   simp [hheld] at hno
  refine hrest (by simp [Server.setLock]) le_rfl (fun d hd => ?_) fun d d' hd hd' =>
   (honly d hd).trans (honly d' hd').symm
  obtain ⟨old, hold, hlock⟩ := Option.map_eq_some_iff.1 hd
  rw [Server.lockAt, Server.getElem_setLock, hold, Option.map_some, Option.map_some]
  split
  · rfl
  · exact congrArg some hlock

/-- What a boot did, wherever it stands: its steps were in order, what it took
    it tried to hand back, and it ends with the schema up to date or with the
    first error. An observer that read at its deadline or later is out of the
    loop. -/
structure SafeBoot (b : Boot) : Prop where
  orderly : Orderly b.options b.deadlineAt b.history
  released : b.phase.ended = true → releaseOwed b.history = false
  upToDate : b.phase = .returned → firstRaised b.history = none ∧
   ∃ state, lastRead b.history = some state ∧ state.UpToDate
  first : ∀ error, b.phase = .threw error → firstRaised b.history = some error
  left : b.options.migrator = false → ∀ state t, .read state t ∈ b.history → b.deadlineAt ≤ t →
   b.phase.left = true

theorem Sound.safe {b : Boot} (h : Sound s b) : SafeBoot b where
 orderly := h.core.orderly
 released := fun hended => h.released (by cases hphase : b.phase <;> simp_all [Phase.ended, Phase.inside])
 upToDate := fun hphase =>
  ⟨h.raised.trans (by rw [hphase]; rfl), by simpa only [hphase, Stage] using h.stage⟩
 first := fun error hphase => h.raised.trans (by rw [hphase]; rfl)
 left := fun hno state t ht hlate => by
  by_contra hstays
  have hearly := (h.waits hno).early (Bool.eq_false_iff.2 hstays) state t ht
  exact absurd hearly.2 (Nat.not_lt.2 hlate)

end Turns

end BoardGamesEmpire.BootSequence
