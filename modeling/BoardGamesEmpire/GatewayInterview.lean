import BoardGamesEmpire.AsyncTasks
import BoardGamesEmpire.GatewayConfig

set_option autoImplicit false

/-!
# A process's memory of its gateways, and the interview

The gateway registry's maps, the rows and events it shares with the other
processes, and `GatewayInterviewService`.
-/
namespace BoardGamesEmpire.GatewayDriver
open JsText JsonText AsyncTasks

section Maps

variable {α : Type}

/-- `map.set(key, value)`: a key that is there keeps its place. -/
def mapSet (key : ℕ) (value : α) : List (ℕ × α) → List (ℕ × α)
  | [] => [(key, value)]
  | entry :: entries => if entry.1 = key then (key, value) :: entries else entry :: mapSet key value
   entries

def mapDelete (key : ℕ) (entries : List (ℕ × α)) : List (ℕ × α) :=
    entries.filter fun entry => entry.1 ≠ key

theorem lookup_mapSet_self (key : ℕ) (value : α) (entries : List (ℕ × α)) :
  (mapSet key value entries).lookup key = some value := by
 induction entries with
 | nil => simp [mapSet]
 | cons entry entries ih =>
  rw [mapSet]
  split
  · simp
  · next hne => rw [List.lookup_cons, beq_false_of_ne (Ne.symm hne), ih]

theorem lookup_mapSet_ne {key other : ℕ} (h : other ≠ key) (value : α) (entries : List (ℕ × α)) :
  (mapSet key value entries).lookup other = entries.lookup other := by
 induction entries with
 | nil => simp [mapSet, h]
 | cons entry entries ih =>
  rw [mapSet]
  split
  · next heq => rw [List.lookup_cons, List.lookup_cons, beq_false_of_ne h, heq, beq_false_of_ne h]
  · rw [List.lookup_cons, List.lookup_cons, ih]

theorem lookup_mapDelete_self (key : ℕ) (entries : List (ℕ × α)) :
  (mapDelete key entries).lookup key = none := by
 induction entries with
 | nil => rfl
 | cons entry entries ih =>
  rw [mapDelete, List.filter_cons]
  split
  · next hne => rw [List.lookup_cons, beq_false_of_ne (Ne.symm (of_decide_eq_true hne))]; exact ih
  · exact ih

theorem lookup_mapDelete_ne {key other : ℕ} (h : other ≠ key) (entries : List (ℕ × α)) :
  (mapDelete key entries).lookup other = entries.lookup other := by
 induction entries with
 | nil => rfl
 | cons entry entries ih =>
  rw [mapDelete, List.filter_cons]
  split
  · rw [List.lookup_cons, List.lookup_cons, ← ih]; rfl
  · next heq =>
    have hkey : entry.1 = key := by simpa using heq
    rw [List.lookup_cons, hkey, beq_false_of_ne h, ← ih]; rfl

theorem keys_mapSet_subset {key k : ℕ} {value : α} {entries : List (ℕ × α)}
  (h : k ∈ (mapSet key value entries).map Prod.fst) :
  k = key ∨ k ∈ entries.map Prod.fst := by
 induction entries with
 | nil => exact .inl (by simpa [mapSet] using h)
 | cons entry entries ih =>
  rw [mapSet] at h
  split at h
  · rcases List.mem_cons.1 h with rfl | h
    · exact .inl rfl
    · exact .inr (List.mem_cons_of_mem _ h)
  · rcases List.mem_cons.1 h with rfl | h
    · exact .inr List.mem_cons_self
    · exact (ih h).imp id fun hold => List.mem_cons_of_mem _ hold

theorem nodup_mapSet {key : ℕ} {value : α} {entries : List (ℕ × α)}
  (h : (entries.map Prod.fst).Nodup) :
  ((mapSet key value entries).map Prod.fst).Nodup := by
 induction entries with
 | nil => simp [mapSet]
 | cons entry entries ih =>
  obtain ⟨hhead, htail⟩ := List.nodup_cons.1 h
  rw [mapSet]
  split
  · next heq => exact List.nodup_cons.2 ⟨heq ▸ hhead, htail⟩
  · next hne =>
    refine List.nodup_cons.2 ⟨fun hmem => ?_, ih htail⟩
    rcases keys_mapSet_subset hmem with hkey | hold
    · exact hne hkey
    · exact hhead hold

theorem nodup_mapDelete {key : ℕ} {entries : List (ℕ × α)} (h : (entries.map Prod.fst).Nodup) :
  ((mapDelete key entries).map Prod.fst).Nodup := h.sublist (List.filter_sublist.map Prod.fst)

end Maps

section Memory

inductive DataGatewayCapability where
  | search
  | fetch
  | fetchExpansions
  | listLanguages
  | listPlatforms
  | listCategories
  | listMechanics
deriving DecidableEq

structure DataGateway (ν : Type) where
  connectionUrl : Text
  connectionPort : ℕ
  authType : AuthType
  authParameters : Option (Json ν)
  enabled : Bool
  deletedAt : Option ℕ
  disabledCapabilities : List DataGatewayCapability

structure InterviewAnswers where
  capabilities : List DataGatewayCapability
  gatewayVersion : Option Text
  firstInterviewedAt : Option ℕ
  lastInterviewedAt : Option ℕ

inductive ChangeType where
  | created
  | updated
  | deleted
  | disabled
  | reconnectRequested
deriving DecidableEq

structure GatewayConfigEvent where
  gatewayId : ℕ
  configHash : Text
  changeType : ChangeType
deriving DecidableEq

inductive DriverOrigin where
  | remote
  | registered
deriving DecidableEq

structure CachedDriver where
  driver : ℕ
  configHash : Text
  origin : DriverOrigin
deriving DecidableEq

/-- A call of `connect` or `register`, by the task that runs it. -/
structure CallRecord where
  task : ℕ
  settled : Bool

/-- A driver the factory built or `register` was handed, with the call that
    owns it. `readAt` counts the events handled when its settings were read. -/
structure DriverRecord (ν : Type) where
  gatewayId : ℕ
  call : ℕ
  options : Option (GatewayConnectionOptions ν)
  readAt : ℕ
  disposed : Bool

/-- The registry's maps, and what it shares with the other processes. `reading`
    has the gateways whose row a connect has read but not yet got. -/
structure Registry (ν : Type) where
  clients : List (ℕ × CachedDriver)
  connecting : List (ℕ × ℕ)
  connectGeneration : ℕ → ℕ
  drivers : List (DriverRecord ν)
  calls : List CallRecord
  rows : ℕ → Option (DataGateway ν)
  unpublished : List GatewayConfigEvent
  stream : List GatewayConfigEvent
  handled : ℕ
  reading : List ℕ

structure FailureTrack where
  consecutiveFailures : ℕ
  firstFailureAt : ℕ
  lastFailureAt : ℕ

inductive GatewayAutoDisableReason where
  | repeatedConnectionFailure
  | repeatedCallFailure
deriving DecidableEq

structure GatewayDisabledEvent where
  gatewayId : ℕ
  reason : GatewayAutoDisableReason
  track : FailureTrack

/-- A wait before an interview starts, and the signal that abandons it. -/
structure PendingStart where
  gatewayId : ℕ
  driver : ℕ
  signal : ℕ

structure InterviewAttempt where
  driver : ℕ
  signal : ℕ
  task : ℕ

structure Memory (ν : Type) where
  registry : Registry ν
  answers : ℕ → InterviewAnswers
  inFlight : List (ℕ × InterviewAttempt)
  checks : List PendingStart
  lookups : List PendingStart
  signals : ℕ
  aborted : List ℕ
  failures : List (ℕ × FailureTrack)
  connectionChanged : List ℕ
  emitted : List GatewayDisabledEvent
  clock : ℕ

/-- What a wait ends with: a ping answers with a version, Describe with the
    capabilities, everything else with `ok`. -/
inductive Answer where
  | ok
  | failed
  | pong (version : Option Text)
  | description (capabilities : List DataGatewayCapability)
deriving DecidableEq

inductive Outcome where
  | returned
  | driver (id : ℕ)
  | threw
deriving DecidableEq

abbrev Work (ν : Type) : Type := Task (Memory ν) Answer Outcome

variable {ν : Type}

def act (f : Memory ν → Memory ν) (next : Work ν) : Work ν := .sync (fun _ => f) fun _ _ => next

def look (next : Memory ν → Work ν) : Work ν := .sync (fun _ m => m) fun _ m => next m

def turn (next : Work ν) : Work ν := .wait fun _ => next

def dbRead {α : Type} (query : Memory ν → α) (failed : Work ν) (next : α → Work ν) : Work ν :=
  .wait fun a => if a = .failed then failed else look fun m =>
    .wait fun b => if b = .failed then failed else next (query m)

def dbWrite (matched : Memory ν → Bool) (write : Memory ν → Memory ν) (failed : Work ν)
    (next : Bool → Work ν) : Work ν :=
  .wait fun a => if a = .failed then failed else
    .sync (fun _ m => if matched m then write m else m) fun _ m =>
      .wait fun b => if b = .failed then failed else next (matched m)

end Memory

section Interview

variable {ν : Type}

def interviewMaxAgeMs : ℕ := 24 * 60 * 60 * 1000

def storeAttempts : ℕ := 5

/-- `abandon`, of every driver of the gateway or of one. -/
def abandon (gatewayId : ℕ) (driver : Option ℕ) (m : Memory ν) : Memory ν :=
  let waiting : List PendingStart := (m.checks ++ m.lookups).filter fun pending =>
    pending.gatewayId = gatewayId && driver.all (· = pending.driver)
  let attempt : Option InterviewAttempt :=
    (m.inFlight.lookup gatewayId).filter fun attempt => driver.all (· = attempt.driver)
  { m with
    inFlight := if attempt.isSome then mapDelete gatewayId m.inFlight else m.inFlight
    aborted := m.aborted ++ waiting.map (·.signal) ++ attempt.toList.map (·.signal) }

/-- `firstAnswer`: an aborted call is dropped, and fails. -/
def firstAnswer (signal : ℕ) (failed : Work ν) (next : Answer → Work ν) : Work ν :=
  look fun m => if m.aborted.contains signal then failed
    else .wait fun a => if a = .failed then failed else next a

/-- `ask`: a failure is recorded on the row, unless the interview was abandoned. -/
def ask (signal : ℕ) (threw : Work ν) (next : Answer → Work ν) : Work ν :=
  firstAnswer signal (look fun m => if m.aborted.contains signal then threw else .wait fun _ => threw) next

def usable (row : Option (DataGateway ν)) : Bool := row.any fun row => row.enabled && row.deletedAt.isNone

/-- `storeOver`'s condition: the row still holds what the interview read. -/
def unchanged (gatewayId : ℕ) (before : InterviewAnswers) (m : Memory ν) : Bool :=
  usable (m.registry.rows gatewayId) && (m.answers gatewayId).capabilities = before.capabilities &&
    (before.firstInterviewedAt.isSome || (m.answers gatewayId).firstInterviewedAt.isNone)

def storeAnswers (gatewayId : ℕ) (before : InterviewAnswers) (capabilities : List DataGatewayCapability)
    (version : Option Text) (interviewedAt : ℕ) (m : Memory ν) : Memory ν :=
  let first := if before.firstInterviewedAt.isSome then
   (m.answers gatewayId).firstInterviewedAt else some interviewedAt
  { m with answers := Function.update m.answers gatewayId ⟨capabilities, version, first, some interviewedAt⟩ }

/-- `store`: tried again over what another process's interview stored. -/
def store (gatewayId signal : ℕ) (capabilities : List DataGatewayCapability) (version : Option Text)
    (interviewedAt : ℕ)
    (next : Bool → Work ν) : ℕ → InterviewAnswers → Work ν
  | 0, _ => next false
  | attempts + 1, before => look fun m =>
    if m.aborted.contains signal then next false
    else dbWrite (unchanged gatewayId before)
     (storeAnswers gatewayId before capabilities version interviewedAt) (next false)
      fun written =>
        if written then next true
        else dbRead (fun m => (usable (m.registry.rows gatewayId), m.answers gatewayId))
         (next false) fun current =>
          if current.1 then store gatewayId signal capabilities version interviewedAt next attempts
           current.2
          else next false

def reported : Answer → Option Text
  | .pong version => (version.map trim).filter (· ≠ [])
  | .ok | .failed | .description _ => none

def declared : Answer → List DataGatewayCapability
  | .description capabilities => capabilities
  | .ok | .failed | .pong _ => []

def conductInterview (gatewayId signal : ℕ) (knownPing : Option Answer) (next : Bool → Work ν) : Work ν :=
  dbRead (fun m => (usable (m.registry.rows gatewayId), m.answers gatewayId)) (next false) fun row =>
    if row.1 then
      let describe (ping : Answer) : Work ν := ask signal (next false) fun description => look fun m =>
        store gatewayId signal (declared description) (reported ping) m.clock next storeAttempts row.2
      match knownPing with
      | some ping => describe ping
      | none => ask signal (next false) describe
    else next false

def settle (ok : Bool) : Work ν := .settled (if ok then .returned else .threw)

/-- `startOrJoin`: an attempt that was abandoned leaves its successor's slot. -/
def startOrJoin (gatewayId driver : ℕ) (knownPing : Option Answer) (next : Bool → Work ν) : Work ν :=
  look fun m => match m.inFlight.lookup gatewayId with
    | some attempt => .join attempt.task fun outcome => next (outcome ≠ .threw)
    | none => .sync (fun _ m => { m with signals := m.signals + 1 }) fun _ m =>
      .spawn
        (conductInterview gatewayId m.signals knownPing fun ok => turn <|
          .sync (fun me m => if (m.inFlight.lookup gatewayId).any (·.task = me)
            then { m with inFlight := mapDelete gatewayId m.inFlight } else m) fun _ _ => settle ok)
        fun task => act
         (fun m' => { m' with inFlight := mapSet gatewayId ⟨driver, m.signals, task⟩ m'.inFlight }) <|
          .join task fun outcome => next (outcome ≠ .threw)

/-- `interviewUnlessDone`: whether it interviewed, or none when it threw. -/
def interviewUnlessDone (gatewayId driver : ℕ) (next : Option Bool → Work ν) : Work ν :=
  .sync (fun _ m =>
   { m with lookups := m.lookups ++ [⟨gatewayId, driver, m.signals⟩], signals := m.signals + 1 })
    fun _ m =>
    let signal := m.signals
    let left (next : Work ν) : Work ν :=
      act (fun m => { m with lookups := m.lookups.filter (·.signal ≠ signal) }) next
    dbRead (fun m => (m.registry.rows gatewayId).isSome && (m.answers gatewayId).firstInterviewedAt.isSome)
      (left (turn (next none))) fun done =>
        if done then left (turn (next (some false)))
        else look fun m =>
          if m.aborted.contains signal then left (turn (next none))
          else left <| startOrJoin gatewayId driver none fun ok =>
           turn (next (if ok then some true else none))

/-- `staleness`. -/
def stale (answers : InterviewAnswers) (ping : Answer) (now : ℕ) : Bool :=
  (reported ping).any (some · ≠ answers.gatewayVersion) ||
    answers.lastInterviewedAt.all fun last => last + interviewMaxAgeMs ≤ now

def refreshIfStale (gatewayId driver : ℕ) (connectionChanged : Bool) : Work ν :=
  look fun m =>
    if m.checks.any (·.driver = driver) then .settled .returned
    else .sync (fun _ m =>
     { m with checks := m.checks ++ [⟨gatewayId, driver, m.signals⟩], signals := m.signals + 1 })
      fun _ m =>
        let signal := m.signals
        let done : Work ν :=
          act (fun m => { m with checks := m.checks.filter (·.driver ≠ driver) }) (.settled .returned)
        dbRead (fun m => (usable (m.registry.rows gatewayId), m.answers gatewayId)) done fun row =>
          if row.1 then firstAnswer signal done fun ping => look fun m =>
            if connectionChanged || stale row.2 ping m.clock then
              if m.aborted.contains signal then done
              else startOrJoin gatewayId driver (some ping) fun _ => done
            else done
          else done

end Interview

end BoardGamesEmpire.GatewayDriver
