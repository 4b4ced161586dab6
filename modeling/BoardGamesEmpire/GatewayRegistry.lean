import BoardGamesEmpire.GatewayInterview

set_option autoImplicit false

/-!
# The gateway registry

`GatewayRegistryService`: connects, lazily or on request, caching, failure
tracking, routing decisions and the config events.
-/
namespace BoardGamesEmpire.GatewayDriver
open JsText JsonText AsyncTasks

section Drivers

variable {ν : Type}

def failureThreshold : ℕ := 3

def failureWindowMs : ℕ := 5 * 60 * 1000

def closeDriver (driver : ℕ) (registry : Registry ν) : Registry ν :=
  { registry with drivers := registry.drivers.modify driver fun record => { record with disposed := true } }

def disposeDriver (gatewayId driver : ℕ) (m : Memory ν) : Memory ν :=
  let m := abandon gatewayId (some driver) m
  { m with registry := closeDriver driver m.registry }

def disconnect (gatewayId : ℕ) (m : Memory ν) : Memory ν :=
  match m.registry.clients.lookup gatewayId with
  | some cached =>
    let m := disposeDriver gatewayId cached.driver m
    { m with registry := { m.registry with clients := mapDelete gatewayId m.registry.clients } }
  | none => m

def reportSuccess (gatewayId : ℕ) (m : Memory ν) : Memory ν :=
  { m with failures := mapDelete gatewayId m.failures }

/-- Any connect that captured an earlier value refuses to cache its result. -/
def bumpConnectGeneration (gatewayId : ℕ) (m : Memory ν) : Memory ν :=
  let generation := m.registry.connectGeneration
  abandon gatewayId none { m with registry := { m.registry with
    connectGeneration := Function.update generation gatewayId (generation gatewayId + 1) } }

/-- The track a failure now leaves: outside the window it starts afresh. -/
def failureTrack (gatewayId : ℕ) (m : Memory ν) : FailureTrack :=
  match m.failures.lookup gatewayId with
  | some track =>
    if track.firstFailureAt + failureWindowMs < m.clock then ⟨1, m.clock, m.clock⟩
    else ⟨track.consecutiveFailures + 1, track.firstFailureAt, m.clock⟩
  | none => ⟨1, m.clock, m.clock⟩

def disableRow (gatewayId : ℕ) (m : Memory ν) : Memory ν :=
  { m with registry := { m.registry with
    rows := Function.update m.registry.rows gatewayId
      ((m.registry.rows gatewayId).map fun row => { row with enabled := false })
    unpublished := m.registry.unpublished ++ [⟨gatewayId, [], .disabled⟩] } }

def publish (event : GatewayConfigEvent) (m : Memory ν) : Memory ν :=
  { m with registry := { m.registry with
    unpublished := m.registry.unpublished.erase event
    stream := m.registry.stream ++ [event] } }

/-- `disableGateway`: publishing is best-effort. -/
def disableGateway (gatewayId : ℕ) (track : FailureTrack) (reason : GatewayAutoDisableReason)
    (threw next : Work ν) :
    Work ν :=
  dbWrite (fun m => (m.registry.rows gatewayId).any (·.enabled)) (disableRow gatewayId)
   (turn threw) fun won =>
    act (fun m => reportSuccess gatewayId (disconnect gatewayId m)) <|
      if won then .wait fun a =>
        act (fun m => if a = .failed then m else publish ⟨gatewayId, [], .disabled⟩ m) <|
          turn <| act (fun m => { m with emitted := m.emitted ++ [⟨gatewayId, reason, track⟩] })
           <| turn next
      else turn next

def reportFailure (gatewayId : ℕ) (reason : GatewayAutoDisableReason) (threw next : Work ν) : Work ν :=
  .sync (fun _ m => { m with failures := mapSet gatewayId (failureTrack gatewayId m) m.failures })
   fun _ m =>
    let track := failureTrack gatewayId m
    if failureThreshold ≤ track.consecutiveFailures then disableGateway gatewayId track reason
     (turn threw) (turn next)
    else turn next

end Drivers

section Connect

variable {ν : Type}

/-- A call of `connect` or `register`, from its start to where it settles. -/
def openCall (next : ℕ → Work ν) : Work ν :=
  .sync (fun me m => { m with registry := { m.registry with calls := m.registry.calls ++ [⟨me, false⟩] } })
    fun _ m => next m.registry.calls.length

def settleCall (call : ℕ) (next : Work ν) : Work ν :=
  .sync (fun me m =>
   { m with registry := { m.registry with calls := m.registry.calls.set call ⟨me, true⟩ } })
    fun _ _ => turn next

def ownDriver (gatewayId call : ℕ) (options : Option (GatewayConnectionOptions ν)) (readAt : ℕ)
    (next : ℕ → Work ν) :
    Work ν :=
  .sync (fun _ m => { m with registry := { m.registry with
      drivers := m.registry.drivers ++ [⟨gatewayId, call, options, readAt, false⟩] } })
    fun _ m => next m.registry.drivers.length

/-- `RemoteGatewayDriverFactory.create`: only insecure credentials exist, and a
    channel that fails its ping is closed. -/
def create (call : ℕ) (options : GatewayConnectionOptions ν) (readAt : ℕ) (threw : Work ν)
    (next : ℕ → Work ν) : Work ν :=
  if options.authType = .none then
    ownDriver options.gatewayId call (some options) readAt fun driver =>
      .wait fun a =>
        if a = .failed then act (fun m => { m with registry := closeDriver driver m.registry })
         (turn threw)
        else turn (next driver)
  else turn threw

def discardIfInvalidated (gatewayId driver generation : ℕ) (discarded next : Work ν) : Work ν :=
  .sync (fun _ m => if m.registry.connectGeneration gatewayId ≠ generation then disposeDriver
   gatewayId driver m else m)
    fun _ m => if m.registry.connectGeneration gatewayId ≠ generation then discarded else next

def cacheDriver (gatewayId : ℕ) (entry : CachedDriver) (m : Memory ν) : Memory ν :=
  let m := match m.registry.clients.lookup gatewayId with
    | some existing => if existing.driver ≠ entry.driver then disposeDriver gatewayId
     existing.driver m else m
    | none => m
  let m := reportSuccess gatewayId { m with registry := { m.registry with
    clients := mapSet gatewayId entry m.registry.clients } }
  { m with connectionChanged := m.connectionChanged.erase gatewayId }

/-- `interviewAndCache`, with whether it returned. -/
def interviewAndCache (gatewayId : ℕ) (entry : CachedDriver) (generation : ℕ) (next : Bool →
    Work ν) : Work ν :=
  discardIfInvalidated gatewayId entry.driver generation (turn (next true)) <|
    interviewUnlessDone gatewayId entry.driver fun interviewed =>
      match interviewed with
      | none => discardIfInvalidated gatewayId entry.driver generation (turn (next true)) <|
          act (disposeDriver gatewayId entry.driver) (turn (next false))
      | some interviewedNow => discardIfInvalidated gatewayId entry.driver generation (turn (next true)) <|
          .sync (fun _ m => cacheDriver gatewayId entry m) fun _ m =>
            if interviewedNow then turn (next true)
            else .spawn (refreshIfStale gatewayId entry.driver (m.connectionChanged.contains gatewayId))
              fun _ => turn (next true)

variable (F : NumberFormat ν)

/-- `connect`: an existing connection goes first, and the generation is taken
    before the ping. -/
def connect (options : GatewayConnectionOptions ν) (readAt : ℕ) (next : Bool → Work ν) : Work ν :=
  openCall fun call => act (disconnect options.gatewayId) <| look fun m =>
    let generation := m.registry.connectGeneration options.gatewayId
    create call options readAt
      (reportFailure options.gatewayId .repeatedConnectionFailure (settleCall call (next false))
       (settleCall call (next false)))
      fun driver => interviewAndCache options.gatewayId
       ⟨driver, hashGatewayConfig F options, .remote⟩ generation
        fun ok => settleCall call (next ok)

def register (gatewayId : ℕ) (configHash : Text) (next : Bool → Work ν) : Work ν :=
  openCall fun call => look fun m => ownDriver gatewayId call none m.registry.handled fun driver => look fun m =>
    interviewAndCache gatewayId ⟨driver, configHash, .registered⟩ (m.registry.connectGeneration gatewayId)
      fun ok => settleCall call (next ok)

def DataGateway.options (gatewayId : ℕ) (row : DataGateway ν) : GatewayConnectionOptions ν :=
  ⟨gatewayId, row.connectionUrl, row.connectionPort, row.authType, row.authParameters⟩

/-- `connectFromDb`: the row is read at one moment and arrives at another. -/
def connectFromDb (gatewayId : ℕ) (next : Bool → Work ν) : Work ν :=
  .wait fun a => if a = .failed then next false else
    .sync (fun _ m =>
     { m with registry := { m.registry with reading := m.registry.reading ++ [gatewayId] } }) fun _ m =>
      let row := (m.registry.rows gatewayId).filter fun row => row.enabled && row.deletedAt.isNone
      let readAt := m.registry.handled
      .wait fun b =>
        act (fun m =>
         { m with registry := { m.registry with reading := m.registry.reading.erase gatewayId } }) <|
          if b = .failed then next false
          else match row with
            | none => next false
            | some row => connect F (row.options gatewayId) readAt next

/-- The attempt enters itself in `connecting`: it reads nothing there before
    its first wait. -/
def attempt (gatewayId : ℕ) : Work ν :=
  .sync (fun me m =>
   { m with registry := { m.registry with connecting := mapSet gatewayId me m.registry.connecting } })
    fun _ _ => connectFromDb F gatewayId fun ok => turn <|
      act (fun m =>
       { m with registry := { m.registry with connecting := mapDelete gatewayId m.registry.connecting } }) (settle ok)

def ensureConnected (gatewayId : ℕ) (next : Bool → Work ν) : Work ν :=
  look fun m =>
    if (m.registry.clients.lookup gatewayId).isSome then turn (next true)
    else match m.registry.connecting.lookup gatewayId with
      | some task => .join task fun outcome => turn (next (outcome ≠ .threw))
      | none => .spawn (attempt F gatewayId) fun task => .join task fun outcome =>
       turn (next (outcome ≠ .threw))

/-- `driverFor`: none when it throws. -/
def driverFor (gatewayId : ℕ) (next : Option ℕ → Work ν) : Work ν :=
  look fun m => match m.registry.clients.lookup gatewayId with
    | some cached => turn (next (some cached.driver))
    | none => ensureConnected F gatewayId fun ok =>
      if ok then look fun m => turn (next ((m.registry.clients.lookup gatewayId).map (·.driver)))
      else turn (next none)

end Connect

section Routing

variable {ν : Type}

inductive GatewayRefusalReason where
  | unknown
  | disabled
  | notInterviewed
  | notDeclared
  | switchedOff
deriving DecidableEq

def routingRow (gatewayId : ℕ) (m : Memory ν) : Option (DataGateway ν × InterviewAnswers) :=
  ((m.registry.rows gatewayId).filter (·.deletedAt.isNone)).map fun row => (row, m.answers gatewayId)

def routingRefusal (row : Option (DataGateway ν × InterviewAnswers))
    (capability : Option DataGatewayCapability) :
    Option GatewayRefusalReason :=
  match row with
  | none => some .unknown
  | some (row, answers) =>
    if !row.enabled then some .disabled
    else match capability with
      | none => none
      | some capability =>
        if answers.firstInterviewedAt.isNone then some .notInterviewed
        else if !answers.capabilities.contains capability then some .notDeclared
        else if row.disabledCapabilities.contains capability then some .switchedOff
        else none

def answerWith (driver : Option ℕ) : Work ν := .settled (driver.elim .threw .driver)

variable (F : NumberFormat ν)

/-- `routedRow`: connecting a DataGateway never interviewed interviews it. -/
def routedRow (gatewayId : ℕ) (capability : DataGatewayCapability) (next : Bool → Work ν) : Work ν :=
  let decide (row : Option (DataGateway ν × InterviewAnswers)) : Work ν :=
    turn (next (routingRefusal row (some capability)).isNone)
  dbRead (routingRow gatewayId) (next false) fun row =>
    if row.any fun row => row.1.enabled && row.2.firstInterviewedAt.isNone then
      ensureConnected F gatewayId fun ok => if ok then dbRead (routingRow gatewayId)
       (next false) decide else next false
    else decide row

def resolve (gatewayId : ℕ) (capability : DataGatewayCapability) : Work ν :=
  routedRow F gatewayId capability fun routed =>
    if routed then driverFor F gatewayId answerWith else settle false

/-- `searchRoute`, and its `driver` if the caller takes it. -/
def searchRoute (gatewayId : ℕ) : Work ν :=
  dbRead (routingRow gatewayId) (settle false) fun row =>
    if (routingRefusal row (some .search)).isSome then .settled .returned
    else .wait fun a => if a = .ok then driverFor F gatewayId answerWith else .settled .returned

def reinterview (gatewayId : ℕ) : Work ν :=
  dbRead (routingRow gatewayId) (settle false) fun row =>
    if (routingRefusal row none).isSome then settle false
    else look fun m =>
      if row.all (fun row => row.2.firstInterviewedAt.isNone) &&
       (m.registry.clients.lookup gatewayId).isNone then
        ensureConnected F gatewayId fun ok =>
          if ok then look fun m => settle (m.registry.clients.lookup gatewayId).isSome else settle false
      else driverFor F gatewayId fun driver => match driver with
        | some driver => startOrJoin gatewayId driver none settle
        | none => settle false

def refreshInterview (gatewayId : ℕ) : Work ν :=
  look fun m => match m.registry.clients.lookup gatewayId with
    | some cached => refreshIfStale gatewayId cached.driver false
    | none => .settled .returned

end Routing

section ConfigEvents

variable {ν : Type} (F : NumberFormat ν)

def ends (change : ChangeType) : Bool := change == .disabled || change == .deleted

/-- `handleConfigUpdate`; `taken` notes that the event was handled. -/
def handleConfigUpdate (event : GatewayConfigEvent) (taken : Memory ν → Memory ν) : Work ν :=
  look fun m =>
    let cached := m.registry.clients.lookup event.gatewayId
    if cached.any (·.origin = .registered) &&
     (event.changeType == .updated || event.changeType == .reconnectRequested) then
      act taken (.settled .returned)
    else if ends event.changeType then
      act (fun m =>
       taken (reportSuccess event.gatewayId
        (disconnect event.gatewayId (bumpConnectGeneration event.gatewayId m))))
        (.settled .returned)
    else if event.changeType = .reconnectRequested then
      act (fun m => taken (reportSuccess event.gatewayId (disconnect event.gatewayId m))) <|
        ensureConnected F event.gatewayId fun _ => .settled .returned
    else
      let configChanged := cached.all (·.configHash ≠ event.configHash)
      act (fun m =>
        let m := if event.changeType = .updated && configChanged then
            let m := bumpConnectGeneration event.gatewayId m
            { m with connectionChanged := event.gatewayId :: m.connectionChanged.erase event.gatewayId }
          else m
        taken (if configChanged then disconnect event.gatewayId m else m)) (.settled .returned)

end ConfigEvents

section Process

variable {ν : Type} (F : NumberFormat ν)

inductive Request (ν : Type) where
  | connect (options : GatewayConnectionOptions ν)
  | register (gatewayId : ℕ) (configHash : Text)
  | resolve (gatewayId : ℕ) (capability : DataGatewayCapability)
  | searchRoute (gatewayId : ℕ)
  | disconnect (gatewayId : ℕ)
  | reportFailure (gatewayId : ℕ) (reason : GatewayAutoDisableReason)
  | reinterview (gatewayId : ℕ)
  | refreshInterview (gatewayId : ℕ)
  | configEvent (event : GatewayConfigEvent)

def program : Request ν → Work ν
  | .connect options => look fun m => connect F options m.registry.handled settle
  | .register gatewayId configHash => register gatewayId configHash settle
  | .resolve gatewayId capability => resolve F gatewayId capability
  | .searchRoute gatewayId => searchRoute F gatewayId
  | .disconnect gatewayId => act (disconnect gatewayId) (.settled .returned)
  | .reportFailure gatewayId reason => reportFailure gatewayId reason (settle false) (settle true)
  | .reinterview gatewayId => reinterview F gatewayId
  | .refreshInterview gatewayId => refreshInterview gatewayId
  | .configEvent event => handleConfigUpdate F event id

inductive RowChange (ν : Type) where
  | created (row : DataGateway ν)
  | updated (row : DataGateway ν)
  | disabled
  | deleted (now : ℕ)

/-- What the other processes do: they change rows, publish the event of a
    change once it has committed, ask for reconnects and store answers. -/
inductive Elsewhere (ν : Type) where
  | commit (gatewayId : ℕ) (change : RowChange ν)
  | reconnect (gatewayId : ℕ)
  | publish (event : GatewayConfigEvent)
  | interviewed (gatewayId : ℕ) (answers : InterviewAnswers)
  | time (ms : ℕ)

def RowChange.apply (gatewayId : ℕ) :
    RowChange ν → Option (DataGateway ν) → Option (DataGateway ν × GatewayConfigEvent)
  | .created row, none => some (row, ⟨gatewayId, hashGatewayConfig F (row.options gatewayId), .created⟩)
  | .updated row, some _ => some (row, ⟨gatewayId, hashGatewayConfig F (row.options gatewayId), .updated⟩)
  | .disabled, some row => some ({ row with enabled := false }, ⟨gatewayId, [], .disabled⟩)
  | .deleted now, some row => some ({ row with deletedAt := some now }, ⟨gatewayId, [], .deleted⟩)
  | .created _, some _ | .updated _, none | .disabled, none | .deleted _, none => none

def elsewhere : Elsewhere ν → Memory ν → Option (Memory ν)
  | .commit gatewayId change, m =>
    (change.apply F gatewayId (m.registry.rows gatewayId)).map fun (row, event) =>
      { m with registry := { m.registry with
        rows := Function.update m.registry.rows gatewayId (some row)
        unpublished := m.registry.unpublished ++ [event] } }
  | .reconnect gatewayId, m =>
    some { m with registry := { m.registry with
      unpublished := m.registry.unpublished ++ [⟨gatewayId, [], .reconnectRequested⟩] } }
  | .publish event, m => if m.registry.unpublished.contains event then some (publish event m) else none
  | .interviewed gatewayId answers, m =>
   some { m with answers := Function.update m.answers gatewayId answers }
  | .time ms, m => some { m with clock := m.clock + ms }

def started (rows : ℕ → Option (DataGateway ν)) (answers : ℕ → InterviewAnswers) : Memory ν where
  registry := ⟨[], [], fun _ => 0, [], [], rows, [], [], 0, []⟩
  answers := answers
  inFlight := []
  checks := []
  lookups := []
  signals := 0
  aborted := []
  failures := []
  connectionChanged := []
  emitted := []
  clock := 0

end Process

end BoardGamesEmpire.GatewayDriver
