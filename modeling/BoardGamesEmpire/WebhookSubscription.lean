import BoardGamesEmpire.JsText
import BoardGamesEmpire.PhasedCalls

set_option autoImplicit false

/-!
# One webhook subscription, its deliveries and its owner

`WebhookDeliveryProcessor` and `WebhookDeliveryService` over any number of
workers, beside the owner's `WebhookSubscriptionService` calls. Every database
statement is a step of its own.
-/
namespace BoardGamesEmpire.WebhookSubscription
open JsText PhasedCalls

inductive WebhookSubscriptionStatus where
  | active | pending | disabled | failed | revoked
deriving DecidableEq

/-- The columns of `webhook_subscriptions` that these calls use. -/
structure Row where
  id : Text
  url : Text
  secret : Text
  status : WebhookSubscriptionStatus
  createdById : Text
  apiKeyId : Option Text
  consecutiveFailures : ℕ
  lastDeliveryAt : Option ℕ
  disabledAt : Option ℕ
  deletedAt : Option ℕ
deriving DecidableEq

section Errors

inductive SafeHttpErrorCode where
  | ssrfRejection | invalidRequestUrl | redirectDenied | redirectLimitExceeded | requestTimeout
   | outboundNetworkError
deriving DecidableEq

inductive DeliveryError where
  | deliveryFailed (status : ℕ)
  | safeHttp (code : SafeHttpErrorCode)
  | other
deriving DecidableEq

inductive WebhookDeliveryErrorCode where
  | nonSuccessResponse | timeout | networkError | blockedDestination | unknown
deriving DecidableEq

def WebhookDeliveryErrorCode.text : WebhookDeliveryErrorCode → Text
  | .nonSuccessResponse => "NON_SUCCESS_RESPONSE".toList
  | .timeout => "TIMEOUT".toList
  | .networkError => "NETWORK_ERROR".toList
  | .blockedDestination => "BLOCKED_DESTINATION".toList
  | .unknown => "UNKNOWN".toList

/-- `SAFE_MESSAGE`. -/
def safeMessage : WebhookDeliveryErrorCode → Text
  | .nonSuccessResponse => "The webhook endpoint returned a non-success response.".toList
  | .timeout => "The webhook endpoint did not respond in time.".toList
  | .networkError => "A network error occurred while contacting the webhook endpoint.".toList
  | .blockedDestination => "The webhook endpoint URL is not reachable due to security policy.".toList
  | .unknown => "Webhook delivery failed due to an internal error.".toList

def toErrorCode : DeliveryError → WebhookDeliveryErrorCode
  | .deliveryFailed _ => .nonSuccessResponse
  | .safeHttp .requestTimeout => .timeout
  | .safeHttp .outboundNetworkError => .networkError
  | .safeHttp .ssrfRejection => .blockedDestination
  | .safeHttp .invalidRequestUrl => .blockedDestination
  | .safeHttp .redirectDenied => .blockedDestination
  | .safeHttp .redirectLimitExceeded => .blockedDestination
  | .other => .unknown

end Errors

section Calls

structure WebhookDisabledEvent where
  subscriptionId : Text
  createdById : Text
  consecutiveFailures : ℕ
  lastErrorCode : Text
  lastError : Text
  disabledAt : ℕ
deriving DecidableEq

inductive Entry where
  | created
  | succeeded
  | failedTerminally
  | reactivated
  | autoDisabled (event : WebhookDisabledEvent)
deriving DecidableEq

/-- A job of the queue: `opts.attempts` and the attempts made. -/
structure Job where
  attempts : Option ℕ
  attemptsMade : ℕ
deriving DecidableEq

structure Actor where
  userId : Text
  apiKeyId : Option Text
deriving DecidableEq

inductive Operation where
  | disable
  | reactivate
  | update (url secret : Option Text) (changesTypes : Bool)
  | remove
deriving DecidableEq

inductive Request where
  | deliver (attempts : Option ℕ)
  | manage (operation : Operation) (actor : Actor)
deriving DecidableEq

inductive Refusal where
  | notFound | forbiddenOtherKey | forbiddenUpdate | forbiddenDelete | unauthorized
deriving DecidableEq

/-- Where a call stands: each phase but the last has one statement, or one
    request, in front of it. -/
inductive Phase where
  | delivering (job : Job)
  | requesting (job : Job) (url secret : Text)
  | succeeding
  | failing (error : DeliveryError)
  | disabling (createdById : Text) (consecutiveFailures : ℕ) (lastError : WebhookDeliveryErrorCode)
  | emitting (event : WebhookDisabledEvent)
  | checking (operation : Operation) (actor : Actor)
  | authorizing (operation : Operation) (actor : Actor)
  | writing (operation : Operation) (actor : Actor)
  | rechecking (operation : Operation) (actor : Actor)
  | answered (refusal : Option Refusal)
  | settled
deriving DecidableEq

/-- What the outside says at a step: the endpoint's response, the clock, and
    whether the actor's ceiling admits what is asked. -/
structure Answer where
  response : Except DeliveryError ℕ
  now : ℕ
  admits : Bool

structure State where
  row : Row
  history : List Entry
  events : List WebhookDisabledEvent

end Calls

section Delivery

def webhookFailureThreshold : ℕ := 3

def deliver (job : Job) (row : Row) : Phase :=
  if row.deletedAt.isSome then .settled
  else if row.status ≠ .active then .settled
  else .requesting job row.url row.secret

/-- `onFailed`, once the queue has counted the attempt: a job with attempts left
    is delivered again. -/
def onFailed (job : Job) (error : DeliveryError) : Phase :=
  let attempts := job.attempts.getD 1
  let attemptsMade := job.attemptsMade + 1
  if attempts > 1 ∧ attemptsMade < attempts then .delivering { job with attemptsMade } else .failing error

def respond (job : Job) : Except DeliveryError ℕ → Phase
  | .error error => onFailed job error
  | .ok status => if status < 200 ∨
   300 ≤ status then onFailed job (.deliveryFailed status) else .succeeding

def onSuccess (now : ℕ) (s : State) : State :=
  if s.row.deletedAt.isSome then s
  else { s with
    row := { s.row with consecutiveFailures := 0, lastDeliveryAt := some now }
    history := s.history ++ [.succeeded] }

def recordTerminalFailure (error : DeliveryError) (s : State) : Phase × State :=
  let updated := { s.row with consecutiveFailures := s.row.consecutiveFailures + 1 }
  (if updated.consecutiveFailures ≥ webhookFailureThreshold then
      .disabling updated.createdById updated.consecutiveFailures (toErrorCode error)
    else .settled,
    { s with row := updated, history := s.history ++ [.failedTerminally] })

def disabledEvent (id createdById : Text) (consecutiveFailures : ℕ) (lastError : WebhookDeliveryErrorCode)
    (disabledAt : ℕ) : WebhookDisabledEvent where
  subscriptionId := id
  createdById := createdById
  consecutiveFailures := consecutiveFailures
  lastErrorCode := lastError.text
  lastError := safeMessage lastError
  disabledAt := disabledAt

def autoDisable (event : WebhookDisabledEvent) (s : State) : Phase × State :=
  if s.row.status = .active then
    (.emitting event, { s with
      row := { s.row with status := .failed, disabledAt := some event.disabledAt }
      history := s.history ++ [.autoDisabled event] })
  else (.settled, s)

end Delivery

section Management

/-- `getWritable`. -/
def getWritable (actor : Actor) (admits : Bool) (row : Row) : Option Refusal :=
  if row.createdById = actor.userId ∧ row.deletedAt = none ∧ admits then
    if actor.apiKeyId.isSome ∧ row.apiKeyId ≠ actor.apiKeyId then some .forbiddenOtherKey else none
  else some .notFound

def Operation.authorizes : Operation → Bool
  | .reactivate => true
  | .update _ _ changesTypes => changesTypes
  | .disable | .remove => false

def check (operation : Operation) (actor : Actor) (admits : Bool) (row : Row) : Phase :=
  match getWritable actor admits row with
  | some refusal => .answered (some refusal)
  | none => if operation.authorizes then .authorizing operation actor else .writing operation actor

def Operation.data (now : ℕ) (row : Row) : Operation → Row
  | .disable => { row with status := .disabled, disabledAt := some now }
  | .reactivate => { row with status := .active, consecutiveFailures := 0, disabledAt := none }
  | .update url secret _ => { row with url := url.getD row.url, secret := secret.getD row.secret }
  | .remove => { row with deletedAt := some now, status := .disabled }

def Operation.entries : Operation → List Entry
  | .reactivate => [.reactivated]
  | .disable | .update _ _ _ | .remove => []

/-- The `where` of `writeScoped`. -/
def matchesScope (actor : Actor) (admits : Bool) (row : Row) : Bool :=
  row.deletedAt.isNone && admits && (actor.apiKeyId.isNone || row.apiKeyId == actor.apiKeyId)

def writeScoped (operation : Operation) (actor : Actor) (answer : Answer) (s : State) : Phase × State :=
  if matchesScope actor answer.admits s.row then
    (.answered none, { s with
      row := operation.data answer.now s.row
      history := s.history ++ operation.entries })
  else (.rechecking operation actor, s)

def refusalOf (operation : Operation) (actor : Actor) (admits : Bool) (row : Row) : Refusal :=
  match getWritable actor admits row with
  | some refusal => refusal
  | none => if operation = .remove then .forbiddenDelete else .forbiddenUpdate

end Management

section Steps

def start : Request → State → Phase
  | .deliver attempts, _ => .delivering ⟨attempts, 0⟩
  | .manage operation actor, _ => .checking operation actor

def move (answer : Answer) (phase : Phase) (s : State) : Option (Phase × State) :=
  match phase with
  | .delivering job => some (deliver job s.row, s)
  | .requesting job _ _ => some (respond job answer.response, s)
  | .succeeding => some (.settled, onSuccess answer.now s)
  | .failing error => some (recordTerminalFailure error s)
  | .disabling createdById consecutiveFailures lastError =>
    some (autoDisable (disabledEvent s.row.id createdById consecutiveFailures lastError answer.now) s)
  | .emitting event => some (.settled, { s with events := s.events ++ [event] })
  | .checking operation actor => some (check operation actor answer.admits s.row, s)
  | .authorizing operation actor =>
    some (if answer.admits then .writing operation actor else .answered (some .unauthorized), s)
  | .writing operation actor => some (writeScoped operation actor answer s)
  | .rechecking operation actor =>
   some (.answered (some (refusalOf operation actor answer.admits s.row)), s)
  | .answered _ => none
  | .settled => none

def subscription : Program Request Answer Empty State Phase where
  start := start
  move := move
  outside e _ := e.elim

end Steps

end BoardGamesEmpire.WebhookSubscription
