import BoardGamesEmpire.JsMap

set_option autoImplicit false

/-!
# Fanning an event out to webhook subscriptions

`fanOut` of `webhook-dispatcher.service.ts`: the subscriptions grouped by owner,
the owners judged a batch at a time, an ability built once an owner needs one
and a verdict kept for each owner and key. What the services answer is given;
every call that can fail is recorded for the subscription it was made for.
-/
namespace BoardGamesEmpire.WebhookFanOut
open JsText

structure Subscription where
  id : Text
  createdById : Text
  apiKeyId : Option Text
deriving DecidableEq

structure CandidateSubscription where
  id : Text
  apiKeyId : Option Text
deriving DecidableEq

structure UserWithRoles (γ : Type) where
  id : Text
  roles : γ

structure ApikeyWithScopes (κ : Type) where
  id : Text
  referenceId : Text
  scopes : κ

inductive Call where
  | createForUser
  | createForApiKeyActor
  | isVisibleTo
  | enqueue
deriving DecidableEq

/-- What the services answer during one event: a read of a batch that is rejected
    answers nothing, and a call may fail for a subscription. -/
structure Services (γ κ α : Type) where
  loadUserRoleGraphs : (ownerIds : List Text) → Option (List (UserWithRoles γ))
  loadApiKeyScopeGraphs : (ownerIds apiKeyIds : List Text) → Option (List (ApikeyWithScopes κ))
  createForUser : UserWithRoles γ → α
  createForApiKeyActor : α → ApikeyWithScopes κ → List α
  isVisibleTo : List α → Bool
  succeeds : Call → (subscriptionId : Text) → Bool

structure Entry where
  call : Call
  ownerId : Text
  subscription : CandidateSubscription
  ok : Bool

structure FanOut where
  visibilityCache : List (Text × Bool)
  log : List Entry
  failures : ℕ

structure Subscriber (γ α : Type) where
  graph : UserWithRoles γ
  ability : Option α

section Judging

variable {γ κ α : Type} (services : Services γ κ α)

def record (call : Call) (ownerId : Text) (subscription : CandidateSubscription) (state : FanOut) :
    FanOut :=
  { state with log := state.log ++ [⟨call, ownerId, subscription, services.succeeds call subscription.id⟩] }

def memoKey (ownerId : Text) (apiKeyId : Option Text) : Text := ownerId ++ ':' :: apiKeyId.getD []

def remember (memo : Text) (visible : Bool) (state : FanOut) : FanOut :=
  { state with visibilityCache := state.visibilityCache ++ [(memo, visible)] }

/-- `subscriber.ability ??= createForUser(subscriber.graph)`. -/
def abilityOf (subscription : CandidateSubscription) (subscriber : Subscriber γ α) (state : FanOut) :
    Subscriber γ α × FanOut × Option α :=
  match subscriber.ability with
  | some ability => (subscriber, state, some ability)
  | none =>
    let state := record services .createForUser subscriber.graph.id subscription state
    if services.succeeds .createForUser subscription.id then
      ({ subscriber with ability := some (services.createForUser subscriber.graph) }, state,
       some (services.createForUser subscriber.graph))
    else (subscriber, state, none)

def abilitiesOf (subscription : CandidateSubscription) (ownerId : Text)
    (keyGraph : Option (ApikeyWithScopes κ)) (ability : α)
    (state : FanOut) : FanOut × Option (List α) :=
  match keyGraph with
  | none => (state, some [ability])
  | some key =>
    (record services .createForApiKeyActor ownerId subscription state,
      if services.succeeds .createForApiKeyActor subscription.id then some
       (services.createForApiKeyActor ability key) else none)

def queryVisible (subscription : CandidateSubscription) (keyGraph : Option (ApikeyWithScopes κ))
    (subscriber : Subscriber γ α) (state : FanOut) :
    Subscriber γ α × FanOut × Option Bool :=
  match abilityOf services subscription subscriber state with
  | (subscriber, state, none) => (subscriber, state, none)
  | (subscriber, state, some ability) =>
    match abilitiesOf services subscription subscriber.graph.id keyGraph ability state with
    | (state, none) => (subscriber, state, none)
    | (state, some abilities) =>
      let state := record services .isVisibleTo subscriber.graph.id subscription state
      if services.succeeds .isVisibleTo subscription.id then
        (subscriber, remember (memoKey subscriber.graph.id subscription.apiKeyId)
         (services.isVisibleTo abilities) state,
          some (services.isVisibleTo abilities))
      else (subscriber, state, none)

/-- The key graph is none where the key is gone, and no key's for one made in a session. -/
def visibleTo (subscription : CandidateSubscription)
    (keyGraph : Option (Option (ApikeyWithScopes κ))) (subscriber : Subscriber γ α)
    (state : FanOut) : Subscriber γ α × FanOut × Option Bool :=
  let memo := memoKey subscriber.graph.id subscription.apiKeyId
  match mapGet state.visibilityCache memo with
  | some visible => (subscriber, state, some visible)
  | none =>
    match keyGraph with
    | none => (subscriber, remember memo false state, some false)
    | some keyGraph =>
      if keyGraph.any fun key => key.referenceId ≠ subscriber.graph.id then
       (subscriber, remember memo false state, some false)
      else queryVisible services subscription keyGraph subscriber state

def failed (state : FanOut) : FanOut := { state with failures := state.failures + 1 }

/-- A subscription whose key is in the batch's keys or was made without one. -/
def deliver (keyGraph : Option (Option (ApikeyWithScopes κ))) (judging : Subscriber γ α × FanOut)
    (subscription : CandidateSubscription) :
    Subscriber γ α × FanOut :=
  match visibleTo services subscription keyGraph judging.1 judging.2 with
  | (subscriber, state, none) => (subscriber, failed state)
  | (subscriber, state, some false) => (subscriber, state)
  | (subscriber, state, some true) =>
    let state := record services .enqueue subscriber.graph.id subscription state
    (subscriber, if services.succeeds .enqueue subscription.id then state else failed state)

def keyOf (keys : List (ApikeyWithScopes κ)) (apiKeyId : Text) : Option (ApikeyWithScopes κ) :=
  mapGet (keys.map fun key => (key.id, key)) apiKeyId

def judge (keyGraphs : Option (List (ApikeyWithScopes κ))) (judging : Subscriber γ α × FanOut)
    (subscription : CandidateSubscription) :
    Subscriber γ α × FanOut :=
  match subscription.apiKeyId with
  | none => deliver services (some none) judging subscription
  | some apiKeyId =>
    match keyGraphs with
    | none => (judging.1, failed judging.2)
    | some keys => deliver services ((keyOf keys apiKeyId).map some) judging subscription

def graphOf (graphs : List (UserWithRoles γ)) (ownerId : Text) : Option (UserWithRoles γ) :=
  mapGet (graphs.map fun graph => (graph.id, graph)) ownerId

def judgeOwner (graphs : List (UserWithRoles γ)) (keyGraphs : Option (List (ApikeyWithScopes κ)))
    (state : FanOut)
    (owner : Text × List CandidateSubscription) : FanOut :=
  match graphOf graphs owner.1 with
  | none => state
  | some graph => (owner.2.foldl (judge services keyGraphs) (⟨graph, none⟩, state)).2

def apiKeyIdsOf (batch : List (Text × List CandidateSubscription)) : List Text :=
  (batch.flatMap fun owner => owner.2.filterMap (·.apiKeyId)).eraseDups

def readKeys (batch : List (Text × List CandidateSubscription)) : Option (List (ApikeyWithScopes κ)) :=
  services.loadApiKeyScopeGraphs (batch.map Prod.fst) (apiKeyIdsOf batch)

def judgeBatch (state : FanOut) (batch : List (Text × List CandidateSubscription)) : FanOut :=
  match services.loadUserRoleGraphs (batch.map Prod.fst) with
  | none => { state with failures := state.failures + (batch.map fun owner => owner.2.length).sum }
  | some graphs => batch.foldl (judgeOwner services graphs (readKeys services batch)) state

/-- `owners.slice(start, start + size)`. -/
def batchAt (size : ℕ) (owners : List (Text × List CandidateSubscription)) (start : ℕ) :
    List (Text × List CandidateSubscription) :=
  (owners.drop start).take size

def judgeFrom (size : ℕ) (owners : List (Text × List CandidateSubscription)) : ℕ → ℕ → FanOut → FanOut
  | 0, _, state => state
  | fuel + 1, start, state =>
    if start < owners.length then judgeFrom size owners fuel (start + size)
     (judgeBatch services state (batchAt size owners start))
    else state

/-- The `set` calls and pushes of the grouping by owner. -/
def subscriptionsByOwner (subscriptions : List Subscription) : List (Text × List CandidateSubscription) :=
  subscriptions.foldl (fun sets subscription =>
    sets ++ [(subscription.createdById,
     (mapGet sets subscription.createdById).getD [] ++ [⟨subscription.id, subscription.apiKeyId⟩])]) []

def ownersOf (subscriptions : List Subscription) :
    List (Text × List CandidateSubscription) := mapEntries (subscriptionsByOwner subscriptions)

def fanOut (size : ℕ) (subscriptions : List Subscription) : FanOut :=
  judgeFrom services size (ownersOf subscriptions) (ownersOf subscriptions).length 0 ⟨[], [], 0⟩

end Judging

section Alone

variable {γ κ α : Type} (services : Services γ κ α)

/-- Whether the abilities see the subject, of the owner and of a key that is the owner's own. -/
def sees (graph : UserWithRoles γ) (keyGraph : Option (Option (ApikeyWithScopes κ))) : Bool :=
  match keyGraph with
  | none => false
  | some none => services.isVisibleTo [services.createForUser graph]
  | some (some key) =>
    decide (key.referenceId = graph.id) && services.isVisibleTo
     (services.createForApiKeyActor (services.createForUser graph) key)

def ownerVerdict (graph : UserWithRoles γ) (keyGraphs : Option (List (ApikeyWithScopes κ))) :
    Option Text → Bool
  | none => sees services graph (some none)
  | some apiKeyId =>
    match keyGraphs with
    | none => false
    | some keys => sees services graph ((keyOf keys apiKeyId).map some)

/-- The verdict on a subscription judged alone, with what its owner's batch read. -/
def verdict (batch : List (Text × List CandidateSubscription)) (ownerId : Text)
    (apiKeyId : Option Text) : Bool :=
  match (services.loadUserRoleGraphs (batch.map Prod.fst)).bind (graphOf · ownerId) with
  | none => false
  | some graph => ownerVerdict services graph (readKeys services batch) apiKeyId

def batchOf (size : ℕ) (owners : List (Text × List CandidateSubscription)) (ownerId : Text) :
    List (Text × List CandidateSubscription) :=
  batchAt size owners ((owners.map Prod.fst).idxOf ownerId / size * size)

end Alone

end BoardGamesEmpire.WebhookFanOut
