import BoardGamesEmpire.SecureHttpIpPolicy
import BoardGamesEmpire.JsonObject

set_option autoImplicit false

/-!
# Outbound requests

`SecureHttpService.request`: the retry loop around the redirect loop, with the
gauntlet run again for every hop. What the network, the resolver and the policy
answer is left to the environment.
-/
namespace BoardGamesEmpire.SecureHttpRequest
open JsText JsonText SecureHttpIp SecureHttpIpPolicy

inductive SafeHttpMethod where
  | get | post | put | patch | delete | head | options
  deriving DecidableEq, Repr

/-- A number of ECMAScript; `none` is `NaN` or an infinity. -/
abbrev Number := Option ℚ

structure SafeHttpRetryPolicy where
  attempts : Number
  baseDelayMs : ℚ
  maxDelayMs : Option ℚ
  jitter : Option Bool
  retryOnStatusCodes : Option (List ℕ)
  retryOnNetworkError : Option Bool

inductive SafeHttpRequestBody (ν : Type) where
  | text (value : Text)
  | bytes (value : List UInt8)
  | json (value : Json ν)

abbrev Headers := List (Text × Text)

structure SafeHttpRequestOptions (ν : Type) where
  method : Option SafeHttpMethod
  headers : Option Headers
  body : Option (SafeHttpRequestBody ν)
  timeoutMs : Option ℕ
  maxRedirects : Option ℕ
  retry : Option SafeHttpRetryPolicy

structure PolicySnapshot where
  defaultTimeoutMs : ℕ
  defaultMaxRedirects : ℕ
  rules : SafeHttpPolicySnapshot

structure ResolvedOptions (ν : Type) where
  method : SafeHttpMethod
  headers : Headers
  body : Option (SafeHttpRequestBody ν)
  timeoutMs : ℕ
  maxRedirects : ℕ
  retry : Option SafeHttpRetryPolicy

structure ParsedUrl where
  href : Text
  url : Url

inductive Payload where
  | text (value : Text)
  | bytes (value : List UInt8)

/-- One request on the wire. `connectIp` is the address the agent of this hop is
    built for: its `lookup` answers nothing else. -/
structure HopRequest where
  target : ParsedUrl
  connectIp : Text
  connectFamily : IpFamily
  method : SafeHttpMethod
  headers : Headers
  payload : Option Payload

structure HopResult where
  status : ℕ
  headers : Headers
  bodyBytes : List UInt8

inductive HopFailure where
  | timeout | tooLarge | network

inductive InvalidUrlReason where
  | parseFailure | invalidScheme
  deriving DecidableEq, Repr

structure SsrfRejection where
  host : Text
  reason : SsrfRejectionReason
  ip : Option Text
  deriving DecidableEq

inductive SafeHttpError where
  | ssrfRejection (cause : SsrfRejection)
  | invalidRequestUrl (url : Text) (reason : InvalidUrlReason)
  | redirectToDisallowedTarget (source target : Text) (cause : SsrfRejection)
  | redirectLimitExceeded (url : Text) (limit : ℕ)
  | requestTimeout (url : Text) (timeoutMs : ℕ)
  | outboundNetwork (url : Text)
  deriving DecidableEq

/-- What `executeWithRedirects` throws; `other` is no `SafeHttpError`. -/
inductive Thrown where
  | safe (error : SafeHttpError)
  | other

structure SafeHttpResponse where
  status : ℕ
  headers : Headers
  bodyBytes : List UInt8
  finalUrl : Text
  redirectCount : ℕ

/-- Everything the service awaits or calls outside itself, by attempt and hop. -/
structure Environment (ν : Type) where
  casing : LowerCasing
  numbers : NumberFormat ν
  /-- `new URL(url)` -/
  parse : Text → Option ParsedUrl
  /-- `new URL(location, base).toString()` -/
  resolve : Text → Text → Option Text
  current : ℕ → PolicySnapshot
  resolveAll : ℕ → ℕ → Text → DnsAnswer
  exchange : ℕ → ℕ → HopRequest → Except HopFailure HopResult
  random : ℕ → ℚ

section Request

variable {ν : Type} (env : Environment ν)

def resolveOptions (options : SafeHttpRequestOptions ν) (snapshot : PolicySnapshot) :
    ResolvedOptions ν where
  method := options.method.getD .get
  headers := options.headers.getD []
  body := options.body
  timeoutMs := options.timeoutMs.getD snapshot.defaultTimeoutMs
  maxRedirects := options.maxRedirects.getD snapshot.defaultMaxRedirects
  retry := options.retry

def parseUrl (url : Text) : Except SafeHttpError ParsedUrl :=
  match env.parse url with
  | none => .error (.invalidRequestUrl url .parseFailure)
  | some parsed =>
    if parsed.url.protocol ≠ "http:".toList ∧ parsed.url.protocol ≠ "https:".toList then
      .error (.invalidRequestUrl url .invalidScheme)
    else .ok parsed

def marshalRequest (callerHeaders : Headers) (body : Option (SafeHttpRequestBody ν))
    (hostname : Text) : Headers × Option Payload :=
  let lowered := callerHeaders.foldl
    (fun headers h => setMember headers (env.casing.toLowerCase h.1, h.2)) []
  let headers := setMember lowered ("host".toList, hostname)
  match body with
  | none => (headers, none)
  | some (.text s) => (headers, some (.text s))
  | some (.bytes b) => (headers, some (.bytes b))
  | some (.json v) =>
    let typed :=
      if (headers.map Prod.fst).contains "content-type".toList then headers
      else setMember headers ("content-type".toList, "application/json".toList)
    (typed, some (.text (stringify env.numbers v)))

def hopRequest (target : ParsedUrl) (decision : IpPolicyAllow) (method : SafeHttpMethod)
    (callerHeaders : Headers) (body : Option (SafeHttpRequestBody ν)) : HopRequest :=
  let (headers, payload) := marshalRequest env callerHeaders body decision.hostname
  ⟨target, decision.pinnedIp, decision.pinnedFamily, method, headers, payload⟩

def isFollowableRedirect (status : ℕ) : Bool :=
  status == 301 || status == 302 || status == 303 || status == 307 || status == 308

def location (hop : HopResult) : Option Text :=
  if isFollowableRedirect hop.status then
    (mapGet hop.headers "location".toList).filter (· ≠ [])
  else none

/-- Whether following the redirect turns the request into a `GET` without body. -/
def dropsBody (status : ℕ) (method : SafeHttpMethod) : Bool :=
  status == 303 || ((status == 301 || status == 302) && method != .get && method != .head)

def rejection (decision : IpPolicyReject) : SsrfRejection :=
  ⟨decision.hostname, decision.reason, decision.ip⟩

def refusal (initialUrl url : Text) (redirectCount : ℕ) (decision : IpPolicyReject) : SafeHttpError :=
  if redirectCount = 0 then .ssrfRejection (rejection decision)
  else .redirectToDisallowedTarget initialUrl url (rejection decision)

def hopError (target : ParsedUrl) (timeoutMs : ℕ) : HopFailure → Thrown
  | .timeout => .safe (.requestTimeout target.href timeoutMs)
  | .tooLarge => .safe (.outboundNetwork target.href)
  | .network => .other

structure Loop (ν : Type) where
  url : Text
  method : SafeHttpMethod
  body : Option (SafeHttpRequestBody ν)
  redirectCount : ℕ

/-- Following a redirect, with the rewriting of method and body that Fetch asks for. -/
def Loop.redirected (state : Loop ν) (status : ℕ) (nextUrl : Text) : Loop ν :=
  if dropsBody status state.method then ⟨nextUrl, .get, none, state.redirectCount + 1⟩
  else ⟨nextUrl, state.method, state.body, state.redirectCount + 1⟩

structure Visit (ν : Type) where
  state : Loop ν
  target : ParsedUrl
  decision : Except EvaluateError IpPolicyDecision
  sent : Option HopRequest
  answer : Option (Except HopFailure HopResult)

inductive Pass (ν : Type) where
  | stop (visits : List (Visit ν)) (outcome : Except Thrown SafeHttpResponse)
  | follow (visit : Visit ν) (next : Loop ν)

def afterHop (options : ResolvedOptions ν) (initialUrl : Text) (state : Loop ν) (visit : Visit ν)
    (hop : HopResult) : Pass ν :=
  match location hop with
  | none => .stop [visit]
      (.ok ⟨hop.status, hop.headers, hop.bodyBytes, state.url, state.redirectCount⟩)
  | some target =>
    if options.maxRedirects ≤ state.redirectCount then
      .stop [visit] (.error (.safe (.redirectLimitExceeded initialUrl options.maxRedirects)))
    else
      match env.resolve target state.url with
      | none => .stop [visit] (.error (.safe (.invalidRequestUrl target .parseFailure)))
      | some nextUrl => .follow visit (state.redirected hop.status nextUrl)

def pass (options : ResolvedOptions ν) (snapshot : PolicySnapshot) (attempt : ℕ) (initialUrl : Text)
    (state : Loop ν) : Pass ν :=
  match parseUrl env state.url with
  | .error e => .stop [] (.error (.safe e))
  | .ok target =>
    let decision := evaluate env.casing (env.resolveAll attempt state.redirectCount) target.url
      snapshot.rules
    match decision with
    | .error e => .stop [⟨state, target, .error e, none, none⟩] (.error .other)
    | .ok (.reject r) =>
      .stop [⟨state, target, .ok (.reject r), none, none⟩]
        (.error (.safe (refusal initialUrl state.url state.redirectCount r)))
    | .ok (.allow d) =>
      let hop := hopRequest env target d state.method options.headers state.body
      let answer := env.exchange attempt state.redirectCount hop
      let visit := ⟨state, target, .ok (.allow d), some hop, some answer⟩
      match answer with
      | .error failure => .stop [visit] (.error (hopError target options.timeoutMs failure))
      | .ok result => afterHop env options initialUrl state visit result

variable {env}

/-- Where the loop goes after a visit: the `Location` of its answer, resolved
    against its URL, while redirects are left. -/
def Visit.next (env : Environment ν) (options : ResolvedOptions ν) (v : Visit ν) : Option (Loop ν) :=
  match v.answer with
  | some (.ok hop) =>
    (location hop).bind fun target =>
      if options.maxRedirects ≤ v.state.redirectCount then none
      else (env.resolve target v.state.url).map (v.state.redirected hop.status)
  | some (.error _) => none
  | none => none

theorem next_answered {options : ResolvedOptions ν} {v : Visit ν} {next : Loop ν}
  (h : v.next env options = some next) :
  v.state.redirectCount < options.maxRedirects ∧
   ∃ hop nextUrl, v.answer = some (.ok hop) ∧ next = v.state.redirected hop.status nextUrl := by
 unfold Visit.next at h
 split at h
 · rename_i hop hanswer
   obtain ⟨target, -, htarget⟩ := Option.bind_eq_some_iff.1 h
   split_ifs at htarget with hlimit
   obtain ⟨nextUrl, -, rfl⟩ := Option.map_eq_some_iff.1 htarget
   exact ⟨Nat.lt_of_not_le hlimit, hop, nextUrl, hanswer, rfl⟩
 · cases h
 · cases h

theorem afterHop_next (options : ResolvedOptions ν) (initialUrl : Text) {v : Visit ν}
  {hop : HopResult} (hanswer : v.answer = some (.ok hop)) :
  (v.next env options = none ∧
   ∃ outcome, afterHop env options initialUrl v.state v hop = .stop [v] outcome) ∨
  ∃ next, v.next env options = some next ∧
   afterHop env options initialUrl v.state v hop = .follow v next := by
 unfold Visit.next afterHop
 rw [hanswer]
 dsimp only
 cases location hop with
 | none => exact .inl ⟨rfl, _, rfl⟩
 | some target =>
  by_cases hlimit : options.maxRedirects ≤ v.state.redirectCount
  · simp only [Option.bind_some, if_pos hlimit]
    exact .inl ⟨trivial, _, rfl⟩
  · simp only [Option.bind_some, if_neg hlimit]
    cases env.resolve target v.state.url with
    | none => exact .inl ⟨rfl, _, rfl⟩
    | some nextUrl => exact .inr ⟨_, rfl, rfl⟩

def leave (env : Environment ν) (options : ResolvedOptions ν) (state : Loop ν) (target : ParsedUrl) :
    Except EvaluateError IpPolicyDecision → Option HopRequest
  | .ok (.allow d) => some (hopRequest env target d state.method options.headers state.body)
  | .ok (.reject _) => none
  | .error _ => none

/-- A visit is the pass it records: its target parsed from the URL of the loop,
    its decision made for that target, and a hop sent only on leave. -/
structure Visit.Faithful (env : Environment ν) (options : ResolvedOptions ν)
    (snapshot : PolicySnapshot) (attempt : ℕ) (v : Visit ν) : Prop where
  parsed : parseUrl env v.state.url = .ok v.target
  decided : v.decision = evaluate env.casing (env.resolveAll attempt v.state.redirectCount)
    v.target.url snapshot.rules
  sent : v.sent = leave env options v.state v.target v.decision
  answered : v.answer = v.sent.map (env.exchange attempt v.state.redirectCount)

theorem pass_cases (options : ResolvedOptions ν) (snapshot : PolicySnapshot) (attempt : ℕ)
  (initialUrl : Text) (state : Loop ν) :
  (∃ e, parseUrl env state.url = .error e ∧
   pass env options snapshot attempt initialUrl state = .stop [] (.error (.safe e))) ∨
  ∃ v : Visit ν, v.state = state ∧ v.Faithful env options snapshot attempt ∧
   ((v.next env options = none ∧
    ∃ outcome, pass env options snapshot attempt initialUrl state = .stop [v] outcome ∧
     ∀ r, v.decision = .ok (.reject r) →
      outcome = .error (.safe (refusal initialUrl state.url state.redirectCount r))) ∨
    ∃ d next, v.decision = .ok (.allow d) ∧ v.next env options = some next ∧
     pass env options snapshot attempt initialUrl state = .follow v next) := by
 unfold pass
 cases hparse : parseUrl env state.url with
 | error e => exact Or.inl ⟨e, rfl, rfl⟩
 | ok target =>
  apply Or.inr
  simp only
  cases hdecision : evaluate env.casing (env.resolveAll attempt state.redirectCount) target.url
    snapshot.rules with
  | error e =>
   refine ⟨⟨state, target, .error e, none, none⟩, rfl, ⟨hparse, hdecision.symm, rfl, rfl⟩,
    Or.inl ⟨rfl, _, rfl, ?_⟩⟩
   intro r hr
   cases hr
  | ok decision =>
   cases decision with
   | reject r =>
    refine ⟨⟨state, target, .ok (.reject r), none, none⟩, rfl, ⟨hparse, hdecision.symm, rfl, rfl⟩,
     Or.inl ⟨rfl, _, rfl, ?_⟩⟩
    intro r' hr
    cases hr
    rfl
   | allow d =>
    let hop := hopRequest env target d state.method options.headers state.body
    let answer := env.exchange attempt state.redirectCount hop
    let visit : Visit ν := ⟨state, target, .ok (.allow d), some hop, some answer⟩
    refine ⟨visit, rfl, ⟨hparse, hdecision.symm, rfl, rfl⟩, ?_⟩
    cases hanswer : answer with
    | error failure =>
     have hnext : visit.next env options = none := by simp only [Visit.next, visit, hanswer]
     have hsame : (⟨state, target, .ok (.allow d), some hop, some (.error failure)⟩ : Visit ν)
      = visit := by
      simp only [visit, hanswer]
     refine Or.inl ⟨hnext, .error (hopError target options.timeoutMs failure), ?_, ?_⟩
     · simp only [answer, hop] at hanswer
       simp only [hanswer]
       rw [← hsame]
     · intro r hr
       cases hr
    | ok result =>
     have hvisit : visit.answer = some (.ok result) := congrArg some hanswer
     simp only [answer, hop] at hanswer
     simp only [hanswer]
     have hsame : (⟨state, target, .ok (.allow d), some hop, some (.ok result)⟩ : Visit ν) = visit := by
      simp only [visit, answer, hop, hanswer]
     rcases @afterHop_next ν env options initialUrl _ _ hvisit with ⟨hnext, outcome, hstop⟩
      | ⟨next, hnext, hfollow⟩
     · refine Or.inl ⟨hnext, outcome, ?_, ?_⟩
       · rw [← hstop, ← hsame]
       · intro r hr
         cases hr
     · refine Or.inr ⟨d, next, rfl, hnext, ?_⟩
       rw [← hfollow, ← hsame]

theorem pass_follow {options : ResolvedOptions ν} {snapshot : PolicySnapshot} {attempt : ℕ}
  {initialUrl : Text} {state next : Loop ν} {visit : Visit ν}
  (h : pass env options snapshot attempt initialUrl state = .follow visit next) :
  state.redirectCount < options.maxRedirects ∧ next.redirectCount = state.redirectCount + 1 := by
 rcases pass_cases options snapshot attempt initialUrl state with
  ⟨e, -, hstop⟩ | ⟨v, rfl, _, ⟨-, outcome, hstop, _⟩ | ⟨_, w, _, hnext, hfollow⟩⟩
 · rw [hstop] at h
   cases h
 · rw [hstop] at h
   cases h
 · rw [hfollow] at h
   cases h
   obtain ⟨hlimit, hop, nextUrl, -, rfl⟩ := next_answered hnext
   refine ⟨hlimit, ?_⟩
   unfold Loop.redirected
   split_ifs <;> rfl

variable (env)

/-- The redirect loop from a state on: its visits and how the attempt ends. A
    followed redirect raises `redirectCount` towards `maxRedirects`. -/
def redirectLoop (options : ResolvedOptions ν) (snapshot : PolicySnapshot) (attempt : ℕ)
    (initialUrl : Text) (state : Loop ν) : List (Visit ν) × Except Thrown SafeHttpResponse :=
  match _h : pass env options snapshot attempt initialUrl state with
  | .stop visits outcome => (visits, outcome)
  | .follow visit next =>
    let rest := redirectLoop options snapshot attempt initialUrl next
    (visit :: rest.1, rest.2)
termination_by options.maxRedirects - state.redirectCount
decreasing_by
  have hnext := pass_follow _h
  omega

def executeWithRedirects (initialUrl : Text) (options : ResolvedOptions ν) (snapshot : PolicySnapshot)
    (attempt : ℕ) : List (Visit ν) × Except Thrown SafeHttpResponse :=
  redirectLoop env options snapshot attempt initialUrl ⟨initialUrl, options.method, options.body, 0⟩

def defaultRetryStatuses : List ℕ := [408, 429, 502, 503, 504]

def shouldRetryStatus (status : ℕ) (retry : SafeHttpRetryPolicy) : Bool :=
  (retry.retryOnStatusCodes.getD defaultRetryStatuses).contains status

def shouldRetryError (error : SafeHttpError) (retry : SafeHttpRetryPolicy) : Bool :=
  if retry.retryOnNetworkError = some false then false
  else
    match error with
    | .outboundNetwork _ => true
    | .requestTimeout _ _ => true
    | _ => false

/-- The policy failures that `request` throws at once. -/
def neverRetried : SafeHttpError → Bool
  | .ssrfRejection _ => true
  | .invalidRequestUrl _ _ => true
  | .redirectToDisallowedTarget _ _ _ => true
  | .redirectLimitExceeded _ _ => true
  | .requestTimeout _ _ => false
  | .outboundNetwork _ => false

def toSafeHttpError (url : Text) : Thrown → SafeHttpError
  | .safe e => e
  | .other => .outboundNetwork url

/-- The pause before the next attempt, for a draw of `Math.random`. -/
def computeBackoff (random : ℚ) (attempt : ℕ) (retry : SafeHttpRetryPolicy) : ℚ :=
  let exp := min (retry.baseDelayMs * 2 ^ (attempt - 1)) (retry.maxDelayMs.getD 30000)
  if retry.jitter = some false then exp else ⌊random * exp⌋

/-- Attempts outside `[1, ∞)` count as a single one. -/
def totalAttempts (options : SafeHttpRequestOptions ν) : ℕ :=
  match options.retry with
  | some ⟨some raw, _, _, _, _, _⟩ => if 1 ≤ raw then ⌊raw⌋.toNat else 1
  | some ⟨none, _, _, _, _, _⟩ => 1
  | none => 1

/-- One round of the retry loop, and the pause after it where another follows. -/
structure AttemptRun (ν : Type) where
  attempt : ℕ
  visits : List (Visit ν)
  backoff : Option ℚ

def AttemptRun.hops (a : AttemptRun ν) : List HopRequest := a.visits.filterMap (·.sent)

def retries (resolved : ResolvedOptions ν) (attempt total : ℕ) :
    Except SafeHttpError SafeHttpResponse → Bool
  | .ok response =>
    resolved.retry.any fun retry => decide (attempt < total) && shouldRetryStatus response.status retry
  | .error e =>
    !neverRetried e &&
      resolved.retry.any fun retry => decide (attempt < total) && shouldRetryError e retry

/-- The `for` loop of `request` with `left` rounds to go. -/
def attemptLoop (url : Text) (options : SafeHttpRequestOptions ν) (total : ℕ) :
    ℕ → ℕ → Option SafeHttpError → List (AttemptRun ν) × Except SafeHttpError SafeHttpResponse
  | 0, _, lastError => ([], .error (lastError.getD (.outboundNetwork url)))
  | left + 1, attempt, lastError =>
    let snapshot := env.current attempt
    let resolved := resolveOptions options snapshot
    let run := executeWithRedirects env url resolved snapshot attempt
    let outcome := run.2.mapError (toSafeHttpError url)
    if retries resolved attempt total outcome then
      let rest := attemptLoop url options total left (attempt + 1)
        (match outcome with
          | .ok _ => lastError
          | .error e => some e)
      let backoff := resolved.retry.map (computeBackoff (env.random attempt) attempt)
      (⟨attempt, run.1, backoff⟩ :: rest.1, rest.2)
    else ([⟨attempt, run.1, none⟩], outcome)

def request (url : Text) (options : SafeHttpRequestOptions ν) :
    List (AttemptRun ν) × Except SafeHttpError SafeHttpResponse :=
  attemptLoop env url options (totalAttempts options) (totalAttempts options) 1 none

section RedirectLoop

variable {options : ResolvedOptions ν} {snapshot : PolicySnapshot} {attempt : ℕ} {initialUrl : Text}

theorem redirectLoop_induction {P : Loop ν → List (Visit ν) → Except Thrown SafeHttpResponse → Prop}
  (stop : ∀ state visits outcome,
   pass env options snapshot attempt initialUrl state = .stop visits outcome → P state visits outcome)
  (follow : ∀ state visit next visits outcome,
   pass env options snapshot attempt initialUrl state = .follow visit next →
    P next visits outcome → P state (visit :: visits) outcome) (state : Loop ν) :
  P state (redirectLoop env options snapshot attempt initialUrl state).1
   (redirectLoop env options snapshot attempt initialUrl state).2 := by
 induction hn : options.maxRedirects - state.redirectCount using Nat.strong_induction_on
  generalizing state with
 | _ n ih =>
  rw [redirectLoop]
  split
  · rename_i visits outcome h
    exact stop state visits outcome h
  · rename_i visit next h
    have hnext := pass_follow h
    exact follow state visit next _ _ h (ih _ (by omega) next rfl)

variable {env}

theorem pass_follow_visit {state next : Loop ν} {visit : Visit ν}
  (h : pass env options snapshot attempt initialUrl state = .follow visit next) :
  visit.state = state ∧ visit.Faithful env options snapshot attempt ∧
   ∃ d, visit.decision = .ok (.allow d) ∧ visit.next env options = some next := by
 rcases pass_cases options snapshot attempt initialUrl state with
  ⟨e, -, hstop⟩ | ⟨v, hstate, hfaithful, ⟨-, outcome, hstop, _⟩ | ⟨d, w, hd, hnext, hfollow⟩⟩
 · rw [hstop] at h
   cases h
 · rw [hstop] at h
   cases h
 · rw [hfollow] at h
   cases h
   exact ⟨hstate, hfaithful, d, hd, hnext⟩

theorem pass_stop_visits {state : Loop ν} {visits : List (Visit ν)}
  {outcome : Except Thrown SafeHttpResponse}
  (h : pass env options snapshot attempt initialUrl state = .stop visits outcome) :
  (visits = [] ∧ ∃ e, parseUrl env state.url = .error e) ∨
  ∃ v, visits = [v] ∧ v.state = state ∧ v.Faithful env options snapshot attempt ∧
   v.next env options = none ∧
   ∀ r, v.decision = .ok (.reject r) →
    outcome = .error (.safe (refusal initialUrl state.url state.redirectCount r)) := by
 rcases pass_cases options snapshot attempt initialUrl state with
  ⟨e, hparse, hstop⟩ | ⟨v, hstate, hfaithful, ⟨hnext, o, hstop, hrefused⟩ | ⟨_, w, _, _, hfollow⟩⟩
 · rw [hstop] at h
   cases h
   exact Or.inl ⟨rfl, e, hparse⟩
 · rw [hstop] at h
   cases h
   exact Or.inr ⟨v, rfl, hstate, hfaithful, hnext, hrefused⟩
 · rw [hfollow] at h
   cases h

/-- The visits of an attempt, from a state of the loop on: none where the URL
    does not parse, else one for it and then those from where its answer leads. -/
inductive Walked (env : Environment ν) (options : ResolvedOptions ν) (snapshot : PolicySnapshot)
    (attempt : ℕ) :
    Loop ν → List (Visit ν) → Prop where
  | unparsed (state : Loop ν) (e : SafeHttpError) (h : parseUrl env state.url = .error e) :
      Walked env options snapshot attempt state []
  | ended (v : Visit ν) (h : v.Faithful env options snapshot attempt) (hnext : v.next env options = none) :
      Walked env options snapshot attempt v.state [v]
  | followed (v : Visit ν) (next : Loop ν) (rest : List (Visit ν)) (h : v.Faithful env options snapshot attempt)
      (hnext : v.next env options = some next) (hrest : Walked env options snapshot attempt next rest) :
      Walked env options snapshot attempt v.state (v :: rest)

theorem redirectLoop_walked (state : Loop ν) : Walked env options snapshot attempt state
  (redirectLoop env options snapshot attempt initialUrl state).1 := by
 apply redirectLoop_induction env
  (P := fun state visits _ => Walked env options snapshot attempt state visits)
 · intro state visits outcome h
   rcases pass_stop_visits h with ⟨rfl, e, he⟩ | ⟨v, rfl, rfl, hfaithful, hnext, _⟩
   · exact .unparsed state e he
   · exact .ended v hfaithful hnext
 · intro state visit next visits outcome h ih
   obtain ⟨rfl, hfaithful, _, _, hnext⟩ := pass_follow_visit h
   exact .followed visit next visits hfaithful hnext ih

theorem Walked.faithful {state : Loop ν} {visits : List (Visit ν)}
  (h : Walked env options snapshot attempt state visits) :
  ∀ v ∈ visits, v.Faithful env options snapshot attempt := by
 induction h with
 | unparsed => simp
 | ended v hfaithful _ => simpa using hfaithful
 | followed v _ _ hfaithful _ _ ih => exact List.forall_mem_cons.2 ⟨hfaithful, ih⟩

theorem redirectLoop_length (state : Loop ν) (hstate : state.redirectCount ≤ options.maxRedirects) :
  (redirectLoop env options snapshot attempt initialUrl state).1.length + state.redirectCount ≤
   options.maxRedirects + 1 := by
 revert hstate
 apply redirectLoop_induction env (P := fun state visits _ =>
  state.redirectCount ≤ options.maxRedirects →
   visits.length + state.redirectCount ≤ options.maxRedirects + 1)
 · intro state visits outcome h hle
   rcases pass_stop_visits h with ⟨rfl, _⟩ | ⟨w, rfl, _⟩
   · simp only [List.length_nil]
     omega
   · simp only [List.length_singleton]
     omega
 · intro state visit next visits outcome h ih hle
   have hnext := pass_follow h
   have hrest := ih (by omega)
   simp only [List.length_cons]
   omega

theorem redirectLoop_refused (state : Loop ν) :
  ∀ v ∈ (redirectLoop env options snapshot attempt initialUrl state).1, ∀ r,
   v.decision = .ok (.reject r) →
    (redirectLoop env options snapshot attempt initialUrl state).1.getLast? = some v ∧
    (redirectLoop env options snapshot attempt initialUrl state).2 =
     .error (.safe (refusal initialUrl v.state.url v.state.redirectCount r)) := by
 apply redirectLoop_induction env (P := fun _ visits outcome => ∀ v ∈ visits, ∀ r,
  v.decision = .ok (.reject r) → visits.getLast? = some v ∧
   outcome = .error (.safe (refusal initialUrl v.state.url v.state.redirectCount r)))
 · intro state visits outcome h v hv r hr
   rcases pass_stop_visits h with ⟨rfl, _⟩ | ⟨w, rfl, hstate, _, _, hrefused⟩
   · cases hv
   · have heq := List.mem_singleton.mp hv
     rw [heq] at hr ⊢
     rw [hstate]
     exact ⟨rfl, hrefused r hr⟩
 · intro state visit next visits outcome h ih v hv r hr
   cases List.mem_cons.mp hv with
   | inl heq =>
    obtain ⟨_, _, d, hallow, _⟩ := pass_follow_visit h
    rw [heq, hallow] at hr
    cases hr
   | inr hmem =>
    obtain ⟨hlast, houtcome⟩ := ih v hmem r hr
    refine ⟨?_, houtcome⟩
    rw [List.getLast?_cons, hlast]
    rfl

theorem redirected_body {state : Loop ν} (h : state.body = none) (status : ℕ) (nextUrl : Text) :
  (state.redirected status nextUrl).body = none := by
 unfold Loop.redirected
 split_ifs
 · rfl
 · exact h

/-- The second visit comes after a redirect that dropped the body of the first. -/
def DropsBefore (v w : Visit ν) : Prop :=
  ∀ hop, v.answer = some (.ok hop) → dropsBody hop.status v.state.method = true → w.state.body = none

theorem redirectLoop_body (state : Loop ν) :
  (state.body = none →
   ∀ v ∈ (redirectLoop env options snapshot attempt initialUrl state).1, v.state.body = none) ∧
  (redirectLoop env options snapshot attempt initialUrl state).1.Pairwise DropsBefore := by
 apply redirectLoop_induction env (P := fun state visits _ =>
  (state.body = none → ∀ v ∈ visits, v.state.body = none) ∧ visits.Pairwise DropsBefore)
 · intro state visits outcome h
   rcases pass_stop_visits h with ⟨rfl, _⟩ | ⟨w, rfl, hstate, _⟩
   · exact ⟨by simp, List.Pairwise.nil⟩
   · refine ⟨?_, List.pairwise_singleton _ _⟩
     intro hbody v hv
     rw [List.mem_singleton.mp hv, hstate]
     exact hbody
 · intro state visit next visits outcome h ih
   obtain ⟨hstate, _, _, _, hfollowed⟩ := pass_follow_visit h
   obtain ⟨-, hop, nextUrl, hanswer, hnext⟩ := next_answered hfollowed
   rw [hstate] at hnext
   refine ⟨?_, List.Pairwise.cons ?_ ih.2⟩
   · intro hbody v hv
     cases List.mem_cons.mp hv with
     | inl heq =>
      rw [heq, hstate]
      exact hbody
     | inr hmem =>
      apply ih.1 _ v hmem
      rw [hnext]
      exact redirected_body hbody _ _
   · intro w hw other hother hdrop
     rw [hanswer] at hother
     cases hother
     apply ih.1 _ w hw
     rw [hstate] at hdrop
     rw [hnext, Loop.redirected, if_pos hdrop]

end RedirectLoop

section Attempts

variable {env} {url : Text} {options : SafeHttpRequestOptions ν} {total : ℕ}

def attemptVisits (env : Environment ν) (url : Text) (options : SafeHttpRequestOptions ν)
    (attempt : ℕ) : List (Visit ν) × Except Thrown SafeHttpResponse :=
  executeWithRedirects env url (resolveOptions options (env.current attempt)) (env.current attempt)
    attempt

theorem attemptLoop_succ (env : Environment ν) (url : Text) (options : SafeHttpRequestOptions ν)
  (total left attempt : ℕ) (lastError : Option SafeHttpError) :
  let run := attemptVisits env url options attempt
  let outcome := run.2.mapError (toSafeHttpError url)
  let resolved := resolveOptions options (env.current attempt)
  (retries resolved attempt total outcome = true ∧ ∃ backoff lastError',
   attemptLoop env url options total (left + 1) attempt lastError =
    (⟨attempt, run.1, backoff⟩ ::
      (attemptLoop env url options total left (attempt + 1) lastError').1,
     (attemptLoop env url options total left (attempt + 1) lastError').2)) ∨
  (retries resolved attempt total outcome = false ∧
   attemptLoop env url options total (left + 1) attempt lastError =
    ([⟨attempt, run.1, none⟩], outcome)) := by
 intro run outcome resolved
 cases hretry : retries resolved attempt total outcome with
 | true =>
  refine Or.inl ⟨rfl, ?_⟩
  rw [attemptLoop]
  simp only [outcome, resolved, run, attemptVisits] at hretry
  simp only [hretry, if_true]
  exact ⟨_, _, rfl⟩
 | false =>
  refine Or.inr ⟨rfl, ?_⟩
  rw [attemptLoop]
  simp only [outcome, resolved, run, attemptVisits] at hretry
  simp only [hretry, Bool.false_eq_true, if_false]
  rfl

theorem attemptLoop_length (left attempt : ℕ) (lastError : Option SafeHttpError) :
  (attemptLoop env url options total left attempt lastError).1.length ≤ left := by
 induction left generalizing attempt lastError with
 | zero => simp [attemptLoop]
 | succ left ih =>
  rcases attemptLoop_succ env url options total left attempt lastError with ⟨_, backoff, last, heq⟩
   | ⟨_, heq⟩
  · rw [heq, List.length_cons]
    have := ih (attempt + 1) last
    omega
  · rw [heq, List.length_singleton]
    omega

theorem attemptLoop_numbered (left attempt : ℕ) (lastError : Option SafeHttpError) :
  (attemptLoop env url options total left attempt lastError).1.map (·.attempt) =
   List.range' attempt (attemptLoop env url options total left attempt lastError).1.length := by
 induction left generalizing attempt lastError with
 | zero => rfl
 | succ left ih =>
  rcases attemptLoop_succ env url options total left attempt lastError with ⟨_, backoff, last, heq⟩
   | ⟨_, heq⟩
  · rw [heq, List.map_cons, List.length_cons, List.range'_succ, ih (attempt + 1) last]
  · rw [heq]
    rfl

theorem attemptLoop_visits (left attempt : ℕ) (lastError : Option SafeHttpError) :
  ∀ a ∈ (attemptLoop env url options total left attempt lastError).1,
   a.visits = (attemptVisits env url options a.attempt).1 := by
 induction left generalizing attempt lastError with
 | zero => simp [attemptLoop]
 | succ left ih =>
  intro a ha
  rcases attemptLoop_succ env url options total left attempt lastError with ⟨_, backoff, last, heq⟩
   | ⟨_, heq⟩
  · rw [heq] at ha
    cases List.mem_cons.mp ha with
    | inl h => rw [h]
    | inr h => exact ih (attempt + 1) last a h
  · rw [heq] at ha
    rw [List.mem_singleton.mp ha]

theorem retries_more {resolved : ResolvedOptions ν} {attempt : ℕ}
  {outcome : Except SafeHttpError SafeHttpResponse}
  (h : retries resolved attempt total outcome = true) : attempt < total := by
 unfold retries at h
 cases outcome with
 | ok response =>
  cases hretry : resolved.retry with
  | none => simp [hretry] at h
  | some retry =>
   simp only [hretry, Option.any_some, Bool.and_eq_true, decide_eq_true_eq] at h
   exact h.1
 | error e =>
  cases hretry : resolved.retry with
  | none => simp [hretry] at h
  | some retry =>
   simp only [hretry, Option.any_some, Bool.and_eq_true, decide_eq_true_eq] at h
   exact h.2.1

theorem attemptLoop_ends (left attempt : ℕ) (lastError : Option SafeHttpError) (hleft : 0 < left)
  (hround : attempt + left = total + 1) :
  ∃ a, (attemptLoop env url options total left attempt lastError).1.getLast? = some a ∧
   (attemptLoop env url options total left attempt lastError).2 =
    (attemptVisits env url options a.attempt).2.mapError (toSafeHttpError url) := by
 induction left generalizing attempt lastError with
 | zero => omega
 | succ left ih =>
  rcases attemptLoop_succ env url options total left attempt lastError with
   ⟨hretry, backoff, last, heq⟩ | ⟨_, heq⟩
  · have hlt := retries_more hretry
    obtain ⟨a, hlast, houtcome⟩ := ih (attempt + 1) last (by omega) (by omega)
    rw [heq]
    refine ⟨a, ?_, houtcome⟩
    rw [List.getLast?_cons, hlast]
    rfl
  · rw [heq]
    exact ⟨_, rfl, rfl⟩

theorem refusal_never_retried (initialUrl target : Text) (redirectCount : ℕ) (r : IpPolicyReject) :
  neverRetried (refusal initialUrl target redirectCount r) = true := by
 unfold refusal
 split_ifs <;> rfl

theorem attemptLoop_refused (left attempt : ℕ) (lastError : Option SafeHttpError) :
  ∀ a ∈ (attemptLoop env url options total left attempt lastError).1, ∀ v ∈ a.visits, ∀ r,
   v.decision = .ok (.reject r) →
    (attemptLoop env url options total left attempt lastError).1.getLast? = some a ∧
    a.visits.getLast? = some v ∧
    (attemptLoop env url options total left attempt lastError).2 =
     .error (refusal url v.state.url v.state.redirectCount r) := by
 induction left generalizing attempt lastError with
 | zero => simp [attemptLoop]
 | succ left ih =>
  intro a ha v hv r hr
  -- A refusal in this round is never retried, so it stands in the last round.
  have hround : v ∈ (attemptVisits env url options attempt).1 →
    (attemptVisits env url options attempt).1.getLast? = some v ∧
    (attemptVisits env url options attempt).2.mapError (toSafeHttpError url) =
     .error (refusal url v.state.url v.state.redirectCount r) ∧
    retries (resolveOptions options (env.current attempt)) attempt total
     ((attemptVisits env url options attempt).2.mapError (toSafeHttpError url)) = false := by
   intro hmem
   obtain ⟨hlast, houtcome⟩ := redirectLoop_refused _ v hmem r hr
   have herror : (attemptVisits env url options attempt).2.mapError (toSafeHttpError url) =
     .error (refusal url v.state.url v.state.redirectCount r) := by
    rw [show (attemptVisits env url options attempt).2 = _ from houtcome]
    rfl
   refine ⟨hlast, herror, ?_⟩
   rw [herror, retries, refusal_never_retried]
   rfl
  rcases attemptLoop_succ env url options total left attempt lastError with
   ⟨hretry, backoff, last, heq⟩ | ⟨_, heq⟩
  · rw [heq] at ha ⊢
    cases List.mem_cons.mp ha with
    | inl h =>
     rw [h] at hv
     rw [(hround hv).2.2] at hretry
     cases hretry
    | inr h =>
     obtain ⟨hlast, hvisit, houtcome⟩ := ih (attempt + 1) last a h v hv r hr
     refine ⟨?_, hvisit, houtcome⟩
     rw [List.getLast?_cons, hlast]
     rfl
  · rw [heq] at ha ⊢
    have ha' := List.mem_singleton.mp ha
    rw [ha'] at hv ⊢
    obtain ⟨hlast, herror, _⟩ := hround hv
    exact ⟨rfl, hlast, herror⟩

theorem totalAttempts_pos (options : SafeHttpRequestOptions ν) : 0 < totalAttempts options := by
 unfold totalAttempts
 split
 · rename_i raw _ _ _ _ _ _
   split_ifs with h
   · have hfloor : (1 : ℤ) ≤ ⌊raw⌋ := Int.le_floor.mpr (by exact_mod_cast h)
     omega
   · omega
 · omega
 · omega

end Attempts

structure Guarded (env : Environment ν) (url : Text) (options : SafeHttpRequestOptions ν)
    (run : List (AttemptRun ν) × Except SafeHttpError SafeHttpResponse) : Prop where
  /-- The call ends with what its last attempt returned or threw. -/
  ends : ∃ a, run.1.getLast? = some a ∧
    run.2 = (attemptVisits env url options a.attempt).2.mapError (toSafeHttpError url)
  /-- The attempts are the first, the second and so on. -/
  numbered : run.1.map (·.attempt) = List.range' 1 run.1.length
  /-- Each attempt starts at the URL of the call, is judged there, and goes on
      where the answers lead, each stop judged before it is sent to. -/
  walked : ∀ a ∈ run.1, Walked env (resolveOptions options (env.current a.attempt))
   (env.current a.attempt) a.attempt
    ⟨url, options.method.getD .get, options.body, 0⟩ a.visits
  /-- A hop goes to the address pinned by a decision made for its own URL under
      the snapshot of its attempt. -/
  pinned : ∀ a ∈ run.1, ∀ v ∈ a.visits, ∀ hop, v.sent = some hop →
    parseUrl env v.state.url = .ok v.target ∧ hop.target = v.target ∧
      ∃ d, evaluate env.casing (env.resolveAll a.attempt v.state.redirectCount) v.target.url
          (env.current a.attempt).rules = .ok (.allow d) ∧
        hop.connectIp = d.pinnedIp ∧ hop.connectFamily = d.pinnedFamily
  hopsPerAttempt : ∀ a ∈ run.1,
    a.hops.length ≤ (resolveOptions options (env.current a.attempt)).maxRedirects + 1
  attempts : run.1.length ≤ totalAttempts options
  hops : ∀ limit, (∀ a ∈ run.1, (resolveOptions options (env.current a.attempt)).maxRedirects ≤ limit) →
    (run.1.flatMap AttemptRun.hops).length ≤ totalAttempts options * (limit + 1)
  /-- A refused target is not sent to, and nothing is tried after it. -/
  refused : ∀ a ∈ run.1, ∀ v ∈ a.visits, ∀ r,
    evaluate env.casing (env.resolveAll a.attempt v.state.redirectCount) v.target.url
        (env.current a.attempt).rules = .ok (.reject r) →
      v.sent = none ∧ a.visits.getLast? = some v ∧ run.1.getLast? = some a ∧
        run.2 = .error (if v.state.redirectCount = 0 then .ssrfRejection (rejection r)
          else .redirectToDisallowedTarget url v.state.url (rejection r))
  /-- After a redirect that drops the body no hop of the attempt has one. -/
  bodiless : ∀ a ∈ run.1, a.visits.Pairwise fun v w =>
    ∀ answer, v.answer = some (.ok answer) → dropsBody answer.status v.state.method = true →
      ∀ hop, w.sent = some hop → hop.payload = none

theorem leave_some {env : Environment ν} {options : ResolvedOptions ν} {state : Loop ν}
  {target : ParsedUrl} {decision : Except EvaluateError IpPolicyDecision} {hop : HopRequest}
  (h : leave env options state target decision = some hop) :
  ∃ d, decision = .ok (.allow d) ∧
   hop = hopRequest env target d state.method options.headers state.body := by
 unfold leave at h
 split at h
 · cases h
   exact ⟨_, rfl, rfl⟩
 · cases h
 · cases h

theorem executeWithRedirects_length (url : Text) (options : ResolvedOptions ν)
  (snapshot : PolicySnapshot) (attempt : ℕ) :
  (executeWithRedirects env url options snapshot attempt).1.length ≤ options.maxRedirects + 1 := by
 let start : Loop ν := ⟨url, options.method, options.body, 0⟩
 exact redirectLoop_length start (Nat.zero_le _)

theorem executeWithRedirects_body (url : Text) (options : ResolvedOptions ν)
  (snapshot : PolicySnapshot) (attempt : ℕ) :
  (executeWithRedirects env url options snapshot attempt).1.Pairwise DropsBefore :=
 (redirectLoop_body _).2

theorem attempt_walked {url : Text} {options : SafeHttpRequestOptions ν} {a : AttemptRun ν}
  (ha : a ∈ (request env url options).1) :
  Walked env (resolveOptions options (env.current a.attempt)) (env.current a.attempt) a.attempt
   ⟨url, options.method.getD .get, options.body, 0⟩ a.visits := by
 rw [attemptLoop_visits _ _ _ a ha]
 exact redirectLoop_walked _

theorem attempt_faithful {url : Text} {options : SafeHttpRequestOptions ν} {a : AttemptRun ν}
  (ha : a ∈ (request env url options).1) {v : Visit ν} (hv : v ∈ a.visits) :
  v.Faithful env (resolveOptions options (env.current a.attempt)) (env.current a.attempt) a.attempt :=
 (attempt_walked env ha).faithful v hv

theorem attempt_hops {url : Text} {options : SafeHttpRequestOptions ν} {a : AttemptRun ν}
  (ha : a ∈ (request env url options).1) :
  a.hops.length ≤ (resolveOptions options (env.current a.attempt)).maxRedirects + 1 := by
 have hlength : a.visits.length ≤ (resolveOptions options (env.current a.attempt)).maxRedirects + 1 := by
  rw [attemptLoop_visits _ _ _ a ha]
  exact executeWithRedirects_length env url _ _ _
 exact (List.length_filterMap_le _ _).trans hlength

/-- Every call of `request` is guarded. -/
theorem request_guarded (url : Text) (options : SafeHttpRequestOptions ν) :
    Guarded env url options (request env url options) where
 ends := attemptLoop_ends _ _ _ (totalAttempts_pos options) (Nat.add_comm _ _)
 numbered := attemptLoop_numbered _ _ _
 walked := fun a ha => attempt_walked env ha
 pinned := by
  intro a ha v hv hop hsent
  have hfaithful := attempt_faithful env ha hv
  rw [hfaithful.sent] at hsent
  obtain ⟨d, hallow, rfl⟩ := leave_some hsent
  exact ⟨hfaithful.parsed, rfl, d, hfaithful.decided.symm.trans hallow, rfl, rfl⟩
 hopsPerAttempt := fun a ha => attempt_hops env ha
 attempts := attemptLoop_length _ _ _
 hops := by
  intro limit hlimit
  have hbound : ((request env url options).1.flatMap AttemptRun.hops).length ≤
    (request env url options).1.length * (limit + 1) := by
   rw [List.length_flatMap]
   have hsum := List.sum_le_card_nsmul ((request env url options).1.map fun a => a.hops.length)
    (limit + 1) (by
     intro n hn
     obtain ⟨a, ha, rfl⟩ := List.mem_map.mp hn
     have hhops := attempt_hops env ha
     have hmax := hlimit a ha
     omega)
   simpa using hsum
  exact hbound.trans (Nat.mul_le_mul_right _ (attemptLoop_length _ _ _))
 refused := by
  intro a ha v hv r hr
  have hfaithful := attempt_faithful env ha hv
  have hdecision : v.decision = .ok (.reject r) := hfaithful.decided.trans hr
  obtain ⟨hlast, hvisit, houtcome⟩ := attemptLoop_refused _ _ _ a ha v hv r hdecision
  refine ⟨?_, hvisit, hlast, houtcome⟩
  rw [hfaithful.sent, hdecision]
  rfl
 bodiless := by
  intro a ha
  have hpairs : a.visits.Pairwise DropsBefore := by
   rw [attemptLoop_visits _ _ _ a ha]
   exact executeWithRedirects_body env url _ _ _
  apply hpairs.imp_of_mem
  intro v w hv hw hdrops answer hanswer hdrop hop hsent
  rw [(attempt_faithful env ha hw).sent] at hsent
  obtain ⟨d, _, rfl⟩ := leave_some hsent
  rw [hdrops answer hanswer hdrop]
  rfl

end Request

end BoardGamesEmpire.SecureHttpRequest
