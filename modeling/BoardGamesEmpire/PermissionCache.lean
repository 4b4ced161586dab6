import BoardGamesEmpire.ReadCommitted

set_option autoImplicit false

/-!
# The versioned permission cache

`getOrLoad` and `evict` over one key of a linearizable store that may drop what
it holds at any time. A cache call is sent, takes effect once at some later
moment or never, and answers; a call that failed may still take effect.
-/
namespace BoardGamesEmpire.PermissionCache
open ReadCommitted

abbrev Token := ℕ

structure VersionedEntry (V : Type) where
  version : Token
  value : V
  loadBegan : ℕ

/-- `writeVersionToken`: the token it drew and when the write took effect. -/
structure TokenWrite where
  token : Token
  appliedAt : Option ℕ

inductive Phase (V : Type) where
  | reading
  | awaitingToken
  | tagged (version : Token)
  | loading (version : Token) (began : ℕ)
  | awaitingEntry (value : V)
  | hit (mgetAt : ℕ) (entry : VersionedEntry V)
  | loaded (fresh : Option V)
  | failed

structure LoadCall (V : Type) where
  phase : Phase V
  tokenWrite : Option TokenWrite
  /-- The final `set`, sent and without effect so far. -/
  entryWrite : Option (VersionedEntry V)

/-- `evict`: both cache calls are sent at once; each answers on its own. -/
structure Eviction where
  startedAt : ℕ
  tokenWrite : TokenWrite
  deleteApplied : Bool
  versionWrite : Option Bool
  deletion : Option Bool

structure Eviction.Succeeded (call : Eviction) (written : ℕ) : Prop where
  versionWrite : call.versionWrite = some true
  deletion : call.deletion = some true
  applied : call.tokenWrite.appliedAt = some written

inductive Call (V : Type) where
  | getOrLoad (call : LoadCall V)
  | evict (call : Eviction)

structure State (V : Type) where
  clock : ℕ
  entry : Option (VersionedEntry V)
  version : Option Token
  calls : List (Call V)
  /-- When each mutation committed. -/
  mutations : List ℕ

inductive Action (V : Type) where
  | getOrLoad
  | evict
  | mutate
  | dropEntry
  | dropVersion
  | mget (i : ℕ)
  | applyToken (i : ℕ)
  | applyEntry (i : ℕ)
  | applyDelete (i : ℕ)
  | proceed (i : ℕ)
  | beginLoad (i : ℕ)
  | endLoad (i : ℕ) (fresh : Option V) (cacheable : Bool)
  | answerToken (i : ℕ) (fulfilled : Bool)
  | answerDelete (i : ℕ) (fulfilled : Bool)
  | reject (i : ℕ)

section Step

variable {V : Type}

def Call.tokenWrite? : Call V → Option TokenWrite
  | .getOrLoad call => call.tokenWrite
  | .evict call => some call.tokenWrite

/-- What the `mget` of `getOrLoad` decides: a hit needs a token and an entry that
    carries it; a key without one gets a fresh token before the loader runs. -/
def afterMget (s : State V) : LoadCall V :=
  match s.version with
  | none => ⟨.awaitingToken, some ⟨s.clock, none⟩, none⟩
  | some current =>
    match s.entry with
    | some entry =>
      if entry.version = current then ⟨.hit s.clock entry, none, none⟩
      else ⟨.tagged current, none, none⟩
    | none => ⟨.tagged current, none, none⟩

def afterLoad (call : LoadCall V) (version : Token) (began : ℕ) (fresh : Option V) (cacheable : Bool) :
    LoadCall V :=
  match fresh with
  | none => { call with phase := .loaded none }
  | some value =>
    if cacheable then
      { call with phase := .awaitingEntry value, entryWrite := some ⟨version, value, began⟩ }
    else { call with phase := .loaded fresh }

def TokenWrite.apply (w : TokenWrite) (clock : ℕ) : TokenWrite := { w with appliedAt := some clock }

def Call.applyToken (call : Call V) (clock : ℕ) : Call V :=
  match call with
  | .getOrLoad call => .getOrLoad { call with tokenWrite := call.tokenWrite.map (·.apply clock) }
  | .evict call => .evict { call with tokenWrite := call.tokenWrite.apply clock }

/-- A cache call that answers has taken effect; one that fails may or may not have. -/
def answered (applied fulfilled : Bool) : Bool := applied || !fulfilled

def State.set (s : State V) (i : ℕ) (call : Call V) : State V :=
  { s with clock := s.clock + 1, calls := s.calls.set i call }

def stepLoad (s : State V) (i : ℕ) (call : LoadCall V) : Action V → Option (State V)
  | .mget _ =>
    match call.phase with
    | .reading => some (s.set i (.getOrLoad (afterMget s)))
    | _ => none
  | .applyEntry _ =>
    call.entryWrite.map fun entry =>
      { s.set i (.getOrLoad { call with entryWrite := none }) with entry := some entry }
  | .proceed _ =>
    match call.phase, call.tokenWrite, call.entryWrite with
    | .awaitingToken, some ⟨token, some _⟩, _ =>
     some (s.set i (.getOrLoad { call with phase := .tagged token }))
    | .awaitingEntry value, _, none =>
     some (s.set i (.getOrLoad { call with phase := .loaded (some value) }))
    | _, _, _ => none
  | .beginLoad _ =>
    match call.phase with
    | .tagged version => some (s.set i (.getOrLoad { call with phase := .loading version s.clock }))
    | _ => none
  | .endLoad _ fresh cacheable =>
    match call.phase with
    | .loading version began => some (s.set i (.getOrLoad (afterLoad call version began fresh cacheable)))
    | _ => none
  | .reject _ =>
    match call.phase with
    | .hit _ _ | .loaded _ | .failed => none
    | _ => some (s.set i (.getOrLoad { call with phase := .failed }))
  | _ => none

def stepEvict (s : State V) (i : ℕ) (call : Eviction) : Action V → Option (State V)
  | .applyDelete _ =>
    if call.deleteApplied then none
    else some { s.set i (.evict { call with deleteApplied := true }) with entry := none }
  | .answerToken _ fulfilled =>
    if call.versionWrite = none ∧ answered call.tokenWrite.appliedAt.isSome fulfilled then
      some (s.set i (.evict { call with versionWrite := some fulfilled }))
    else none
  | .answerDelete _ fulfilled =>
    if call.deletion = none ∧ answered call.deleteApplied fulfilled then
      some (s.set i (.evict { call with deletion := some fulfilled }))
    else none
  | _ => none

def stepToken (s : State V) (i : ℕ) (call : Call V) : Option (State V) :=
  match call.tokenWrite? with
  | some ⟨token, none⟩ => some { s.set i (call.applyToken s.clock) with version := some token }
  | _ => none

def stepCall (s : State V) (i : ℕ) (action : Action V) : Option (State V) :=
  s.calls[i]?.bind fun call =>
    match action with
    | .applyToken _ => stepToken s i call
    | action =>
      match call with
      | .getOrLoad call => stepLoad s i call action
      | .evict call => stepEvict s i call action

def step (s : State V) (action : Action V) : Option (State V) :=
  let ticked := { s with clock := s.clock + 1 }
  match action with
  | .getOrLoad => some { ticked with calls := s.calls ++ [.getOrLoad ⟨.reading, none, none⟩] }
  | .evict =>
    some { ticked with calls := s.calls ++ [.evict ⟨s.clock, ⟨s.clock, none⟩, false, none, none⟩] }
  | .mutate => some { ticked with mutations := s.mutations ++ [s.clock] }
  | .dropEntry => some { ticked with entry := none }
  | .dropVersion => some { ticked with version := none }
  | .mget i | .applyToken i | .applyEntry i | .applyDelete i | .proceed i | .beginLoad i | .endLoad i _ _
    | .answerToken i _ | .answerDelete i _ | .reject i => stepCall s i action

def empty : State V := ⟨0, none, none, [], []⟩

inductive Reachable : State V → Prop where
  | start : Reachable empty
  | step {s s' : State V} (action : Action V) (h : Reachable s) (hstep : step s action = some s') :
      Reachable s'

end Step

section Tokens

variable {V : Type} {s s' : State V}

def tokenAt (s : State V) (i : ℕ) : Option TokenWrite := s.calls[i]?.bind (·.tokenWrite?)

def Written (s : State V) (token : Token) (a : ℕ) : Prop := ∃ i, tokenAt s i = some ⟨token, some a⟩

/-- What a step does to the token writes and to the key's token: one write is
    drawn, one takes effect, or nothing but a dropped token. -/
inductive TokenStep (s s' : State V) : Prop where
  | kept (h : ∀ i, tokenAt s' i = tokenAt s i) (hversion : s'.version = s.version ∨ s'.version = none)
  | drawn (i : ℕ) (hold : tokenAt s i = none) (hnew : tokenAt s' i = some ⟨s.clock, none⟩)
      (hother : ∀ j, j ≠ i → tokenAt s' j = tokenAt s j) (hversion : s'.version = s.version)
  | applied (i : ℕ) (token : Token) (hold : tokenAt s i = some ⟨token, none⟩)
      (hnew : tokenAt s' i = some ⟨token, some s.clock⟩) (hother : ∀ j, j ≠ i → tokenAt s' j = tokenAt s j)
      (hversion : s'.version = some token)

theorem tokenAt_append (s : State V) (call : Call V) (i : ℕ) :
  ((s.calls ++ [call])[i]?.bind (·.tokenWrite?)) =
   if i = s.calls.length then call.tokenWrite? else tokenAt s i := by
 unfold tokenAt
 rcases Nat.lt_trichotomy i s.calls.length with hlt | rfl | hgt
 · rw [List.getElem?_append_left hlt, if_neg (by omega)]
 · simp
 · have hbeyond : s.calls.length + 1 ≤ i := hgt
   rw [if_neg (by omega), List.getElem?_eq_none (by simpa using hbeyond),
    List.getElem?_eq_none (by omega)]

theorem tokenAt_set {i : ℕ} {old call : Call V} (hold : s.calls[i]? = some old) (j : ℕ) :
  tokenAt (s.set i call) j = if j = i then call.tokenWrite? else tokenAt s j := by
 have hlt : i < s.calls.length := (List.getElem?_eq_some_iff.1 hold).1
 unfold tokenAt State.set
 by_cases hj : j = i
 · subst hj
   simp [hlt]
 · simp [hj, List.getElem?_set_ne (Ne.symm hj)]

theorem tokens_kept {i : ℕ} {old call : Call V} (hold : s.calls[i]? = some old)
  (hsame : call.tokenWrite? = old.tokenWrite?) (j : ℕ) :
  tokenAt (s.set i call) j = tokenAt s j := by
 rw [tokenAt_set hold]
 split
 · rename_i hj
   subst hj
   simp [tokenAt, hold, hsame]
 · rfl

end Tokens

section Inversion

variable {V : Type} {s s' : State V}

/-- How a `getOrLoad` call moves on. -/
inductive LoadStep (s : State V) (call : LoadCall V) : LoadCall V → Prop where
  | read (hphase : call.phase = .reading) : LoadStep s call (afterMget s)
  | stored : LoadStep s call { call with entryWrite := none }
  | tagged (token : Token) (a : ℕ) (hwrite : call.tokenWrite = some ⟨token, some a⟩) :
      LoadStep s call { call with phase := .tagged token }
  | cached (value : V) : LoadStep s call { call with phase := .loaded (some value) }
  | began (version : Token) (hphase : call.phase = .tagged version) :
      LoadStep s call { call with phase := .loading version s.clock }
  | ended (version : Token) (began : ℕ) (fresh : Option V) (cacheable : Bool)
      (hphase : call.phase = .loading version began) :
      LoadStep s call (afterLoad call version began fresh cacheable)
  | failed : LoadStep s call { call with phase := .failed }

variable {action : Action V}

theorem stepLoad_cases {i : ℕ} {call : LoadCall V} (h : stepLoad s i call action = some s') :
  ∃ call' entry, LoadStep s call call' ∧ s' = { s.set i (.getOrLoad call') with entry := entry } ∧
   (entry = s.entry ∨ entry = call.entryWrite) := by
 cases action with
 | mget _ =>
  simp only [stepLoad] at h
  split at h
  · cases h
    exact ⟨_, _, .read ‹_›, rfl, .inl rfl⟩
  · cases h
 | applyEntry _ =>
  obtain ⟨entry, hentry, rfl⟩ := Option.map_eq_some_iff.1 h
  exact ⟨_, _, .stored, rfl, .inr hentry.symm⟩
 | proceed _ =>
  simp only [stepLoad] at h
  split at h
  · cases h
    exact ⟨_, _, .tagged _ _ ‹_›, rfl, .inl rfl⟩
  · cases h
    exact ⟨_, _, .cached _, rfl, .inl rfl⟩
  · cases h
 | beginLoad _ =>
  simp only [stepLoad] at h
  split at h
  · cases h
    exact ⟨_, _, .began _ ‹_›, rfl, .inl rfl⟩
  · cases h
 | endLoad _ fresh cacheable =>
  simp only [stepLoad] at h
  split at h
  · cases h
    exact ⟨_, _, .ended _ _ fresh cacheable ‹_›, rfl, .inl rfl⟩
  · cases h
 | reject _ =>
  simp only [stepLoad] at h
  split at h
  · cases h
  · cases h
  · cases h
  · cases h
    exact ⟨_, _, .failed, rfl, .inl rfl⟩
 | getOrLoad | evict | mutate | dropEntry | dropVersion | applyToken _ | applyDelete _ | answerToken _ _
  | answerDelete _ _ => cases h

theorem stepEvict_cases {i : ℕ} {call : Eviction} (h : stepEvict s i call action = some s') :
  ∃ call' entry, s' = { s.set i (.evict call') with entry := entry } ∧ (entry = s.entry ∨ entry = none) ∧
   call'.tokenWrite = call.tokenWrite ∧ call'.startedAt = call.startedAt := by
 cases action with
 | applyDelete _ =>
  simp only [stepEvict] at h
  split at h
  · cases h
  · cases h
    exact ⟨_, _, rfl, .inr rfl, rfl, rfl⟩
 | answerToken _ fulfilled =>
  simp only [stepEvict] at h
  split at h
  · cases h
    exact ⟨_, _, rfl, .inl rfl, rfl, rfl⟩
  · cases h
 | answerDelete _ fulfilled =>
  simp only [stepEvict] at h
  split at h
  · cases h
    exact ⟨_, _, rfl, .inl rfl, rfl, rfl⟩
  · cases h
 | getOrLoad | evict | mutate | dropEntry | dropVersion | mget _ | applyToken _ | applyEntry _ | proceed _
  | beginLoad _ | endLoad _ _ _ | reject _ => cases h

inductive Moved (s s' : State V) : Prop where
  | started (call : Call V) (hcall : call = .getOrLoad ⟨.reading, none, none⟩ ∨
      call = .evict ⟨s.clock, ⟨s.clock, none⟩, false, none, none⟩)
      (h : s' = { s with clock := s.clock + 1, calls := s.calls ++ [call] })
  | mutated (h : s' = { s with clock := s.clock + 1, mutations := s.mutations ++ [s.clock] })
  | dropped (entry : Option (VersionedEntry V)) (version : Option Token)
      (hentry : entry = s.entry ∨ entry = none) (hversion : version = s.version ∨ version = none)
      (h : s' = { s with clock := s.clock + 1, entry := entry, version := version })
  | load (i : ℕ) (call call' : LoadCall V) (entry : Option (VersionedEntry V))
      (hcall : s.calls[i]? = some (.getOrLoad call)) (hstep : LoadStep s call call')
      (hentry : entry = s.entry ∨ entry = call.entryWrite)
      (h : s' = { s.set i (.getOrLoad call') with entry := entry })
  | evict (i : ℕ) (call call' : Eviction) (entry : Option (VersionedEntry V))
      (hcall : s.calls[i]? = some (.evict call)) (htoken : call'.tokenWrite = call.tokenWrite)
      (hstarted : call'.startedAt = call.startedAt) (hentry : entry = s.entry ∨ entry = none)
      (h : s' = { s.set i (.evict call') with entry := entry })
  | token (i : ℕ) (call : Call V) (token : Token) (hcall : s.calls[i]? = some call)
      (htoken : call.tokenWrite? = some ⟨token, none⟩)
      (h : s' = { s.set i (call.applyToken s.clock) with version := some token })

theorem stepCall_moved {i : ℕ} (h : stepCall s i action = some s') :
  Moved s s' := by
 obtain ⟨call, hcall, h⟩ := Option.bind_eq_some_iff.1 h
 split at h
 · unfold stepToken at h
   split at h
   · rename_i token htoken
     cases h
     exact .token i call token hcall htoken rfl
   · cases h
 · split at h
   · obtain ⟨call', entry, hstep, hs', hentry⟩ := stepLoad_cases h
     exact .load i _ call' entry hcall hstep hentry hs'
   · obtain ⟨call', entry, hs', hentry, htoken, hstarted⟩ := stepEvict_cases h
     exact .evict i _ call' entry hcall htoken hstarted hentry hs'

theorem step_moved (h : step s action = some s') : Moved s s' := by
 cases action with
 | getOrLoad =>
  cases h
  exact .started _ (.inl rfl) rfl
 | evict =>
  cases h
  exact .started _ (.inr rfl) rfl
 | mutate =>
  cases h
  exact .mutated rfl
 | dropEntry =>
  cases h
  exact .dropped none s.version (.inr rfl) (.inl rfl) rfl
 | dropVersion =>
  cases h
  exact .dropped s.entry none (.inl rfl) (.inr rfl) rfl
 | mget i | applyToken i | applyEntry i | applyDelete i | proceed i | beginLoad i | endLoad i _ _
  | answerToken i _ | answerDelete i _ | reject i =>
  simp only [step] at h
  exact stepCall_moved h

theorem moved_clock (h : Moved s s') : s'.clock = s.clock + 1 := by
 cases h with
 | started _ _ h | mutated h | dropped _ _ _ _ h | load _ _ _ _ _ _ _ h | evict _ _ _ _ _ _ _ _ h
  | token _ _ _ _ _ h =>
  subst h
  rfl

theorem afterMget_token (s : State V) :
  (afterMget s).tokenWrite = none ∨ (afterMget s).tokenWrite = some ⟨s.clock, none⟩ := by
 unfold afterMget
 split
 · exact .inr rfl
 · split
   · split <;> exact .inl rfl
   · exact .inl rfl

theorem afterLoad_token (call : LoadCall V) (version : Token) (began : ℕ) (fresh : Option V)
  (cacheable : Bool) :
  (afterLoad call version began fresh cacheable).tokenWrite = call.tokenWrite := by
 unfold afterLoad
 split
 · rfl
 · split <;> rfl

theorem applyToken_write {call : Call V} {token : Token} (h : call.tokenWrite? = some ⟨token, none⟩)
  (clock : ℕ) : (call.applyToken clock).tokenWrite? = some ⟨token, some clock⟩ := by
 cases call with
 | getOrLoad call =>
  simp only [Call.tokenWrite?] at h
  simp [Call.applyToken, Call.tokenWrite?, h, TokenWrite.apply]
 | evict call =>
  simp only [Call.tokenWrite?, Option.some.injEq] at h
  simp [Call.applyToken, Call.tokenWrite?, h, TokenWrite.apply]

def Unread (s : State V) : Prop :=
  ∀ (i : ℕ) call, s.calls[i]? = some (.getOrLoad call) → call.phase = .reading → call.tokenWrite = none

theorem moved_tokens (hunread : Unread s) (h : Moved s s') : TokenStep s s' := by
 cases h with
 | started call hcall h =>
  subst h
  have hnone : tokenAt s s.calls.length = none := by simp [tokenAt]
  rcases hcall with rfl | rfl
  · refine .kept (fun i => (tokenAt_append s _ i).trans ?_) (.inl rfl)
    split
    · rename_i hi
      rw [hi, hnone]
      rfl
    · rfl
  · refine .drawn s.calls.length hnone ?_ (fun j hj => ?_) rfl
    · exact (tokenAt_append s _ _).trans (if_pos rfl)
    · exact (tokenAt_append s _ j).trans (if_neg hj)
 | mutated h =>
  subst h
  exact .kept (fun _ => rfl) (.inl rfl)
 | dropped entry version hentry hversion h =>
  subst h
  exact .kept (fun _ => rfl) hversion
 | evict i call call' entry hcall htoken hstarted hentry h =>
  subst h
  exact .kept (tokens_kept hcall (by simp [Call.tokenWrite?, htoken])) (.inl rfl)
 | token i call token hcall htoken h =>
  subst h
  have hset := fun j => @tokenAt_set V s i call (call.applyToken s.clock) hcall j
  refine .applied i token ?_ ?_ (fun j hj => ?_) rfl
  · simp [tokenAt, hcall, htoken]
  · exact (hset i).trans ((if_pos rfl).trans (applyToken_write htoken s.clock))
  · exact (hset j).trans (if_neg hj)
 | load i call call' entry hcall hstep hentry h =>
  subst h
  have hkept : call'.tokenWrite = call.tokenWrite →
   TokenStep s { s.set i (.getOrLoad call') with entry } :=
   fun heq => .kept (tokens_kept hcall (by simp [Call.tokenWrite?, heq])) (.inl rfl)
  cases hstep with
  | read hphase =>
   have hold := hunread i call hcall hphase
   rcases afterMget_token s with hnone | hdrawn
   · exact hkept (hnone.trans hold.symm)
   · have hset := fun j => @tokenAt_set V s i _ (.getOrLoad (afterMget s)) hcall j
     refine .drawn i (by simp [tokenAt, hcall, Call.tokenWrite?, hold]) ?_ (fun j hj => ?_) rfl
     · exact (hset i).trans ((if_pos rfl).trans hdrawn)
     · exact (hset j).trans (if_neg hj)
  | ended version began fresh cacheable hphase => exact hkept (afterLoad_token _ _ _ _ _)
  | stored | tagged _ _ _ | cached _ | began _ _ | failed => exact hkept rfl

end Inversion

section Invariant

variable {V : Type} {s s' : State V}

def Grounded (written : Token → ℕ → Prop) (version : Token) (began : ℕ) : Prop :=
  ∃ a, written version a ∧ a < began

/-- What a call may rely on; `written` grows as the run goes on. -/
def PhaseGrounded (written : Token → ℕ → Prop) (clock : ℕ) : Phase V → Prop
  | .tagged version => Grounded written version clock
  | .loading version began => Grounded written version began
  | .hit mgetAt entry => mgetAt < clock ∧ ∀ token a, written token a → a < mgetAt → a < entry.loadBegan
  | .reading | .awaitingToken | .awaitingEntry _ | .loaded _ | .failed => True

structure Inv (s : State V) : Prop where
  unread : Unread s
  past : ∀ token a, Written s token a → a < s.clock
  drawn : ∀ i w, tokenAt s i = some w → w.token < s.clock
  distinct : ∀ i j w w', tokenAt s i = some w → tokenAt s j = some w' → w.token = w'.token → i = j
  newest : ∀ token, s.version = some token →
    ∃ a, Written s token a ∧ ∀ other a', Written s other a' → a' ≤ a
  entry : ∀ entry, s.entry = some entry → Grounded (Written s) entry.version entry.loadBegan
  phase : ∀ (i : ℕ) call, s.calls[i]? = some (.getOrLoad call) →
   PhaseGrounded (Written s) s.clock call.phase
  entryWrite : ∀ (i : ℕ) call entry, s.calls[i]? = some (.getOrLoad call) → call.entryWrite = some entry →
    Grounded (Written s) entry.version entry.loadBegan
  eviction : ∀ (i : ℕ) call, s.calls[i]? = some (.evict call) → call.startedAt < s.clock ∧
    ∀ a, call.tokenWrite.appliedAt = some a → call.startedAt < a

variable {token : Token}

theorem Inv.written_once (h : Inv s) {a a' : ℕ} (ha : Written s token a)
  (ha' : Written s token a') : a = a' := by
 obtain ⟨i, hi⟩ := ha
 obtain ⟨j, hj⟩ := ha'
 obtain rfl := h.distinct i j _ _ hi hj rfl
 rw [hi] at hj
 simpa using hj

variable {a i : ℕ}

theorem tokenStep_written (h : TokenStep s s') (ha : Written s token a) :
  Written s' token a := by
 obtain ⟨j, hj⟩ := ha
 refine ⟨j, ?_⟩
 cases h with
 | kept h _ => rw [h, hj]
 | drawn i hold hnew hother _ =>
  by_cases hji : j = i
  · rw [hji, hold] at hj
    cases hj
  · rw [hother j hji, hj]
 | applied i token' hold hnew hother _ =>
  by_cases hji : j = i
  · rw [hji, hold] at hj
    cases hj
  · rw [hother j hji, hj]

theorem tokenStep_new (h : TokenStep s s') (ha : Written s' token a) :
  Written s token a ∨ a = s.clock := by
 obtain ⟨j, hj⟩ := ha
 cases h with
 | kept h _ => exact .inl ⟨j, (h j).symm.trans hj⟩
 | drawn i hold hnew hother _ =>
  by_cases hji : j = i
  · rw [hji, hnew] at hj
    cases hj
  · exact .inl ⟨j, (hother j hji).symm.trans hj⟩
 | applied i token' hold hnew hother _ =>
  by_cases hji : j = i
  · rw [hji, hnew] at hj
    cases hj
    exact .inr rfl
  · exact .inl ⟨j, (hother j hji).symm.trans hj⟩

theorem tokenStep_token (h : TokenStep s s') {w : TokenWrite} (hw : tokenAt s' i = some w) :
  (∃ w₀, tokenAt s i = some w₀ ∧ w₀.token = w.token) ∨
   (w.token = s.clock ∧ ∀ j, j ≠ i → tokenAt s' j = tokenAt s j) := by
 cases h with
 | kept h _ => exact .inl ⟨w, (h i).symm.trans hw, rfl⟩
 | drawn j hold hnew hother _ =>
  by_cases hij : i = j
  · subst hij
    cases hnew.symm.trans hw
    exact .inr ⟨rfl, hother⟩
  · exact .inl ⟨w, (hother i hij).symm.trans hw, rfl⟩
 | applied j token hold hnew hother _ =>
  by_cases hij : i = j
  · subst hij
    cases hnew.symm.trans hw
    exact .inl ⟨_, hold, rfl⟩
  · exact .inl ⟨w, (hother i hij).symm.trans hw, rfl⟩

theorem grounded_mono {written written' : Token → ℕ → Prop}
  (h : ∀ token a, written token a → written' token a) {version : Token} {began began' : ℕ}
  (hle : began ≤ began') (hg : Grounded written version began) :
  Grounded written' version began' := by
 obtain ⟨a, ha, hlt⟩ := hg
 exact ⟨a, h _ _ ha, by omega⟩

theorem phaseGrounded_step (hstep : TokenStep s s') {clock : ℕ} (hclock : clock ≤ s.clock + 1)
  {phase : Phase V} (h : PhaseGrounded (Written s) clock phase) :
  PhaseGrounded (Written s') (s.clock + 1) phase := by
 have hmono : ∀ token a, Written s token a → Written s' token a := fun _ _ => tokenStep_written hstep
 cases phase with
 | tagged version => exact grounded_mono hmono hclock h
 | loading version began => exact grounded_mono hmono le_rfl h
 | hit mgetAt entry =>
  obtain ⟨hlt, hgrounded⟩ := h
  refine ⟨by omega, fun token a ha hbefore => ?_⟩
  rcases tokenStep_new hstep ha with hold | rfl
  · exact hgrounded token a hold hbefore
  · omega
 | reading | awaitingToken | awaitingEntry _ | loaded _ | failed => trivial

theorem newest_step (hinv : Inv s) (h : TokenStep s s') (token : Token)
  (htoken : s'.version = some token) :
  ∃ a, Written s' token a ∧ ∀ other a', Written s' other a' → a' ≤ a := by
 have hold : s.version = some token → (∀ other a', Written s' other a' → Written s other a') →
   ∃ a, Written s' token a ∧ ∀ other a', Written s' other a' → a' ≤ a := by
  intro hversion hback
  obtain ⟨a, ha, hmax⟩ := hinv.newest token hversion
  exact ⟨a, tokenStep_written h ha, fun other a' ha' => hmax other a' (hback other a' ha')⟩
 cases h with
 | kept hsame hversion =>
  rcases hversion with hversion | hversion
  · refine hold (hversion.symm.trans htoken) fun other a' ⟨j, hj⟩ => ⟨j, (hsame j).symm.trans hj⟩
  · rw [hversion] at htoken
    cases htoken
 | drawn i hnone hnew hother hversion =>
  refine hold (hversion.symm.trans htoken) fun other a' ⟨j, hj⟩ => ⟨j, ?_⟩
  by_cases hji : j = i
  · rw [hji, hnew] at hj
    cases hj
  · exact (hother j hji).symm.trans hj
 | applied i written hnone hnew hother hversion =>
  cases hversion.symm.trans htoken
  refine ⟨s.clock, ⟨i, hnew⟩, fun other a' ha' => ?_⟩
  rcases tokenStep_new (.applied i token hnone hnew hother hversion) ha' with hbefore | rfl
  · exact (hinv.past other a' hbefore).le
  · exact le_rfl

theorem moved_load (h : Moved s s') {call' : LoadCall V}
  (hcall' : s'.calls[i]? = some (.getOrLoad call')) :
  call' = ⟨.reading, none, none⟩ ∨ ∃ call, s.calls[i]? = some (.getOrLoad call) ∧
   (LoadStep s call call' ∨ (call'.phase = call.phase ∧ call'.entryWrite = call.entryWrite ∧
    (call.tokenWrite = none → call'.tokenWrite = none))) := by
 have hset : ∀ {j : ℕ} {new : Call V}, (s.calls.set j new)[i]? = some (.getOrLoad call') →
   (j = i ∧ new = .getOrLoad call') ∨ s.calls[i]? = some (.getOrLoad call') := by
  intro j new hnew
  rcases getElem?_set_cases hnew with ⟨rfl, heq⟩ | ⟨-, hold⟩
  · exact .inl ⟨rfl, heq.symm⟩
  · exact .inr hold
 have hsame : s.calls[i]? = some (.getOrLoad call') → ∃ call, s.calls[i]? = some (.getOrLoad call) ∧
   (LoadStep s call call' ∨ (call'.phase = call.phase ∧ call'.entryWrite = call.entryWrite ∧
    (call.tokenWrite = none → call'.tokenWrite = none))) :=
  fun hold => ⟨call', hold, .inr ⟨rfl, rfl, id⟩⟩
 cases h with
 | started call hcall h =>
  subst h
  rcases getElem?_concat_cases hcall' with hold | ⟨-, rfl⟩
  · exact .inr (hsame hold)
  · rcases hcall with hload | hevict
    · cases hload
      exact .inl rfl
    · cases hevict
 | mutated h | dropped _ _ _ _ h =>
  subst h
  exact .inr (hsame hcall')
 | load j call new entry hcall hstep hentry h =>
  subst h
  rcases hset hcall' with ⟨rfl, heq⟩ | hold
  · cases heq
    exact .inr ⟨call, hcall, .inl hstep⟩
  · exact .inr (hsame hold)
 | evict j call new entry hcall htoken hstarted hentry h =>
  subst h
  rcases hset hcall' with ⟨rfl, heq⟩ | hold
  · cases heq
  · exact .inr (hsame hold)
 | token j call token hcall htoken h =>
  subst h
  rcases hset hcall' with ⟨rfl, heq⟩ | hold
  · cases call with
    | evict call => cases heq
    | getOrLoad call =>
     cases heq
     refine .inr ⟨call, hcall, .inr ⟨rfl, rfl, fun hnone => ?_⟩⟩
     simp [hnone]
  · exact .inr (hsame hold)

theorem moved_entry (h : Moved s s') {entry : VersionedEntry V} (hentry : s'.entry = some entry) :
  s.entry = some entry ∨ ∃ (i : ℕ) (call : LoadCall V), s.calls[i]? = some (.getOrLoad call) ∧
   call.entryWrite = some entry := by
 cases h with
 | started _ _ h | mutated h | token _ _ _ _ _ h =>
  subst h
  exact .inl hentry
 | dropped _ _ hold _ h | evict _ _ _ _ _ _ _ hold h =>
  subst h
  rcases hold with rfl | rfl
  · exact .inl hentry
  · cases hentry
 | load i call call' new hcall hstep hold h =>
  subst h
  rcases hold with rfl | rfl
  · exact .inl hentry
  · exact .inr ⟨i, call, hcall, hentry⟩

theorem moved_evict (h : Moved s s') {call' : Eviction}
  (hcall' : s'.calls[i]? = some (.evict call')) :
  (call'.startedAt = s.clock ∧ call'.tokenWrite.appliedAt = none) ∨
  ∃ call, s.calls[i]? = some (.evict call) ∧ call'.startedAt = call.startedAt ∧
   (call'.tokenWrite = call.tokenWrite ∨ call'.tokenWrite.appliedAt = some s.clock) := by
 cases h with
 | started call hcall h =>
  subst h
  rcases getElem?_concat_cases hcall' with hold | ⟨-, rfl⟩
  · exact .inr ⟨call', hold, rfl, .inl rfl⟩
  · rcases hcall with hload | hevict
    · cases hload
    · cases hevict
      exact .inl ⟨rfl, rfl⟩
 | mutated h | dropped _ _ _ _ h =>
  subst h
  exact .inr ⟨call', hcall', rfl, .inl rfl⟩
 | load j call new entry hcall hstep hentry h =>
  subst h
  rcases getElem?_set_cases hcall' with ⟨rfl, heq⟩ | ⟨-, hold⟩
  · cases heq
  · exact .inr ⟨call', hold, rfl, .inl rfl⟩
 | evict j call new entry hcall htoken hstarted hentry h =>
  subst h
  rcases getElem?_set_cases hcall' with ⟨rfl, heq⟩ | ⟨-, hold⟩
  · cases heq
    exact .inr ⟨call, hcall, hstarted, .inl htoken⟩
  · exact .inr ⟨call', hold, rfl, .inl rfl⟩
 | token j call token hcall htoken h =>
  subst h
  rcases getElem?_set_cases hcall' with ⟨rfl, heq⟩ | ⟨-, hold⟩
  · cases call with
    | getOrLoad call => cases heq
    | evict call =>
     cases heq
     exact .inr ⟨call, hcall, rfl, .inr rfl⟩
  · exact .inr ⟨call', hold, rfl, .inl rfl⟩

theorem Inv.current_entry (h : Inv s) {entry : VersionedEntry V}
  (hversion : s.version = some token) (hentry : s.entry = some entry)
  (hcarries : entry.version = token) {other : Token} (ha : Written s other a) :
  a < entry.loadBegan := by
 obtain ⟨newest, hnewest, hmax⟩ := h.newest token hversion
 obtain ⟨tagged, htagged, hlt⟩ := h.entry entry hentry
 rw [hcarries] at htagged
 have heq := h.written_once hnewest htagged
 have hle := hmax other a ha
 omega

theorem afterMget_grounded (h : Inv s) :
  PhaseGrounded (Written s) (s.clock + 1) (afterMget s).phase := by
 have htagged : ∀ current, s.version = some current → Grounded (Written s) current (s.clock + 1) := by
  intro current hcurrent
  obtain ⟨a, ha, -⟩ := h.newest current hcurrent
  have hpast := h.past current a ha
  exact ⟨a, ha, by omega⟩
 unfold afterMget
 cases hversion : s.version with
 | none => trivial
 | some current =>
  simp only
  cases hentry : s.entry with
  | none => exact htagged current hversion
  | some entry =>
   simp only
   split
   · rename_i hcarries
     refine ⟨by omega, fun token a ha _ => ?_⟩
     exact h.current_entry hversion hentry hcarries ha
   · exact htagged current hversion

theorem afterMget_entryWrite (s : State V) : (afterMget s).entryWrite = none := by
 unfold afterMget
 split
 · rfl
 · split
   · split <;> rfl
   · rfl

theorem loadStep_grounded (h : Inv s) {call call' : LoadCall V}
  (hcall : s.calls[i]? = some (.getOrLoad call))
  (hstep : LoadStep s call call') : PhaseGrounded (Written s) (s.clock + 1) call'.phase ∧
   ∀ entry, call'.entryWrite = some entry → Grounded (Written s) entry.version entry.loadBegan := by
 have hphase := h.phase i call hcall
 have hentryWrite := fun entry => h.entryWrite i call entry hcall
 cases hstep with
 | read =>
  refine ⟨afterMget_grounded h, fun entry hentry => ?_⟩
  rw [afterMget_entryWrite] at hentry
  cases hentry
 | stored =>
  exact ⟨phaseGrounded_step (.kept (fun _ =>
   rfl) (.inl rfl)) (by omega) hphase, fun _ hentry => by cases hentry⟩
 | tagged token a hwrite =>
  have hwritten : Written s token a := ⟨i, by simp [tokenAt, hcall, Call.tokenWrite?, hwrite]⟩
  have hpast := h.past token a hwritten
  exact ⟨⟨a, hwritten, by omega⟩, hentryWrite⟩
 | cached value => exact ⟨trivial, hentryWrite⟩
 | began version htagged =>
  rw [htagged] at hphase
  exact ⟨hphase, hentryWrite⟩
 | ended version began fresh cacheable hloading =>
  rw [hloading] at hphase
  unfold afterLoad
  split
  · exact ⟨trivial, hentryWrite⟩
  · split
    · refine ⟨trivial, fun entry hentry => ?_⟩
      cases hentry
      exact hphase
    · exact ⟨trivial, hentryWrite⟩
 | failed => exact ⟨trivial, hentryWrite⟩

theorem loadStep_reading {call call' : LoadCall V} (h : LoadStep s call call')
  (hreading : call'.phase = .reading) :
  call.phase = .reading ∧ call'.tokenWrite = call.tokenWrite := by
 cases h with
 | stored => exact ⟨hreading, rfl⟩
 | read hphase =>
  simp only [afterMget] at hreading
  split at hreading
  · cases hreading
  · split at hreading
    · split at hreading <;> cases hreading
    · cases hreading
 | ended version began fresh cacheable hphase =>
  simp only [afterLoad] at hreading
  split at hreading
  · cases hreading
  · split at hreading <;> cases hreading
 | tagged _ _ _ | cached _ | began _ _ | failed => cases hreading

theorem Inv.step (hinv : Inv s) (h : Moved s s') : Inv s' := by
 have htokens := moved_tokens hinv.unread h
 have hclock := moved_clock h
 have hmono : ∀ token a, Written s token a → Written s' token a := fun _ _ => tokenStep_written htokens
 refine ⟨fun i call' hcall' hreading => ?_, fun token a ha => ?_, fun i w hw => ?_,
  fun i j w w' hw hw' heq => ?_,
  newest_step hinv htokens, fun entry hentry => ?_, fun i call' hcall' => ?_,
  fun i call' entry hcall' hentry => ?_, fun i call' hcall' => ?_⟩
 · rcases moved_load h hcall' with rfl | ⟨call, hcall, hstep | ⟨hphase, -, htoken⟩⟩
   · rfl
   · obtain ⟨hphase, htoken⟩ := loadStep_reading hstep hreading
     exact htoken.trans (hinv.unread i call hcall hphase)
   · exact htoken (hinv.unread i call hcall (hphase.symm.trans hreading))
 · rcases tokenStep_new htokens ha with hold | rfl
   · have hpast := hinv.past token a hold
     omega
   · omega
 · rw [hclock]
   rcases tokenStep_token htokens hw with ⟨w₀, hw₀, heq⟩ | ⟨hnew, -⟩
   · rw [← heq]
     exact Nat.lt_succ_of_lt (hinv.drawn i w₀ hw₀)
   · rw [hnew]
     exact Nat.lt_succ_self _
 · rcases tokenStep_token htokens hw with ⟨w₀, hw₀, hsame⟩ | ⟨hnew, hother⟩
   · rcases tokenStep_token htokens hw' with ⟨w₀', hw₀', hsame'⟩ | ⟨hnew', -⟩
     · exact hinv.distinct i j w₀ w₀' hw₀ hw₀' (hsame.trans (heq.trans hsame'.symm))
     · have hdrawn := hinv.drawn i w₀ hw₀
       rw [hsame, heq, hnew'] at hdrawn
       exact absurd hdrawn (Nat.lt_irrefl _)
   · by_contra hne
     have hold := (hother j fun hji => hne hji.symm).symm.trans hw'
     have hdrawn := hinv.drawn j w' hold
     rw [← heq, hnew] at hdrawn
     exact Nat.lt_irrefl _ hdrawn
 · rcases moved_entry h hentry with hold | ⟨i, call, hcall, hwrite⟩
   · exact grounded_mono hmono le_rfl (hinv.entry entry hold)
   · exact grounded_mono hmono le_rfl (hinv.entryWrite i call entry hcall hwrite)
 · rw [hclock]
   rcases moved_load h hcall' with rfl | ⟨call, hcall, hstep | ⟨hphase, -, -⟩⟩
   · trivial
   · exact phaseGrounded_step htokens le_rfl (loadStep_grounded hinv hcall hstep).1
   · rw [hphase]
     exact phaseGrounded_step htokens (by omega) (hinv.phase i call hcall)
 · rcases moved_load h hcall' with rfl | ⟨call, hcall, hstep | ⟨-, hwrite, -⟩⟩
   · cases hentry
   · exact grounded_mono hmono le_rfl ((loadStep_grounded hinv hcall hstep).2 entry hentry)
   · exact grounded_mono hmono le_rfl (hinv.entryWrite i call entry hcall (hwrite.symm.trans hentry))
 · rcases moved_evict h hcall' with ⟨hstarted, hnone⟩ | ⟨call, hcall, hstarted, htoken⟩
   · refine ⟨by omega, fun a ha => ?_⟩
     rw [hnone] at ha
     cases ha
   · obtain ⟨hpast, hafter⟩ := hinv.eviction i call hcall
     refine ⟨by omega, fun a ha => ?_⟩
     rcases htoken with htoken | hnow
     · rw [htoken] at ha
       have := hafter a ha
       omega
     · cases hnow.symm.trans ha
       omega

theorem reachable_inv (h : Reachable s) : Inv s := by
 induction h with
 | start =>
  have hnone : ∀ i, tokenAt (empty : State V) i = none := fun i => by simp [tokenAt, empty]
  refine ⟨fun i call hcall => ?_, fun token a ⟨i, hi⟩ => ?_, fun i w hw => ?_, fun i j w w' hw => ?_,
   fun token htoken => ?_, fun entry hentry => ?_, fun i call hcall => ?_, fun i call entry hcall => ?_,
   fun i call hcall => ?_⟩
  · simp [empty] at hcall
  · rw [hnone] at hi
    cases hi
  · rw [hnone] at hw
    cases hw
  · rw [hnone] at hw
    cases hw
  · cases htoken
  · cases hentry
  · simp [empty] at hcall
  · simp [empty] at hcall
  · simp [empty] at hcall
 | step action _ hstep ih => exact ih.step (step_moved hstep)

/-- After an eviction that started once a mutation had committed and whose two
    writes succeeded, no later `mget` serves a value whose load began before the
    mutation committed. -/
theorem no_stale_hit (h : Reachable s) {i j : ℕ} {reader : LoadCall V} {eviction : Eviction}
    {mgetAt written committed : ℕ} {entry : VersionedEntry V}
    (hreader : s.calls[i]? = some (.getOrLoad reader)) (hhit : reader.phase = .hit mgetAt entry)
    (heviction : s.calls[j]? = some (.evict eviction)) (hsucceeded : eviction.Succeeded written)
    (hcommitted : committed ∈ s.mutations ∧ committed < eviction.startedAt)
    (hlater : written < mgetAt) :
    committed ≤ entry.loadBegan := by
 have hinv := reachable_inv h
 have hgrounded := hinv.phase i reader hreader
 rw [hhit] at hgrounded
 have htoken : Written s eviction.tokenWrite.token written :=
  ⟨j, by simp [tokenAt, heviction, Call.tokenWrite?, ← hsucceeded.applied]⟩
 have hloaded := hgrounded.2 _ written htoken hlater
 have hstarted := (hinv.eviction j eviction heviction).2 written hsucceeded.applied
 have hbefore := hcommitted.2
 omega

def steps (actions : List (Action V)) (s : State V) : Option (State V) :=
  actions.foldlM step s

theorem reachable_of_steps {actions : List (Action V)} (h : Reachable s)
  (hsteps : steps actions s = some s') :
  Reachable s' := by
 induction actions generalizing s with
 | nil =>
  cases hsteps
  exact h
 | cons action rest ih =>
  simp only [steps, List.foldlM_cons] at hsteps
  obtain ⟨mid, hmid, hrest⟩ := Option.bind_eq_some_iff.1 hsteps
  exact ih (h.step action hmid) hrest

/-- A load overtaken by an eviction writes its entry late; the next call reloads
    and the one after it is served what that reload read. -/
def overtakenLoad : List (Action ℕ) :=
  [.getOrLoad, .mget 0, .applyToken 0, .proceed 0, .beginLoad 0, .mutate, .evict, .applyDelete 1,
   .applyToken 1,
    .answerToken 1 true, .answerDelete 1 true, .endLoad 0 (some 7) true, .applyEntry 0, .getOrLoad,
     .mget 2,
    .beginLoad 2, .endLoad 2 (some 8) true, .applyEntry 2, .getOrLoad, .mget 3]

theorem no_stale_hit_overtaken : ∃ s : State ℕ, steps overtakenLoad empty = some s ∧
    s.calls[3]? = some (.getOrLoad ⟨.hit 19 ⟨6, 8, 15⟩, none, none⟩) ∧ 5 ∈ s.mutations ∧ 5 ≤ 15 := by
 refine ⟨_, rfl, rfl, by decide, ?_⟩
 have hsucceeded : Eviction.Succeeded ⟨6, ⟨6, some 8⟩, true, some true, some true⟩ 8 := ⟨rfl, rfl, rfl⟩
 exact no_stale_hit (reachable_of_steps .start (rfl : steps overtakenLoad empty = some _)) (i := 3)
  (j := 1) rfl
  rfl rfl hsucceeded ⟨by decide, by decide⟩ (by decide)

end Invariant

end BoardGamesEmpire.PermissionCache
