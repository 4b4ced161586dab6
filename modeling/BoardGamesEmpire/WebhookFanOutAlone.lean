import BoardGamesEmpire.WebhookFanOut

set_option autoImplicit false

/-!
# Each webhook subscription as judged alone

A verdict is kept only for the owner and the key it was reached for, so the
fan-out records for each subscription the calls of a judgement of its own.
-/
namespace BoardGamesEmpire.WebhookFanOut
open JsText

section Memo

def Plain (id : Text) : Prop := id ≠ [] ∧ ':' ∉ id

def PlainPair (ownerId : Text) (apiKeyId : Option Text) : Prop := Plain ownerId ∧
    ∀ key ∈ apiKeyId, Plain key

theorem memoKey_injective {owner owner' : Text} {key key' : Option Text} (h : PlainPair owner key)
  (h' : PlainPair owner' key')
  (heq : memoKey owner key = memoKey owner' key') : owner = owner' ∧ key = key' := by
 have hcut : ∀ (a b c d : Text), ':' ∉ a → ':' ∉ c → a ++ ':' :: b = c ++ ':' :: d → a = c ∧ b = d := by
  intro a b c d ha hc hab
  induction a generalizing c with
  | nil =>
   cases c with
   | nil => exact ⟨rfl, (List.cons.inj hab).2⟩
   | cons x c => exact absurd (List.mem_cons.mpr (.inl (List.cons.inj hab).1)) hc
  | cons x a ih =>
   cases c with
   | nil => exact absurd (List.mem_cons.mpr (.inl (List.cons.inj hab).1.symm)) ha
   | cons y c =>
    obtain ⟨hxy, hrest⟩ := List.cons.inj hab
    obtain ⟨hac, hbd⟩ := ih c (fun hmem => ha (List.mem_cons_of_mem _ hmem))
     (fun hmem => hc (List.mem_cons_of_mem _ hmem)) hrest
    exact ⟨by rw [hxy, hac], hbd⟩
 obtain ⟨howner, hkey⟩ := hcut _ _ _ _ h.1.2 h'.1.2 heq
 refine ⟨howner, ?_⟩
 cases key with
 | none =>
  cases key' with
  | none => rfl
  | some key' => exact absurd hkey.symm (h'.2 key' rfl).1
 | some key =>
  cases key' with
  | none => exact absurd hkey (h.2 key rfl).1
  | some key' => exact congrArg some hkey

end Memo

section Runs

variable {γ κ α : Type} (services : Services γ κ α) (verdictOn : Text → Option Text → Bool)

/-- After an answered query no call is made for the same owner and key but to deliver. -/
def Unrepeated (earlier later : Entry) : Prop :=
  earlier.call = .isVisibleTo → earlier.ok = true → later.call ≠ .enqueue →
    ¬ (earlier.ownerId = later.ownerId ∧ earlier.subscription.apiKeyId = later.subscription.apiKeyId)

structure Sound (state : FanOut) : Prop where
  remembered : ∀ owner key visible, PlainPair owner key →
   mapGet state.visibilityCache (memoKey owner key) = some visible →
    visible = verdictOn owner key
  answered : ∀ entry ∈ state.log, entry.call = .isVisibleTo → entry.ok = true →
    mapGet state.visibilityCache (memoKey entry.ownerId entry.subscription.apiKeyId) ≠ none
  unrepeated : state.log.Pairwise Unrepeated

/-- The calls recorded for one subscription: as the services answered them, and of this subscription. -/
def Made (owner : Text) (subscription : CandidateSubscription) (entry : Entry) : Prop :=
  entry.ownerId = owner ∧ entry.subscription = subscription ∧
   entry.ok = services.succeeds entry.call subscription.id

/-- What judging one subscription adds: calls for its verdict, and its job when it is visible and none of them failed. -/
def Judged (owner : Text) (subscription : CandidateSubscription) (entries : List Entry) : Prop :=
  ∃ looks, (∀ entry ∈ looks, entry.call ≠ .enqueue ∧ Made services owner subscription entry) ∧
    entries = looks ++ if verdictOn owner subscription.apiKeyId && looks.all (·.ok) then
      [⟨.enqueue, owner, subscription, services.succeeds .enqueue subscription.id⟩] else []

def Ran (state state' : FanOut) (pairs : List (Text × CandidateSubscription)) : Prop :=
  ∃ parts : List (List Entry),
   List.Forall₂ (fun pair entries => Judged services verdictOn pair.1 pair.2 entries) pairs parts ∧
    state'.log = state.log ++ parts.flatten

variable {verdictOn}

theorem Sound.extend {state state' : FanOut} (h : Sound verdictOn state) {owner : Text}
  {key : Option Text} (hplain : PlainPair owner key)
  (entries : List Entry) (memo : List (Text × Bool)) (hlog : state'.log = state.log ++ entries)
  (hcache : state'.visibilityCache = state.visibilityCache ++ memo) (hmemo : memo = [] ∨
   memo = [(memoKey owner key, verdictOn owner key)])
  (hpairs : ∀ entry ∈ entries, entry.ownerId = owner ∧ entry.subscription.apiKeyId = key)
  (hasked : mapGet state.visibilityCache (memoKey owner key) = none ∨
   ∀ entry ∈ entries, entry.call = .enqueue)
  (horder : entries.Pairwise Unrepeated)
  (hanswered : ∀ entry ∈ entries, entry.call = .isVisibleTo → entry.ok = true → memo ≠ []) :
   Sound verdictOn state' := by
 have hget : ∀ memo', mapGet state'.visibilityCache memo' = if memo ≠ [] ∧
  memoKey owner key = memo' then some (verdictOn owner key)
   else mapGet state.visibilityCache memo' := by
  intro memo'
  rcases hmemo with rfl | rfl
  · rw [hcache, List.append_nil]
    simp
  · rw [hcache, mapGet_concat]
    simp
 refine ⟨fun owner' key' visible hplain' hvisible => ?_, fun entry hentry hcall hok => ?_, ?_⟩
 · rw [hget] at hvisible
   split at hvisible
   · next hsame =>
     obtain ⟨rfl, rfl⟩ := memoKey_injective hplain hplain' hsame.2
     exact (Option.some.inj hvisible).symm
   · exact h.remembered owner' key' visible hplain' hvisible
 · rw [hlog] at hentry
   rw [hget]
   split
   · intro hnone
     cases hnone
   · next hother =>
     rcases List.mem_append.mp hentry with hold | hnew
     · exact h.answered entry hold hcall hok
     · obtain ⟨rfl, rfl⟩ := hpairs entry hnew
       exact absurd ⟨hanswered entry hnew hcall hok, rfl⟩ hother
 · rw [hlog, List.pairwise_append]
   refine ⟨h.unrepeated, horder, fun earlier hearlier later hlater hcall hok hlook hsame => ?_⟩
   rcases hasked with hnone | henqueue
   · obtain ⟨howner, hkey⟩ := hpairs later hlater
     refine h.answered earlier hearlier hcall hok ?_
     rw [hsame.1, hsame.2, howner, hkey]
     exact hnone
   · exact hlook (henqueue later hlater)

def Subscriber.Holds (graph : UserWithRoles γ) (subscriber : Subscriber γ α) : Prop :=
  subscriber.graph = graph ∧ ∀ ability ∈ subscriber.ability, ability = services.createForUser graph

theorem abilityOf_spec (graph : UserWithRoles γ) (subscription : CandidateSubscription)
  (subscriber : Subscriber γ α) (state : FanOut)
  (h : subscriber.Holds services graph) : ∃ subscriber' looks, subscriber'.Holds services graph ∧
   (∀ entry ∈ looks, entry.call = .createForUser ∧ Made services graph.id subscription entry) ∧
   abilityOf services subscription subscriber state = (subscriber',
    { state with log := state.log ++ looks },
    if looks.all (·.ok) then some (services.createForUser graph) else none) := by
 obtain ⟨rfl, hability⟩ := h
 unfold abilityOf
 cases hheld : subscriber.ability with
 | some ability =>
  refine ⟨subscriber, [], ⟨rfl, hability⟩, List.forall_mem_nil _, ?_⟩
  rw [List.append_nil, hability ability hheld]
  rfl
 | none =>
  cases hok : services.succeeds .createForUser subscription.id with
  | true =>
   refine ⟨{ subscriber with ability := some (services.createForUser subscriber.graph) },
    [⟨.createForUser, subscriber.graph.id, subscription, true⟩],
     ⟨rfl, fun ability h => (Option.some.inj h).symm⟩, fun entry h => ?_, ?_⟩
   · obtain rfl := List.mem_singleton.mp h
     exact ⟨rfl, rfl, rfl, hok.symm⟩
   · simp [record, hok]
  | false =>
   refine ⟨subscriber, [⟨.createForUser, subscriber.graph.id, subscription, false⟩],
    ⟨rfl, hability⟩, fun entry h => ?_, ?_⟩
   · obtain rfl := List.mem_singleton.mp h
     exact ⟨rfl, rfl, rfl, hok.symm⟩
   · simp [record, hok]

def bothAbilities (graph : UserWithRoles γ) : Option (ApikeyWithScopes κ) → List α
  | none => [services.createForUser graph]
  | some key => services.createForApiKeyActor (services.createForUser graph) key

theorem abilitiesOf_spec (graph : UserWithRoles γ) (subscription : CandidateSubscription)
  (keyGraph : Option (ApikeyWithScopes κ)) (state : FanOut) :
  ∃ looks, (∀ entry ∈ looks, entry.call = .createForApiKeyActor ∧
   Made services graph.id subscription entry) ∧
   abilitiesOf services subscription graph.id keyGraph (services.createForUser graph) state =
    ({ state with log := state.log ++ looks },
    if looks.all (·.ok) then some (bothAbilities services graph keyGraph) else none) := by
 unfold abilitiesOf
 cases keyGraph with
 | none =>
  refine ⟨[], List.forall_mem_nil _, ?_⟩
  rw [List.append_nil]
  rfl
 | some key =>
  refine ⟨[⟨.createForApiKeyActor, graph.id, subscription,
   services.succeeds .createForApiKeyActor subscription.id⟩], fun entry h => ?_, ?_⟩
  · obtain rfl := List.mem_singleton.mp h
    exact ⟨rfl, rfl, rfl, rfl⟩
  · simp [record, bothAbilities]

theorem sees_some (graph : UserWithRoles γ) (keyGraph : Option (ApikeyWithScopes κ)) :
  sees services graph (some keyGraph) =
   (!(keyGraph.any fun key => key.referenceId ≠ graph.id) && services.isVisibleTo
    (bothAbilities services graph keyGraph)) := by
 cases keyGraph with
 | none => rfl
 | some key => simp [sees, bothAbilities]

/-- The calls made for a verdict: as the services answered them, and none after an answered query. -/
structure Looks (owner : Text) (subscription : CandidateSubscription) (looks : List Entry) : Prop where
  made : ∀ entry ∈ looks, entry.call ≠ .enqueue ∧ Made services owner subscription entry
  ordered : looks.Pairwise Unrepeated
  answered : ∀ entry ∈ looks, entry.call = .isVisibleTo → entry.ok = true → looks.all (·.ok) = true

theorem looks_of_builds (owner : Text) (subscription : CandidateSubscription) (looks : List Entry)
  (h : ∀ entry ∈ looks, (entry.call = .createForUser ∨ entry.call = .createForApiKeyActor) ∧
   Made services owner subscription entry) :
  Looks services owner subscription looks := by
 have hnever : ∀ entry ∈ looks, entry.call ≠ .isVisibleTo := fun entry hentry hcall => by
  rcases (h entry hentry).1 with hbuild | hbuild <;> exact nomatch hbuild.symm.trans hcall
 refine ⟨fun entry hentry => ⟨fun hcall => ?_, (h entry hentry).2⟩, ?_, fun entry hentry hcall =>
  absurd hcall (hnever entry hentry)⟩
 · rcases (h entry hentry).1 with hbuild | hbuild <;> exact nomatch hbuild.symm.trans hcall
 · exact List.pairwise_of_forall_mem_list fun earlier hearlier _ _ hcall =>
    absurd hcall (hnever earlier hearlier)

theorem looks_query (owner : Text) (subscription : CandidateSubscription) (looks : List Entry)
  (h : ∀ entry ∈ looks, (entry.call = .createForUser ∨ entry.call = .createForApiKeyActor) ∧
   Made services owner subscription entry)
  (hok : looks.all (·.ok) = true) :
  Looks services owner subscription
   (looks ++ [⟨.isVisibleTo, owner, subscription, services.succeeds .isVisibleTo subscription.id⟩]) := by
 obtain ⟨hmade, hordered, -⟩ := looks_of_builds services owner subscription looks h
 refine ⟨fun entry hentry => ?_, List.pairwise_append.mpr
  ⟨hordered, List.pairwise_singleton _ _, fun earlier hearlier _ _ hcall => ?_⟩,
  fun entry hentry hcall hanswer => ?_⟩
 · rcases List.mem_append.mp hentry with hentry | hentry
   · exact hmade entry hentry
   · obtain rfl := List.mem_singleton.mp hentry
     exact ⟨(nomatch ·), rfl, rfl, rfl⟩
 · rcases (h earlier hearlier).1 with hbuild | hbuild <;> exact nomatch hbuild.symm.trans hcall
 · rw [List.all_append, hok, Bool.true_and]
   rcases List.mem_append.mp hentry with hentry | hentry
   · rcases (h entry hentry).1 with hbuild | hbuild <;> exact nomatch hbuild.symm.trans hcall
   · obtain rfl := List.mem_singleton.mp hentry
     simpa using hanswer

def answeredMemo (owner : Text) (apiKeyId : Option Text) (visible : Bool) (looks : List Entry) :
    List (Text × Bool) :=
  if looks.all (·.ok) then [(memoKey owner apiKeyId, visible)] else []

theorem queryVisible_spec (graph : UserWithRoles γ) (subscription : CandidateSubscription)
  (keyGraph : Option (ApikeyWithScopes κ))
  (subscriber : Subscriber γ α) (state : FanOut) (hsubscriber : subscriber.Holds services graph) :
  ∃ subscriber' looks, subscriber'.Holds services graph ∧ Looks services graph.id subscription looks ∧
   queryVisible services subscription keyGraph subscriber state =
    (subscriber', { state with
      log := state.log ++ looks
      visibilityCache := state.visibilityCache ++
       answeredMemo graph.id subscription.apiKeyId
        (services.isVisibleTo (bothAbilities services graph keyGraph)) looks },
     if looks.all (·.ok) then some
      (services.isVisibleTo (bothAbilities services graph keyGraph)) else none) := by
 obtain ⟨subscriber', looks, hsubscriber', hlooks, hability⟩ := abilityOf_spec services graph
  subscription subscriber state hsubscriber
 have hlooks' : ∀ entry ∈ looks, (entry.call = .createForUser ∨ entry.call = .createForApiKeyActor) ∧
   Made services graph.id subscription entry :=
    fun entry he => ⟨.inl (hlooks entry he).1, (hlooks entry he).2⟩
 unfold queryVisible
 rw [hability]
 cases hok : looks.all (·.ok) with
 | false =>
  refine ⟨subscriber', looks, hsubscriber',
   looks_of_builds services graph.id subscription looks hlooks', ?_⟩
  simp [answeredMemo, hok]
 | true =>
  obtain ⟨built, hbuilt, habilities⟩ := abilitiesOf_spec services graph subscription keyGraph
   { state with log := state.log ++ looks }
  have hbuilds :
   ∀ entry ∈ looks ++ built, (entry.call = .createForUser ∨ entry.call = .createForApiKeyActor) ∧
    Made services graph.id subscription entry := fun entry he => by
   rcases List.mem_append.mp he with he | he
   · exact hlooks' entry he
   · exact ⟨.inr (hbuilt entry he).1, (hbuilt entry he).2⟩
  simp only [if_true]
  rw [hsubscriber'.1, habilities]
  cases hbuiltOk : built.all (·.ok) with
  | false =>
   refine ⟨subscriber', looks ++ built, hsubscriber',
    looks_of_builds services graph.id subscription _ hbuilds, ?_⟩
   simp [answeredMemo, hbuiltOk]
  | true =>
   have hall : (looks ++ built).all (·.ok) = true := by rw [List.all_append, hok, hbuiltOk]; rfl
   refine ⟨subscriber', _, hsubscriber', looks_query services graph.id subscription _ hbuilds hall, ?_⟩
   rw [answeredMemo, List.all_append, hall]
   cases hquery : services.succeeds .isVisibleTo subscription.id <;> simp [record, remember, hquery]

theorem visibleTo_spec (graph : UserWithRoles γ) (subscription : CandidateSubscription)
  (keyGraph : Option (Option (ApikeyWithScopes κ))) (subscriber : Subscriber γ α) (state : FanOut)
  (hsubscriber : subscriber.Holds services graph) (h : Sound verdictOn state)
  (hplain : PlainPair graph.id subscription.apiKeyId)
  (hverdict : verdictOn graph.id subscription.apiKeyId = sees services graph keyGraph) :
  ∃ subscriber' state' looks, subscriber'.Holds services graph ∧ Sound verdictOn state' ∧
   state'.log = state.log ++ looks ∧
   (∀ entry ∈ looks, entry.call ≠ .enqueue ∧ Made services graph.id subscription entry) ∧
   visibleTo services subscription keyGraph subscriber state =
    (subscriber', state',
     if looks.all (·.ok) then some (verdictOn graph.id subscription.apiKeyId) else none) := by
 unfold visibleTo
 dsimp only
 rw [hsubscriber.1]
 cases hmemo : mapGet state.visibilityCache (memoKey graph.id subscription.apiKeyId) with
 | some visible =>
  refine ⟨subscriber, state, [], hsubscriber, h, (List.append_nil _).symm, List.forall_mem_nil _, ?_⟩
  rw [h.remembered _ _ _ hplain hmemo]
  rfl
 | none =>
  -- a refusal that needs no query is remembered as one
  have hrefuse : verdictOn graph.id subscription.apiKeyId = false →
    Sound verdictOn (remember (memoKey graph.id subscription.apiKeyId) false state) := fun hfalse =>
   h.extend hplain [] [(memoKey graph.id subscription.apiKeyId, false)] (List.append_nil _).symm rfl
    (.inr (by rw [hfalse]))
    (List.forall_mem_nil _) (.inl hmemo) .nil (List.forall_mem_nil _)
  cases keyGraph with
  | none =>
   have hfalse : verdictOn graph.id subscription.apiKeyId = false := hverdict
   refine ⟨subscriber, _, [], hsubscriber, hrefuse hfalse, (List.append_nil _).symm,
    List.forall_mem_nil _, ?_⟩
   rw [hfalse]
   rfl
  | some keyGraph =>
   rw [sees_some] at hverdict
   dsimp only
   split
   · next hother =>
     have hfalse : verdictOn graph.id subscription.apiKeyId = false := by rw [hverdict, hother]; rfl
     refine ⟨subscriber, _, [], hsubscriber, hrefuse hfalse, (List.append_nil _).symm,
      List.forall_mem_nil _, ?_⟩
     rw [hfalse]
     rfl
   · next hown =>
     rw [Bool.eq_false_iff.mpr hown, Bool.not_false, Bool.true_and] at hverdict
     obtain ⟨subscriber', looks, hsubscriber', hlooks, hquery⟩ := queryVisible_spec services graph
      subscription keyGraph subscriber state hsubscriber
     rw [← hverdict] at hquery
     refine ⟨subscriber', _, looks, hsubscriber', ?_, rfl, hlooks.made, hquery⟩
     refine h.extend hplain looks (answeredMemo graph.id subscription.apiKeyId
      (verdictOn graph.id subscription.apiKeyId) looks) rfl rfl ?_
      (fun entry he => ⟨(hlooks.made entry he).2.1, by rw [(hlooks.made entry he).2.2.1]⟩)
       (.inl hmemo) hlooks.ordered
      fun entry he hcall hok => ?_
     · unfold answeredMemo
       split
       · exact .inr rfl
       · exact .inl rfl
     · rw [answeredMemo, if_pos (hlooks.answered entry he hcall hok)]
       exact List.cons_ne_nil _ _

theorem deliver_spec (graph : UserWithRoles γ) (subscription : CandidateSubscription)
  (keyGraph : Option (Option (ApikeyWithScopes κ))) (judging : Subscriber γ α × FanOut)
  (hsubscriber : judging.1.Holds services graph) (h : Sound verdictOn judging.2)
  (hplain : PlainPair graph.id subscription.apiKeyId)
  (hverdict : verdictOn graph.id subscription.apiKeyId = sees services graph keyGraph) :
  (deliver services keyGraph judging subscription).1.Holds services graph ∧
   Sound verdictOn (deliver services keyGraph judging subscription).2 ∧
   ∃ entries, (deliver services keyGraph judging subscription).2.log = judging.2.log ++ entries ∧
    Judged services verdictOn graph.id subscription entries := by
 obtain ⟨subscriber', state', looks, hsubscriber', hstate', hlog, hlooks, hvisible⟩ :=
  visibleTo_spec services graph subscription keyGraph judging.1 judging.2 hsubscriber h hplain hverdict
 have hfailed : ∀ state, Sound verdictOn state → Sound verdictOn (failed state) := fun state hs =>
  ⟨hs.remembered, hs.answered, hs.unrepeated⟩
 unfold deliver
 rw [hvisible]
 cases hok : looks.all (·.ok) with
 | false =>
  refine ⟨hsubscriber', hfailed _ hstate', looks, hlog, looks, hlooks, ?_⟩
  rw [hok, Bool.and_false]
  exact (List.append_nil _).symm
 | true =>
  cases hseen : verdictOn graph.id subscription.apiKeyId with
  | false =>
   refine ⟨hsubscriber', hstate', looks, hlog, looks, hlooks, ?_⟩
   rw [hseen]
   exact (List.append_nil _).symm
  | true =>
   have hrecorded : Sound verdictOn (record services .enqueue graph.id subscription state') :=
    hstate'.extend hplain
     [⟨.enqueue, graph.id, subscription, services.succeeds .enqueue subscription.id⟩] [] rfl
     (List.append_nil _).symm (.inl rfl)
      (fun entry he => by obtain rfl := List.mem_singleton.mp he; exact ⟨rfl, rfl⟩)
     (.inr fun entry he => by obtain rfl := List.mem_singleton.mp he; rfl) (List.pairwise_singleton _ _)
     fun entry he hcall => by obtain rfl := List.mem_singleton.mp he; exact nomatch hcall
   have hjudged : Judged services verdictOn graph.id subscription
     (looks ++ [⟨.enqueue, graph.id, subscription, services.succeeds .enqueue subscription.id⟩]) := by
    refine ⟨looks, hlooks, ?_⟩
    rw [hseen, hok]
    rfl
   have hlog' : (record services .enqueue graph.id subscription state').log =
     judging.2.log ++ (looks ++ [⟨.enqueue, graph.id, subscription,
      services.succeeds .enqueue subscription.id⟩]) := by
    rw [record, hlog, List.append_assoc]
   simp only [if_true, hsubscriber'.1]
   split
   · exact ⟨hsubscriber', hrecorded, _, hlog', hjudged⟩
   · exact ⟨hsubscriber', hfailed _ hrecorded, _, hlog', hjudged⟩

theorem Ran.trans {state₁ state₂ state₃ : FanOut} {pairs more : List (Text × CandidateSubscription)}
  (h : Ran services verdictOn state₁ state₂ pairs) (h' : Ran services verdictOn state₂ state₃ more) :
  Ran services verdictOn state₁ state₃ (pairs ++ more) := by
 obtain ⟨parts, hparts, hlog⟩ := h
 obtain ⟨parts', hparts', hlog'⟩ := h'
 refine ⟨parts ++ parts', List.rel_append hparts hparts', ?_⟩
 rw [hlog', hlog, List.flatten_append, List.append_assoc]

theorem ran_skipped (state state' : FanOut) (pairs : List (Text × CandidateSubscription))
  (hlog : state'.log = state.log) (h : ∀ pair ∈ pairs, verdictOn pair.1 pair.2.apiKeyId = false) :
  Ran services verdictOn state state' pairs := by
 refine ⟨pairs.map fun _ => [], ?_, ?_⟩
 · refine List.forall₂_map_right_iff.mpr
    (List.forall₂_same.mpr fun pair hpair => ⟨[], List.forall_mem_nil _, ?_⟩)
   rw [h pair hpair]
   rfl
 · rw [hlog]
   simp

theorem ran_one {state state' : FanOut} {owner : Text} {subscription : CandidateSubscription}
  {entries : List Entry} (hlog : state'.log = state.log ++ entries)
  (h : Judged services verdictOn owner subscription entries) :
  Ran services verdictOn state state' [(owner, subscription)] :=
 ⟨[entries], .cons h .nil, by rw [hlog, List.flatten_singleton]⟩

theorem judge_spec (graph : UserWithRoles γ) (keyGraphs : Option (List (ApikeyWithScopes κ)))
  (subscription : CandidateSubscription) (judging : Subscriber γ α × FanOut)
  (hsubscriber : judging.1.Holds services graph) (h : Sound verdictOn judging.2)
  (hplain : PlainPair graph.id subscription.apiKeyId)
  (hverdict : ∀ key, verdictOn graph.id key = ownerVerdict services graph keyGraphs key) :
  (judge services keyGraphs judging subscription).1.Holds services graph ∧
   Sound verdictOn (judge services keyGraphs judging subscription).2 ∧
   Ran services verdictOn judging.2 (judge services keyGraphs judging subscription).2
    [(graph.id, subscription)] := by
 unfold judge
 cases hkey : subscription.apiKeyId with
 | none =>
  have hsame : verdictOn graph.id subscription.apiKeyId = sees services graph
   (some none) := by rw [hkey, hverdict]; rfl
  obtain ⟨hholds, hsound, entries, hlog, hjudged⟩ := deliver_spec services graph subscription _
   judging hsubscriber h hplain hsame
  exact ⟨hholds, hsound, ran_one services hlog hjudged⟩
 | some apiKeyId =>
  cases keyGraphs with
  | none =>
   refine ⟨hsubscriber, ⟨h.remembered, h.answered, h.unrepeated⟩,
    ran_skipped services _ _ _ rfl fun pair hpair => ?_⟩
   obtain rfl := List.mem_singleton.mp hpair
   rw [hverdict, hkey]
   rfl
  | some keys =>
   have hsame : verdictOn graph.id subscription.apiKeyId = sees services graph
    ((keyOf keys apiKeyId).map some) := by rw [hkey, hverdict]; rfl
   obtain ⟨hholds, hsound, entries, hlog, hjudged⟩ := deliver_spec services graph subscription _
    judging hsubscriber h hplain hsame
   exact ⟨hholds, hsound, ran_one services hlog hjudged⟩

theorem foldl_judge_spec (graph : UserWithRoles γ) (keyGraphs : Option (List (ApikeyWithScopes κ)))
  (candidates : List CandidateSubscription) (judging : Subscriber γ α × FanOut)
  (hsubscriber : judging.1.Holds services graph) (h : Sound verdictOn judging.2)
  (hplain : ∀ subscription ∈ candidates, PlainPair graph.id subscription.apiKeyId)
  (hverdict : ∀ key, verdictOn graph.id key = ownerVerdict services graph keyGraphs key) :
  Sound verdictOn (candidates.foldl (judge services keyGraphs) judging).2 ∧
   Ran services verdictOn judging.2 (candidates.foldl (judge services keyGraphs) judging).2
    (candidates.map fun subscription => (graph.id, subscription)) := by
 induction candidates generalizing judging with
 | nil => exact ⟨h, ran_skipped services _ _ _ rfl (List.forall_mem_nil _)⟩
 | cons subscription candidates ih =>
  obtain ⟨hholds, hsound, hran⟩ := judge_spec services graph keyGraphs subscription judging hsubscriber h
   (hplain subscription List.mem_cons_self) hverdict
  obtain ⟨hsound', hran'⟩ := ih _ hholds hsound fun s hs => hplain s (List.mem_cons_of_mem _ hs)
  exact ⟨hsound', hran.trans services hran'⟩

def pairsOf (owners : List (Text × List CandidateSubscription)) : List (Text × CandidateSubscription) :=
  owners.flatMap fun owner => owner.2.map fun subscription => (owner.1, subscription)

theorem graphOf_id {graphs : List (UserWithRoles γ)} {ownerId : Text} {graph : UserWithRoles γ}
  (h : graphOf graphs ownerId = some graph) :
  graph.id = ownerId := by
 obtain ⟨other, -, heq⟩ := List.mem_map.mp (mapGet_mem h)
 cases heq
 rfl

theorem judgeOwners_spec (graphs : List (UserWithRoles γ)) (keyGraphs : Option (List (ApikeyWithScopes κ)))
  (owners : List (Text × List CandidateSubscription)) (state : FanOut) (h : Sound verdictOn state)
  (hplain : ∀ owner ∈ owners, ∀ subscription ∈ owner.2, PlainPair owner.1 subscription.apiKeyId)
  (hverdict : ∀ owner ∈ owners, ∀ key, verdictOn owner.1 key =
   ((graphOf graphs owner.1).map (ownerVerdict services · keyGraphs key)).getD false) :
  Sound verdictOn (owners.foldl (judgeOwner services graphs keyGraphs) state) ∧
   Ran services verdictOn state (owners.foldl (judgeOwner services graphs keyGraphs) state)
    (pairsOf owners) := by
 induction owners generalizing state with
 | nil => exact ⟨h, ran_skipped services _ _ _ rfl (List.forall_mem_nil _)⟩
 | cons owner owners ih =>
  have hfirst : Sound verdictOn (judgeOwner services graphs keyGraphs state owner) ∧
    Ran services verdictOn state (judgeOwner services graphs keyGraphs state owner)
     (owner.2.map fun subscription => (owner.1, subscription)) := by
   have hverdict' := hverdict owner List.mem_cons_self
   have hplain' := hplain owner List.mem_cons_self
   unfold judgeOwner
   cases hgraph : graphOf graphs owner.1 with
   | none =>
    refine ⟨h, ran_skipped services _ _ _ rfl fun pair hpair => ?_⟩
    obtain ⟨subscription, -, rfl⟩ := List.mem_map.mp hpair
    rw [hverdict', hgraph]
    rfl
   | some graph =>
    have hid := graphOf_id hgraph
    rw [hgraph] at hverdict'
    rw [← hid] at hplain' hverdict' ⊢
    exact foldl_judge_spec services graph keyGraphs owner.2 (⟨graph, none⟩, state)
     ⟨rfl, fun _ h => nomatch h⟩ h hplain' hverdict'
  obtain ⟨hsound, hran⟩ := ih _ hfirst.1 (fun o ho => hplain o (List.mem_cons_of_mem _ ho))
   fun o ho => hverdict o (List.mem_cons_of_mem _ ho)
  exact ⟨hsound, hfirst.2.trans services hran⟩

theorem judgeBatch_spec (batch : List (Text × List CandidateSubscription)) (state : FanOut)
  (h : Sound verdictOn state)
  (hplain : ∀ owner ∈ batch, ∀ subscription ∈ owner.2, PlainPair owner.1 subscription.apiKeyId)
  (hverdict : ∀ owner ∈ batch, ∀ key, verdictOn owner.1 key = verdict services batch owner.1 key) :
  Sound verdictOn (judgeBatch services state batch) ∧
   Ran services verdictOn state (judgeBatch services state batch) (pairsOf batch) := by
 unfold judgeBatch
 cases hgraphs : services.loadUserRoleGraphs (batch.map Prod.fst) with
 | none =>
  refine ⟨⟨h.remembered, h.answered, h.unrepeated⟩, ran_skipped services _ _ _ rfl fun pair hpair => ?_⟩
  obtain ⟨owner, howner, hmem⟩ := List.mem_flatMap.mp hpair
  obtain ⟨subscription, -, rfl⟩ := List.mem_map.mp hmem
  rw [hverdict owner howner, verdict, hgraphs]
  rfl
 | some graphs =>
  refine judgeOwners_spec services graphs _ batch state h hplain fun owner howner key => ?_
  rw [hverdict owner howner, verdict, hgraphs]
  dsimp only [Option.bind_some]
  cases graphOf graphs owner.1 <;> rfl

end Runs

end BoardGamesEmpire.WebhookFanOut
