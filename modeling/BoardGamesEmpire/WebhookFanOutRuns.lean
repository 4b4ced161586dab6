import BoardGamesEmpire.WebhookFanOutAlone

set_option autoImplicit false

/-!
# The whole fan-out

The owners in batches of any size, and for every matching subscription the job
it is sent exactly when it would be on its own.
-/
namespace BoardGamesEmpire.WebhookFanOut
open JsText

section Grouping

theorem mapGet_subscriptionsByOwner (subscriptions : List Subscription) (ownerId : Text) :
  (mapGet (subscriptionsByOwner subscriptions) ownerId).getD [] =
   (subscriptions.filter fun subscription => subscription.createdById = ownerId).map
    fun subscription => ⟨subscription.id, subscription.apiKeyId⟩ :=
 mapGet_setsGrouped Subscription.createdById
  (fun subscription => CandidateSubscription.mk subscription.id subscription.apiKeyId)
  subscriptions ownerId

theorem key_mem_subscriptionsByOwner (subscriptions : List Subscription)
  (subscription : Subscription) (h : subscription ∈ subscriptions) :
  ∃ candidates, mapGet (subscriptionsByOwner subscriptions) subscription.createdById = some
   candidates := by
 cases hget : mapGet (subscriptionsByOwner subscriptions) subscription.createdById with
 | some candidates => exact ⟨candidates, rfl⟩
 | none =>
  have hcandidates := mapGet_subscriptionsByOwner subscriptions subscription.createdById
  rw [hget] at hcandidates
  have hmem : subscription ∈ subscriptions.filter fun other =>
   other.createdById = subscription.createdById := List.mem_filter.mpr ⟨h, by simp⟩
  have hempty := List.map_eq_nil_iff.mp hcandidates.symm
  rw [hempty] at hmem
  cases hmem

theorem mem_ownersOf {subscriptions : List Subscription} {owner : Text × List CandidateSubscription}
  (h : owner ∈ ownersOf subscriptions) :
  owner.2 = (subscriptions.filter fun subscription => subscription.createdById = owner.1).map
   fun subscription =>
   ⟨subscription.id, subscription.apiKeyId⟩ := by
 have hget := mem_mapEntries.mp h
 rw [← mapGet_subscriptionsByOwner, hget]
 rfl

theorem nodup_ownersOf (subscriptions : List Subscription) :
  ((ownersOf subscriptions).map Prod.fst).Nodup := nodup_mapEntries _

theorem mem_pairsOf (subscriptions : List Subscription) (ownerId : Text)
  (candidate : CandidateSubscription) :
  (ownerId, candidate) ∈ pairsOf (ownersOf subscriptions) ↔
   ⟨candidate.id, ownerId, candidate.apiKeyId⟩ ∈ subscriptions := by
 rw [pairsOf, List.mem_flatMap]
 constructor
 · rintro ⟨owner, howner, hmem⟩
   obtain ⟨other, hother, heq⟩ := List.mem_map.mp hmem
   cases heq
   rw [mem_ownersOf howner] at hother
   obtain ⟨subscription, hsubscription, rfl⟩ := List.mem_map.mp hother
   obtain ⟨hin, hcreated⟩ := List.mem_filter.mp hsubscription
   rw [← of_decide_eq_true hcreated]
   exact hin
 · intro h
   obtain ⟨candidates, hget⟩ := key_mem_subscriptionsByOwner subscriptions _ h
   refine ⟨(ownerId, candidates), mem_mapEntries.mpr hget, List.mem_map.mpr ⟨candidate, ?_, rfl⟩⟩
   have howner : (ownerId, candidates) ∈ ownersOf subscriptions := mem_mapEntries.mpr hget
   rw [mem_ownersOf howner]
   exact List.mem_map.mpr ⟨_, List.mem_filter.mpr ⟨h, by simp⟩, rfl⟩

theorem nodup_pairsOf (subscriptions : List Subscription) (h : (subscriptions.map (·.id)).Nodup) :
  ((pairsOf (ownersOf subscriptions)).map (·.2.id)).Nodup := by
 have hids : ∀ owner ∈ ownersOf subscriptions,
  (owner.2.map fun subscription => (owner.1, subscription)).map (·.2.id) =
   (subscriptions.filter fun subscription => subscription.createdById = owner.1).map (·.id) := by
  intro owner howner
  rw [mem_ownersOf howner, List.map_map, List.map_map]
  rfl
 rw [pairsOf, List.map_flatMap, List.nodup_flatMap]
 constructor
 · intro owner howner
   rw [hids owner howner]
   exact h.sublist (List.filter_sublist.map _)
 · have hpairwise := List.pairwise_map.mp (nodup_ownersOf subscriptions)
   refine hpairwise.imp_of_mem fun {owner other} howner hother hne => ?_
   rw [Function.onFun, hids owner howner, hids other hother]
   intro id hid hid'
   obtain ⟨subscription, hsubscription, rfl⟩ := List.mem_map.mp hid
   obtain ⟨subscription', hsubscription', hsame⟩ := List.mem_map.mp hid'
   obtain ⟨hin, howned⟩ := List.mem_filter.mp hsubscription
   obtain ⟨hin', howned'⟩ := List.mem_filter.mp hsubscription'
   obtain rfl := List.inj_on_of_nodup_map h hin' hin hsame
   exact hne ((of_decide_eq_true howned).symm.trans (of_decide_eq_true howned'))

end Grouping

section Batches

variable {γ κ α : Type} (services : Services γ κ α) (size : ℕ)

theorem batchOf_mem (owners : List (Text × List CandidateSubscription))
  (hnodup : (owners.map Prod.fst).Nodup) (n : ℕ) (hsize : 0 < size)
  {owner : Text × List CandidateSubscription} (h : owner ∈ batchAt size owners (n * size)) :
  batchOf size owners owner.1 = batchAt size owners (n * size) := by
 obtain ⟨j, hj, hget⟩ := List.getElem_of_mem h
 rw [batchAt, List.length_take, List.length_drop] at hj
 have hlt : n * size + j < owners.length := by omega
 have hlt' : n * size + j < (owners.map Prod.fst).length := by rwa [List.length_map]
 have howner : (owners.map Prod.fst)[n * size + j] = owner.1 := by
  rw [List.getElem_map, ← hget]
  simp [batchAt]
 have hidx : (owners.map Prod.fst).idxOf owner.1 = n * size + j := by
  rw [← howner]
  exact hnodup.idxOf_getElem _ _
 rw [batchOf, hidx, Nat.mul_comm n size, Nat.mul_add_div hsize, Nat.div_eq_of_lt (by omega),
  Nat.add_zero, Nat.mul_comm n size]

theorem judgeFrom_spec (owners : List (Text × List CandidateSubscription))
  (hnodup : (owners.map Prod.fst).Nodup) (hsize : 0 < size)
  (hplain : ∀ owner ∈ owners, ∀ subscription ∈ owner.2, PlainPair owner.1 subscription.apiKeyId)
  (fuel n : ℕ) (hfuel : owners.length ≤ n * size + fuel) (state : FanOut)
  (h : Sound (fun ownerId => verdict services (batchOf size owners ownerId) ownerId) state) :
  Sound (fun ownerId => verdict services (batchOf size owners ownerId) ownerId)
   (judgeFrom services size owners fuel (n * size) state) ∧
   Ran services (fun ownerId => verdict services (batchOf size owners ownerId) ownerId) state
    (judgeFrom services size owners fuel (n * size) state) (pairsOf (owners.drop (n * size))) := by
 induction fuel generalizing n state with
 | zero =>
  rw [List.drop_of_length_le (by omega)]
  exact ⟨h, ran_skipped services _ _ _ rfl (List.forall_mem_nil _)⟩
 | succ fuel ih =>
  unfold judgeFrom
  split
  · have hsub : ∀ owner ∈ batchAt size owners (n * size), owner ∈ owners := fun owner howner =>
     List.mem_of_mem_drop (List.mem_of_mem_take howner)
    obtain ⟨hsound, hran⟩ := judgeBatch_spec services (batchAt size owners (n * size)) state h
     (fun owner howner => hplain owner (hsub owner howner))
     fun owner howner key => by rw [batchOf_mem size owners hnodup n hsize howner]
    have hnext : n * size + size = (n + 1) * size := by rw [Nat.succ_mul]
    rw [hnext]
    obtain ⟨hsound', hran'⟩ := ih (n + 1) (by rw [Nat.succ_mul]; omega) _ hsound
    refine ⟨hsound', ?_⟩
    have hpairs : pairsOf (owners.drop (n * size)) = pairsOf
     (batchAt size owners (n * size)) ++ pairsOf (owners.drop ((n + 1) * size)) := by
     rw [pairsOf, pairsOf, pairsOf, ← List.flatMap_append, batchAt, ← hnext, ← List.drop_drop,
      List.take_append_drop]
    rw [hpairs]
    exact hran.trans services hran'
  · next hdone =>
    rw [List.drop_of_length_le (by omega)]
    exact ⟨h, ran_skipped services _ _ _ rfl (List.forall_mem_nil _)⟩

end Batches

section Matching

structure Matching where
  subscriptions : List Subscription
  nodup : (subscriptions.map (·.id)).Nodup
  plain : ∀ subscription ∈ subscriptions, PlainPair subscription.createdById subscription.apiKeyId

example : Matching where
  subscriptions := [⟨"s1".toList, "ada".toList, none⟩, ⟨"s2".toList, "ada".toList, some "k1".toList⟩]
  nodup := by decide
  plain := List.forall_mem_cons.2 ⟨⟨⟨by decide, by decide⟩, nofun⟩,
    List.forall_mem_singleton.2
     ⟨⟨by decide, by decide⟩, fun _ hkey => Option.some.inj hkey ▸ ⟨by decide, by decide⟩⟩⟩

variable {γ κ α : Type}

def Matching.batchOf (matching : Matching) (size : ℕ+) (subscription : Subscription) :
    List (Text × List CandidateSubscription) :=
  WebhookFanOut.batchOf size (ownersOf matching.subscriptions) subscription.createdById

/-- The plain rule: what the reads of its own batch and its own abilities say of a subscription. -/
def Receives (services : Services γ κ α) (size : ℕ+) (matching : Matching)
    (subscription : Subscription) : Prop :=
  ∃ graphs graph, services.loadUserRoleGraphs ((matching.batchOf size subscription).map Prod.fst)
   = some graphs ∧
    graphOf graphs subscription.createdById = some graph ∧
    match subscription.apiKeyId with
    | none => services.isVisibleTo [services.createForUser graph] = true
    | some apiKeyId => ∃ keys key, readKeys services (matching.batchOf size subscription) = some
     keys ∧ keyOf keys apiKeyId = some key ∧
        key.referenceId = subscription.createdById ∧
         services.isVisibleTo (services.createForApiKeyActor (services.createForUser graph) key) = true

theorem verdict_iff (services : Services γ κ α) (size : ℕ+) (matching : Matching)
  (subscription : Subscription) :
  verdict services (matching.batchOf size subscription) subscription.createdById
   subscription.apiKeyId = true ↔
   Receives services size matching subscription := by
 unfold verdict Receives
 cases services.loadUserRoleGraphs ((matching.batchOf size subscription).map Prod.fst) with
 | none => simp
 | some graphs =>
  dsimp only [Option.bind_some]
  cases hgraph : graphOf graphs subscription.createdById with
  | none => simp [hgraph]
  | some graph =>
   have hid := graphOf_id hgraph
   have hone : ∀ P : UserWithRoles γ → Prop, (∃ graphs' graph', some graphs = some graphs' ∧
    graphOf graphs' subscription.createdById = some graph' ∧ P graph') ↔
     P graph := by
    intro P
    constructor
    · rintro ⟨_, _, hgraphs, hgraph', h⟩
      cases hgraphs
      rw [hgraph] at hgraph'
      cases hgraph'
      exact h
    · exact fun h => ⟨graphs, graph, rfl, hgraph, h⟩
   rw [hone]
   cases subscription.apiKeyId with
   | none => exact Iff.rfl
   | some apiKeyId =>
    unfold ownerVerdict
    cases readKeys services (matching.batchOf size subscription) with
    | none => simp
    | some keys =>
     dsimp only
     cases hkey : keyOf keys apiKeyId with
     | none => simp [hkey, sees]
     | some key => simp [hkey, sees, hid]

def jobsOf (log : List Entry) (subscriptionId : Text) : List Entry :=
  log.filter fun entry => entry.call = .enqueue ∧ entry.ok = true ∧ entry.subscription.id = subscriptionId

def callsOf (log : List Entry) (subscriptionId : Text) :
    List Entry := log.filter fun entry => entry.subscription.id = subscriptionId

theorem exists_judged {services : Services γ κ α} {verdictOn : Text → Option Text → Bool}
  {pairs : List (Text × CandidateSubscription)} {parts : List (List Entry)}
  (h : List.Forall₂ (fun pair entries => Judged services verdictOn pair.1 pair.2 entries) pairs parts)
  {entries : List Entry} (hentries : entries ∈ parts) :
   ∃ pair ∈ pairs, Judged services verdictOn pair.1 pair.2 entries := by
 induction h with
 | nil => cases hentries
 | cons hfirst _ ih =>
  rcases List.mem_cons.mp hentries with rfl | hlater
  · exact ⟨_, List.mem_cons_self, hfirst⟩
  · obtain ⟨pair, hpair, hjudged⟩ := ih hlater
    exact ⟨pair, List.mem_cons_of_mem _ hpair, hjudged⟩

theorem callsOf_flatten {services : Services γ κ α} {verdictOn : Text → Option Text → Bool}
  (pairs : List (Text × CandidateSubscription)) (parts : List (List Entry))
  (h : List.Forall₂ (fun pair entries => Judged services verdictOn pair.1 pair.2 entries) pairs parts)
  (hnodup : (pairs.map (·.2.id)).Nodup) (pair : Text × CandidateSubscription) (hpair : pair ∈ pairs) :
  Judged services verdictOn pair.1 pair.2 (callsOf parts.flatten pair.2.id) := by
 have hids : ∀ (other : Text × CandidateSubscription) entries,
  Judged services verdictOn other.1 other.2 entries →
   ∀ entry ∈ entries, entry.subscription.id = other.2.id := by
  rintro other entries ⟨looks, hlooks, rfl⟩ entry hentry
  rcases List.mem_append.mp hentry with hlook | hjob
  · rw [(hlooks entry hlook).2.2.1]
  · split at hjob
    · obtain rfl := List.mem_singleton.mp hjob
      rfl
    · cases hjob
 have hkeep : ∀ (other : Text × CandidateSubscription) entries,
  Judged services verdictOn other.1 other.2 entries →
   callsOf entries pair.2.id = if other.2.id = pair.2.id then entries else [] := by
  intro other entries hjudged
  split
  · next hsame =>
     exact List.filter_eq_self.mpr fun entry hentry => decide_eq_true ((hids other entries hjudged entry hentry).trans hsame)
  · next hne => exact List.filter_eq_nil_iff.mpr fun entry hentry heq => hne ((hids other entries hjudged entry hentry).symm.trans (of_decide_eq_true heq))
 induction h with
 | nil => cases hpair
 | @cons first entries pairs parts hfirst hrest ih =>
  obtain ⟨hfresh, hnodup⟩ := List.nodup_cons.mp hnodup
  have hsplit : callsOf (entries :: parts).flatten pair.2.id = callsOf entries pair.2.id ++ callsOf
   parts.flatten pair.2.id := by
   rw [List.flatten_cons]
   exact List.filter_append ..
  rw [hsplit, hkeep first entries hfirst]
  rcases List.mem_cons.mp hpair with rfl | hlater
  · have hnone : callsOf parts.flatten pair.2.id = [] := by
     refine List.filter_eq_nil_iff.mpr fun entry hentry heq => hfresh ?_
     obtain ⟨later, hlater, hmem⟩ := List.mem_flatten.mp hentry
     obtain ⟨other, hother, hjudged⟩ := exists_judged hrest hlater
     exact List.mem_map.mpr
      ⟨other, hother, (hids other later hjudged entry hmem).symm.trans (of_decide_eq_true heq)⟩
    rw [if_pos rfl, hnone, List.append_nil]
    exact hfirst
  · have hother : first.2.id ≠ pair.2.id := fun heq => hfresh (List.mem_map.mpr ⟨pair, hlater, heq.symm⟩)
    rw [if_neg hother, List.nil_append]
    exact ih hnodup hlater

theorem fanOut_spec (services : Services γ κ α) (size : ℕ+) (matching : Matching) :
  (fanOut services size matching.subscriptions).log.Pairwise Unrepeated ∧
   ∀ subscription ∈ matching.subscriptions,
   Judged services
    (fun ownerId => verdict services (batchOf size (ownersOf matching.subscriptions) ownerId) ownerId)
    subscription.createdById ⟨subscription.id, subscription.apiKeyId⟩
    (callsOf (fanOut services size matching.subscriptions).log subscription.id) := by
 have hplain : ∀ owner ∈ ownersOf matching.subscriptions, ∀ candidate ∈ owner.2,
  PlainPair owner.1 candidate.apiKeyId := by
  intro owner howner candidate hcandidate
  have hpair : (owner.1, candidate) ∈ pairsOf (ownersOf matching.subscriptions) :=
   List.mem_flatMap.mpr ⟨owner, howner, List.mem_map_of_mem hcandidate⟩
  exact matching.plain _ ((mem_pairsOf _ _ _).mp hpair)
 have hempty :
  Sound (fun ownerId => verdict services (batchOf size (ownersOf matching.subscriptions) ownerId)
   ownerId) ⟨[], [], 0⟩ :=
  ⟨(fun _ _ _ _ h => nomatch h), List.forall_mem_nil _, .nil⟩
 obtain ⟨hsound, parts, hparts, hlog⟩ := judgeFrom_spec services size
  (ownersOf matching.subscriptions) (nodup_ownersOf _) size.pos hplain
  (ownersOf matching.subscriptions).length 0 (Nat.le_add_left _ _) ⟨[], [], 0⟩ hempty
 rw [Nat.zero_mul] at hsound hparts hlog
 refine ⟨hsound.unrepeated, fun subscription hsubscription => ?_⟩
 have hpair := (mem_pairsOf matching.subscriptions subscription.createdById
  ⟨subscription.id, subscription.apiKeyId⟩).mpr hsubscription
 have hcalls := callsOf_flatten _ parts hparts (nodup_pairsOf _ matching.nodup) _ hpair
 have hlog' : (fanOut services size matching.subscriptions).log = parts.flatten := hlog
 rw [hlog']
 exact hcalls

/-- The services answer alike for one subscription: its owner's graph, its key, and its own calls. -/
structure AgreeOn (services services' : Services γ κ α) (size : ℕ+) (matching : Matching)
    (subscription : Subscription) : Prop where
  receives : Receives services size matching subscription ↔ Receives services' size matching subscription
  succeeds : ∀ call, services.succeeds call subscription.id = services'.succeeds call subscription.id

def Makes (log : List Entry) (call : Call) (subscriptionId : Text) :
    Prop := ∃ entry ∈ callsOf log subscriptionId, entry.call = call

structure JudgedAlone (services : Services γ κ α) (size : ℕ+) (matching : Matching)
    (subscription : Subscription) : Prop where
  once : (jobsOf (fanOut services size matching.subscriptions).log subscription.id).length ≤ 1
  exactly : (jobsOf (fanOut services size matching.subscriptions).log subscription.id).length = 1 ↔
    Receives services size matching subscription ∧
      ∀ entry ∈ callsOf (fanOut services size matching.subscriptions).log subscription.id, entry.ok = true
  answers : ∀ entry ∈ callsOf (fanOut services size matching.subscriptions).log subscription.id,
    entry.ownerId = subscription.createdById ∧ entry.subscription.apiKeyId = subscription.apiKeyId ∧
      entry.ok = services.succeeds entry.call subscription.id
  independent : ∀ services', AgreeOn services services' size matching subscription →
    (jobsOf (fanOut services size matching.subscriptions).log subscription.id).length =
      (jobsOf (fanOut services' size matching.subscriptions).log subscription.id).length ∨
    ∃ call, call ≠ .enqueue ∧ services.succeeds call subscription.id = false ∧
      Xor (Makes (fanOut services size matching.subscriptions).log call subscription.id)
        (Makes (fanOut services' size matching.subscriptions).log call subscription.id)

theorem jobsOf_eq (log : List Entry) (subscriptionId : Text) :
  jobsOf log subscriptionId = (callsOf log subscriptionId).filter fun entry =>
   entry.call = .enqueue ∧ entry.ok = true := by
 rw [jobsOf, callsOf, List.filter_filter]
 refine List.filter_congr fun entry _ => ?_
 by_cases h : entry.subscription.id = subscriptionId <;> simp [h]

theorem jobs_judged {services : Services γ κ α} {verdictOn : Text → Option Text → Bool}
  {owner : Text} {subscription : CandidateSubscription} (looks : List Entry)
  (hlooks : ∀ entry ∈ looks, entry.call ≠ .enqueue ∧ Made services owner subscription entry) :
  ((looks ++ if verdictOn owner subscription.apiKeyId && looks.all (·.ok) then
    [(⟨.enqueue, owner, subscription, services.succeeds .enqueue subscription.id⟩ : Entry)] else []).filter
   fun entry => entry.call = .enqueue ∧ entry.ok = true).length =
   if verdictOn owner subscription.apiKeyId && looks.all (·.ok) && services.succeeds .enqueue
    subscription.id then 1 else 0 := by
 have hnone : (looks.filter fun entry => decide (entry.call = .enqueue ∧ entry.ok = true)) = [] :=
  List.filter_eq_nil_iff.mpr fun entry hentry h => (hlooks entry hentry).1 (of_decide_eq_true h).1
 rw [List.filter_append, hnone, List.nil_append]
 cases verdictOn owner subscription.apiKeyId && looks.all (·.ok) with
 | false => rfl
 | true => cases services.succeeds .enqueue subscription.id <;> rfl

/-- The calls for a subscription's verdict in a run, with what its other calls and jobs are. -/
structure LooksOf (services : Services γ κ α) (size : ℕ+) (matching : Matching)
    (subscription : Subscription) (looks : List Entry) : Prop where
  made : ∀ entry ∈ looks, entry.call ≠ .enqueue ∧
   Made services subscription.createdById ⟨subscription.id, subscription.apiKeyId⟩ entry
  calls : callsOf (fanOut services size matching.subscriptions).log subscription.id = looks ++
    if verdict services (matching.batchOf size subscription) subscription.createdById
     subscription.apiKeyId && looks.all (·.ok) then
      [⟨.enqueue, subscription.createdById, ⟨subscription.id, subscription.apiKeyId⟩,
       services.succeeds .enqueue subscription.id⟩] else []
  jobs : (jobsOf (fanOut services size matching.subscriptions).log subscription.id).length =
    if verdict services (matching.batchOf size subscription) subscription.createdById
     subscription.apiKeyId && looks.all (·.ok) &&
      services.succeeds .enqueue subscription.id then 1 else 0

theorem exists_looks (services : Services γ κ α) (size : ℕ+) (matching : Matching)
  (subscription : Subscription) (h : subscription ∈ matching.subscriptions) :
  ∃ looks, LooksOf services size matching subscription looks := by
 obtain ⟨looks, hmade, hcalls⟩ := (fanOut_spec services size matching).2 subscription h
 refine ⟨looks, hmade, hcalls, ?_⟩
 rw [jobsOf_eq, hcalls]
 exact jobs_judged looks hmade

theorem failed_call {services services' : Services γ κ α} {size : ℕ+} {matching : Matching}
  {subscription : Subscription} {looks looks' : List Entry}
  (h : LooksOf services size matching subscription looks)
  (h' : LooksOf services' size matching subscription looks')
  (hsucceeds : ∀ call, services.succeeds call subscription.id = services'.succeeds call subscription.id)
  (hfails : looks.all (·.ok) = false) (hok' : looks'.all (·.ok) = true) :
  ∃ call, call ≠ .enqueue ∧ services.succeeds call subscription.id = false ∧
   Makes (fanOut services size matching.subscriptions).log call subscription.id ∧
   ¬ Makes (fanOut services' size matching.subscriptions).log call subscription.id := by
 obtain ⟨entry, hentry, hnot⟩ := List.all_eq_false.mp hfails
 obtain ⟨hcall, hmade⟩ := h.made entry hentry
 have hfalse : services.succeeds entry.call subscription.id = false := by
  rw [← hmade.2.2]
  exact Bool.eq_false_iff.mpr hnot
 refine ⟨entry.call, hcall, hfalse, ⟨entry, by rw [h.calls]; exact List.mem_append_left _ hentry, rfl⟩, ?_⟩
 rintro ⟨other, hother, hsame⟩
 rw [h'.calls] at hother
 rcases List.mem_append.mp hother with hlook | hjob
 · have hok := List.all_eq_true.mp hok' other hlook
   rw [(h'.made other hlook).2.2.2, hsame, ← hsucceeds, hfalse] at hok
   cases hok
 · split at hjob
   · obtain rfl := List.mem_singleton.mp hjob
     exact hcall hsame.symm
   · cases hjob

theorem jobs_eq_one_iff {services : Services γ κ α} {size : ℕ+} {matching : Matching}
  {subscription : Subscription} {looks : List Entry}
  (h : LooksOf services size matching subscription looks) :
  (jobsOf (fanOut services size matching.subscriptions).log subscription.id).length = 1 ↔
   Receives services size matching subscription ∧
   ∀ entry ∈ callsOf (fanOut services size matching.subscriptions).log subscription.id,
    entry.ok = true := by
 have hverdict := verdict_iff services size matching subscription
 rw [h.jobs, h.calls]
 constructor
 · intro hone
   split at hone
   · next hall =>
     rw [Bool.and_eq_true, Bool.and_eq_true] at hall
     refine ⟨hverdict.mp hall.1.1, fun entry hentry => ?_⟩
     rw [hall.1.1, hall.1.2] at hentry
     rcases List.mem_append.mp hentry with hlook | hjob
     · exact List.all_eq_true.mp hall.1.2 entry hlook
     · obtain rfl := List.mem_singleton.mp hjob
       exact hall.2
   · cases hone
 · rintro ⟨hreceives, hok⟩
   have hall : looks.all (·.ok) = true := List.all_eq_true.mpr fun entry hentry =>
    hok entry (List.mem_append_left _ hentry)
   rw [hverdict.mpr hreceives, hall] at hok ⊢
   have hjob := hok _ (List.mem_append_right _ List.mem_cons_self)
   rw [if_pos]
   exact hjob

theorem judgedAlone (services : Services γ κ α) (size : ℕ+) (matching : Matching)
  (subscription : Subscription) (h : subscription ∈ matching.subscriptions) :
  JudgedAlone services size matching subscription := by
 obtain ⟨looks, hlooks⟩ := exists_looks services size matching subscription h
 refine ⟨?_, jobs_eq_one_iff hlooks, ?_, ?_⟩
 · rw [hlooks.jobs]
   split <;> decide
 · intro entry hentry
   rw [hlooks.calls] at hentry
   rcases List.mem_append.mp hentry with hlook | hjob
   · obtain ⟨-, howner, hsubscription, hok⟩ := hlooks.made entry hlook
     exact ⟨howner, by rw [hsubscription], hok⟩
   · split at hjob
     · obtain rfl := List.mem_singleton.mp hjob
       exact ⟨rfl, rfl, rfl⟩
     · cases hjob
 · intro services' hagree
   obtain ⟨looks', hlooks'⟩ := exists_looks services' size matching subscription h
   have hsame : verdict services (matching.batchOf size subscription) subscription.createdById
    subscription.apiKeyId =
     verdict services' (matching.batchOf size subscription) subscription.createdById
      subscription.apiKeyId :=
    Bool.eq_iff_iff.mpr ((verdict_iff services size matching subscription).trans
     (hagree.receives.trans (verdict_iff services' size matching subscription).symm))
   cases hok : looks.all (·.ok) with
   | true =>
    cases hok' : looks'.all (·.ok) with
    | true => exact .inl (by rw [hlooks.jobs, hlooks'.jobs, hsame, hok, hok', hagree.succeeds])
    | false =>
     obtain ⟨call, hcall, hfalse, hmakes, hnot⟩ := failed_call hlooks' hlooks
      (fun call => (hagree.succeeds call).symm) hok' hok
     exact .inr ⟨call, hcall, (hagree.succeeds call).trans hfalse, .inr ⟨hmakes, hnot⟩⟩
   | false =>
    cases hok' : looks'.all (·.ok) with
    | true =>
     obtain ⟨call, hcall, hfalse, hmakes, hnot⟩ := failed_call hlooks hlooks' hagree.succeeds hok hok'
     exact .inr ⟨call, hcall, hfalse, .inl ⟨hmakes, hnot⟩⟩
    | false => exact .inl (by rw [hlooks.jobs, hlooks'.jobs, hok, hok']; simp)

/-- For every set of matching subscriptions, every batch size and whatever the
    services answer, each subscription is sent what it would be alone, and a call is
    repeated only for an owner and key that no query was answered for. -/
theorem fanOut_judgesAlone (services : Services γ κ α) (size : ℕ+) (matching : Matching) :
    (∀ subscription ∈ matching.subscriptions, JudgedAlone services size matching subscription) ∧
      (fanOut services size matching.subscriptions).log.Pairwise Unrepeated :=
 ⟨judgedAlone services size matching, (fanOut_spec services size matching).1⟩

end Matching

end BoardGamesEmpire.WebhookFanOut
