import BoardGamesEmpire.MediaContributionSafe

set_option autoImplicit false

/-!
# The reclaim sweep

A tick selects the rejected uploads whose window has closed and queues a purge
for each. A purge deletes the bytes and the row of the object its job names,
whatever became of the object's contributions in between.
-/
namespace BoardGamesEmpire.MediaContribution
open JsText ReadCommitted ReadCommittedProtocol

section Programs

abbrev job? (v : Db) (contributionId : ℕ) : Option PurgeContributionJob := v.lookup (.job contributionId)

def attach (actor : Actor) (mediaObjectId : ℕ) (subject : Subject) (category : Option Text) :
    MediaProgram :=
  .query fun _ v =>
    if ((media? v mediaObjectId).filter actor.updatesMedia).isNone then .halt
    else
      .query fun _ v =>
        if (v.lookup (.subject subject)).isNone ∨ actor.readsSubject subject = false then .halt
        else attachWithin mediaObjectId subject category .halt <| .commit (.attached mediaObjectId) .halt

/-- `publish` and `unpublish`. -/
def setReach (actor : Actor) (mediaObjectId : ℕ) (reach : Reach) : MediaProgram :=
  Code.attempt (fun _ => [])
    (fun _ v =>
      ((media? v mediaObjectId).filter actor.updatesMedia).map fun row =>
        [⟨.media mediaObjectId, some { row with reach := reach }⟩])
    .halt fun _ _ => .commit (.reachSet mediaObjectId) .halt

def eligible (now : ℕ) (row : Contribution) : Bool :=
  row.status == .rejected && row.origin == .directUpload && row.reclaimDeadline.any fun deadline =>
   decide (deadline ≤ now)

def SWEEP_BATCH_SIZE : ℕ := 200

def queueAdd (job : PurgeContributionJob) (next : MediaProgram) : MediaProgram :=
  Code.attempt (fun _ => [])
    (fun _ v => some
     (if (job? v job.contributionId).isNone then [⟨.job job.contributionId, some job⟩] else []))
    .halt fun _ _ => .commit (.enqueued job.contributionId) next

def purgeContributionJob (v : Db) (c : ℕ × Contribution) : Option PurgeContributionJob :=
  (media? v c.2.mediaObjectId).map fun media =>
    ⟨c.1, c.2.mediaObjectId, media.driverSlug, media.storedFor, c.2.contributedById, c.2.subject⟩

def enqueueAll (jobs : List PurgeContributionJob) : MediaProgram := jobs.foldr queueAdd .halt

def belongsTo (mediaObjectId : ℕ) : (k : Key) → Row k → Bool
  | .media id, _ => id == mediaObjectId
  | .presentation id, _ => id == mediaObjectId
  | .attachment id _, _ => id == mediaObjectId
  | .contribution _, row => row.mediaObjectId == mediaObjectId
  | _, _ => false

def cascade (mediaObjectId : ℕ) (v : Db) : List (Write Row) :=
  (v.entries.filter fun entry => belongsTo mediaObjectId entry.1 entry.2).map fun entry => ⟨entry.1, none⟩

def removeOnComplete (job : PurgeContributionJob) : MediaProgram :=
  Code.attempt (fun _ => []) (fun _ _ => some [⟨.job job.contributionId, none⟩]) .halt
    fun _ _ => .commit (.jobDone job.contributionId) .halt

def deleteRow (job : PurgeContributionJob) : MediaProgram :=
  Code.attempt (fun _ => [⟨.advisory (.mediaObject job.mediaObjectId), true⟩])
    (fun _ v => if (media? v job.mediaObjectId).isSome then some (cascade job.mediaObjectId v) else none)
    (removeOnComplete job) fun _ _ => .commit (.rowPurged job) (removeOnComplete job)

def purge (contributionId : ℕ) : MediaProgram :=
  .query fun _ v =>
    match job? v contributionId with
    | none => .halt
    | some job =>
      Code.attempt (fun _ => []) (fun _ _ => some [⟨.bytes job.locator, none⟩]) .halt
        fun _ _ => .commit (.bytesPurged job) (deleteRow job)

/-- Requests, ticks and jobs. `found` says which rows an unordered `findMany`
    comes upon. -/
inductive MediaRequest where
  | review (request : Review)
  | attach (actor : Actor) (mediaObjectId : ℕ) (subject : Subject) (category : Option Text)
  | setReach (actor : Actor) (mediaObjectId : ℕ) (reach : Reach)
  | dispatch (found : ℕ × Contribution → Bool)
  | purge (contributionId : ℕ)

variable (wall : ℕ → ℕ)

def dispatch (found : ℕ × Contribution → Bool) : MediaProgram :=
  .query fun clock v =>
    let selected :=
     ((contributions v).filter fun c => eligible (wall clock) c.2 && found c).take SWEEP_BATCH_SIZE
    .commit (.swept selected) (enqueueAll (selected.filterMap (purgeContributionJob v)))

def mediaProgram : MediaRequest → MediaProgram
  | .review request => reviewProgram wall request
  | .attach actor mediaObjectId subject category => attach actor mediaObjectId subject category
  | .setReach actor mediaObjectId reach => setReach actor mediaObjectId reach
  | .dispatch found => dispatch wall found
  | .purge contributionId => purge contributionId

end Programs

section Effects

def selectedBy : Mutation → List (ℕ × Contribution)
  | .swept selected => selected
  | _ => []

def Selected (ledger : List (Entry Row Mutation)) (mediaObjectId : ℕ) : Prop :=
  ∃ entry ∈ ledger, ∃ c ∈ selectedBy entry.event, c.2.mediaObjectId = mediaObjectId

theorem Selected.more {ledger : List (Entry Row Mutation)} {mediaObjectId : ℕ}
  (h : Selected ledger mediaObjectId) (later : List (Entry Row Mutation)) :
  Selected (ledger ++ later) mediaObjectId := by
 obtain ⟨entry, hentry, rest⟩ := h
 exact ⟨entry, List.mem_append_left _ hentry, rest⟩

def presentationKey : Key → Bool
  | .media _ | .presentation _ | .attachment _ _ => true
  | _ => false

inductive SweepStep (σ : State) : Mutation → Db → Prop where
  | review {event : Mutation} {db' : Db} (h : ReviewStep (fun _ _ _ => True) σ event db') :
   SweepStep σ event db'
  | presents {event : Mutation} {db' : Db}
   (hevent : ∃ mediaObjectId, event = .attached mediaObjectId ∨ event = .reachSet mediaObjectId)
      (hframe : ∀ k, presentationKey k = false → db'.lookup k = σ.db.lookup k) : SweepStep σ event db'
  | sweeps {selected : List (ℕ × Contribution)} {db' : Db} (hframe : ∀ k, db'.lookup k = σ.db.lookup k) :
      SweepStep σ (.swept selected) db'
  | enqueues {job : PurgeContributionJob} {db' : Db} (hselected : Selected σ.ledger job.mediaObjectId)
      (hjob : ∀ queued, db'.lookup (.job job.contributionId) = some queued →
        queued = job ∨ σ.db.lookup (.job job.contributionId) = some queued)
      (hframe : ∀ k, k ≠ .job job.contributionId → db'.lookup k = σ.db.lookup k) :
       SweepStep σ (.enqueued job.contributionId) db'
  | purgesBytes {job : PurgeContributionJob} {db' : Db} (hselected : Selected σ.ledger job.mediaObjectId)
      (hframe : ∀ k, (∀ locator, k ≠ .bytes locator) → db'.lookup k = σ.db.lookup k) :
       SweepStep σ (.bytesPurged job) db'
  | purgesRow {job : PurgeContributionJob} {db' : Db} (hselected : Selected σ.ledger job.mediaObjectId)
      (hgone : ∀ k, db'.lookup k = σ.db.lookup k ∨
       (db'.lookup k = none ∧ (presentationKey k = true ∨ ∃ id, k = .contribution id))) :
      SweepStep σ (.rowPurged job) db'
  | finishes {id : ℕ} {db' : Db} (hjob : db'.lookup (.job id) = none)
      (hframe : ∀ k, k ≠ .job id → db'.lookup k = σ.db.lookup k) : SweepStep σ (.jobDone id) db'

def sweeping : Protocol Row Referenced Mutation where
  inv σ := ∀ id job, σ.db.lookup (.job id) = some job → Selected σ.ledger job.mediaObjectId
  effect := SweepStep
  guarantee _ _ _ := True
  outside := outside

end Effects

section Safety

variable {known : List (Lock Key Referenced)} {Φ : State → Prop} {log : List (Write Row)}

theorem SweepStep.serviceAccount {σ : State} {event : Mutation} {db' : Db}
  (h : SweepStep σ event db') :
  db'.lookup .serviceAccount = σ.db.lookup .serviceAccount := by
 cases h with
 | review h => exact h.frame_other rfl
 | presents hevent hframe => exact hframe _ rfl
 | sweeps hframe => exact hframe _
 | enqueues hselected hjob hframe => exact hframe _ fun h => by cases h
 | purgesBytes hselected hframe => exact hframe _ fun locator h => by cases h
 | purgesRow hselected hgone =>
  rcases hgone .serviceAccount with h | ⟨-, h | ⟨id, h⟩⟩
  · exact h
  · cases h
  · cases h
 | finishes hjob hframe => exact hframe _ fun h => by cases h

theorem sweeping_inv {σ : State} {event : Mutation} {db' : Db} (hinv : sweeping.inv σ)
  (h : SweepStep σ event db') :
  sweeping.inv (σ.commit event db') := by
 -- a job is an old one, or one whose object was just selected
 have hjobs : ∀ id job, job? db' id = some job → job? σ.db id = some job ∨
  Selected σ.ledger job.mediaObjectId := by
  intro id job hjob
  cases h with
  | review h => exact .inl ((h.frame_other rfl).symm.trans hjob)
  | presents hevent hframe => exact .inl ((hframe _ rfl).symm.trans hjob)
  | sweeps hframe => exact .inl ((hframe _).symm.trans hjob)
  | @enqueues added _ hselected hadded hframe =>
   by_cases hid : id = added.contributionId
   · subst hid
     rcases hadded job hjob with rfl | hold
     · exact .inr hselected
     · exact .inl hold
   · exact .inl ((hframe _ fun h => hid (Key.job.inj h)).symm.trans hjob)
  | purgesBytes hselected hframe => exact .inl ((hframe _ fun locator h => by cases h).symm.trans hjob)
  | purgesRow hselected hgone =>
   rcases hgone (.job id) with h | ⟨h, -⟩
   · exact .inl (h.symm.trans hjob)
   · exact absurd (h.symm.trans hjob) (by simp)
  | @finishes done _ hdone hframe =>
   by_cases hid : id = done
   · subst hid
     exact absurd (hdone.symm.trans hjob) (by simp)
   · exact .inl ((hframe _ fun h => hid (Key.job.inj h)).symm.trans hjob)
 intro id job hjob
 exact ((hjobs id job hjob).elim (hinv id job) fun h => h).more _

theorem stable_selected (mediaObjectId : ℕ) :
  Stable sweeping [] fun σ => Selected σ.ledger mediaObjectId := by
 intro σ σ' h _ _ hrely
 cases hrely with
 | tick => exact h
 | commit other event db hfree hrows hguar heffect => exact h.more _
 | outside w hkey hfree => exact h

theorem sweeping_review : ReviewProtocol sweeping fun _ _ _ => True where
 guarantee _ _ _ := trivial
 effect _ _ _ _ h := .review h
 read _ _ _ _ _ := trivial
 keepsSeen _ _ := stable_const sweeping [] True
 serviceAccount := by
  intro id σ σ' h _ _ hrely
  cases hrely with
  | tick => exact h
  | commit other event db hfree hrows hguar heffect => exact heffect.serviceAccount.trans h
  | outside w hkey hfree => exact (lookup_outside hkey fun h => by cases h).trans h

theorem safeOn_commit_then {event : Mutation} {code : MediaProgram} {Ψ : State → Prop}
  (hkeeps : Keeps sweeping known Φ)
  (hcommit : ∀ σ, sweeping.inv σ → Φ σ →
   SweepStep σ event (applyLog σ.db log) ∧ Ψ (σ.commit event (applyLog σ.db log)))
  (hnext : SafeOn sweeping [] Ψ code []) : SafeOn sweeping known Φ (.commit event code) log := by
 intro held σ hknown hΦ
 refine safe_commit (fun _ => hkeeps held hknown) hΦ fun σ' hinv _ hΦ' => ?_
 obtain ⟨hstep, hΨ⟩ := hcommit σ' hinv hΦ'
 exact ⟨trivial, hstep, hnext [] _ (List.nil_subset _) hΨ⟩

theorem safeOn_commit_last {event : Mutation} (hkeeps : Keeps sweeping known Φ)
  (hstep : ∀ σ, sweeping.inv σ → Φ σ → SweepStep σ event (applyLog σ.db log)) :
  SafeOn sweeping known Φ (.commit event .halt) log :=
 safeOn_commit hkeeps (fun _ σ _ _ hinv hΦ => ⟨trivial, hstep σ hinv hΦ⟩) safeOn_halt

theorem safeOn_attach (actor : Actor) (mediaObjectId : ℕ) (subject : Subject)
  (category : Option Text) :
  SafeOn sweeping [] (fun _ => True) (attach actor mediaObjectId subject category) [] := by
 have hkeeps := keeps_const sweeping [] True
 refine safeOn_query hkeeps fun _ _ _ => ?_
 split
 · exact safeOn_halt
 refine safeOn_query hkeeps fun _ _ _ => ?_
 split
 · exact safeOn_halt
 refine safeOn_attachWithin hkeeps safeOn_halt mediaObjectId subject category
  fun created attachment hcreated => ?_
 refine safeOn_commit_last hkeeps fun σ _ _ => .presents ⟨_, .inl rfl⟩ fun k hk => ?_
 apply lookup_applyLog_of_notMem
 rintro w hw rfl
 rcases List.mem_append.1 hw with hw | hw
 · rw [hcreated w hw] at hk
   cases hk
 · rw [List.mem_singleton.1 hw] at hk
   cases hk

theorem safeOn_setReach (actor : Actor) (mediaObjectId : ℕ) (reach : Reach) :
  SafeOn sweeping [] (fun _ => True) (setReach actor mediaObjectId reach) [] := by
 refine safeOn_attempt_keep (keeps_const sweeping [] True) safeOn_halt fun clock v ws hws => ?_
 obtain ⟨row, -, rfl⟩ := Option.map_eq_some_iff.1 hws
 refine safeOn_commit_last (keeps_const sweeping [] True) fun σ _ _ =>
  .presents ⟨_, .inr rfl⟩ fun k hk => ?_
 apply lookup_applyLog_of_notMem
 rintro w hw rfl
 rw [List.mem_singleton.1 hw] at hk
 cases hk

theorem lookup_job_log (db : Db) {id : ℕ} {value : Option PurgeContributionJob} {k : Key}
  (hk : k ≠ .job id) :
  (applyLog db [⟨.job id, value⟩]).lookup k = db.lookup k := by
 apply lookup_applyLog_of_notMem
 intro w hw heq
 rw [List.mem_singleton.1 hw] at heq
 exact hk heq.symm

theorem safeOn_enqueueAll (jobs : List PurgeContributionJob) :
  SafeOn sweeping [] (fun σ => ∀ job ∈ jobs, Selected σ.ledger job.mediaObjectId) (enqueueAll jobs)
   [] := by
 have hkeeps : ∀ jobs : List PurgeContributionJob,
   Keeps sweeping [] fun σ => ∀ job ∈ jobs, Selected σ.ledger job.mediaObjectId :=
  fun jobs held _ σ σ' h hinv hinv' hrely job hjob =>
   (stable_selected job.mediaObjectId).weaken held σ σ' (h job hjob) hinv hinv' hrely
 induction jobs with
 | nil => exact safeOn_halt
 | cons job jobs ih =>
  refine safeOn_attempt_keep (hkeeps _) safeOn_halt fun clock v ws hws => ?_
  cases hws
  refine safeOn_commit_then (hkeeps _)
   (fun σ _ hΦ => ⟨.enqueues (hΦ job List.mem_cons_self) ?_ fun k hk => ?_, ?_⟩) ih
  · intro queued hqueued
    split at hqueued
    · left
      exact Option.some.inj
       (hqueued.symm.trans (lookup_applyLog_concat σ.db [] (.job job.contributionId) job))
    · exact .inr hqueued
  · split
    · exact lookup_job_log σ.db hk
    · rfl
  · exact fun job' hjob' => (hΦ job' (List.mem_cons_of_mem _ hjob')).more _

theorem safeOn_dispatch (wall : ℕ → ℕ) (found : ℕ × Contribution → Bool) :
  SafeOn sweeping [] (fun _ => True) (dispatch wall found) [] := by
 refine safeOn_query (keeps_const sweeping [] True) fun σ _ _ => ?_
 refine safeOn_commit_then (keeps_const sweeping [] True) (fun σ' _ _ => ⟨.sweeps fun k => rfl, ?_⟩)
  (safeOn_enqueueAll _)
 intro job hjob
 obtain ⟨c, hc, hpayload⟩ := List.mem_filterMap.1 hjob
 obtain ⟨media, -, rfl⟩ := Option.map_eq_some_iff.1 hpayload
 exact ⟨_, List.mem_append_right _ (List.mem_singleton_self _), c, hc, rfl⟩

theorem safeOn_removeOnComplete (job : PurgeContributionJob) :
  SafeOn sweeping [] (fun _ => True) (removeOnComplete job) [] := by
 refine safeOn_attempt_keep (keeps_const sweeping [] True) safeOn_halt fun clock v ws hws => ?_
 cases hws
 refine safeOn_commit_last (keeps_const sweeping [] True) fun σ _ _ => .finishes ?_ fun k hk => ?_
 · exact lookup_applyWrite_self σ.db (.job job.contributionId) none
 · exact lookup_job_log σ.db hk

theorem mem_cascade {mediaObjectId : ℕ} {v : Db} {w : Write Row} (hw : w ∈ cascade mediaObjectId v) :
  w.value = none ∧ (presentationKey w.key = true ∨ ∃ id, w.key = .contribution id) := by
 obtain ⟨entry, hentry, rfl⟩ := List.mem_map.1 hw
 have hbelongs := (List.mem_filter.1 hentry).2
 refine ⟨rfl, ?_⟩
 obtain ⟨k, row⟩ := entry
 cases k with
 | media id => exact .inl rfl
 | presentation id => exact .inl rfl
 | attachment id subject => exact .inl rfl
 | contribution id => exact .inr ⟨id, rfl⟩
 | subject _ => cases hbelongs
 | systemSetting => cases hbelongs
 | serviceAccount => cases hbelongs
 | bytes locator => cases hbelongs
 | job id => cases hbelongs

theorem lookup_cascade (db v : Db) (mediaObjectId : ℕ) (k : Key) :
  (applyLog db (cascade mediaObjectId v)).lookup k = db.lookup k ∨
   ((applyLog db (cascade mediaObjectId v)).lookup k = none ∧
    (presentationKey k = true ∨ ∃ id, k = .contribution id)) := by
 by_cases hmem : ∃ w ∈ cascade mediaObjectId v, w.key = k
 · right
   refine ⟨lookup_applyLog_erased db (fun w hw => (mem_cascade hw).1) hmem, ?_⟩
   obtain ⟨w, hw, rfl⟩ := hmem
   exact (mem_cascade hw).2
 · exact .inl (lookup_applyLog_of_notMem db fun w hw heq => hmem ⟨w, hw, heq⟩)

theorem safeOn_deleteRow (job : PurgeContributionJob) :
  SafeOn sweeping [] (fun σ => Selected σ.ledger job.mediaObjectId) (deleteRow job) [] := by
 have hkeeps : Keeps sweeping [] fun σ => Selected σ.ledger job.mediaObjectId :=
  fun held _ => (stable_selected job.mediaObjectId).weaken held
 refine safeOn_attempt_keep hkeeps (safeOn_removeOnComplete job) fun clock v ws hws => ?_
 split at hws
 · cases hws
   refine safeOn_commit_then hkeeps (fun σ _ hΦ => ⟨.purgesRow hΦ fun k => ?_, trivial⟩)
    (safeOn_removeOnComplete job)
   exact lookup_cascade σ.db v job.mediaObjectId k
 · cases hws

theorem safeOn_purge (contributionId : ℕ) :
  SafeOn sweeping [] (fun _ => True) (purge contributionId) [] := by
 refine safeOn_learn (keeps_const sweeping [] True) fun σ hinv _ => ?_
 split
 · exact ⟨fun _ => True, stable_const sweeping [] True, trivial, safeOn_halt⟩
 rename_i job hjob
 refine ⟨_, stable_selected job.mediaObjectId, hinv contributionId job hjob, ?_⟩
 have hkeeps : Keeps sweeping [] fun σ => True ∧ Selected σ.ledger job.mediaObjectId :=
  (keeps_const sweeping [] True).and fun held _ => (stable_selected job.mediaObjectId).weaken held
 refine safeOn_attempt_keep hkeeps safeOn_halt fun clock v ws hws => ?_
 cases hws
 refine safeOn_commit_then hkeeps (fun σ _ hΦ => ⟨.purgesBytes hΦ.2 fun k hk => ?_, hΦ.2.more _⟩)
  (safeOn_deleteRow job)
 exact lookup_bytes σ.db hk

theorem media_sound (wall : ℕ → ℕ) : Sound sweeping (mediaProgram wall) where
 safe request σ _ := by
  apply safe_of_safeOn
  cases request with
  | review request => exact review_safe sweeping_review wall request
  | attach actor mediaObjectId subject category => exact safeOn_attach actor mediaObjectId subject category
  | setReach actor mediaObjectId reach => exact safeOn_setReach actor mediaObjectId reach
  | dispatch found => exact safeOn_dispatch wall found
  | purge contributionId => exact safeOn_purge contributionId
 tick _ h := h
 commit _ _ _ hinv h := sweeping_inv hinv h
 outside σ w hinv hw id job hjob := hinv id job ((lookup_outside hw fun h => by cases h).symm.trans hjob)

end Safety

section Purges

def purges : Mutation → Option PurgeContributionJob
  | .bytesPurged job => some job
  | .rowPurged job => some job
  | _ => none

/-- The contribution is of the object whose bytes or row the job deletes. -/
def Concerns (db : Db) (job : PurgeContributionJob) (row : Contribution) : Prop :=
  row.mediaObjectId = job.mediaObjectId ∨
    ∃ media, media? db row.mediaObjectId = some media ∧ media.locator row.mediaObjectId = job.locator

/-- Every deletion found nothing but rejected uploads whose window had closed. -/
def PurgesUnkept (wall : ℕ → ℕ) (ledger : List (Entry Row Mutation)) : Prop :=
  ∀ entry ∈ ledger, ∀ job, purges entry.event = some job →
   ∀ id row, contribution? entry.before id = some row →
    Concerns entry.before job row → eligible (wall entry.time) row = true

/-- A sweep selects an object only if all its contributions are eligible, and
    a contribution is made or decided only if no sweep selected its object. -/
def LeavesSelected (wall : ℕ → ℕ) (earlier : List (Entry Row Mutation)) (entry : Entry Row Mutation)
    : Prop :=
  match entry.event with
  | .swept selected => ∀ c ∈ selected, ∀ c' ∈ contributions entry.before,
   c'.2.mediaObjectId = c.2.mediaObjectId →
      eligible (wall entry.time) c'.2 = true
  | .contributed _ mediaObjectId _ => ¬ Selected earlier mediaObjectId
  | .approved id _ | .rejected id _ | .reclaimed id _ _ =>
    ∀ row ∈ contribution? entry.before id, ¬ Selected earlier row.mediaObjectId
  | _ => True

def AllLeaveSelected (wall : ℕ → ℕ) (ledger : List (Entry Row Mutation)) : Prop :=
  ∀ (i : ℕ) (h : i < ledger.length), LeavesSelected wall (ledger.take i) ledger[i]

theorem AllLeaveSelected.before {wall : ℕ → ℕ} {ledger : List (Entry Row Mutation)}
  {entry : Entry Row Mutation} (h : AllLeaveSelected wall (ledger ++ [entry])) :
  AllLeaveSelected wall ledger := by
 intro i hi
 have hlonger : i < (ledger ++ [entry]).length := by
  rw [List.length_append]
  omega
 have hleaves := h i hlonger
 rwa [List.take_append_of_le_length (by omega), List.getElem_append_left hi] at hleaves

theorem AllLeaveSelected.last {wall : ℕ → ℕ} {ledger : List (Entry Row Mutation)}
  {entry : Entry Row Mutation} (h : AllLeaveSelected wall (ledger ++ [entry])) :
  LeavesSelected wall ledger entry := by
 have hlonger : ledger.length < (ledger ++ [entry]).length := by
  rw [List.length_append]
  exact Nat.lt_succ_self _
 have hleaves := h ledger.length hlonger
 rwa [List.take_left, List.getElem_concat_length rfl] at hleaves

variable {wall : ℕ → ℕ} {σ : State} {event : Mutation} {db' : Db}

theorem eligible_later (hwall : Monotone wall) {time later : ℕ} (hle : time ≤ later)
  {row : Contribution} (h : eligible (wall time) row = true) :
  eligible (wall later) row = true := by
 simp only [eligible, Bool.and_eq_true, Option.any_eq_true, decide_eq_true_eq] at h ⊢
 obtain ⟨hrow, deadline, hdeadline, hpast⟩ := h
 exact ⟨hrow, deadline, hdeadline, hpast.trans (hwall hle)⟩

theorem SweepStep.contribution (h : SweepStep σ event db') {id : ℕ} {row' : Contribution}
  (hrow' : contribution? db' id = some row') :
  contribution? σ.db id = some row' ∨ (∃ status, event = .contributed id row'.mediaObjectId status) ∨
   ∃ row checked, contribution? σ.db id = some row ∧ row.mediaObjectId = row'.mediaObjectId ∧
    (event = .approved id checked ∨ event = .rejected id checked ∨
     ∃ actor, event = .reclaimed id actor checked) := by
 have hkey : ∀ m subject, ¬ HandOverKey m subject (.contribution id) := by
  rintro m subject (h | h | h) <;> cases h
 have hne : ∀ id', id ≠ id' → Key.contribution id ≠ .contribution id' := fun id' hne heq =>
  hne (Key.contribution.inj heq)
 cases h with
 | review h =>
  cases h with
  | bytes hevent hframe => exact .inl ((hframe _ fun locator h => by cases h).symm.trans hrow')
  | @waits id' m row _ hnew hrow hmedia hstatus hframe =>
   by_cases hid : id = id'
   · subst hid
     obtain rfl := Option.some.inj (hrow.symm.trans hrow')
     exact .inr (.inl ⟨_, by rw [hmedia]⟩)
   · exact .inl (((hframe _ (hne id' hid)).resolve_right fun h => by cases h.1).symm.trans hrow')
  | @publishes id' m row _ hnew hrow hmedia hstatus hhanded hframe =>
   by_cases hid : id = id'
   · subst hid
     obtain rfl := Option.some.inj (hrow.symm.trans hrow')
     exact .inr (.inl ⟨_, by rw [hmedia]⟩)
   · exact .inl ((hframe _ (hne id' hid) (hkey _ _)).symm.trans hrow')
  | @approves id' checked row new _ hseen hchecked hrow hnew hsame hstatus hhanded hframe =>
   by_cases hid : id = id'
   · subst hid
     obtain rfl := Option.some.inj (hnew.symm.trans hrow')
     exact .inr (.inr ⟨row, checked, hrow, hsame.mediaObjectId.symm, .inl rfl⟩)
   · exact .inl ((hframe _ (hne id' hid) (hkey _ _)).symm.trans hrow')
  | @rejects id' checked row new _ hseen hchecked hrow hnew hsame hstatus hframe =>
   by_cases hid : id = id'
   · subst hid
     obtain rfl := Option.some.inj (hnew.symm.trans hrow')
     exact .inr (.inr ⟨row, checked, hrow, hsame.mediaObjectId.symm, .inr (.inl rfl)⟩)
   · exact .inl ((hframe _ (hne id' hid)).symm.trans hrow')
  | @reclaims id' actor checked row new _ hseen hchecked hactor hrow hnew hsame hstatus hframe =>
   by_cases hid : id = id'
   · subst hid
     obtain rfl := Option.some.inj (hnew.symm.trans hrow')
     exact .inr (.inr ⟨row, checked, hrow, hsame.mediaObjectId.symm, .inr (.inr ⟨actor, rfl⟩)⟩)
   · exact .inl ((hframe _ (hne id' hid)).symm.trans hrow')
 | presents hevent hframe => exact .inl ((hframe _ rfl).symm.trans hrow')
 | sweeps hframe => exact .inl ((hframe _).symm.trans hrow')
 | enqueues hselected hjob hframe => exact .inl ((hframe _ fun h => by cases h).symm.trans hrow')
 | purgesBytes hselected hframe => exact .inl ((hframe _ fun locator h => by cases h).symm.trans hrow')
 | purgesRow hselected hgone =>
  rcases hgone (.contribution id) with h | ⟨h, -⟩
  · exact .inl (h.symm.trans hrow')
  · exact absurd (h.symm.trans hrow') (by simp)
 | finishes hjob hframe => exact .inl ((hframe _ fun h => by cases h).symm.trans hrow')

def SelectedEligible (wall : ℕ → ℕ) (σ : State) : Prop :=
  ∀ id row, contribution? σ.db id = some row → Selected σ.ledger row.mediaObjectId →
   eligible (wall σ.clock) row = true

theorem selectedEligible_step (hwall : Monotone wall) (h : SweepStep σ event db')
  (hleaves : LeavesSelected wall σ.ledger ⟨event, σ.clock, σ.db, db'⟩)
  (hσ : SelectedEligible wall σ) :
  SelectedEligible wall (σ.commit event db') := by
 intro id row' hrow' hselected
 have hsooner : eligible (wall σ.clock) row' = true → eligible (wall (σ.clock + 1)) row' = true :=
  eligible_later hwall (Nat.le_succ _)
 apply hsooner
 obtain ⟨entry, hentry, c, hc, hmedia⟩ := hselected
 rcases List.mem_append.1 hentry with hearlier | hlast
 · have hselected : Selected σ.ledger row'.mediaObjectId := ⟨entry, hearlier, c, hc, hmedia⟩
   rcases h.contribution hrow' with hrow | ⟨status, rfl⟩ | ⟨row, checked, hrow, hsame,
    rfl | rfl | ⟨actor, rfl⟩⟩
   · exact hσ id row' hrow hselected
   · exact absurd hselected hleaves
   all_goals
    rw [← hsame] at hselected
    exact absurd hselected (hleaves row hrow)
 · obtain rfl := List.mem_singleton.1 hlast
   cases event with
   | swept selected =>
    rcases h.contribution hrow' with hrow | ⟨status, h⟩ | ⟨row, checked, hrow, hsame, h | h | ⟨actor, h⟩⟩
    · exact hleaves c hc (id, row') (mem_select.2 ⟨.contribution id, row', hrow, rfl⟩) hmedia.symm
    all_goals cases h
   | _ => exact absurd hc List.not_mem_nil

theorem SweepStep.selected (h : SweepStep σ event db') {job : PurgeContributionJob}
  (hjob : purges event = some job) :
  Selected σ.ledger job.mediaObjectId := by
 cases h with
 | review h =>
  cases h with
  | bytes hevent hframe => obtain ⟨locator, rfl | rfl⟩ := hevent <;> cases hjob
  | _ => cases hjob
 | presents hevent hframe => obtain ⟨m, rfl | rfl⟩ := hevent <;> cases hjob
 | purgesBytes hselected hframe => exact Option.some.inj hjob ▸ hselected
 | purgesRow hselected hgone => exact Option.some.inj hjob ▸ hselected
 | _ => cases hjob

theorem purgesUnkept_step (h : SweepStep σ event db') (hσ : SelectedEligible wall σ)
  (hpurges : PurgesUnkept wall σ.ledger) :
  PurgesUnkept wall (σ.commit event db').ledger := by
 intro entry hentry job hjob id row hrow hconcerns
 rcases List.mem_append.1 hentry with hentry | hentry
 · exact hpurges entry hentry job hjob id row hrow hconcerns
 · obtain rfl := List.mem_singleton.1 hentry
   have hmedia : row.mediaObjectId = job.mediaObjectId := by
    rcases hconcerns with hmedia | ⟨media, -, hlocator⟩
    · exact hmedia
    · exact (StorageLocator.mk.inj hlocator).2.2
   exact hσ id row hrow (hmedia ▸ h.selected hjob)

/-- As long as nobody makes or decides a contribution of an object a sweep
    selected, and sweeps select no object that somebody still keeps, purges
    delete what nobody kept. -/
theorem purges_unkept (hwall : Monotone wall) {db₀ : Db} (hdb : ∀ id, job? db₀ id = none)
  {s : Sys Row Referenced Mutation} (h : Reachable (mediaProgram wall) outside db₀ s)
  (hleaves : AllLeaveSelected wall s.shared.ledger) :
    PurgesUnkept wall s.shared.ledger := by
 have hinit : sweeping.inv ⟨db₀, 0, []⟩ := fun id job hjob => absurd ((hdb id).symm.trans hjob) (by simp)
 have hrun : AllLeaveSelected wall s.shared.ledger →
   SelectedEligible wall s.shared ∧ PurgesUnkept wall s.shared.ledger := by
  refine reachable_induction (media_sound wall) hinit
   (fun σ => AllLeaveSelected wall σ.ledger → SelectedEligible wall σ ∧ PurgesUnkept wall σ.ledger)
    (fun _ => ?_) ?_ h
  · refine ⟨fun id row hrow hselected => ?_, fun entry hentry => absurd hentry List.not_mem_nil⟩
    obtain ⟨entry, hentry, -⟩ := hselected
    exact absurd hentry List.not_mem_nil
  · intro σ σ' _ ih hmoves hleaves
    cases hmoves with
    | tick =>
     obtain ⟨heligible, hpurges⟩ := ih hleaves
     refine ⟨fun id row hrow hselected => ?_, hpurges⟩
     exact eligible_later hwall (Nat.le_succ _) (heligible id row hrow hselected)
    | commit event db' hstep =>
     obtain ⟨heligible, hpurges⟩ := ih hleaves.before
     exact ⟨selectedEligible_step hwall hstep hleaves.last heligible,
      purgesUnkept_step hstep heligible hpurges⟩
    | outside w hw =>
     obtain ⟨heligible, hpurges⟩ := ih hleaves
     refine ⟨fun id row hrow hselected => ?_, hpurges⟩
     have hbefore := (lookup_outside hw fun h => by cases h).symm.trans hrow
     exact eligible_later hwall (Nat.le_succ _) (heligible id row hbefore hselected)
 exact (hrun hleaves).2

instance (ledger : List (Entry Row Mutation)) (mediaObjectId : ℕ) :
    Decidable (Selected ledger mediaObjectId) :=
  inferInstanceAs
   (Decidable (∃ entry ∈ ledger, ∃ c ∈ selectedBy entry.event, c.2.mediaObjectId = mediaObjectId))

instance (wall : ℕ → ℕ) (earlier : List (Entry Row Mutation)) :
    (entry : Entry Row Mutation) → Decidable (LeavesSelected wall earlier entry)
  | ⟨.swept selected, time, before, _⟩ =>
    inferInstanceAs
     (Decidable (∀ c ∈ selected, ∀ c' ∈ contributions before, c'.2.mediaObjectId = c.2.mediaObjectId →
      eligible (wall time) c'.2 = true))
  | ⟨.contributed _ mediaObjectId _, _, _, _⟩ =>
   inferInstanceAs (Decidable (¬ Selected earlier mediaObjectId))
  | ⟨.approved id _, _, before, _⟩ | ⟨.rejected id _, _, before, _⟩ | ⟨.reclaimed id _ _, _, before, _⟩ =>
    inferInstanceAs (Decidable (∀ row ∈ contribution? before id, ¬ Selected earlier row.mediaObjectId))
  | ⟨.bytesStored _, _, _, _⟩ | ⟨.bytesDropped _, _, _, _⟩ | ⟨.attached _, _, _, _⟩ | ⟨.reachSet _, _, _, _⟩
  | ⟨.enqueued _, _, _, _⟩ | ⟨.bytesPurged _, _, _, _⟩ | ⟨.rowPurged _, _, _, _⟩ | ⟨.jobDone _, _, _, _⟩ =>
    inferInstanceAs (Decidable True)

instance (wall : ℕ → ℕ) (ledger : List (Entry Row Mutation)) : Decidable (AllLeaveSelected wall ledger) :=
  inferInstanceAs
   (Decidable (∀ (i : ℕ) (h : i < ledger.length), LeavesSelected wall (ledger.take i) ledger[i]))

/-- An uploaded photo whose contribution was rejected; its window closed at 100. -/
def rejectedDb : Db :=
  AList.insert (.contribution 3)
      ⟨1, ⟨.game, 7⟩, none, .rejected, .directUpload, 5, some 8, some 50, none, some 100⟩ <|
    AList.insert (.media 1) ⟨5, 5, .privateReach, 0, 5, "image/png".toList⟩ <|
      AList.insert (.bytes ⟨0, 5, 1⟩) () <|
        AList.insert (.subject ⟨.game, 7⟩) () <|
          AList.insert .serviceAccount (99 : ℕ) <|
            AList.insert .systemSetting ⟨true, 14⟩ (∅ : Db)

theorem job?_rejectedDb (id : ℕ) : job? rejectedDb id = none := rfl

def someone (userId : ℕ) : Actor := ⟨userId, fun _ => true, fun _ => true, fun _ => true⟩

def moves (i n : ℕ) : List (Action Row MediaRequest) := List.replicate n (.advance i)

def afterDeadline (tick : ℕ) : ℕ := tick + 1000

theorem afterDeadline_monotone : Monotone afterDeadline := fun _ _ h => Nat.add_le_add_right h 1000

def sweepAndPurge : List (Action Row MediaRequest) :=
  [.spawn (.dispatch fun _ => true)] ++ moves 0 4 ++ [.spawn (.purge 3)] ++ moves 1 7

def contributedAgain : List (Action Row MediaRequest) :=
  [.spawn (.review (.contribute (someone 5) 1 ⟨⟨.game, 7⟩, none⟩))] ++ moves 0
   7 ++ [.spawn (.dispatch fun _ => true)] ++
    moves 1 4 ++ [.spawn (.purge 3)] ++ moves 2 7

theorem sweep_and_purge_unkept : ∃ s, Reachable (mediaProgram afterDeadline) outside rejectedDb s ∧
    media? s.shared.db 1 = none ∧ PurgesUnkept afterDeadline s.shared.ledger := by
 have hrun : (run (mediaProgram afterDeadline) outside (initial rejectedDb) sweepAndPurge).map
   (fun s => (media? s.shared.db 1, decide (AllLeaveSelected afterDeadline s.shared.ledger))) = some
    (none, true) := by
  decide +kernel
 obtain ⟨s, hs, hfacts⟩ := Option.map_eq_some_iff.1 hrun
 have hreach := reachable_of_run hs
 simp only [Prod.mk.injEq, decide_eq_true_eq] at hfacts
 exact ⟨s, hreach, hfacts.1, purges_unkept afterDeadline_monotone job?_rejectedDb hreach hfacts.2⟩

/-- The photo waits for review again when its bytes and its row are deleted. -/
theorem contributed_again_purged :
  ∃ s, Reachable (mediaProgram afterDeadline) outside rejectedDb s ∧
    media? s.shared.db 1 = none ∧ ¬ PurgesUnkept afterDeadline s.shared.ledger := by
 have hrun : (run (mediaProgram afterDeadline) outside (initial rejectedDb) contributedAgain).map
   (fun s => (media? s.shared.db 1, s.shared.ledger.any fun entry => (purges entry.event).any fun job =>
    (contributions entry.before).any fun c =>
     c.2.mediaObjectId == job.mediaObjectId && !eligible (afterDeadline entry.time) c.2)) = some
      (none, true) := by
  decide +kernel
 obtain ⟨s, hs, hfacts⟩ := Option.map_eq_some_iff.1 hrun
 simp only [Prod.mk.injEq, List.any_eq_true, Option.any_eq_true, Bool.and_eq_true, beq_iff_eq,
  Bool.not_eq_true'] at hfacts
 obtain ⟨hgone, entry, hentry, job, hjob, c, hc, hmedia, hkept⟩ := hfacts
 refine ⟨s, reachable_of_run hs, hgone, fun h => ?_⟩
 obtain ⟨k, row, hrow, hc⟩ := mem_select.1 hc
 cases k with
 | contribution id =>
  obtain rfl := Option.some.inj hc
  exact absurd (h entry hentry job hjob id row hrow (.inl hmedia)) (by simp [hkept])
 | _ => cases hc

end Purges

end BoardGamesEmpire.MediaContribution
