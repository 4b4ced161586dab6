import BoardGamesEmpire.MediaContribution

set_option autoImplicit false

/-!
# What the review's requests commit

Every commit of a review, statement by statement: which rows it changed, what
it left in them and what its own check had read.
-/
namespace BoardGamesEmpire.MediaContribution
open JsText ReadCommitted ReadCommittedProtocol

abbrev State := Shared Row Mutation

section Effects

structure HandedOver (db : Db) (mediaObjectId : ℕ) (subject : Subject) : Prop where
  published : ∃ serviceAccountId row,
    db.lookup .serviceAccount = some serviceAccountId ∧
     media? db mediaObjectId = some (flipped serviceAccountId row)
  attached : ((db.lookup (.attachment mediaObjectId subject)).isSome)

def HandOverKey (mediaObjectId : ℕ) (subject : Subject) (k : Key) : Prop :=
  k = .media mediaObjectId ∨ k = .presentation mediaObjectId ∨ k = .attachment mediaObjectId subject

structure SameContribution (row row' : Contribution) : Prop where
  mediaObjectId : row'.mediaObjectId = row.mediaObjectId
  subject : row'.subject = row.subject
  contributedById : row'.contributedById = row.contributedById
  origin : row'.origin = row.origin

structure PrivateUpload (db db' : Db) (mediaObjectId : ℕ) : Prop where
  new : media? db mediaObjectId = none
  stored : ∃ row, media? db' mediaObjectId = some row ∧ row.reach = .privateReach

/-- What a commit of the review does to the rows. `seen` is what is still known
    of a row that a check has read. -/
inductive ReviewStep (seen : State → ℕ → Contribution → Prop) (σ : State) : Mutation → Db → Prop where
  | bytes {event : Mutation} {db' : Db} (hevent : ∃ locator, event = .bytesStored locator ∨
   event = .bytesDropped locator)
      (hframe : ∀ k, (∀ locator, k ≠ .bytes locator) → db'.lookup k = σ.db.lookup k) :
       ReviewStep seen σ event db'
  | waits {contributionId mediaObjectId : ℕ} {row : Contribution} {db' : Db}
   (hnew : contribution? σ.db contributionId = none)
      (hrow : contribution? db' contributionId = some row) (hmedia : row.mediaObjectId = mediaObjectId)
      (hstatus : row.status = .pending)
      (hframe : ∀ k, k ≠ .contribution contributionId → db'.lookup k = σ.db.lookup k ∨
        (k = .media mediaObjectId ∧ PrivateUpload σ.db db' mediaObjectId)) :
      ReviewStep seen σ (.contributed contributionId mediaObjectId .pending) db'
  | publishes {contributionId mediaObjectId : ℕ} {row : Contribution} {db' : Db}
   (hnew : contribution? σ.db contributionId = none)
      (hrow : contribution? db' contributionId = some row) (hmedia : row.mediaObjectId = mediaObjectId)
      (hstatus : row.status = .approved) (hhanded : HandedOver db' mediaObjectId row.subject)
      (hframe : ∀ k, k ≠ .contribution contributionId → ¬ HandOverKey mediaObjectId row.subject k →
        db'.lookup k = σ.db.lookup k) :
      ReviewStep seen σ (.contributed contributionId mediaObjectId .approved) db'
  | approves {contributionId : ℕ} {checked row row' : Contribution} {db' : Db}
   (hseen : seen σ contributionId checked)
      (hchecked : checked.status = .pending) (hrow : contribution? σ.db contributionId = some row)
      (hrow' : contribution? db' contributionId = some row') (hsame : SameContribution row row')
       (hstatus : row'.status = .approved)
      (hhanded : HandedOver db' checked.mediaObjectId checked.subject)
      (hframe : ∀ k, k ≠ .contribution contributionId →
       ¬ HandOverKey checked.mediaObjectId checked.subject k →
        db'.lookup k = σ.db.lookup k) :
      ReviewStep seen σ (.approved contributionId checked) db'
  | rejects {contributionId : ℕ} {checked row row' : Contribution} {db' : Db} (hseen : seen σ contributionId checked)
      (hchecked : checked.status = .pending) (hrow : contribution? σ.db contributionId = some row)
      (hrow' : contribution? db' contributionId = some row') (hsame : SameContribution row row')
       (hstatus : row'.status = .rejected)
      (hframe : ∀ k, k ≠ .contribution contributionId → db'.lookup k = σ.db.lookup k) :
      ReviewStep seen σ (.rejected contributionId checked) db'
  | reclaims {contributionId : ℕ} {actor : ℕ} {checked row row' : Contribution} {db' : Db}
   (hseen : seen σ contributionId checked)
      (hchecked : checked.status = .rejected) (hactor : checked.contributedById = actor)
      (hrow : contribution? σ.db contributionId = some row)
       (hrow' : contribution? db' contributionId = some row')
      (hsame : SameContribution row row') (hstatus : row'.status = .reclaimed)
      (hframe : ∀ k, k ≠ .contribution contributionId → db'.lookup k = σ.db.lookup k) :
      ReviewStep seen σ (.reclaimed contributionId actor checked) db'

def reviewTable : Key → Bool
  | .media _ | .presentation _ | .attachment _ _ | .contribution _ | .bytes _ => true
  | _ => false

theorem ReviewStep.frame_other {seen : State → ℕ → Contribution → Prop} {σ : State}
  {event : Mutation} {db' : Db} (h : ReviewStep seen σ event db') {k : Key}
  (hk : reviewTable k = false) : db'.lookup k = σ.db.lookup k := by
 have hhand : ∀ m subject, ¬ HandOverKey m subject k := by
  rintro m subject (rfl | rfl | rfl) <;> cases hk
 have hcontribution : ∀ id, k ≠ .contribution id := by
  rintro id rfl
  cases hk
 cases h with
 | bytes hevent hframe =>
  refine hframe k ?_
  rintro locator rfl
  cases hk
 | waits hnew hrow hmedia hstatus hframe =>
  refine (hframe k (hcontribution _)).resolve_right ?_
  rintro ⟨rfl, -⟩
  cases hk
 | publishes hnew hrow hmedia hstatus hhanded hframe => exact hframe k (hcontribution _) (hhand _ _)
 | approves hseen hchecked hrow hrow' hsame hstatus hhanded hframe =>
  exact hframe k (hcontribution _) (hhand _ _)
 | rejects hseen hchecked hrow hrow' hsame hstatus hframe => exact hframe k (hcontribution _)
 | reclaims hseen hchecked hactor hrow hrow' hsame hstatus hframe => exact hframe k (hcontribution _)

end Effects

section Logs

theorem lookup_applyLog_concat (db : Db) (log : List (Write Row)) (k : Key) (value : Row k) :
  (applyLog db (log ++ [⟨k, some value⟩])).lookup k = some value := by
 rw [applyLog_append]
 exact lookup_applyWrite_self _ k (some value)

variable {k : Key}

theorem lookup_applyLog_last_write (db : Db) (log tail : List (Write Row)) (value : Row k)
  (htail : ∀ w ∈ tail, w.key ≠ k) :
  (applyLog db (log ++ [⟨k, some value⟩] ++ tail)).lookup k = some value := by
 rw [applyLog_append, lookup_applyLog_of_notMem _ htail]
 exact lookup_applyLog_concat db log k value

theorem lookup_applyLog_other (db : Db) {id : ℕ} {row : Contribution} (hk : k ≠ .contribution id) :
  (applyLog db [⟨.contribution id, some row⟩]).lookup k = db.lookup k := by
 apply lookup_applyLog_of_notMem
 intro w hw heq
 rw [List.mem_singleton.1 hw] at heq
 exact hk heq.symm

variable {mediaObjectId serviceAccountId : ℕ} {subject : Subject} {row : MediaObject}
  {attachment : Attachment}
  {log created tail : List (Write Row)}

def handOverLog (log : List (Write Row)) (mediaObjectId serviceAccountId : ℕ) (subject : Subject)
    (row : MediaObject)
    (created : List (Write Row)) (attachment : Attachment) : List (Write Row) :=
  log ++ [⟨.media mediaObjectId, some (flipped serviceAccountId row)⟩] ++ created ++
    [⟨.attachment mediaObjectId subject, some attachment⟩]

theorem mem_handOverLog {w : Write Row}
  (hcreated : ∀ w ∈ created, w.key = .presentation mediaObjectId)
  (hw : w ∈ handOverLog log mediaObjectId serviceAccountId subject row created attachment) :
  w ∈ log ∨ HandOverKey mediaObjectId subject w.key := by
 rw [handOverLog, List.append_assoc, List.append_assoc] at hw
 rcases List.mem_append.1 hw with hw | hw
 · exact .inl hw
 right
 rcases List.mem_append.1 hw with hw | hw
 · exact .inl (by rw [List.mem_singleton.1 hw])
 · rcases List.mem_append.1 hw with hw | hw
   · exact .inr (.inl (hcreated w hw))
   · exact .inr (.inr (by rw [List.mem_singleton.1 hw]))

theorem lookup_handOverLog (db : Db) (hcreated : ∀ w ∈ created, w.key = .presentation mediaObjectId)
  (hk : ¬ HandOverKey mediaObjectId subject k) :
  (applyLog db (handOverLog log mediaObjectId serviceAccountId subject row created attachment)).lookup k =
   (applyLog db log).lookup k := by
 have hnil : ∀ w ∈ handOverLog [] mediaObjectId serviceAccountId subject row created attachment,
  w.key ≠ k := by
  intro w hw heq
  rw [← heq] at hk
  exact hk ((mem_handOverLog hcreated hw).resolve_left List.not_mem_nil)
 have happend : handOverLog log mediaObjectId serviceAccountId subject row created attachment =
   log ++ handOverLog [] mediaObjectId serviceAccountId subject row created attachment := by
  simp only [handOverLog, List.append_assoc, List.nil_append]
 rw [happend, applyLog_append]
 exact lookup_applyLog_of_notMem _ hnil

theorem handedOver_log (db : Db) (hcreated : ∀ w ∈ created, w.key = .presentation mediaObjectId)
  (hservice : (applyLog db log).lookup .serviceAccount = some serviceAccountId)
  (htail : ∀ w ∈ tail, ∃ id, w.key = .contribution id) :
  HandedOver (applyLog db
   (handOverLog log mediaObjectId serviceAccountId subject row created attachment ++ tail))
   mediaObjectId subject := by
 have htail' : ∀ k, (∀ id, k ≠ .contribution id) → ∀ w ∈ tail, w.key ≠ k := by
  intro k hk w hw heq
  obtain ⟨id, hid⟩ := htail w hw
  exact hk id (heq.symm.trans hid)
 constructor
 · refine ⟨serviceAccountId, row, ?_, ?_⟩
   · rw [applyLog_append, lookup_applyLog_of_notMem _ (htail' _ fun id heq => by cases heq),
      lookup_handOverLog db hcreated]
     · exact hservice
     · rintro (h | h | h) <;> cases h
   · rw [handOverLog, List.append_assoc, List.append_assoc]
     apply lookup_applyLog_last_write
     intro w hw
     rcases List.mem_append.1 hw with hw | hw
     · rw [hcreated w hw]
       exact fun heq => by cases heq
     · rcases List.mem_append.1 hw with hw | hw
       · rw [List.mem_singleton.1 hw]
         exact fun heq => by cases heq
       · exact htail' _ (fun id heq => by cases heq) w hw
 · rw [handOverLog, lookup_applyLog_last_write]
   · rfl
   · exact htail' _ fun id heq => by cases heq

theorem lookup_outside {σ : State} {w : Write Row} (hw : outside w.key = true)
  (hk : k ≠ .systemSetting) :
  (applyWrite σ.db w).lookup k = σ.db.lookup k := by
 apply lookup_applyWrite_ne
 rintro rfl
 cases hkey : w.key <;> rw [hkey] at hw hk <;> first | exact hk rfl | cases hw

end Logs

section Rules

variable {P : Protocol Row Referenced Mutation} {known : List (Lock Key Referenced)}
  {Φ : State → Prop} {log : List (Write Row)}
  {refused next : MediaProgram}

theorem safeOn_attempt {locks : Db → List (Lock Key Referenced)}
  {writes : ℕ → Db → Option (List (Write Row))}
  {next : ℕ → Db → MediaProgram} (hkeeps : Keeps P known Φ)
   (hrefused : SafeOn P [] (fun _ => True) refused [])
  (hnext : ∀ σ, P.inv σ → Φ σ → Φ σ.tick → ∀ ws, writes σ.clock (view σ log) = some ws →
   ∃ Ψ : State → Prop, Ψ σ.tick ∧
   SafeOn P (known ++ (locks (view σ log) ++ writeLocks ws)) Ψ (next σ.clock (view σ log)) (log ++ ws)) :
  SafeOn P known Φ (Code.attempt locks writes refused next) log := by
 refine safeOn_stmt hkeeps fun σ hinv hΦ hΦ' => ?_
 cases hws : writes σ.clock (view σ log) with
 | none => exact ⟨fun _ => True, trivial, safeOn_rollback (keeps_const P _ True) hrefused⟩
 | some ws => exact hnext σ hinv hΦ hΦ' ws hws

theorem safeOn_attempt_keep {locks : Db → List (Lock Key Referenced)}
  {writes : ℕ → Db → Option (List (Write Row))} {next : ℕ → Db → MediaProgram}
  (hkeeps : Keeps P known Φ) (hrefused : SafeOn P [] (fun _ => True) refused [])
  (hnext : ∀ clock v ws, writes clock v = some ws → SafeOn P known Φ (next clock v) (log ++ ws)) :
  SafeOn P known Φ (Code.attempt locks writes refused next) log :=
 safeOn_attempt hkeeps hrefused fun _ _ _ hΦ' ws hws =>
  ⟨Φ, hΦ', (hnext _ _ ws hws).more (List.subset_append_left _ _)⟩

theorem safeOn_attachWithin (hkeeps : Keeps P known Φ) (hrefused : SafeOn P [] (fun _ => True) refused [])
  (mediaObjectId : ℕ) (subject : Subject) (category : Option Text)
  (hnext : ∀ created attachment, (∀ w ∈ created, w.key = .presentation mediaObjectId) →
   SafeOn P known Φ next (log ++ created ++ [⟨.attachment mediaObjectId subject, some attachment⟩])) :
  SafeOn P known Φ (attachWithin mediaObjectId subject category refused next) log := by
 refine safeOn_query hkeeps fun σ _ _ => ?_
 split
 · exact safeOn_rollback hkeeps hrefused
 split
 · exact safeOn_rollback hkeeps hrefused
 refine safeOn_attempt_keep hkeeps hrefused fun clock v created hcreated => ?_
 have hkeys : ∀ w ∈ created, w.key = .presentation mediaObjectId := by
  split at hcreated
  · cases hcreated
    simp
  · obtain ⟨_, -, rfl⟩ := Option.map_eq_some_iff.1 hcreated
    intro w hw
    rw [List.mem_singleton.1 hw]
 refine safeOn_attempt_keep hkeeps hrefused fun clock v ws hws => ?_
 split at hws
 · cases hws
   exact hnext created _ hkeys
 · cases hws

theorem safeOn_handOver (hkeeps : Keeps P known Φ) (hrefused : SafeOn P [] (fun _ => True) refused [])
  (mediaObjectId serviceAccountId : ℕ) (subject : Subject) (category : Option Text)
  (hnext : ∀ row created attachment, (∀ w ∈ created, w.key = .presentation mediaObjectId) →
   SafeOn P known Φ next (handOverLog log mediaObjectId serviceAccountId subject row created attachment)) :
  SafeOn P known Φ (flipOwnership mediaObjectId serviceAccountId refused
   (attachWithin mediaObjectId subject category refused next)) log := by
 refine safeOn_attempt_keep hkeeps hrefused fun clock v ws hws => ?_
 obtain ⟨row, -, rfl⟩ := Option.map_eq_some_iff.1 hws
 exact safeOn_attachWithin hkeeps hrefused mediaObjectId subject category (hnext row)

theorem view_lookup (σ : State) {k : Key} (hlog : ∀ w ∈ log, w.key ≠ k) :
  (view σ log).lookup k = σ.db.lookup k :=
 lookup_applyLog_of_notMem σ.db hlog

theorem keeps_written (hkeeps : Keeps P known Φ) (k : Key) (row : Option (Row k)) :
  Keeps P (known ++ [⟨.row k, true⟩]) fun σ => Φ σ ∧ σ.db.lookup k = row :=
 (hkeeps.weaken (List.subset_append_left _ _)).and
  (keeps_row P (List.mem_append_right known (List.mem_singleton_self _)) row)

theorem safeOn_updateContribution (wall : ℕ → ℕ) (hkeeps : Keeps P known Φ) {contributionId : ℕ}
  {data : ℕ → Contribution → Contribution} (hlog : ∀ w ∈ log, w.key ≠ .contribution contributionId)
  (hnext : ∀ now row, SafeOn P (known ++ [⟨.row (.contribution contributionId), true⟩])
   (fun σ => Φ σ ∧ contribution? σ.db contributionId = some row) next
   (log ++ [⟨.contribution contributionId, some (data now row)⟩])) :
  SafeOn P known Φ (updateContribution wall contributionId data next) log := by
 refine safeOn_attempt hkeeps safeOn_halt fun σ _ _ hΦ' ws hws => ?_
 obtain ⟨row, hrow, rfl⟩ := Option.map_eq_some_iff.1 hws
 have hdb : contribution? σ.db contributionId = some row := (view_lookup σ hlog).symm.trans hrow
 exact ⟨_, ⟨hΦ', hdb⟩, hnext _ row⟩

theorem safeOn_createContribution (hkeeps : Keeps P known Φ)
  (hrefused : SafeOn P [] (fun _ => True) refused [])
  {row : ℕ → Contribution} {next : ℕ → MediaProgram} (hlog : ∀ w ∈ log, ∀ id, w.key ≠ .contribution id)
  (hnext : ∀ clock id, SafeOn P (known ++ [⟨.row (.contribution id), true⟩])
   (fun σ => Φ σ ∧ contribution? σ.db id = none) (next id)
    (log ++ [⟨.contribution id, some (row clock)⟩])) :
  SafeOn P known Φ (createContribution row refused next) log := by
 refine safeOn_attempt hkeeps hrefused fun σ _ _ hΦ' ws hws => ?_
 split at hws
 · rename_i hfree
   cases hws
   have hdb : contribution? σ.db σ.clock = none :=
    (view_lookup σ fun w hw => hlog w hw σ.clock).symm.trans (Option.isNone_iff_eq_none.1 hfree.1)
   refine ⟨_, ⟨hΦ', hdb⟩, (hnext σ.clock σ.clock).more ?_⟩
   intro l hl
   rcases List.mem_append.1 hl with hl | hl
   · exact List.mem_append_left _ hl
   · exact List.mem_append_right _ (List.mem_append_right _ hl)
 · cases hws

theorem safeOn_learn {next : ℕ → Db → MediaProgram} (hkeeps : Keeps P known Φ)
  (hnext : ∀ σ, P.inv σ → Φ σ → ∃ Ψ : State → Prop, Stable P [] Ψ ∧ Ψ σ ∧
   SafeOn P known (fun σ => Φ σ ∧ Ψ σ) (next σ.clock (view σ log)) log) :
  SafeOn P known Φ (.query next) log := by
 intro held σ hknown hΦ
 refine safe_stmt (fun _ => hkeeps held hknown) hΦ fun σ' hinv hinv' _ hΦ' => ?_
 obtain ⟨Ψ, hstable, hΨ, hsafe⟩ := hnext σ' hinv hΦ'
 have htick : Φ σ'.tick := hkeeps held hknown σ' σ'.tick hΦ' hinv hinv' .tick
 rw [List.append_nil]
 exact hsafe _ σ'.tick (fun l hl => List.mem_append_left _ (hknown hl))
  ⟨htick, hstable _ _ hΨ hinv hinv' .tick⟩

end Rules

section Programs

/-- What the requests rely on: nobody unsettles the service account or what a
    check has read. -/
structure ReviewProtocol (P : Protocol Row Referenced Mutation) (seen : State → ℕ → Contribution →
    Prop) : Prop where
  guarantee : ∀ held db db', P.guarantee held db db'
  effect : ∀ σ event db', P.inv σ → ReviewStep seen σ event db' → P.effect σ event db'
  read : ∀ σ id row, P.inv σ → contribution? σ.db id = some row → seen σ id row
  keepsSeen : ∀ id row, Stable P [] fun σ => seen σ id row
  serviceAccount : ∀ id, Stable P [] fun σ => σ.db.lookup .serviceAccount = some id

variable {P : Protocol Row Referenced Mutation} {seen : State → ℕ → Contribution → Prop}
  {known : List (Lock Key Referenced)} {Φ : State → Prop} {log : List (Write Row)} {refused : MediaProgram}

theorem safeOn_commit_review (hP : ReviewProtocol P seen) {event : Mutation}
  (hkeeps : Keeps P known Φ)
  (hstep : ∀ σ, P.inv σ → Φ σ → ReviewStep seen σ event (applyLog σ.db log)) :
  SafeOn P known Φ (.commit event .halt) log :=
 safeOn_commit hkeeps
  (fun _ σ _ _ hinv hΦ => ⟨hP.guarantee _ _ _, hP.effect σ event _ hinv (hstep σ hinv hΦ)⟩) safeOn_halt

def Uploaded (mediaObjectId : ℕ) (log : List (Write Row)) : Prop :=
  log = [] ∨ ∃ row : MediaObject, row.reach = .privateReach ∧ log = [⟨.media mediaObjectId, some row⟩]

theorem Uploaded.key {mediaObjectId : ℕ} (h : Uploaded mediaObjectId log) :
  ∀ w ∈ log, w.key = .media mediaObjectId := by
 intro w hw
 rcases h with rfl | ⟨row, -, rfl⟩
 · exact absurd hw List.not_mem_nil
 · rw [List.mem_singleton.1 hw]

theorem waits_step {mediaObjectId : ℕ} (hlog : Uploaded mediaObjectId log) {σ : State}
  (hfresh : log ≠ [] → media? σ.db mediaObjectId = none) {id : ℕ} {row : Contribution}
  (hnew : contribution? σ.db id = none) (hmedia : row.mediaObjectId = mediaObjectId)
  (hstatus : row.status = .pending) :
  ReviewStep seen σ (.contributed id mediaObjectId .pending)
   (applyLog σ.db (log ++ [⟨.contribution id, some row⟩])) := by
 refine .waits hnew (lookup_applyLog_concat σ.db log (.contribution id) row) hmedia hstatus fun k hk => ?_
 have hlast : (applyLog σ.db (log ++ [⟨.contribution id, some row⟩])).lookup k =
  (applyLog σ.db log).lookup k := by
  rw [applyLog_append]
  exact lookup_applyLog_other _ hk
 rw [hlast]
 rcases hlog with rfl | ⟨media, hprivate, rfl⟩
 · exact .inl rfl
 · by_cases hkey : k = .media mediaObjectId
   · subst hkey
     refine .inr ⟨rfl, hfresh (List.cons_ne_nil _ _), media, ?_, hprivate⟩
     exact hlast.trans (lookup_applyLog_concat σ.db [] (.media mediaObjectId) media)
   · left
     apply lookup_applyLog_of_notMem
     intro w hw heq
     rw [List.mem_singleton.1 hw] at heq
     exact hkey heq.symm

theorem publishes_step {mediaObjectId : ℕ} (hlog : Uploaded mediaObjectId log) {σ : State}
  {id serviceAccountId : ℕ} {row : Contribution} {media : MediaObject} {created : List (Write Row)}
  {attachment : Attachment} (hnew : contribution? σ.db id = none)
  (hservice : σ.db.lookup .serviceAccount = some serviceAccountId)
  (hmedia : row.mediaObjectId = mediaObjectId) (hstatus : row.status = .approved)
  (hcreated : ∀ w ∈ created, w.key = .presentation mediaObjectId) :
  ReviewStep seen σ (.contributed id mediaObjectId .approved)
   (applyLog σ.db (handOverLog (log ++ [⟨.contribution id, some row⟩]) mediaObjectId
    serviceAccountId row.subject media
    created attachment)) := by
 have hbefore : ∀ k, k ≠ .contribution id → k ≠ .media mediaObjectId →
   (applyLog σ.db (log ++ [⟨.contribution id, some row⟩])).lookup k = σ.db.lookup k := by
  intro k hk hk'
  apply lookup_applyLog_of_notMem
  intro w hw heq
  rcases List.mem_append.1 hw with hw | hw
  · exact hk' (heq.symm.trans (hlog.key w hw))
  · rw [List.mem_singleton.1 hw] at heq
    exact hk heq.symm
 have hhanded : HandedOver
  (applyLog σ.db (handOverLog (log ++ [⟨.contribution id, some row⟩]) mediaObjectId serviceAccountId
   row.subject media created attachment ++ [])) mediaObjectId row.subject :=
  handedOver_log σ.db hcreated ((hbefore _ (fun h => by cases h) fun h => by cases h).trans hservice)
   fun w hw => absurd hw List.not_mem_nil
 rw [List.append_nil] at hhanded
 refine .publishes hnew ?_ hmedia hstatus hhanded fun k hk hk' => ?_
 · refine (lookup_handOverLog σ.db hcreated ?_).trans ?_
   · rintro (h | h | h) <;> cases h
   · exact lookup_applyLog_concat σ.db log (.contribution id) row
 · rw [lookup_handOverLog σ.db hcreated hk']
   exact hbefore k hk fun h => hk' (.inl h)

theorem safeOn_createContributionWithin (hP : ReviewProtocol P seen) (wall : ℕ → ℕ)
  {mediaObjectId : ℕ} {dto : ContributeMediaDto} {origin : ContributionOrigin} {actor : Actor}
  (hkeeps : Keeps P known Φ) (hrefused : SafeOn P [] (fun _ => True) refused [])
  (hlog : Uploaded mediaObjectId log)
  (hfresh : ∀ σ, Φ σ → log ≠ [] → media? σ.db mediaObjectId = none) :
  SafeOn P known Φ (createContributionWithin wall mediaObjectId dto origin actor refused) log := by
 have hlog' : ∀ w ∈ log, ∀ id, w.key ≠ .contribution id := by
  intro w hw id heq
  rw [hlog.key w hw] at heq
  cases heq
 have hrefuse : SafeOn P known Φ (.rollback refused) log := safeOn_rollback hkeeps hrefused
 refine safeOn_query hkeeps fun _ _ _ => ?_
 split
 · exact hrefuse
 refine safeOn_query hkeeps fun _ _ _ => ?_
 split
 · exact hrefuse
 split
 · exact hrefuse
 refine safeOn_query hkeeps fun _ _ _ => ?_
 split
 · exact hrefuse
 refine safeOn_query hkeeps fun _ _ _ => ?_
 split
 · refine safeOn_createContribution hkeeps hrefused hlog' fun clock id => ?_
   exact safeOn_commit_review hP (keeps_written hkeeps (.contribution id) none) fun σ _ hΦ =>
    waits_step hlog (hfresh σ hΦ.1) hΦ.2 rfl rfl
 · refine safeOn_learn hkeeps fun σ _ _ => ?_
   have hview : (view σ log).lookup .serviceAccount = σ.db.lookup .serviceAccount := by
    apply view_lookup
    intro w hw heq
    rw [hlog.key w hw] at heq
    cases heq
   split
   · exact ⟨fun _ => True, stable_const P [] True, trivial, hrefuse.mono fun _ h => h.1⟩
   · rename_i serviceAccountId hservice
     refine ⟨_, hP.serviceAccount serviceAccountId, hview.symm.trans hservice, ?_⟩
     have hkeeps' : Keeps P known fun σ => Φ σ ∧ σ.db.lookup .serviceAccount = some serviceAccountId :=
      hkeeps.and fun held _ => (hP.serviceAccount serviceAccountId).weaken held
     refine safeOn_createContribution hkeeps' hrefused hlog' fun clock id => ?_
     have hkeeps'' := keeps_written hkeeps' (.contribution id) none
     refine safeOn_handOver hkeeps'' hrefused mediaObjectId serviceAccountId dto.subject dto.category ?_
     intro media created attachment hcreated
     exact safeOn_commit_review hP hkeeps'' fun σ _ hΦ =>
      publishes_step hlog hΦ.2 hΦ.1.2 rfl rfl hcreated

theorem approves_step {σ : State} {id serviceAccountId : ℕ} {checked row row' : Contribution}
  {media : MediaObject} {created : List (Write Row)} {attachment : Attachment}
  (hseen : seen σ id checked) (hchecked : checked.status = .pending)
  (hservice : σ.db.lookup .serviceAccount = some serviceAccountId)
  (hrow : contribution? σ.db id = some row) (hsame : SameContribution row row')
  (hstatus : row'.status = .approved)
  (hcreated : ∀ w ∈ created, w.key = .presentation checked.mediaObjectId) :
  ReviewStep seen σ (.approved id checked)
   (applyLog σ.db
    (handOverLog [] checked.mediaObjectId serviceAccountId checked.subject media created attachment ++
    [⟨.contribution id, some row'⟩])) := by
 refine .approves hseen hchecked hrow (lookup_applyLog_concat σ.db _ (.contribution id) row') hsame
  hstatus ?_ ?_
 · refine handedOver_log σ.db hcreated hservice fun w hw => ?_
   exact ⟨id, by rw [List.mem_singleton.1 hw]⟩
 · intro k hk hk'
   rw [applyLog_append, lookup_applyLog_of_notMem]
   · exact lookup_handOverLog σ.db hcreated hk'
   · intro w hw heq
     rw [List.mem_singleton.1 hw] at heq
     exact hk heq.symm

theorem pendingFor_eq_some {actor : Actor} {v : Db} {id : ℕ} {checked : Contribution}
  (h : pendingFor actor v id = some checked) :
  contribution? v id = some checked ∧ checked.status = .pending := by
 obtain ⟨hfound, hpending⟩ := Option.filter_eq_some_iff.1 h
 exact ⟨(Option.filter_eq_some_iff.1 hfound).1, eq_of_beq hpending⟩

theorem safeOn_contribute (hP : ReviewProtocol P seen) (wall : ℕ → ℕ) (actor : Actor)
  (mediaObjectId : ℕ) (dto : ContributeMediaDto) :
  SafeOn P [] (fun _ => True) (contribute wall actor mediaObjectId dto) [] := by
 refine safeOn_query (keeps_const P [] True) fun σ _ _ => ?_
 split
 · exact safeOn_halt
 split
 · exact safeOn_halt
 exact safeOn_createContributionWithin hP wall (keeps_const P [] True) safeOn_halt
  (.inl rfl) fun _ _ hne => absurd rfl hne

theorem lookup_bytes (db : Db) {locator : StorageLocator} {value : Option Unit} {k : Key}
  (hk : ∀ locator, k ≠ .bytes locator) :
  (applyLog db [⟨.bytes locator, value⟩]).lookup k = db.lookup k := by
 apply lookup_applyLog_of_notMem
 intro w hw heq
 rw [List.mem_singleton.1 hw] at heq
 exact hk locator heq.symm

theorem safeOn_dropBytes (hP : ReviewProtocol P seen) (locator : StorageLocator) :
  SafeOn P [] (fun _ => True) (dropBytes locator) [] := by
 refine safeOn_attempt_keep (keeps_const P [] True) safeOn_halt fun clock v ws hws => ?_
 cases hws
 exact safeOn_commit_review hP (keeps_const P [] True) fun σ _ _ =>
  .bytes ⟨locator, .inr rfl⟩ fun k hk => lookup_bytes σ.db hk

theorem safeOn_uploadAndContribute (hP : ReviewProtocol P seen) (wall : ℕ → ℕ) (actor : Actor)
  (file : UploadedMediaFile) (dto : ContributeMediaDto) (withinQuota consumed : Bool) :
  SafeOn P [] (fun _ => True) (uploadAndContribute wall actor file dto withinQuota consumed) [] := by
 unfold uploadAndContribute
 split
 · exact safeOn_halt
 split
 · exact safeOn_halt
 refine safeOn_attempt (keeps_const P [] True) safeOn_halt fun σ _ _ _ ws hws =>
  ⟨fun _ => True, trivial, ?_⟩
 cases hws
 have hdrop := safeOn_dropBytes hP ⟨file.driverSlug, actor.userId, σ.clock⟩
 refine safeOn_commit (keeps_const P _ True)
  (fun held σ' _ _ hinv _ => ⟨hP.guarantee _ _ _, hP.effect _ _ _ hinv ?_⟩) ?_
 · exact .bytes ⟨_, .inl rfl⟩ fun k hk => lookup_bytes σ'.db hk
 split
 · exact safeOn_rollback (keeps_const P [] True) hdrop
 refine safeOn_attempt (keeps_const P [] True) hdrop fun σ' _ _ _ ws hws => ?_
 split at hws
 · rename_i hfree
   cases hws
   have hnone : media? σ'.db σ.clock = none := Option.isNone_iff_eq_none.1 hfree
   refine ⟨fun σ' => media? σ'.db σ.clock = none, hnone, ?_⟩
   have hheld := List.mem_singleton_self (⟨.row (.media σ.clock), true⟩ : Lock Key Referenced)
   exact safeOn_createContributionWithin hP wall (keeps_row P hheld none) hdrop (.inr ⟨_, rfl, rfl⟩)
    fun _ hnone _ => hnone
 · cases hws

theorem safeOn_approve (hP : ReviewProtocol P seen) (wall : ℕ → ℕ) (actor : Actor)
  (contributionId : ℕ) :
  SafeOn P [] (fun _ => True) (approve wall actor contributionId) [] := by
 refine safeOn_learn (keeps_const P [] True) fun σ hinv _ => ?_
 split
 · exact ⟨fun _ => True, stable_const P [] True, trivial, safeOn_halt⟩
 rename_i checked hfound
 obtain ⟨hread, hpending⟩ := pendingFor_eq_some hfound
 refine ⟨_, hP.keepsSeen contributionId checked, hP.read σ contributionId checked hinv hread, ?_⟩
 have hkeeps : Keeps P [] fun σ => True ∧ seen σ contributionId checked :=
  (keeps_const P [] True).and fun held _ => (hP.keepsSeen contributionId checked).weaken held
 refine safeOn_learn hkeeps fun σ' _ _ => ?_
 split
 · exact ⟨fun _ => True, stable_const P [] True, trivial, safeOn_halt⟩
 rename_i serviceAccountId hservice
 refine ⟨_, hP.serviceAccount serviceAccountId, hservice, ?_⟩
 have hkeeps' : Keeps P [] fun σ =>
   (True ∧ seen σ contributionId checked) ∧ σ.db.lookup .serviceAccount = some serviceAccountId :=
  hkeeps.and fun held _ => (hP.serviceAccount serviceAccountId).weaken held
 refine safeOn_handOver hkeeps' safeOn_halt _ _ _ _ fun media created attachment hcreated => ?_
 refine safeOn_updateContribution wall hkeeps' (fun w hw heq => ?_) fun now row => ?_
 · rcases mem_handOverLog hcreated hw with hw | hw | hw | hw
   · exact absurd hw List.not_mem_nil
   all_goals
    rw [heq] at hw
    cases hw
 · refine safeOn_commit_review hP (keeps_written hkeeps' (.contribution contributionId) (some row))
    fun σ _ hΦ => ?_
   exact approves_step hΦ.1.1.2 hpending hΦ.1.2 hΦ.2 ⟨rfl, rfl, rfl, rfl⟩ rfl hcreated

theorem safeOn_reject (hP : ReviewProtocol P seen) (wall : ℕ → ℕ) (actor : Actor)
  (contributionId : ℕ) (reason : Option Text) :
  SafeOn P [] (fun _ => True) (reject wall actor contributionId reason) [] := by
 refine safeOn_learn (keeps_const P [] True) fun σ hinv _ => ?_
 split
 · exact ⟨fun _ => True, stable_const P [] True, trivial, safeOn_halt⟩
 rename_i checked hfound
 obtain ⟨hread, hpending⟩ := pendingFor_eq_some hfound
 refine ⟨_, hP.keepsSeen contributionId checked, hP.read σ contributionId checked hinv hread, ?_⟩
 have hkeeps : Keeps P [] fun σ => True ∧ seen σ contributionId checked :=
  (keeps_const P [] True).and fun held _ => (hP.keepsSeen contributionId checked).weaken held
 refine safeOn_query hkeeps fun _ _ _ => ?_
 refine safeOn_updateContribution wall hkeeps (fun w hw => absurd hw List.not_mem_nil) fun now row => ?_
 refine safeOn_commit_review hP (keeps_written hkeeps (.contribution contributionId) (some row))
  fun σ _ hΦ => ?_
 exact .rejects hΦ.1.2 hpending hΦ.2 (lookup_applyLog_concat σ.db [] (.contribution contributionId) _)
  ⟨rfl, rfl, rfl, rfl⟩ rfl fun k hk => lookup_applyLog_other σ.db hk

theorem safeOn_reclaim (hP : ReviewProtocol P seen) (wall : ℕ → ℕ) (actor : Actor)
  (contributionId : ℕ) :
  SafeOn P [] (fun _ => True) (reclaim wall actor contributionId) [] := by
 refine safeOn_learn (keeps_const P [] True) fun σ hinv _ => ?_
 split
 · exact ⟨fun _ => True, stable_const P [] True, trivial, safeOn_halt⟩
 rename_i checked hfound
 have hread := (Option.filter_eq_some_iff.1 hfound).1
 refine ⟨_, hP.keepsSeen contributionId checked, hP.read σ contributionId checked hinv hread, ?_⟩
 have hkeeps : Keeps P [] fun σ => True ∧ seen σ contributionId checked :=
  (keeps_const P [] True).and fun held _ => (hP.keepsSeen contributionId checked).weaken held
 split
 · exact safeOn_halt
 rename_i hactor
 split
 · exact safeOn_halt
 rename_i hstatus
 split
 · exact safeOn_halt
 refine safeOn_updateContribution wall hkeeps (fun w hw => absurd hw List.not_mem_nil) fun now row => ?_
 refine safeOn_commit_review hP (keeps_written hkeeps (.contribution contributionId) (some row))
  fun σ _ hΦ => ?_
 exact .reclaims hΦ.1.2 (not_not.1 hstatus) (not_not.1 hactor) hΦ.2
  (lookup_applyLog_concat σ.db [] (.contribution contributionId) _) ⟨rfl, rfl, rfl, rfl⟩ rfl
  fun k hk => lookup_applyLog_other σ.db hk

theorem review_safe (hP : ReviewProtocol P seen) (wall : ℕ → ℕ) (request : Review) :
  SafeOn P [] (fun _ => True) (reviewProgram wall request) [] := by
 cases request with
 | contribute actor mediaObjectId dto => exact safeOn_contribute hP wall actor mediaObjectId dto
 | uploadAndContribute actor file dto withinQuota consumed =>
  exact safeOn_uploadAndContribute hP wall actor file dto withinQuota consumed
 | approve actor contributionId => exact safeOn_approve hP wall actor contributionId
 | reject actor contributionId reason => exact safeOn_reject hP wall actor contributionId reason
 | reclaim actor contributionId => exact safeOn_reclaim hP wall actor contributionId

end Programs

end BoardGamesEmpire.MediaContribution
