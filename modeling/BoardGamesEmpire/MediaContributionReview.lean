import BoardGamesEmpire.MediaContributionSafe

set_option autoImplicit false

/-!
# A contribution is decided once

In a run whose commits find what their checks had found, a contribution leaves
the queue once, its object has one contribution at a time, and the object is
given away for the approved one alone.
-/
namespace BoardGamesEmpire.MediaContribution
open JsText ReadCommitted ReadCommittedProtocol

section Decisions

theorem SameContribution.refl (row : Contribution) :
  SameContribution row row := ⟨rfl, rfl, rfl, rfl⟩

theorem SameContribution.trans {a b c : Contribution} (h : SameContribution a b)
  (h' : SameContribution b c) :
  SameContribution a c :=
 ⟨h'.mediaObjectId.trans h.mediaObjectId, h'.subject.trans h.subject,
  h'.contributedById.trans h.contributedById,
  h'.origin.trans h.origin⟩

def Known (σ : State) (contributionId : ℕ) (checked : Contribution) : Prop :=
  ∃ row, contribution? σ.db contributionId = some row ∧ SameContribution checked row

def handsOver (contributionId : ℕ) : Mutation → Bool
  | .contributed id _ .approved => id == contributionId
  | .approved id _ => id == contributionId
  | _ => false

inductive Settles (db : Db) (event : Mutation) (db' : Db) (id : ℕ) : Prop where
  | keeps (hrow : contribution? db' id = contribution? db id) (hevent : handsOver id event = false)
  | waits {mediaObjectId : ℕ} {row : Contribution} (hevent : event = .contributed id mediaObjectId .pending)
      (hnew : contribution? db id = none) (hrow : contribution? db' id = some row)
       (hmedia : row.mediaObjectId = mediaObjectId)
      (hstatus : row.status = .pending)
  | publishes {mediaObjectId : ℕ} {row : Contribution} (hevent : event = .contributed id mediaObjectId .approved)
      (hnew : contribution? db id = none) (hrow : contribution? db' id = some row)
       (hmedia : row.mediaObjectId = mediaObjectId)
      (hstatus : row.status = .approved)
  | approves {checked row row' : Contribution} (hevent : event = .approved id checked)
   (hrow : contribution? db id = some row)
      (hrow' : contribution? db' id = some row') (hsame : SameContribution row row')
       (hstatus : row'.status = .approved)
  | rejects {checked row row' : Contribution} (hevent : event = .rejected id checked)
   (hrow : contribution? db id = some row)
      (hrow' : contribution? db' id = some row') (hsame : SameContribution row row')
       (hstatus : row'.status = .rejected)
  | reclaims {checked row row' : Contribution} (hevent : event = .reclaimed id row.contributedById checked)
      (hrow : contribution? db id = some row) (hrow' : contribution? db' id = some row')
       (hsame : SameContribution row row')
      (hstatus : row'.status = .reclaimed)

variable {σ : State} {event : Mutation} {db' : Db}

theorem ReviewStep.settles (h : ReviewStep Known σ event db') (id : ℕ) :
  Settles σ.db event db' id := by
 have hkey : ∀ m subject, ¬ HandOverKey m subject (.contribution id) := by
  rintro m subject (h | h | h) <;> cases h
 have hne : ∀ id', id' ≠ id → Key.contribution id ≠ .contribution id' := fun id' hne heq =>
  hne (Key.contribution.inj heq).symm
 cases h with
 | bytes hevent hframe =>
  refine .keeps (hframe _ fun locator h => by cases h) ?_
  obtain ⟨locator, rfl | rfl⟩ := hevent <;> rfl
 | @waits id' m row _ hnew hrow hmedia hstatus hframe =>
  by_cases hid : id' = id
  · subst hid
    exact .waits rfl hnew hrow hmedia hstatus
  · exact .keeps ((hframe _ (hne id' hid)).resolve_right fun h => by cases h.1) rfl
 | @publishes id' m row _ hnew hrow hmedia hstatus hhanded hframe =>
  by_cases hid : id' = id
  · subst hid
    exact .publishes rfl hnew hrow hmedia hstatus
  · exact .keeps (hframe _ (hne id' hid) (hkey _ _)) (beq_false_of_ne hid)
 | @approves id' checked row row' _ hseen hchecked hrow hrow' hsame hstatus hhanded hframe =>
  by_cases hid : id' = id
  · subst hid
    exact .approves rfl hrow hrow' hsame hstatus
  · exact .keeps (hframe _ (hne id' hid) (hkey _ _)) (beq_false_of_ne hid)
 | @rejects id' checked row row' _ hseen hchecked hrow hrow' hsame hstatus hframe =>
  by_cases hid : id' = id
  · subst hid
    exact .rejects rfl hrow hrow' hsame hstatus
  · exact .keeps (hframe _ (hne id' hid)) rfl
 | @reclaims id' actor checked row row' _ hseen hchecked hactor hrow hrow' hsame hstatus hframe =>
  by_cases hid : id' = id
  · subst hid
    obtain ⟨row₁, hrow₁, hsame₁⟩ := hseen
    obtain rfl : row₁ = row := Option.some.inj (hrow₁.symm.trans hrow)
    rw [← hactor, ← hsame₁.contributedById]
    exact .reclaims rfl hrow hrow' hsame hstatus
  · exact .keeps (hframe _ (hne id' hid)) rfl

theorem Settles.kept {id : ℕ} {row : Contribution} (h : Settles σ.db event db' id)
  (hrow : contribution? σ.db id = some row) :
  ∃ row', contribution? db' id = some row' ∧ SameContribution row row' := by
 cases h with
 | keeps hkeeps hevent => exact ⟨row, hkeeps.trans hrow, .refl row⟩
 | waits hevent hnew => exact absurd (hnew.symm.trans hrow) (by simp)
 | publishes hevent hnew => exact absurd (hnew.symm.trans hrow) (by simp)
 | approves hevent hbefore hrow' hsame =>
  exact ⟨_, hrow', Option.some.inj (hbefore.symm.trans hrow) ▸ hsame⟩
 | rejects hevent hbefore hrow' hsame =>
  exact ⟨_, hrow', Option.some.inj (hbefore.symm.trans hrow) ▸ hsame⟩
 | reclaims hevent hbefore hrow' hsame =>
  exact ⟨_, hrow', Option.some.inj (hbefore.symm.trans hrow) ▸ hsame⟩

theorem ReviewStep.frame (h : ReviewStep Known σ event db') {mediaObjectId : ℕ} {subject : Subject}
  {k : Key} (hk : k = .media mediaObjectId ∨ k = .attachment mediaObjectId subject) :
  db'.lookup k = σ.db.lookup k ∨ (k = .media mediaObjectId ∧ PrivateUpload σ.db db' mediaObjectId) ∨
   ∃ id row, handsOver id event = true ∧ contribution? db' id = some row ∧
    row.mediaObjectId = mediaObjectId ∧
    row.status = .approved ∧ (k = .attachment mediaObjectId subject → row.subject = subject) := by
 have hcontribution : ∀ id, k ≠ .contribution id := by
  rintro id rfl
  rcases hk with h | h <;> cases h
 have hhand : ∀ m s, HandOverKey m s k → m = mediaObjectId ∧
  (k = .attachment mediaObjectId subject → s = subject) := by
  intro m s hm
  rcases hk with rfl | rfl
  · rcases hm with h | h | h
    · exact ⟨(Key.media.inj h).symm, fun h => by cases h⟩
    · cases h
    · cases h
  · rcases hm with h | h | h
    · cases h
    · cases h
    · exact ⟨(Key.attachment.inj h).1.symm, fun _ => (Key.attachment.inj h).2.symm⟩
 cases h with
 | bytes hevent hframe =>
  refine .inl (hframe k ?_)
  rintro locator rfl
  rcases hk with h | h <;> cases h
 | @waits id m row _ hnew hrow hmedia hstatus hframe =>
  rcases hframe k (hcontribution id) with hsame | ⟨rfl, hupload⟩
  · exact .inl hsame
  · obtain rfl := (hhand m subject (.inl rfl)).1
    exact .inr (.inl ⟨rfl, hupload⟩)
 | @publishes id m row _ hnew hrow hmedia hstatus hhanded hframe =>
  by_cases hkey : HandOverKey m row.subject k
  · obtain ⟨rfl, hsubject⟩ := hhand m row.subject hkey
    exact .inr (.inr ⟨id, row, beq_self_eq_true id, hrow, hmedia, hstatus, hsubject⟩)
  · exact .inl (hframe k (hcontribution id) hkey)
 | @approves id checked row row' _ hseen hchecked hrow hrow' hsame hstatus hhanded hframe =>
  by_cases hkey : HandOverKey checked.mediaObjectId checked.subject k
  · obtain ⟨hm, hsubject⟩ := hhand _ _ hkey
    obtain ⟨row₁, hrow₁, hsame₁⟩ := hseen
    obtain rfl : row₁ = row := Option.some.inj (hrow₁.symm.trans hrow)
    have hsame' := hsame₁.trans hsame
    exact .inr (.inr ⟨id, row', beq_self_eq_true id, hrow', hsame'.mediaObjectId.trans hm, hstatus,
     fun h => hsame'.subject.trans (hsubject h)⟩)
  · exact .inl (hframe k (hcontribution id) hkey)
 | @rejects id checked row row' _ hseen hchecked hrow hrow' hsame hstatus hframe =>
  exact .inl (hframe k (hcontribution id))
 | @reclaims id actor checked row row' _ hseen hchecked hactor hrow hrow' hsame hstatus hframe =>
  exact .inl (hframe k (hcontribution id))

end Decisions

section Protocol

def reviewing : Protocol Row Referenced Mutation where
  inv _ := True
  effect σ event db' := ReviewStep Known σ event db'
  guarantee _ _ _ := True
  outside := outside

theorem reviewing_review : ReviewProtocol reviewing Known where
 guarantee _ _ _ := trivial
 effect _ _ _ _ h := h
 read _ _ row _ hrow := ⟨row, hrow, .refl row⟩
 keepsSeen := by
  intro id checked σ σ' h _ _ hrely
  obtain ⟨row, hrow, hsame⟩ := h
  cases hrely with
  | tick => exact ⟨row, hrow, hsame⟩
  | commit other event db hfree hrows hguar heffect =>
   obtain ⟨row', hrow', hsame'⟩ := (heffect.settles id).kept hrow
   exact ⟨row', hrow', hsame.trans hsame'⟩
  | outside w hkey hfree => exact ⟨row, (lookup_outside hkey fun h => by cases h).trans hrow, hsame⟩
 serviceAccount := by
  intro id σ σ' h _ _ hrely
  cases hrely with
  | tick => exact h
  | commit other event db hfree hrows hguar heffect => exact (heffect.frame_other rfl).trans h
  | outside w hkey hfree => exact (lookup_outside hkey fun h => by cases h).trans h

theorem review_sound (wall : ℕ → ℕ) : Sound reviewing (reviewProgram wall) where
 safe request σ _ := safe_of_safeOn (review_safe reviewing_review wall request) σ
 tick _ _ := trivial
 commit _ _ _ _ _ := trivial
 outside _ _ _ _ := trivial

end Protocol

section Once

def decidedIn (db : Db) (id : ℕ) : Bool := (contribution? db id).any fun row => row.status != .pending

def approvedIn (db : Db) (id : ℕ) : Bool := (contribution? db id).any fun row => row.status == .approved

def leavesPending (id : ℕ) (entry : Entry Row Mutation) : Bool :=
  (contribution? entry.before id).any (fun row => row.status == .pending) && decidedIn entry.after id

inductive Move (wall : ℕ → ℕ) (entry : Entry Row Mutation) (id : ℕ) (row row' : Contribution) : Prop where
  | stays (h : row'.status = row.status)
  | decided (hrow : row.status = .pending) (h : row'.status = .approved ∨ row'.status = .rejected)
  | reclaimed (hrow : row.status = .rejected) (h : row'.status = .reclaimed)
      (hactor : ∃ checked, entry.event = .reclaimed id row.contributedById checked)
      (hdeadline : ∀ deadline ∈ row.reclaimDeadline, wall entry.time ≤ deadline)

def OneLive (db : Db) : Prop :=
  ∀ id id' row row', contribution? db id = some row → contribution? db id' = some row' →
   row.live = true → row'.live = true →
    row'.mediaObjectId = row.mediaObjectId → id' = id

def ApprovedHandedOver (db : Db) : Prop :=
  ∀ id row, contribution? db id = some row → row.status = .approved →
   HandedOver db row.mediaObjectId row.subject

def GivesApproved (entry : Entry Row Mutation) : Prop :=
  ∀ mediaObjectId subject k, k = .media mediaObjectId ∨ k = .attachment mediaObjectId subject →
    entry.after.lookup k = entry.before.lookup k ∨
      (k = .media mediaObjectId ∧ PrivateUpload entry.before entry.after mediaObjectId) ∨
      ∃ id row, handsOver id entry.event = true ∧ contribution? entry.after id = some row ∧
       row.mediaObjectId = mediaObjectId ∧
        row.status = .approved ∧ (k = .attachment mediaObjectId subject → row.subject = subject)

structure DecidedOnce (wall : ℕ → ℕ) (db₀ : Db) (σ : State) : Prop where
  moves : ∀ entry ∈ σ.ledger, ∀ id row, contribution? entry.before id = some row →
    ∃ row', contribution? entry.after id = some row' ∧ SameContribution row row' ∧
     Move wall entry id row row'
  starts : ∀ entry ∈ σ.ledger, ∀ id row, contribution? entry.before id = none →
   contribution? entry.after id = some row →
    row.live = true
  leavesPending : ∀ id, σ.ledger.countP (leavesPending id) ≤ if decidedIn σ.db id then 1 else 0
  oneLive : OneLive σ.db
  handedOver : ApprovedHandedOver σ.db
  handOvers : ∀ id, σ.ledger.countP (fun entry => handsOver id entry.event) +
   (if approvedIn db₀ id then 1 else 0) =
    if approvedIn σ.db id then 1 else 0
  givesApproved : ∀ entry ∈ σ.ledger, GivesApproved entry

/-- A decision finds the contribution as its check did, and a new contribution
    finds no other. -/
def Stands (wall : ℕ → ℕ) (entry : Entry Row Mutation) : Prop :=
  match entry.event with
  | .contributed _ mediaObjectId _ => liveContribution entry.before mediaObjectId = none
  | .approved id _ => ∀ row ∈ contribution? entry.before id, row.status = .pending
  | .rejected id _ => ∀ row ∈ contribution? entry.before id, row.status = .pending ∨ row.status = .rejected
  | .reclaimed id _ _ => ∀ row ∈ contribution? entry.before id,
      row.status = .reclaimed ∨
       (row.status = .rejected ∧ ∀ deadline ∈ row.reclaimDeadline, wall entry.time ≤ deadline)
  | _ => True

instance (wall : ℕ → ℕ) : (entry : Entry Row Mutation) → Decidable (Stands wall entry)
  | ⟨.contributed _ mediaObjectId _, _, before, _⟩ =>
   inferInstanceAs (Decidable (liveContribution before mediaObjectId = none))
  | ⟨.approved id _, _, before, _⟩ =>
   inferInstanceAs (Decidable (∀ row ∈ contribution? before id, row.status = .pending))
  | ⟨.rejected id _, _, before, _⟩ =>
    inferInstanceAs (Decidable (∀ row ∈ contribution? before id, row.status = .pending ∨
     row.status = .rejected))
  | ⟨.reclaimed id _ _, time, before, _⟩ =>
    inferInstanceAs (Decidable (∀ row ∈ contribution? before id, row.status = .reclaimed ∨
      (row.status = .rejected ∧ ∀ deadline ∈ row.reclaimDeadline, wall time ≤ deadline)))
  | ⟨.bytesStored _, _, _, _⟩ | ⟨.bytesDropped _, _, _, _⟩ | ⟨.attached _, _, _, _⟩ | ⟨.reachSet _, _, _, _⟩
  | ⟨.swept _, _, _, _⟩ | ⟨.enqueued _, _, _, _⟩ | ⟨.bytesPurged _, _, _, _⟩ | ⟨.rowPurged _, _, _, _⟩
  | ⟨.jobDone _, _, _, _⟩ => inferInstanceAs (Decidable True)

variable {row : Contribution}

variable {db db₀ : Db}

theorem liveContribution_eq_none {mediaObjectId id : ℕ}
  (h : liveContribution db mediaObjectId = none) (hrow : contribution? db id = some row)
  (hlive : row.live = true) :
  row.mediaObjectId ≠ mediaObjectId := by
 intro heq
 have hmem : (id, row) ∈ contributions db := mem_select.2 ⟨.contribution id, row, hrow, rfl⟩
 have hnot := List.find?_eq_none.1 h (id, row) hmem
 simp [heq, hlive] at hnot

variable {wall : ℕ → ℕ} {σ : State} {event : Mutation} {db' : Db}

variable {id : ℕ}

theorem Settles.move (h : Settles σ.db event db' id)
  (hstands : Stands wall ⟨event, σ.clock, σ.db, db'⟩) (hrow : contribution? σ.db id = some row) :
  ∃ row', contribution? db' id = some row' ∧ SameContribution row row' ∧
   Move wall ⟨event, σ.clock, σ.db, db'⟩ id row row' := by
 cases h with
 | keeps hkeeps hevent => exact ⟨row, hkeeps.trans hrow, .refl row, .stays rfl⟩
 | waits hevent hnew => exact absurd (hnew.symm.trans hrow) (by simp)
 | publishes hevent hnew => exact absurd (hnew.symm.trans hrow) (by simp)
 | approves hevent hbefore hrow' hsame hstatus =>
  subst hevent
  obtain rfl := Option.some.inj (hbefore.symm.trans hrow)
  exact ⟨_, hrow', hsame, .decided (hstands _ hbefore) (.inl hstatus)⟩
 | rejects hevent hbefore hrow' hsame hstatus =>
  subst hevent
  obtain rfl := Option.some.inj (hbefore.symm.trans hrow)
  rcases hstands _ hbefore with hpending | hrejected
  · exact ⟨_, hrow', hsame, .decided hpending (.inr hstatus)⟩
  · exact ⟨_, hrow', hsame, .stays (hstatus.trans hrejected.symm)⟩
 | reclaims hevent hbefore hrow' hsame hstatus =>
  subst hevent
  obtain rfl := Option.some.inj (hbefore.symm.trans hrow)
  rcases hstands _ hbefore with hreclaimed | ⟨hrejected, hdeadline⟩
  · exact ⟨_, hrow', hsame, .stays (hstatus.trans hreclaimed.symm)⟩
  · exact ⟨_, hrow', hsame, .reclaimed hrejected hstatus ⟨_, rfl⟩ hdeadline⟩

theorem Move.keepsDecided {entry : Entry Row Mutation} {row row' : Contribution}
  (h : Move wall entry id row row') (hrow : row.status ≠ .pending) : row'.status ≠ .pending := by
 cases h with
 | stays h => rwa [h]
 | decided hpending h => exact absurd hpending hrow
 | reclaimed hrejected h => rw [h]; decide

theorem Move.live {entry : Entry Row Mutation} {row row' : Contribution}
  (h : Move wall entry id row row') (hlive : row'.live = true) : row.live = true := by
 cases h with
 | stays h => simpa [Contribution.live, h] using hlive
 | decided hpending h => simp [Contribution.live, hpending]
 | reclaimed hrejected h => simp [Contribution.live, h] at hlive

theorem approvedIn_eq (hrow : contribution? db id = some row) :
  approvedIn db id = (row.status == .approved) := by
 rw [approvedIn, hrow, Option.any_some]

theorem decidedIn_eq (hrow : contribution? db id = some row) :
  decidedIn db id = (row.status != .pending) := by
 rw [decidedIn, hrow, Option.any_some]

theorem Settles.handsOver (h : Settles σ.db event db' id)
  (hstands : Stands wall ⟨event, σ.clock, σ.db, db'⟩) :
  (if MediaContribution.handsOver id event = true then 1 else 0) + (if approvedIn σ.db id then 1 else 0) =
   if approvedIn db' id then 1 else 0 := by
 cases h with
 | keeps hkeeps hevent =>
  have hsame : approvedIn db' id = approvedIn σ.db id := by rw [approvedIn, hkeeps, approvedIn]
  rw [hevent, hsame]
  exact Nat.zero_add _
 | waits hevent hnew hrow hmedia hstatus =>
  have hbefore : approvedIn σ.db id = false := by rw [approvedIn, hnew, Option.any_none]
  rw [hevent, hbefore, approvedIn_eq hrow, hstatus]
  rfl
 | publishes hevent hnew hrow hmedia hstatus =>
  have hbefore : approvedIn σ.db id = false := by rw [approvedIn, hnew, Option.any_none]
  rw [hevent, hbefore, approvedIn_eq hrow, hstatus]
  simp [MediaContribution.handsOver]
 | approves hevent hrow hrow' hsame hstatus =>
  subst hevent
  rw [approvedIn_eq hrow, approvedIn_eq hrow', hstatus, hstands _ hrow]
  simp [MediaContribution.handsOver]
 | rejects hevent hrow hrow' hsame hstatus =>
  subst hevent
  rw [approvedIn_eq hrow, approvedIn_eq hrow', hstatus]
  rcases hstands _ hrow with h | h <;> rw [h] <;> rfl
 | reclaims hevent hrow hrow' hsame hstatus =>
  subst hevent
  rw [approvedIn_eq hrow, approvedIn_eq hrow', hstatus]
  rcases hstands _ hrow with h | h
  · rw [h]
    rfl
  · rw [h.1]
    rfl

theorem Settles.leavesPending (h : Settles σ.db event db' id)
  (hstands : Stands wall ⟨event, σ.clock, σ.db, db'⟩) :
  (if MediaContribution.leavesPending id ⟨event, σ.clock, σ.db, db'⟩ = true then 1 else 0) +
   (if decidedIn σ.db id then 1 else 0)
   ≤ if decidedIn db' id then 1 else 0 := by
 cases hrow : contribution? σ.db id with
 | none =>
  have hbefore : decidedIn σ.db id = false := by rw [decidedIn, hrow, Option.any_none]
  have hnot : MediaContribution.leavesPending id ⟨event, σ.clock, σ.db, db'⟩ = false := by
   rw [MediaContribution.leavesPending, hrow, Option.any_none, Bool.false_and]
  rw [hbefore, hnot]
  exact Nat.zero_le _
 | some row =>
  obtain ⟨row', hrow', -, hmove⟩ := h.move hstands hrow
  rw [MediaContribution.leavesPending, hrow, Option.any_some, decidedIn_eq hrow, decidedIn_eq hrow']
  by_cases hpending : row.status = .pending
  · simp [hpending]
  · simp [hpending, hmove.keepsDecided hpending]

theorem oneLive_step (h : ReviewStep Known σ event db')
  (hstands : Stands wall ⟨event, σ.clock, σ.db, db'⟩) (hlive : OneLive σ.db) : OneLive db' := by
 -- a live row is an old one, or the one contribution just made for an object that had none
 have hold : ∀ id row', contribution? db' id = some row' → row'.live = true →
   (∃ row, contribution? σ.db id = some row ∧ row.live = true ∧ row.mediaObjectId = row'.mediaObjectId) ∨
    ∃ status, event = .contributed id row'.mediaObjectId status := by
  intro id row' hrow' hlive'
  cases hrow : contribution? σ.db id with
  | some row =>
   obtain ⟨row'', hrow'', hsame, hmove⟩ := (h.settles id).move hstands hrow
   obtain rfl := Option.some.inj (hrow''.symm.trans hrow')
   exact .inl ⟨row, rfl, hmove.live hlive', hsame.mediaObjectId.symm⟩
  | none =>
   cases h.settles id with
   | keeps hkeeps hevent => exact absurd ((hkeeps.trans hrow).symm.trans hrow') (by simp)
   | waits hevent hnew hrow'' hmedia hstatus =>
    obtain rfl := Option.some.inj (hrow''.symm.trans hrow')
    exact .inr ⟨_, hmedia ▸ hevent⟩
   | publishes hevent hnew hrow'' hmedia hstatus =>
    obtain rfl := Option.some.inj (hrow''.symm.trans hrow')
    exact .inr ⟨_, hmedia ▸ hevent⟩
   | approves hevent hbefore hrow' hsame => exact absurd (hrow.symm.trans hbefore) (by simp)
   | rejects hevent hbefore hrow' hsame => exact absurd (hrow.symm.trans hbefore) (by simp)
   | reclaims hevent hbefore hrow' hsame => exact absurd (hrow.symm.trans hbefore) (by simp)
 intro id₁ id₂ row₁ row₂ hrow₁ hrow₂ hlive₁ hlive₂ hmedia
 rcases hold id₁ row₁ hrow₁ hlive₁ with ⟨old₁, hold₁, hl₁, hm₁⟩ | ⟨status, hevent₁⟩
 · rcases hold id₂ row₂ hrow₂ hlive₂ with ⟨old₂, hold₂, hl₂, hm₂⟩ | ⟨status, hevent₂⟩
   · exact hlive _ _ _ _ hold₁ hold₂ hl₁ hl₂ (hm₂.trans (hmedia.trans hm₁.symm))
   · subst hevent₂
     exact absurd (hm₁.trans hmedia.symm) (liveContribution_eq_none hstands hold₁ hl₁)
 · subst hevent₁
   rcases hold id₂ row₂ hrow₂ hlive₂ with ⟨old₂, hold₂, hl₂, hm₂⟩ | ⟨status', hevent₂⟩
   · exact absurd (hm₂.trans hmedia) (liveContribution_eq_none hstands hold₂ hl₂)
   · exact (Mutation.contributed.inj hevent₂).1.symm

theorem HandedOver.congr {db db' : Db} {mediaObjectId : ℕ} {subject : Subject}
  (h : HandedOver db mediaObjectId subject)
  (hservice : db'.lookup .serviceAccount = db.lookup .serviceAccount)
  (hmedia : media? db' mediaObjectId = media? db mediaObjectId)
  (hattachment : db'.lookup (.attachment mediaObjectId subject) = db.lookup
   (.attachment mediaObjectId subject)) :
  HandedOver db' mediaObjectId subject := by
 obtain ⟨serviceAccountId, row, haccount, hrow⟩ := h.published
 refine ⟨⟨serviceAccountId, row, hservice.trans haccount, hmedia.trans hrow⟩, ?_⟩
 rw [hattachment]
 exact h.attached

theorem no_second_handOver (h : ReviewStep Known σ event db')
  (hstands : Stands wall ⟨event, σ.clock, σ.db, db'⟩) (hlive : OneLive σ.db) {id id' : ℕ}
  {row row' : Contribution} (hrow : contribution? σ.db id = some row)
  (happroved : row.status = .approved) (hhands : handsOver id' event = true)
  (hrow' : contribution? db' id' = some row') (hmedia : row'.mediaObjectId = row.mediaObjectId) :
  False := by
 have hrowlive : row.live = true := by simp [Contribution.live, happroved]
 cases h.settles id' with
 | keeps hkeeps hevent => exact absurd (hevent.symm.trans hhands) (by decide)
 | waits hevent hnew hrow'' hmedia' hstatus =>
  subst hevent
  cases hhands
 | publishes hevent hnew hrow'' hmedia' hstatus =>
  subst hevent
  obtain rfl := Option.some.inj (hrow''.symm.trans hrow')
  exact liveContribution_eq_none hstands hrow hrowlive (hmedia.symm.trans hmedia')
 | @approves checked old new hevent hold hnew hsame hstatus =>
  subst hevent
  obtain rfl := Option.some.inj (hnew.symm.trans hrow')
  have hpending := hstands _ hold
  have holdlive : old.live = true := by simp [Contribution.live, hpending]
  obtain rfl := hlive id id' row old hrow hold hrowlive holdlive (hsame.mediaObjectId.symm.trans hmedia)
  obtain rfl := Option.some.inj (hrow.symm.trans hold)
  exact absurd (happroved.symm.trans hpending) (by decide)
 | rejects hevent hold hnew hsame hstatus =>
  subst hevent
  cases hhands
 | reclaims hevent hold hnew hsame hstatus =>
  subst hevent
  cases hhands

theorem handedOver_step (h : ReviewStep Known σ event db')
  (hstands : Stands wall ⟨event, σ.clock, σ.db, db'⟩) (hlive : OneLive σ.db)
  (hhanded : ApprovedHandedOver σ.db) : ApprovedHandedOver db' := by
 -- a contribution that was approved before keeps what it was given
 have hstill : ∀ id row row', contribution? σ.db id = some row → row.status = .approved →
  contribution? db' id = some row' →
   SameContribution row row' → HandedOver db' row'.mediaObjectId row'.subject := by
  intro id row row' hrow happroved hrow' hsame
  have hgiven := hhanded id row hrow happroved
  rw [hsame.mediaObjectId, hsame.subject]
  have hkept : ∀ k, k = .media row.mediaObjectId ∨ k = .attachment row.mediaObjectId row.subject →
    db'.lookup k = σ.db.lookup k := by
   intro k hk
   rcases h.frame hk with hsame | ⟨-, hupload⟩ | ⟨id', new, hhands, hnew, hmedia, -, -⟩
   · exact hsame
   · obtain ⟨serviceAccountId, old, -, hold⟩ := hgiven.published
     exact absurd (hupload.new.symm.trans hold) (by simp)
   · exact (no_second_handOver h hstands hlive hrow happroved hhands hnew hmedia).elim
  exact hgiven.congr (h.frame_other rfl) (hkept _ (.inl rfl)) (hkept _ (.inr rfl))
 intro id row' hrow' happroved'
 cases h.settles id with
 | keeps hkeeps hevent => exact hstill id row' row' (hkeeps.symm.trans hrow') happroved' hrow' (.refl row')
 | waits hevent hnew hrow'' hmedia hstatus =>
  obtain rfl := Option.some.inj (hrow''.symm.trans hrow')
  exact absurd (hstatus.symm.trans happroved') (by decide)
 | publishes hevent hnew hrow'' hmedia hstatus =>
  subst hevent
  obtain rfl := Option.some.inj (hrow''.symm.trans hrow')
  cases h with
  | bytes hevent hframe => obtain ⟨locator, heq | heq⟩ := hevent <;> cases heq
  | publishes hnew₁ hrow₁ hmedia₁ hstatus₁ hhanded₁ hframe₁ =>
   obtain rfl := Option.some.inj (hrow₁.symm.trans hrow')
   rw [hmedia₁]
   exact hhanded₁
 | @approves checked old new hevent hold hnew hsame hstatus =>
  subst hevent
  obtain rfl := Option.some.inj (hnew.symm.trans hrow')
  cases h with
  | bytes hevent hframe => obtain ⟨locator, heq | heq⟩ := hevent <;> cases heq
  | approves hseen hchecked hrow₁ hrow₁' hsame₁ hstatus₁ hhanded₁ hframe₁ =>
   obtain ⟨old', hold', hsame'⟩ := hseen
   obtain rfl := Option.some.inj (hold'.symm.trans hold)
   have hwhole := hsame'.trans hsame
   rw [hwhole.mediaObjectId, hwhole.subject]
   exact hhanded₁
 | rejects hevent hold hnew hsame hstatus =>
  obtain rfl := Option.some.inj (hnew.symm.trans hrow')
  exact absurd (hstatus.symm.trans happroved') (by decide)
 | reclaims hevent hold hnew hsame hstatus =>
  obtain rfl := Option.some.inj (hnew.symm.trans hrow')
  exact absurd (hstatus.symm.trans happroved') (by decide)

theorem settles_starts (h : Settles σ.db event db' id) (hnone : contribution? σ.db id = none)
  (hrow : contribution? db' id = some row) : row.live = true := by
 cases h with
 | keeps hkeeps hevent => exact absurd ((hkeeps.trans hnone).symm.trans hrow) (by simp)
 | waits hevent hnew hrow' hmedia hstatus =>
  obtain rfl := Option.some.inj (hrow'.symm.trans hrow)
  simp [Contribution.live, hstatus]
 | publishes hevent hnew hrow' hmedia hstatus =>
  obtain rfl := Option.some.inj (hrow'.symm.trans hrow)
  simp [Contribution.live, hstatus]
 | approves hevent hbefore => exact absurd (hnone.symm.trans hbefore) (by simp)
 | rejects hevent hbefore => exact absurd (hnone.symm.trans hbefore) (by simp)
 | reclaims hevent hbefore => exact absurd (hnone.symm.trans hbefore) (by simp)

theorem DecidedOnce.commit (hσ : DecidedOnce wall db₀ σ)
  (h : ReviewStep Known σ event db') (hstands : Stands wall ⟨event, σ.clock, σ.db, db'⟩) :
  DecidedOnce wall db₀ (σ.commit event db') := by
 constructor
 · intro entry hentry id row hrow
   rcases List.mem_append.1 hentry with hentry | hentry
   · exact hσ.moves entry hentry id row hrow
   · obtain rfl := List.mem_singleton.1 hentry
     exact (h.settles id).move hstands hrow
 · intro entry hentry id row hnone hrow
   rcases List.mem_append.1 hentry with hentry | hentry
   · exact hσ.starts entry hentry id row hnone hrow
   · obtain rfl := List.mem_singleton.1 hentry
     exact settles_starts (h.settles id) hnone hrow
 · intro id
   have hbefore := hσ.leavesPending id
   have hlast := (h.settles id).leavesPending hstands
   rw [Shared.commit, List.countP_append, List.countP_singleton]
   dsimp only
   omega
 · exact oneLive_step h hstands hσ.oneLive
 · exact handedOver_step h hstands hσ.oneLive hσ.handedOver
 · intro id
   have hbefore := hσ.handOvers id
   have hlast := (h.settles id).handsOver hstands
   rw [Shared.commit, List.countP_append, List.countP_singleton]
   dsimp only
   omega
 · intro entry hentry
   rcases List.mem_append.1 hentry with hentry | hentry
   · exact hσ.givesApproved entry hentry
   · obtain rfl := List.mem_singleton.1 hentry
     exact fun m subject k hk => h.frame hk

theorem DecidedOnce.tick (hσ : DecidedOnce wall db₀ σ) : DecidedOnce wall db₀ σ.tick :=
 ⟨hσ.moves, hσ.starts, hσ.leavesPending, hσ.oneLive, hσ.handedOver, hσ.handOvers, hσ.givesApproved⟩

theorem DecidedOnce.outside (hσ : DecidedOnce wall db₀ σ) {w : Write Row}
  (hw : MediaContribution.outside w.key = true) :
  DecidedOnce wall db₀ { σ.tick with db := applyWrite σ.db w } := by
 have hsame : ∀ k, k ≠ .systemSetting → (applyWrite σ.db w).lookup k = σ.db.lookup k := fun k hk =>
  lookup_outside hw hk
 have hrow : ∀ id, contribution? (applyWrite σ.db w) id = contribution? σ.db id := fun id =>
  hsame _ fun h => by cases h
 refine ⟨hσ.moves, hσ.starts, fun id => ?_, fun id id' row row' h h' => ?_,
  fun id row h happroved => ?_, fun id => ?_,
  hσ.givesApproved⟩
 · rw [decidedIn, hrow]
   exact hσ.leavesPending id
 · exact hσ.oneLive id id' row row' ((hrow id).symm.trans h) ((hrow id').symm.trans h')
 · exact (hσ.handedOver id row ((hrow id).symm.trans h) happroved).congr (hsame _ fun h => by cases h)
    (hsame _ fun h => by cases h) (hsame _ fun h => by cases h)
 · rw [approvedIn, approvedIn, hrow]
   exact hσ.handOvers id

/-- The media before the requests: nothing of it was contributed twice or given
    away halfway. -/
structure Tidy (db : Db) : Prop where
  oneLive : OneLive db
  handedOver : ApprovedHandedOver db

theorem decidedOnce_start (h : Tidy db₀) : DecidedOnce wall db₀ ⟨db₀, 0, []⟩ where
 moves _ hentry := absurd hentry List.not_mem_nil
 starts _ hentry := absurd hentry List.not_mem_nil
 leavesPending _ := Nat.zero_le _
 oneLive := h.oneLive
 handedOver := h.handedOver
 handOvers _ := Nat.zero_add _
 givesApproved _ hentry := absurd hentry List.not_mem_nil

/-- Reviews whose commits find what their checks had found decide every
    contribution once and give away nothing else. -/
theorem review_decides_once (wall : ℕ → ℕ) {db₀ : Db} (hdb : Tidy db₀)
    {s : Sys Row Referenced Mutation} (h : Reachable (reviewProgram wall) outside db₀ s)
    (hstands : ∀ entry ∈ s.shared.ledger, Stands wall entry) :
    DecidedOnce wall db₀ s.shared := by
 revert hstands
 refine reachable_induction (review_sound wall) trivial
  (fun σ => (∀ entry ∈ σ.ledger, Stands wall entry) → DecidedOnce wall db₀ σ)
   (fun _ => decidedOnce_start hdb) ?_ h
 intro σ σ' _ ih hmoves hstands
 cases hmoves with
 | tick => exact (ih hstands).tick
 | commit event db' hstep =>
  have hbefore := ih fun entry hentry => hstands entry (List.mem_append_left _ hentry)
  exact hbefore.commit hstep (hstands _ (List.mem_append_right _ (List.mem_singleton_self _)))
 | outside w hw => exact (ih hstands).outside hw

end Once

section Runs

def anyone (userId : ℕ) : Actor := ⟨userId, fun _ => true, fun _ => true, fun _ => true⟩

def photoDb : Db :=
  AList.insert (.media 1) ⟨5, 5, .privateReach, 0, 5, "image/png".toList⟩ <|
    AList.insert (.subject ⟨.game, 7⟩) () <|
      AList.insert .serviceAccount (99 : ℕ) <|
        AList.insert .systemSetting ⟨true, 14⟩ (∅ : Db)

theorem contribution?_photoDb (id : ℕ) : contribution? photoDb id = none := rfl

theorem tidy_photoDb : Tidy photoDb where
 oneLive id _ row _ hrow := absurd ((contribution?_photoDb id).symm.trans hrow) (by simp)
 handedOver id row hrow := absurd ((contribution?_photoDb id).symm.trans hrow) (by simp)

def advances (i n : ℕ) : List (Action Row Review) := List.replicate n (.advance i)

def secondTry : List (Action Row Review) :=
  [.spawn (.contribute (anyone 5) 1 ⟨⟨.game, 7⟩, none⟩)] ++ advances 0
   7 ++ [.spawn (.reject (anyone 8) 6 none)] ++
    advances 1 4 ++ [.spawn (.contribute (anyone 5) 1 ⟨⟨.game, 7⟩, none⟩)] ++ advances 2 7 ++
    [.spawn (.approve (anyone 6) 19)] ++ advances 3 8

/-- Two reviewers read the same pending contribution; one approves it, then the
    other rejects it. -/
def splitDecision : List (Action Row Review) :=
  [.spawn (.contribute (anyone 5) 1 ⟨⟨.game, 7⟩, none⟩)] ++ advances 0 7 ++
    [.spawn (.approve (anyone 6) 6), .spawn (.reject (anyone 8) 6 none)] ++ advances 2 2 ++ advances
     1 8 ++ advances 2 2

theorem second_try_decides_once : ∃ s, Reachable (reviewProgram id) outside photoDb s ∧
    (contribution? s.shared.db 6).map (·.status) = some .rejected ∧
    (contribution? s.shared.db 19).map (·.status) = some .approved ∧ DecidedOnce id photoDb s.shared := by
 have hrun : (run (reviewProgram id) outside (initial photoDb) secondTry).map
   (fun s => ((contribution? s.shared.db 6).map (·.status), (contribution? s.shared.db 19).map (·.status),
    decide (∀ entry ∈ s.shared.ledger, Stands id entry))) = some
     (some .rejected, some .approved, true) := by decide +kernel
 obtain ⟨s, hs, hfacts⟩ := Option.map_eq_some_iff.1 hrun
 have hreach := reachable_of_run hs
 simp only [Prod.mk.injEq, decide_eq_true_eq] at hfacts
 exact ⟨s, hreach, hfacts.1, hfacts.2.1, review_decides_once id tidy_photoDb hreach hfacts.2.2⟩

/-- The photo stays public and the service account's while its one contribution
    is rejected. -/
theorem split_decision : ∃ s, Reachable (reviewProgram id) outside photoDb s ∧
    (contribution? s.shared.db 6).map (·.status) = some .rejected ∧
    (media? s.shared.db 1).map (fun media => (media.ownerId, media.reach)) = some (99, .publicReach) ∧
    ¬ DecidedOnce id photoDb s.shared := by
 have hrun : (run (reviewProgram id) outside (initial photoDb) splitDecision).map
   (fun s => ((contribution? s.shared.db 6).map (·.status),
    (media? s.shared.db 1).map (fun media => (media.ownerId, media.reach)),
    s.shared.ledger.countP fun entry => handsOver 6 entry.event, approvedIn photoDb 6,
     approvedIn s.shared.db 6)) =
   some (some .rejected, some (99, .publicReach), 1, false, false) := by decide +kernel
 obtain ⟨s, hs, hfacts⟩ := Option.map_eq_some_iff.1 hrun
 simp only [Prod.mk.injEq] at hfacts
 obtain ⟨hrejected, hpublic, hgiven, hbefore, hafter⟩ := hfacts
 refine ⟨s, reachable_of_run hs, hrejected, hpublic, fun h => ?_⟩
 have hcount := h.handOvers 6
 rw [hgiven, hbefore, hafter] at hcount
 simp at hcount

end Runs

end BoardGamesEmpire.MediaContribution
