import BoardGamesEmpire.GameSharing

set_option autoImplicit false

/-!
# What a share's standing rests on

Every commit creates one share, approves one that waits, or only ends shares.
What a creation or an approval asked of the household is still so when it
commits: it holds the household's row, and the roster moves only under that row
held exclusively.
-/
namespace BoardGamesEmpire.GameSharing
open ReadCommitted ReadCommittedProtocol

abbrev State := Shared Row Mutation

section Ledger

def approves (id : ℕ) : Mutation → Bool
  | .shareApproved _ _ shareId _ => shareId == id
  | _ => false

def approvals (ledger : List (Entry Row Mutation)) (id : ℕ) : List (Entry Row Mutation) :=
  ledger.filter fun e => approves id e.event

/-- The share was created in effect, in a live household, by a sharer with a
    seat on its roster and an ability that allows that on this roster and the
    policy the transaction read. -/
def CreatedInEffect (e : Entry Row Mutation) (id : ℕ) (share : GameShare) (householdId : ℕ) : Prop :=
  ∃ actor game settings now, e.event = .shareCreated actor id share game settings ∧
    share.sharedById = some actor.userId ∧ share.approvedAt = some now ∧
     isLive e.before householdId = true ∧
    (∃ member ∈ roster e.before householdId, member.userId = actor.userId) ∧
    actor.can (.createForHousehold (householdGameShareSubject householdId (some now) game
      ⟨settings, roster e.before householdId⟩)) = true

/-- The share was put in effect in a live household by a caller whom its roster
    allows to. -/
def ApprovedInEffect (e : Entry Row Mutation) (id : ℕ) (share : GameShare) (householdId : ℕ) : Prop :=
  ∃ actor now, e.event = .shareApproved actor householdId id now ∧ share.approvedAt = some now ∧
    share.approvedById = some actor.userId ∧ isLive e.before householdId = true ∧
    actor.can (.approve id householdId (roster e.before householdId)) = true

end Ledger

section Steps

variable {σ : State} {m : Mutation} {db' : Db} {id : ℕ} {share : GameShare}

structure Creation (σ : State) (id : ℕ) (share : GameShare) (db' : Db) : Prop where
  unseen : share? σ.db id = none ∧ ∀ e ∈ σ.ledger, e.after.lookup (.share id) = none
  born : id < σ.clock
  free : index? σ.db share.gameId share.recipient = none
  inserted : share? db' id = some share
  indexed : index? db' share.gameId share.recipient = some id
  shares : ∀ other, other ≠ id → share? db' other = share? σ.db other
  index : ∀ gameId recipient, (gameId, recipient) ≠ (share.gameId, share.recipient) →
    index? db' gameId recipient = index? σ.db gameId recipient

structure Ends (db db' : Db) : Prop where
  share : ∀ id, share? db' id = share? db id ∨ share? db' id = none
  index : ∀ id share, share? db' id = some share →
    index? db' share.gameId share.recipient = index? db share.gameId share.recipient

def Mutation.opens : Mutation → Bool
  | .shareCreated _ _ _ _ _ | .shareApproved _ _ _ _ => true
  | _ => false

inductive ShareStep (σ : State) : Mutation → Db → Prop where
  | created {actor : Actor} {id : ℕ} {share : GameShare} {game : Game}
   {settings : Option MemberSharePolicy} {db' : Db}
      (h : Creation σ id share db')
      (hopen : ∀ householdId, share.recipient = .household householdId → share.approvedAt ≠ none →
        CreatedInEffect ⟨.shareCreated actor id share game settings, σ.clock, σ.db, db'⟩ id share
         householdId) :
      ShareStep σ (.shareCreated actor id share game settings) db'
  | approved {actor : Actor} {householdId id now : ℕ} {share : GameShare} {db' : Db}
      (hshare : share? σ.db id = some share) (hrecipient : share.recipient = .household householdId)
      (hwaiting : share.approvedAt = none)
       (hwritten : share? db' id = some (approvedShare actor now share))
      (hrest : ∀ k, k ≠ .share id → db'.lookup k = σ.db.lookup k)
      (happroved : ApprovedInEffect ⟨.shareApproved actor householdId id now, σ.clock, σ.db, db'⟩ id
        (approvedShare actor now share) householdId) :
      ShareStep σ (.shareApproved actor householdId id now) db'
  | ended {m : Mutation} {db' : Db} (hm : m.opens = false) (h : Ends σ.db db') : ShareStep σ m db'

/-- Every share is the one its index entry leads to, and has the approvals its
    column says. -/
structure Standing (σ : State) : Prop where
  indexed : ∀ id share, share? σ.db id = some share → index? σ.db share.gameId share.recipient = some id
  waiting : ∀ id share, share? σ.db id = some share → share.approvedAt = none → approvals σ.ledger id = []
  inEffect : ∀ id share householdId, share? σ.db id = some share →
   share.recipient = .household householdId →
    share.approvedAt ≠ none →
      (approvals σ.ledger id = [] ∧ ∃ e ∈ σ.ledger, CreatedInEffect e id share householdId) ∨
      ∃ e, approvals σ.ledger id = [e] ∧ ApprovedInEffect e id share householdId
  born : ∀ id share, share? σ.db id = some share → id < σ.clock
  past : ∀ e ∈ σ.ledger, ∀ id share, share? e.after id = some share → id < σ.clock
  approved : ∀ e ∈ σ.ledger, ∀ id, approves id e.event = true → share? e.after id ≠ none

theorem approvals_concat (ledger : List (Entry Row Mutation)) (e : Entry Row Mutation) (id : ℕ) :
  approvals (ledger ++ [e]) id = approvals ledger id ++ if approves id e.event then [e] else [] := by
 rw [approvals, List.filter_append, ← approvals]
 congr 1
 by_cases h : approves id e.event = true
 · simp [h]
 · simp [h]

theorem approves_eq_false (h : m.opens = false) (id : ℕ) : approves id m = false := by
 cases m with
 | shareApproved actor householdId shareId now => cases h
 | _ => rfl

theorem Standing.keeps (h : Standing σ) (hsame : share? σ.db id = some share)
  (hother : approves id m = false) :
  (share.approvedAt = none → approvals (σ.commit m db').ledger id = []) ∧
  ∀ householdId, share.recipient = .household householdId → share.approvedAt ≠ none →
   (approvals (σ.commit m db').ledger id = [] ∧
    ∃ e ∈ (σ.commit m db').ledger, CreatedInEffect e id share householdId) ∨
   ∃ e, approvals (σ.commit m db').ledger id = [e] ∧ ApprovedInEffect e id share householdId := by
 have happrovals : approvals (σ.commit m db').ledger id = approvals σ.ledger id := by
  rw [Shared.commit, approvals_concat, hother, if_neg Bool.false_ne_true, List.append_nil]
 rw [happrovals]
 refine ⟨h.waiting id share hsame, fun householdId hrecipient happroved => ?_⟩
 rcases h.inEffect id share householdId hsame hrecipient happroved with ⟨hnone, e, he, hcreated⟩ | hsome
 · exact .inl ⟨hnone, e, List.mem_append_left _ he, hcreated⟩
 · exact .inr hsome

theorem Creation.approvals_nil (h : Creation σ id share db') (hinv : Standing σ) :
  approvals σ.ledger id = [] := by
 apply List.filter_eq_nil_iff.2
 intro e he happroves
 exact hinv.approved e he id happroves (h.unseen.2 e he)

theorem Standing.commit_past (h : Standing σ)
  (hafter : ∀ id share, share? db' id = some share → id < σ.clock)
  (hentry : ∀ id, approves id m = true → share? db' id ≠ none) :
  (∀ e ∈ (σ.commit m db').ledger, ∀ id share, share? e.after id = some share → id < σ.clock + 1) ∧
  ∀ e ∈ (σ.commit m db').ledger, ∀ id, approves id e.event = true → share? e.after id ≠ none := by
 constructor
 · intro e he id share hshare
   rcases List.mem_append.1 he with he | he
   · have := h.past e he id share hshare
     omega
   · rw [List.mem_singleton.1 he] at hshare
     have := hafter id share hshare
     omega
 · intro e he id happroves
   rcases List.mem_append.1 he with he | he
   · exact h.approved e he id happroves
   · rw [List.mem_singleton.1 he] at happroves ⊢
     exact hentry id happroves

theorem Standing.created (h : Standing σ) {actor : Actor} {game : Game}
  {settings : Option MemberSharePolicy}
  (hcreation : Creation σ id share db')
  (hopen : ∀ householdId, share.recipient = .household householdId → share.approvedAt ≠ none →
   CreatedInEffect ⟨.shareCreated actor id share game settings, σ.clock, σ.db, db'⟩ id share householdId) :
  Standing (σ.commit (.shareCreated actor id share game settings) db') := by
 have hborn : ∀ other row, share? db' other = some row → other < σ.clock := by
  intro other row hrow
  by_cases heq : other = id
  · rw [heq]
    exact hcreation.born
  · exact h.born other row ((hcreation.shares other heq).symm.trans hrow)
 have hnil : approvals (σ.commit (.shareCreated actor id share game settings) db').ledger id = [] := by
  rw [Shared.commit, approvals_concat, hcreation.approvals_nil h]
  rfl
 obtain ⟨hpast, happroved⟩ := h.commit_past (m := .shareCreated actor id share game settings) hborn
  fun _ heq => by cases heq
 refine ⟨?_, ?_, ?_, fun other row hrow => Nat.lt_succ_of_lt (hborn other row hrow), hpast, happroved⟩
 · intro other row hrow
   by_cases heq : other = id
   · subst heq
     obtain rfl : share = row := Option.some.inj (hcreation.inserted.symm.trans hrow)
     exact hcreation.indexed
   · have hold := h.indexed other row ((hcreation.shares other heq).symm.trans hrow)
     refine (hcreation.index _ _ fun hkey => ?_).trans hold
     rw [(Prod.mk.inj hkey).1, (Prod.mk.inj hkey).2, hcreation.free] at hold
     cases hold
 · intro other row hrow hwaiting
   by_cases heq : other = id
   · rw [heq]
     exact hnil
   · exact (h.keeps ((hcreation.shares other heq).symm.trans hrow) rfl).1 hwaiting
 · intro other row householdId hrow hrecipient happroved
   by_cases heq : other = id
   · subst heq
     obtain rfl : share = row := Option.some.inj (hcreation.inserted.symm.trans hrow)
     exact .inl ⟨hnil, _, List.mem_append_right _ List.mem_cons_self,
      hopen householdId hrecipient happroved⟩
   · exact (h.keeps ((hcreation.shares other heq).symm.trans hrow) rfl).2 householdId hrecipient happroved

theorem Standing.approves (h : Standing σ) {actor : Actor} {householdId now : ℕ}
  (hshare : share? σ.db id = some share)
  (hrecipient : share.recipient = .household householdId) (hwaiting : share.approvedAt = none)
  (hwritten : share? db' id = some (approvedShare actor now share))
  (hrest : ∀ k, k ≠ .share id → db'.lookup k = σ.db.lookup k)
  (happroved : ApprovedInEffect ⟨.shareApproved actor householdId id now, σ.clock, σ.db, db'⟩ id
   (approvedShare actor now share) householdId) :
  Standing (σ.commit (.shareApproved actor householdId id now) db') := by
 have hothers : ∀ other, other ≠ id → share? db' other = share? σ.db other :=
  fun other hne => hrest _ fun heq => hne (Key.share.inj heq)
 have hmine : ∀ row, share? db' id = some row → row = approvedShare actor now share :=
  fun row hrow => (Option.some.inj (hwritten.symm.trans hrow)).symm
 have hindex : ∀ gameId recipient, index? db' gameId recipient = index? σ.db gameId recipient :=
  fun _ _ => hrest _ (by simp)
 have hborn : ∀ other row, share? db' other = some row → other < σ.clock := by
  intro other row hrow
  by_cases heq : other = id
  · rw [heq]
    exact h.born id share hshare
  · exact h.born other row ((hothers other heq).symm.trans hrow)
 have hoff : ∀ other, other ≠ id →
  GameSharing.approves other (.shareApproved actor householdId id now) = false :=
  fun other hne => beq_false_of_ne (Ne.symm hne)
 obtain ⟨hpast, hseen⟩ :=
  h.commit_past (m := .shareApproved actor householdId id now) hborn fun other heq => by
  rw [← eq_of_beq heq, hwritten]
  exact Option.some_ne_none _
 refine ⟨?_, ?_, ?_, fun other row hrow => Nat.lt_succ_of_lt (hborn other row hrow), hpast, hseen⟩
 · intro other row hrow
   refine (hindex _ _).trans ?_
   by_cases heq : other = id
   · subst heq
     rw [hmine row hrow]
     exact h.indexed other share hshare
   · exact h.indexed other row ((hothers other heq).symm.trans hrow)
 · intro other row hrow hnone
   by_cases heq : other = id
   · subst heq
     rw [hmine row hrow] at hnone
     cases hnone
   · exact (h.keeps ((hothers other heq).symm.trans hrow) (hoff other heq)).1 hnone
 · intro other row householdId' hrow hrecipient' hset
   by_cases heq : other = id
   · subst heq
     obtain rfl := hmine row hrow
     obtain rfl : householdId = householdId' := Recipient.household.inj (hrecipient.symm.trans hrecipient')
     refine .inr ⟨_, ?_, happroved⟩
     rw [Shared.commit, approvals_concat, h.waiting other share hshare hwaiting]
     exact if_pos (beq_self_eq_true other)
   · exact (h.keeps ((hothers other heq).symm.trans hrow) (hoff other heq)).2 householdId' hrecipient' hset

theorem Standing.ended (h : Standing σ) (hm : m.opens = false) (hends : Ends σ.db db') :
  Standing (σ.commit m db') := by
 have hold : ∀ id share, share? db' id = some share → share? σ.db id = some share := by
  intro id share hshare
  rcases hends.share id with hsame | hgone
  · exact hsame.symm.trans hshare
  · rw [hgone] at hshare
    cases hshare
 have hborn : ∀ id share, share? db' id = some share → id < σ.clock :=
  fun id share hshare => h.born id share (hold id share hshare)
 obtain ⟨hpast, happroved⟩ := h.commit_past (m := m) hborn fun id heq => by
  rw [approves_eq_false hm] at heq
  cases heq
 refine ⟨fun id share hshare => ?_, fun id share hshare => ?_, fun id share householdId hshare => ?_,
  fun id share hshare => Nat.lt_succ_of_lt (hborn id share hshare), hpast, happroved⟩
 · exact (hends.index id share hshare).trans (h.indexed id share (hold id share hshare))
 · exact (h.keeps (hold id share hshare) (approves_eq_false hm id)).1
 · exact (h.keeps (hold id share hshare) (approves_eq_false hm id)).2 householdId

theorem Standing.commit (h : Standing σ) (hstep : ShareStep σ m db') :
  Standing (σ.commit m db') := by
 cases hstep with
 | created hcreation hopen => exact h.created hcreation hopen
 | approved hshare hrecipient hwaiting hwritten hrest happroved =>
  exact h.approves hshare hrecipient hwaiting hwritten hrest happroved
 | ended hm hends => exact h.ended hm hends

theorem Standing.elapse (h : Standing σ) {db' : Db}
  (hsame : ∀ k, outside k = false → db'.lookup k = σ.db.lookup k) :
  Standing { σ.tick with db := db' } := by
 have hshare : ∀ id, share? db' id = share? σ.db id := fun id => hsame (.share id) rfl
 refine ⟨?_, ?_, ?_, ?_, ?_, h.approved⟩
 · intro id share hrow
   exact (hsame (.shareIndex _ _) rfl).trans (h.indexed id share ((hshare id).symm.trans hrow))
 · exact fun id share hrow => h.waiting id share ((hshare id).symm.trans hrow)
 · exact fun id share householdId hrow => h.inEffect id share householdId ((hshare id).symm.trans hrow)
 · exact fun id share hrow => Nat.lt_succ_of_lt (h.born id share ((hshare id).symm.trans hrow))
 · exact fun e he id share hrow => Nat.lt_succ_of_lt (h.past e he id share hrow)

end Steps

section Safety

def OfHousehold (householdId : ℕ) : Key → Prop
  | .household id | .member id _ | .householdRole id _ => id = householdId
  | _ => False

def householdLocks : Discipline Row Empty where
  requires _ k _ _ :=
    match k with
    | .household id | .member id _ | .householdRole id _ => [⟨.row (.household id), true⟩]
    | _ => []

def sharing : Protocol Row Empty Mutation where
  inv := Standing
  effect := ShareStep
  guarantee := householdLocks.Respected
  outside := outside

variable {db db' : Db} {known held : List (Lock Key Empty)} {σ : State} {log : List (Write Row)}
  {Φ : State → Prop} {householdId : ℕ} {next : ShareProgram}

theorem keeps_household {exclusive : Bool}
  (h : (⟨.row (.household householdId), exclusive⟩ : Lock Key Empty) ∈ known)
  (db : Db) : Keeps sharing known fun σ => Agree (OfHousehold householdId) db σ.db := by
 refine keeps_agree (D := householdLocks) (fun _ _ _ h => h) (fun k hk => ?_)
  (fun k hk _ old new _ => ?_) db
 · cases k with
   | household id => rfl
   | member id memberId => rfl
   | householdRole id memberId => rfl
   | _ => exact hk.elim
 · refine ⟨⟨.row (.household householdId), true⟩, ?_, _, h, rfl, .inr rfl⟩
   cases k with
   | household id => cases hk; exact List.mem_cons_self
   | member id memberId => cases hk; exact List.mem_cons_self
   | householdRole id memberId => cases hk; exact List.mem_cons_self
   | _ => exact hk.elim

theorem isLive_congr (h : Agree (OfHousehold householdId) db db') :
  isLive db' householdId = isLive db householdId := by
 rw [isLive, household?, h (.household householdId) rfl, isLive]

theorem mem_roster {v : Db} {member : RosterRow} : member ∈ roster v householdId ↔
  ∃ memberId, member? v householdId memberId = some member.userId ∧
   householdRole? v householdId memberId = member.role := by
 rw [roster, List.mem_toFinset, List.mem_map]
 constructor
 · intro h
   obtain ⟨⟨memberId, member'⟩, hmem, rfl⟩ := h
   obtain ⟨k, row, hrow, hmember⟩ := mem_select.1 hmem
   cases k with
   | member id memberId' =>
    dsimp only [asMember] at hmember
    split_ifs at hmember with heq
    subst heq
    cases hmember
    exact ⟨_, hrow, rfl⟩
   | _ => cases hmember
 · intro h
   obtain ⟨memberId, hmember, hrole⟩ := h
   refine ⟨(memberId, member),
    mem_select.2 ⟨.member householdId memberId, member.userId, hmember, ?_⟩, rfl⟩
   dsimp only [asMember]
   rw [if_pos rfl, hrole]

theorem roster_congr (h : Agree (OfHousehold householdId) db db') :
  roster db' householdId = roster db householdId := by
 ext member
 rw [mem_roster, mem_roster]
 apply exists_congr
 intro memberId
 rw [member?, householdRole?, h (.member householdId memberId) rfl,
  h (.householdRole householdId memberId) rfl]

theorem safeOn_if {p : Prop} [Decidable p] (hkeeps : Keeps sharing known Φ)
  (h : p → SafeOn sharing known Φ next log) :
  SafeOn sharing known Φ (if p then next else refuse) log := by
 by_cases hp : p
 · rw [if_pos hp]
   exact h hp
 · rw [if_neg hp]
   exact safeOn_refused hkeeps

theorem safeOn_unless {p : Prop} [Decidable p] (hkeeps : Keeps sharing known Φ)
  (h : ¬ p → SafeOn sharing known Φ next log) :
  SafeOn sharing known Φ (if p then refuse else next) log := by
 by_cases hp : p
 · rw [if_pos hp]
   exact safeOn_refused hkeeps
 · rw [if_neg hp]
   exact h hp

theorem safeOn_lockHousehold {exclusive : Bool} (hnext : ∀ db, isLive db householdId = true →
   SafeOn sharing (known ++ [⟨.row (.household householdId), exclusive⟩])
    (fun σ => Agree (OfHousehold householdId) db σ.db) next []) :
  SafeOn sharing known (fun _ => True) (lockHousehold exclusive householdId next) [] := by
 refine safeOn_stmt (keeps_const _ _ _) fun σ _ _ _ => ?_
 rw [show view σ [] = σ.db from rfl]
 by_cases hlive : isLive σ.db householdId = true
 · refine ⟨fun σ' => Agree (OfHousehold householdId) σ.db σ'.db, .refl _ _, ?_⟩
   rw [if_pos hlive, if_pos hlive]
   exact hnext σ.db hlive
 · refine ⟨fun _ => True, trivial, ?_⟩
   rw [if_neg hlive, if_neg hlive]
   exact safeOn_refused (keeps_const _ _ _)

section Create

variable {actor : Actor} {game : Game} {share : GameShare} {settings : Option MemberSharePolicy}

theorem insert_lookup {id : ℕ} {k : Key} (h : k ≠ .share id)
  (h' : k ≠ .shareIndex share.gameId share.recipient) :
  (applyLog db (insertWrites id share)).lookup k = db.lookup k := by
 apply lookup_applyLog_of_notMem
 intro w hw heq
 rcases List.mem_cons.1 hw with rfl | hw
 · exact h heq.symm
 · rw [List.mem_singleton.1 hw] at heq
   exact h' heq.symm

theorem insert_creation {id : ℕ} (hunseen : share? σ.db id = none ∧
  ∀ e ∈ σ.ledger, e.after.lookup (.share id) = none)
  (hborn : id < σ.clock) (hfree : index? σ.db share.gameId share.recipient = none) :
  Creation σ id share (applyLog σ.db (insertWrites id share)) := by
 refine ⟨hunseen, hborn, hfree, ?_, ?_, fun other hne => ?_, fun gameId recipient hne => ?_⟩
 · refine lookup_applyLog_eq _ ⟨_, List.mem_cons_self, rfl⟩ fun w hw hkey => ?_
   rcases List.mem_cons.1 hw with rfl | hw
   · rfl
   · rw [List.mem_singleton.1 hw] at hkey
     cases hkey
 · refine lookup_applyLog_eq _ ⟨_, List.mem_cons_of_mem _ List.mem_cons_self, rfl⟩ fun w hw hkey => ?_
   rcases List.mem_cons.1 hw with rfl | hw
   · cases hkey
   · rw [List.mem_singleton.1 hw]
 · exact insert_lookup (fun heq => hne (Key.share.inj heq)) (by simp)
 · refine insert_lookup (by simp) fun heq => hne ?_
   obtain ⟨hgame, hrecipient⟩ := Key.shareIndex.inj heq
   rw [hgame, hrecipient]

theorem respected_of_shares (h : ∀ w ∈ log, ∀ householdId, ¬ OfHousehold householdId w.key) :
  householdLocks.Respected held db (applyLog db log) := by
 intro k hne l hl
 exfalso
 have hsame : ∀ householdId, OfHousehold householdId k → False := fun householdId hk =>
  hne (agree_applyLog (S := OfHousehold householdId) db (fun w hw => h w hw householdId) k hk)
 cases k with
 | household id => exact hsame id rfl
 | member id memberId => exact hsame id rfl
 | householdRole id memberId => exact hsame id rfl
 | _ => cases hl

theorem safeOn_insertShare (hkeeps : Keeps sharing known Φ)
  (hopen : ∀ σ id db', Φ σ → ∀ householdId, share.recipient = .household householdId →
   share.approvedAt ≠ none →
   CreatedInEffect ⟨.shareCreated actor id share game settings, σ.clock, σ.db, db'⟩ id share householdId) :
  SafeOn sharing known Φ (insertShare actor share game settings) [] := by
 refine safeOn_stmt hkeeps fun σ hinv hΦ hΦ' => ?_
 rw [show view σ [] = σ.db from rfl, List.nil_append, List.nil_append]
 by_cases hinsert : insertable σ.clock share σ.db = true
 · rw [if_pos hinsert, if_pos hinsert]
   obtain ⟨⟨⟨hnone, hfree⟩, -⟩, -⟩ : (((share? σ.db σ.clock).isNone = true ∧
     (index? σ.db share.gameId share.recipient).isNone = true) ∧ _) ∧ _ := by
    simpa only [insertable, Bool.and_eq_true] using hinsert
   have hunseen : ∀ e ∈ σ.ledger, e.after.lookup (.share σ.clock) = none := by
    intro e he
    by_contra hsome
    obtain ⟨row, hrow⟩ := Option.ne_none_iff_exists'.1 hsome
    exact Nat.lt_irrefl _ (hinv.past e he σ.clock row hrow)
   have hlocks : writeLocks (A := Empty) (insertWrites σ.clock share) =
     [⟨.row (.share σ.clock), true⟩, ⟨.row (.shareIndex share.gameId share.recipient), true⟩] := rfl
   refine ⟨fun σ' => Φ σ' ∧
    ((share? σ'.db σ.clock = none ∧ ∀ e ∈ σ'.ledger, e.after.lookup (.share σ.clock) = none) ∧
    (index? σ'.db share.gameId share.recipient = none ∧ σ.clock + 1 ≤ σ'.clock)), ?_, ?_⟩
   · exact ⟨hΦ', ⟨Option.isNone_iff_eq_none.1 hnone, hunseen⟩, Option.isNone_iff_eq_none.1 hfree,
      Nat.le_refl _⟩
   · rw [hlocks]
     have hkept : Keeps sharing (known ++ [⟨.row (.share σ.clock), true⟩,
       ⟨.row (.shareIndex share.gameId share.recipient), true⟩]) fun σ' => Φ σ' ∧
       ((share? σ'.db σ.clock = none ∧ ∀ e ∈ σ'.ledger, e.after.lookup (.share σ.clock) = none) ∧
        (index? σ'.db share.gameId share.recipient = none ∧ σ.clock + 1 ≤ σ'.clock)) := by
      refine (hkeeps.weaken (List.subset_append_left _ _)).and (Keeps.and ?_ (Keeps.and ?_ ?_))
      · exact keeps_unseen _ (k := Key.share σ.clock) (List.mem_append_right _ List.mem_cons_self)
      · exact keeps_row _ (k := Key.shareIndex share.gameId share.recipient)
         (List.mem_append_right _ (List.mem_cons_of_mem _ List.mem_cons_self)) none
      · exact keeps_clock _ _ _
     refine safeOn_commit hkept (fun held σ' _ _ _ h => ⟨?_, ?_⟩) safeOn_halt
     · apply respected_of_shares
       intro w hw householdId hk
       rcases List.mem_cons.1 hw with rfl | hw
       · exact hk
       · rw [List.mem_singleton.1 hw] at hk
         exact hk
     · exact .created (insert_creation h.2.1 h.2.2.2 h.2.2.1) fun householdId =>
        hopen σ' σ.clock _ h.1 householdId
 · rw [if_neg hinsert, if_neg hinsert]
   exact ⟨fun _ => True, trivial, safeOn_refused (keeps_const _ _ _)⟩

theorem safeOn_askApproval {now : ℕ} {then_ : Option ℕ → ShareAuthority → ShareProgram}
  (hkeeps : Keeps sharing known Φ)
  (hnext : ∀ σ, Φ σ →
   ∀ authority approvedAt, shareAuthorityOf σ.db householdId actor.userId = some authority →
   approvalUnder actor authority game householdId now = some approvedAt →
   SafeOn sharing known Φ (then_ approvedAt authority) []) :
  SafeOn sharing known Φ (askApproval actor game householdId now then_) [] := by
 refine safeOn_query hkeeps fun σ _ hΦ => ?_
 rw [show view σ [] = σ.db from rfl]
 cases hauthority : shareAuthorityOf σ.db householdId actor.userId with
 | none => exact safeOn_refused hkeeps
 | some authority =>
  dsimp only
  cases happroval : approvalUnder actor authority game householdId now with
  | none => exact safeOn_refused hkeeps
  | some approvedAt => exact hnext σ hΦ authority approvedAt hauthority happroval

theorem safe_create (actor : Actor) (now gameId : ℕ) (userId householdId : Option ℕ) :
  SafeOn sharing [] (fun _ => True) (create actor now gameId userId householdId) [] := by
 have htrue : ∀ known, Keeps sharing known fun _ => True := fun known => keeps_const _ known _
 unfold create
 cases recipientRequestOf userId householdId with
 | none => exact safeOn_halt
 | some recipient =>
  refine safeOn_query (htrue _) fun σ _ _ => ?_
  cases (game? (view σ []) gameId).filter fun game => game.deletedAt.isNone && game.createdById == some actor.userId with
  | none => exact safeOn_refused (htrue _)
  | some game =>
   cases recipient with
   | user userId =>
    refine safeOn_query (htrue _) fun σ _ _ => ?_
    refine safeOn_if (htrue _) fun _ => safeOn_unless (htrue _) fun _ => ?_
    refine safeOn_query (htrue _) fun σ _ _ => ?_
    refine safeOn_unless (htrue _) fun _ => safeOn_if (htrue _) fun _ => ?_
    exact safeOn_insertShare (htrue _) fun _ _ _ _ _ heq => by cases heq
   | household householdId =>
    refine safeOn_askApproval (htrue _) fun _ _ _ _ _ _ => ?_
    refine safeOn_lockHousehold fun db hlive => ?_
    have hkeeps : Keeps sharing ([] ++ [⟨.row (.household householdId), false⟩]) fun σ =>
      Agree (OfHousehold householdId) db σ.db := keeps_household List.mem_cons_self db
    refine safeOn_askApproval hkeeps fun σ hagree authority approvedAt hauthority happroval => ?_
    refine safeOn_insertShare hkeeps fun σ' id db' hagree' household hrecipient happroved => ?_
    obtain rfl : householdId = household := Recipient.household.inj hrecipient
    unfold shareAuthorityOf at hauthority
    split_ifs at hauthority with hseat
    obtain rfl := Option.some.inj hauthority
    have hroster : roster σ.db householdId = roster σ'.db householdId :=
     (roster_congr hagree).trans (roster_congr hagree').symm
    unfold approvalUnder at happroval
    split_ifs at happroval with hcan hwait
    · obtain rfl := Option.some.inj happroval
      refine ⟨actor, game, settings? σ.db householdId, now, rfl, rfl, rfl, ?_, ?_, ?_⟩
      · exact (isLive_congr hagree').trans hlive
      · rw [← hroster]
        exact hseat.2
      · rw [← hroster]
        exact hcan
    · obtain rfl := Option.some.inj happroval
      exact absurd rfl happroved

end Create

end Safety

end BoardGamesEmpire.GameSharing
