import BoardGamesEmpire.GameSharingSafe

set_option autoImplicit false

/-!
# Approvals, deletes and departures

An approval writes before its last question, so what it commits is the row it
holds. Every other request ends shares at most, each with its index entry.
-/
namespace BoardGamesEmpire.GameSharing
open ReadCommitted ReadCommittedProtocol

variable {known held : List (Lock Key Empty)} {σ : State} {log : List (Write Row)} {Φ : State → Prop}
  {householdId : ℕ} {next : ShareProgram} {S : Key → Prop}

section Approve

variable {actor : Actor}

theorem safeOn_assertShareAuthority {shareId : ℕ} {then_ : Finset RosterRow → ShareProgram}
  (hkeeps : Keeps sharing known Φ)
  (hnext : ∀ σ, Φ σ → actor.can (.approve shareId householdId (roster σ.db householdId)) = true →
   SafeOn sharing known Φ (then_ (roster σ.db householdId)) []) :
  SafeOn sharing known Φ (assertShareAuthority actor householdId shareId then_) [] :=
 safeOn_query hkeeps fun σ _ hΦ => safeOn_if hkeeps (hnext σ hΦ)

theorem safeOn_sharerCouldStillShare (abilities : ℕ → Db → ℕ → Ability) {share : GameShare}
  {members : Finset RosterRow} {now : ℕ} (hkeeps : Keeps sharing known Φ)
  (hnext : SafeOn sharing known Φ next log) :
  SafeOn sharing known Φ (sharerCouldStillShare abilities householdId share members now next) log := by
 unfold sharerCouldStillShare
 cases share.sharedById with
 | none => exact safeOn_refused hkeeps
 | some sharerId =>
  refine safeOn_if hkeeps fun _ => safeOn_query hkeeps fun _ _ _ => safeOn_query hkeeps fun σ _ _ => ?_
  cases game? (view σ log) share.gameId with
  | none => exact safeOn_refused hkeeps
  | some game => exact safeOn_query hkeeps fun _ _ _ => safeOn_if hkeeps fun _ => hnext

theorem safe_approve (abilities : ℕ → Db → ℕ → Ability) (actor : Actor)
  (now householdId shareId : ℕ) :
  SafeOn sharing [] (fun _ => True) (approve abilities actor now householdId shareId) [] := by
 refine safeOn_assertShareAuthority (keeps_const _ _ _) fun _ _ _ =>
  safeOn_lockHousehold fun db hlive => ?_
 have hkeeps : Keeps sharing ([] ++ [⟨.row (.household householdId), false⟩]) fun σ =>
   Agree (OfHousehold householdId) db σ.db := keeps_household List.mem_cons_self db
 refine safeOn_assertShareAuthority hkeeps fun σ hagree hcan => safeOn_stmt hkeeps fun σ' _ _ hagree' => ?_
 rw [show view σ' [] = σ'.db from rfl, List.nil_append, List.nil_append]
 cases hawaiting : awaiting σ'.db householdId shareId with
 | none =>
  refine ⟨fun _ => True, trivial, safeOn_query (keeps_const _ _ _) fun τ _ _ => ?_⟩
  cases (share? (view τ _) shareId).filter fun share => share.recipient = .household householdId with
  | none => exact safeOn_refused (keeps_const _ _ _)
  | some share => exact safeOn_refused (keeps_const _ _ _)
 | some share =>
  obtain ⟨hshare, hwaits⟩ := Option.filter_eq_some_iff.1 hawaiting
  obtain ⟨hrecipient, hnone⟩ := Bool.and_eq_true_iff.1 hwaits
  have hrecipient : share.recipient = .household householdId := of_decide_eq_true hrecipient
  have hnone : share.approvedAt = none := Option.isNone_iff_eq_none.1 hnone
  have hwrites : approvalWrites actor now householdId shareId σ'.db =
    [⟨.share shareId, some (approvedShare actor now share)⟩] := by
   rw [approvalWrites, hawaiting]
   rfl
  rw [hwrites]
  -- from here on the share's row is held as it was read
  have hheld : (⟨.row (.share shareId), true⟩ : Lock Key Empty) ∈
    [] ++ [⟨.row (.household householdId), false⟩] ++ [⟨.row (.share shareId), true⟩] :=
   List.mem_append_right _ List.mem_cons_self
  have hkept : Keeps sharing
   ([] ++ [⟨.row (.household householdId), false⟩] ++ [⟨.row (.share shareId), true⟩])
    fun τ => Agree (OfHousehold householdId) db τ.db ∧ share? τ.db shareId = some share :=
   (hkeeps.weaken (List.subset_append_left _ _)).and (keeps_row sharing hheld (some share))
  refine ⟨fun τ => Agree (OfHousehold householdId) db τ.db ∧
   share? τ.db shareId = some share, ⟨hagree', hshare⟩, ?_⟩
  refine safeOn_query hkept fun τ _ _ => ?_
  cases (share? (view τ _) shareId).filter fun share => share.recipient = .household householdId with
  | none => exact safeOn_refused hkept
  | some found =>
   refine safeOn_sharerCouldStillShare abilities hkept
    (safeOn_commit hkept (fun held τ' _ _ _ h => ⟨?_, ?_⟩) safeOn_halt)
   · apply respected_of_shares
     intro w hw household hk
     rw [List.mem_singleton.1 hw] at hk
     exact hk
   · have hwritten :
      share? (applyLog τ'.db [⟨.share shareId, some (approvedShare actor now share)⟩]) shareId =
       some (approvedShare actor now share) :=
      lookup_applyWrite_self τ'.db (.share shareId) (some (approvedShare actor now share))
     have hrest : ∀ k, k ≠ .share shareId →
       (applyLog τ'.db [⟨.share shareId, some (approvedShare actor now share)⟩]).lookup k
        = τ'.db.lookup k :=
      fun k hk => lookup_applyWrite_ne τ'.db
       (w := ⟨.share shareId, some (approvedShare actor now share)⟩) hk
     refine .approved h.2 hrecipient hnone hwritten hrest ?_
     refine ⟨actor, now, rfl, rfl, rfl, (isLive_congr h.1).trans hlive, ?_⟩
     rw [roster_congr h.1, ← roster_congr hagree]
     exact hcan

end Approve

section Ending

/-- The writes end shares that are there, each with its index entry, and else
    change only the rows `S` allows. -/
def Ending (S : Key → Prop) (log : List (Write Row)) (σ : State) : Prop :=
  ∀ w ∈ log, S w.key ∨ (∃ id, w = ⟨.share id, none⟩) ∨
    ∃ id share, w = ⟨.shareIndex share.gameId share.recipient, none⟩ ∧ share? σ.db id = some share ∧
      (⟨.share id, none⟩ : Write Row) ∈ log

def Elsewhere (S : Key → Prop) : Prop := (∀ id, ¬ S (.share id)) ∧
    ∀ gameId recipient, ¬ S (.shareIndex gameId recipient)

theorem elsewhere_household (householdId : ℕ) :
  Elsewhere (OfHousehold householdId) := ⟨fun _ => id, fun _ _ => id⟩

theorem elsewhere_none : Elsewhere fun _ => False := ⟨fun _ => id, fun _ _ => id⟩

theorem ending_nil (S : Key → Prop) (σ : State) :
  Ending S [] σ := fun _ hw => absurd hw List.not_mem_nil

theorem keeps_ending (h : LogLocked known log) : Keeps sharing known (Ending S log) := by
 intro held hknown σ σ' hending _ _ hrely w hw
 rcases hending w hw with hother | hshare | ⟨id, share, hindex, hrow, hended⟩
 · exact .inl hother
 · exact .inr (.inl hshare)
 · exact .inr (.inr ⟨id, share, hindex, (hrely.row (hknown (h _ hended))).trans hrow, hended⟩)

theorem Ending.share_write (h : Ending S log σ) (hS : Elsewhere S) {id : ℕ} {w : Write Row}
  (hw : w ∈ log) (hkey : w.key = .share id) : w = ⟨.share id, none⟩ := by
 rcases h w hw with hother | ⟨other, rfl⟩ | ⟨other, share, rfl, -⟩
 · rw [hkey] at hother
   exact absurd hother (hS.1 id)
 · rw [Key.share.inj hkey]
 · cases hkey

theorem Ending.share_ended (h : Ending S log σ) (hS : Elsewhere S) {id : ℕ}
  (hw : ∃ w ∈ log, w.key = .share id) (db : Db) : share? (applyLog db log) id = none :=
 lookup_applyLog_eq db hw fun _ hw hkey => h.share_write hS hw hkey

theorem Ending.ends (h : Ending S log σ) (hS : Elsewhere S) (hinv : Standing σ) :
  Ends σ.db (applyLog σ.db log) := by
 constructor
 · intro id
   by_cases hw : ∃ w ∈ log, w.key = .share id
   · exact .inr (h.share_ended hS hw _)
   · exact .inl (lookup_applyLog_of_notMem _ fun w hmem hkey => hw ⟨w, hmem, hkey⟩)
 · intro id share hshare
   have hkept : ¬ ∃ w ∈ log, w.key = .share id := by
    intro hw
    rw [h.share_ended hS hw] at hshare
    cases hshare
   have hrow : share? σ.db id = some share :=
    (lookup_applyLog_of_notMem _ fun w hmem hkey => hkept ⟨w, hmem, hkey⟩).symm.trans hshare
   apply lookup_applyLog_of_notMem
   intro w hw hkey
   rcases h w hw with hother | ⟨other, rfl⟩ | ⟨other, share', rfl, hrow', hended⟩
   · rw [hkey] at hother
     exact hS.2 _ _ hother
   · cases hkey
   · -- the entry leads to the share that went with it
     obtain ⟨hgame, hrecipient⟩ := Key.shareIndex.inj hkey
     have hindex := hinv.indexed other share' hrow'
     rw [hgame, hrecipient, hinv.indexed id share hrow] at hindex
     obtain rfl := Option.some.inj hindex
     exact hkept ⟨_, hended, rfl⟩

theorem Ending.append {more : List (Write Row)} (h : Ending S log σ) (hmore : ∀ w ∈ more, S w.key) :
  Ending S (log ++ more) σ := by
 intro w hw
 rcases List.mem_append.1 hw with hw | hw
 · rcases h w hw with hother | hshare | ⟨id, share, hindex, hrow, hended⟩
   · exact .inl hother
   · exact .inr (.inl hshare)
   · exact .inr (.inr ⟨id, share, hindex, hrow, List.mem_append_left _ hended⟩)
 · exact .inl (hmore w hw)

theorem Ending.remove (h : Ending S log σ) (hS : Elsewhere S) (id : ℕ) :
  Ending S (log ++ removalWrites (view σ log) id) σ := by
 unfold removalWrites
 cases hshare : share? (view σ log) id with
 | none => exact h.append fun _ hw => absurd hw List.not_mem_nil
 | some share =>
  have hrow : share? σ.db id = some share := by
   refine (lookup_applyLog_of_notMem _ fun w hw hkey => ?_).symm.trans hshare
   have hgone : share? (view σ log) id = none := h.share_ended hS ⟨w, hw, hkey⟩ σ.db
   rw [hgone] at hshare
   cases hshare
  intro w hw
  rcases List.mem_append.1 hw with hw | hw
  · rcases h w hw with hother | hold | ⟨other, share', hindex, hrow', hended⟩
    · exact .inl hother
    · exact .inr (.inl hold)
    · exact .inr (.inr ⟨other, share', hindex, hrow', List.mem_append_left _ hended⟩)
  · rcases List.mem_cons.1 hw with rfl | hw
    · exact .inr (.inl ⟨id, rfl⟩)
    · rw [List.mem_singleton.1 hw]
      exact .inr (.inr ⟨id, share, rfl, hrow, List.mem_append_right _ List.mem_cons_self⟩)

theorem logLocked_append {more : List (Write Row)} (h : LogLocked known log)
  (locks : List (Lock Key Empty)) :
  LogLocked (known ++ (locks ++ writeLocks more)) (log ++ more) := by
 intro w hw
 rcases List.mem_append.1 hw with hw | hw
 · exact List.mem_append_left _ (h w hw)
 · exact List.mem_append_right _ (List.mem_append_right _ (List.mem_map.2 ⟨w, hw, rfl⟩))

end Ending

section Delete

variable {actor : Actor}

theorem safeOn_deleteShare (id : ℕ) : SafeOn sharing known (fun _ => True) (deleteShare id) [] := by
 refine safeOn_stmt (keeps_const _ _ _) fun σ _ _ _ => ?_
 rw [show view σ [] = σ.db from rfl, List.nil_append, List.nil_append]
 have hlocked : LogLocked (known ++ writeLocks (removalWrites σ.db id)) (removalWrites σ.db id) :=
  logLocked_append (fun (w : Write Row) (hw : w ∈ []) => absurd hw List.not_mem_nil) []
 refine ⟨Ending (fun _ => False) (removalWrites σ.db id), (ending_nil _ σ).remove elsewhere_none id, ?_⟩
 refine safeOn_if (keeps_ending hlocked) fun _ => ?_
 refine safeOn_commit (keeps_ending hlocked) (fun held τ _ _ hinv hending => ⟨?_, ?_⟩) safeOn_halt
 · apply respected_of_shares
   intro w hw household hk
   rcases hending w hw with hother | ⟨other, rfl⟩ | ⟨other, share, rfl, -⟩
   · exact hother
   · exact hk
   · exact hk
 · exact .ended rfl (hending.ends elsewhere_none hinv)

theorem safe_delete (actor : Actor) (gameId shareId : ℕ) :
  SafeOn sharing [] (fun _ => True) (delete actor gameId shareId) [] := by
 have htrue : ∀ known, Keeps sharing known fun _ => True := fun known => keeps_const _ known _
 refine safeOn_query (htrue _) fun σ _ _ => ?_
 cases (share? (view σ []) shareId).filter fun share => share.gameId == gameId with
 | none => exact safeOn_refused (htrue _)
 | some share =>
  dsimp only
  split_ifs
  · exact safeOn_deleteShare shareId
  · cases share.recipient.householdId with
    | none => exact safeOn_refused (htrue _)
    | some householdId =>
     refine safeOn_query (htrue _) fun _ _ _ => safeOn_if (htrue _) fun _ => ?_
     refine safeOn_lockHousehold fun db _ => SafeOn.mono ?_ fun _ _ => trivial
     refine safeOn_query (htrue _) fun _ _ _ => safeOn_if (htrue _) fun _ => ?_
     exact safeOn_deleteShare shareId

end Delete

section Roster

structure Transition (householdId : ℕ) (known : List (Lock Key Empty)) (log : List (Write Row)) :
    Prop where
  household : (⟨.row (.household householdId), true⟩ : Lock Key Empty) ∈ known
  locked : LogLocked known log

theorem Transition.more (h : Transition householdId known log) (locks : List (Lock Key Empty))
  (more : List (Write Row)) :
  Transition householdId (known ++ (locks ++ writeLocks more)) (log ++ more) :=
 ⟨List.mem_append_left _ h.household, logLocked_append h.locked locks⟩

theorem safeOn_commitEnding (h : Transition householdId known log) {m : Mutation}
  (hm : m.opens = false) :
  SafeOn sharing known (Ending (OfHousehold householdId) log) (.commit m .halt) log := by
 refine safeOn_commit (keeps_ending h.locked) (fun held σ hknown _ hinv hending => ⟨?_, ?_⟩) safeOn_halt
 · intro k hne l hl
   have hmem : ∃ w ∈ log, w.key = k := by
    by_contra hnot
    exact hne (lookup_applyLog_of_notMem _ fun w hw hkey => hnot ⟨w, hw, hkey⟩)
   obtain ⟨w, hw, rfl⟩ := hmem
   rcases hending w hw with hother | ⟨other, rfl⟩ | ⟨other, share, rfl, -⟩
   · have hheld : l = ⟨.row (.household householdId), true⟩ := by
      cases hkey : w.key with
      | household id => rw [hkey] at hother hl; cases hother; exact List.mem_singleton.1 hl
      | member id memberId => rw [hkey] at hother hl; cases hother; exact List.mem_singleton.1 hl
      | householdRole id memberId => rw [hkey] at hother hl; cases hother; exact List.mem_singleton.1 hl
      | _ => rw [hkey] at hother; exact hother.elim
     rw [hheld]
     exact covers_of_mem (hknown h.household)
   · cases hl
   · cases hl
 · exact .ended hm (hending.ends (elsewhere_household _) hinv)

theorem safeOn_reads {locks : Db → List (Lock Key Empty)} {then_ : ℕ → Db → ShareProgram}
  (h : Transition householdId known log)
   (hnext : ∀ more clock v, Transition householdId (known ++ more) log →
   SafeOn sharing (known ++ more) (Ending (OfHousehold householdId) log) (then_ clock v) log) :
  SafeOn sharing known (Ending (OfHousehold householdId) log) (.lock locks then_) log := by
 refine safeOn_keep (keeps_ending h.locked) fun σ _ _ => ?_
 rw [List.append_nil]
 exact hnext _ _ _ ⟨List.mem_append_left _ h.household, fun w hw => List.mem_append_left _ (h.locked w hw)⟩

theorem safeOn_rosterWrite {w : Write Row} (h : Transition householdId known log)
  (hw : OfHousehold householdId w.key)
  (hnext : ∀ more, Transition householdId (known ++ more) (log ++ [w]) →
   SafeOn sharing (known ++ more) (Ending (OfHousehold householdId) (log ++ [w])) next (log ++ [w])) :
  SafeOn sharing known (Ending (OfHousehold householdId) log)
   (.execute (fun _ _ => [w]) fun _ _ => next) log := by
 refine safeOn_stmt (keeps_ending h.locked) fun σ _ _ hending => ?_
 refine ⟨_, hending.append fun w' hw' => ?_, hnext _ (h.more [] [w])⟩
 rw [List.mem_singleton.1 hw']
 exact hw

theorem safeOn_endShares {then_ : List ℕ → ShareProgram}
  (hnext : ∀ known log ended, Transition householdId known log →
   SafeOn sharing known (Ending (OfHousehold householdId) log) (then_ ended) log) (ids : List ℕ) :
  ∀ known log ended, Transition householdId known log →
   SafeOn sharing known (Ending (OfHousehold householdId) log) (endShares then_ ended ids) log := by
 induction ids with
 | nil => exact fun known log ended h => hnext known log ended h
 | cons id ids ih =>
  intro known log ended h
  refine safeOn_stmt (keeps_ending h.locked) fun σ _ _ hending => ?_
  exact ⟨_, hending.remove (elsewhere_household _) id, ih _ _ _ (h.more [] _)⟩

theorem safeOn_transition (hnext : ∀ known, Transition householdId known [] →
   SafeOn sharing known (Ending (OfHousehold householdId) []) next []) :
  SafeOn sharing [] (fun _ => True) (lockHouseholdForRoleTransition householdId next) [] := by
 refine safeOn_lockHousehold fun db _ => SafeOn.mono (hnext _ ?_) fun σ _ => ending_nil _ σ
 exact ⟨List.mem_cons_self, fun _ hw => absurd hw List.not_mem_nil⟩

theorem safe_updateMemberRole (actor : Actor) (conditions : MemberConditions)
  (householdId memberId : ℕ) (role : AssignableHouseholdRole) :
  SafeOn sharing [] (fun _ => True) (updateMemberRole actor conditions householdId memberId role) [] := by
 have htrue : ∀ known, Keeps sharing known fun _ => True := fun known => keeps_const _ known _
 refine safeOn_query (htrue _) fun σ _ _ => ?_
 split_ifs
 swap
 · exact safeOn_halt
 refine safeOn_query (htrue _) fun σ _ _ => ?_
 cases (member? (view σ []) householdId memberId).filter fun _ => conditions (view σ []) memberId with
 | none => exact safeOn_refused (htrue _)
 | some userId =>
  refine safeOn_unless (htrue _) fun _ => safeOn_transition fun known h => safeOn_reads h fun _ _ _ h => ?_
  have hkeeps := keeps_ending (S := OfHousehold householdId) h.locked
  refine safeOn_unless hkeeps fun _ => safeOn_unless hkeeps fun _ => safeOn_if hkeeps fun _ => ?_
  refine safeOn_reads h fun _ _ _ h => safeOn_if (keeps_ending h.locked) fun _ => ?_
  exact safeOn_rosterWrite h rfl fun _ h => safeOn_commitEnding h rfl

theorem safe_transferOwnership (actor : Actor) (conditions : MemberConditions)
  (householdId memberId : ℕ) :
  SafeOn sharing [] (fun _ => True) (transferOwnership actor conditions householdId memberId) [] := by
 have htrue : ∀ known, Keeps sharing known fun _ => True := fun known => keeps_const _ known _
 refine safeOn_query (htrue _) fun σ _ _ => ?_
 split_ifs
 swap
 · exact safeOn_halt
 refine safeOn_query (htrue _) fun σ _ _ => ?_
 split_ifs
 swap
 · exact safeOn_halt
 refine safeOn_query (htrue _) fun σ _ _ => ?_
 split_ifs
 swap
 · exact safeOn_halt
 refine safeOn_transition fun known h => safeOn_reads h fun _ _ _ h => safeOn_reads h fun _ _ v h => ?_
 cases (memberOf v householdId actor.userId).filter (conditions v) with
 | none => exact safeOn_refused (keeps_ending h.locked)
 | some actorId =>
  refine safeOn_if (keeps_ending h.locked) fun _ => safeOn_reads h fun _ _ _ h => ?_
  have hkeeps := keeps_ending (S := OfHousehold householdId) h.locked
  refine safeOn_if hkeeps fun _ => safeOn_unless hkeeps fun _ => safeOn_unless hkeeps fun _ => ?_
  exact safeOn_rosterWrite h rfl fun _ h => safeOn_rosterWrite h rfl fun _ h => safeOn_commitEnding h rfl

theorem safe_deleteMembershipWithin (conditions : MemberConditions) (householdId : ℕ)
  (find : Db → Option ℕ) :
  SafeOn sharing [] (fun _ => True) (deleteMembershipWithin conditions householdId find) [] := by
 refine safeOn_query (keeps_const _ _ _) fun σ _ _ => ?_
 cases (find (view σ [])).filter (conditions (view σ [])) with
 | none => exact safeOn_refused (keeps_const _ _ _)
 | some memberId =>
  dsimp only
  cases member? (view σ []) householdId memberId with
  | none => exact safeOn_refused (keeps_const _ _ _)
  | some userId =>
   refine safeOn_transition fun known h => safeOn_reads h fun _ _ _ h => safeOn_reads h fun _ _ _ h => ?_
   have hkeeps := keeps_ending (S := OfHousehold householdId) h.locked
   refine safeOn_if hkeeps fun _ => safeOn_unless hkeeps fun _ => safeOn_reads h fun _ _ _ h => ?_
   refine safeOn_endShares (fun known log ended h => ?_) _ _ _ _ h
   exact safeOn_rosterWrite h rfl fun _ h => safeOn_rosterWrite h rfl fun _ h => safeOn_commitEnding h rfl

theorem safe_household (k : Db → Household → Bool) (data : Household → Household) (householdId : ℕ)
  {m : Mutation} (hm : m.opens = false) : SafeOn sharing [] (fun _ => True)
   (Code.updateRow (.household householdId) k data fun _ => .commit m .halt) [] := by
 refine safeOn_writeRow (keeps_const _ _ _) fun σ _ _ _ household _ _ => ?_
 refine ⟨Ending (OfHousehold householdId) ([] ++ [⟨.household householdId, some (data household)⟩]),
  ?_, ?_⟩
 · intro w hw
   rw [List.mem_singleton.1 hw]
   exact .inl rfl
 · refine safeOn_commitEnding ⟨List.mem_cons_self, fun w hw => ?_⟩ hm
   rw [List.mem_singleton.1 hw]
   exact List.mem_cons_self

theorem safe_program (abilities : ℕ → Db → ℕ → Ability) (request : Request) (σ : State) :
  Safe sharing (program abilities request) [] [] σ := by
 have htrue : ∀ known, Keeps sharing known fun _ => True := fun known => keeps_const _ known _
 apply safe_of_safeOn
 cases request with
 | create actor now gameId userId householdId => exact safe_create actor now gameId userId householdId
 | delete actor gameId shareId => exact safe_delete actor gameId shareId
 | approve actor now householdId shareId => exact safe_approve abilities actor now householdId shareId
 | updateMemberRole actor conditions householdId memberId role =>
  exact safe_updateMemberRole actor conditions householdId memberId role
 | transferOwnership actor conditions householdId memberId =>
  exact safe_transferOwnership actor conditions householdId memberId
 | removeMember conditions householdId memberId =>
  refine safeOn_query (htrue _) fun σ _ _ => ?_
  split_ifs
  · exact safe_deleteMembershipWithin conditions householdId _
  · exact safeOn_halt
 | leaveHousehold actor conditions householdId =>
  refine safeOn_query (htrue _) fun σ _ _ => ?_
  split_ifs
  · exact safe_deleteMembershipWithin conditions householdId _
  · exact safeOn_halt
 | deleteHousehold conditions now householdId =>
  refine safeOn_query (htrue _) fun σ _ _ => ?_
  split_ifs
  · exact safe_household _ _ householdId rfl
  · exact safeOn_halt
 | restoreHousehold conditions householdId => exact safe_household _ _ householdId rfl

end Roster

end BoardGamesEmpire.GameSharing
