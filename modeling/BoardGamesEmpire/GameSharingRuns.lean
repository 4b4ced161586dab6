import BoardGamesEmpire.GameSharingParts

set_option autoImplicit false

/-!
# A share in effect was let in

In every run of the share tables there is one share for a game and a recipient,
and no share into a household is in effect without somebody who could put it
there when it was put there.
-/
namespace BoardGamesEmpire.GameSharing
open ReadCommitted ReadCommittedProtocol

theorem sound (abilities : ℕ → Db → ℕ → Ability) : Sound sharing (program abilities) where
 safe := fun request σ _ => safe_program abilities request σ
 tick := fun _ hinv => hinv.elapse fun _ _ => rfl
 commit := fun _ _ _ hinv heffect => hinv.commit heffect
 outside := fun _ w hinv hw => hinv.elapse fun k hk => by
  have hwritten : outside w.key = true := hw
  apply lookup_applyWrite_ne
  rintro rfl
  rw [hwritten] at hk
  cases hk

theorem standing_initial {db : Db} (hempty : ∀ id, share? db id = none) :
  Standing (initial db : Sys Row Empty Mutation).shared := by
 have hno : ∀ (id : ℕ) (share : GameShare), share? db id = some share → False := by
  intro id share hshare
  rw [hempty id] at hshare
  cases hshare
 refine ⟨fun id share hshare => (hno id share hshare).elim, fun id share hshare =>
  (hno id share hshare).elim,
  fun id share _ hshare => (hno id share hshare).elim, fun id share hshare =>
   (hno id share hshare).elim, ?_, ?_⟩
 · exact fun e he => absurd he List.not_mem_nil
 · exact fun e he => absurd he List.not_mem_nil

section Runs

variable {abilities : ℕ → Db → ℕ → Ability} {db : Db} {s : Sys Row Empty Mutation}

theorem reachable_standing (hempty : ∀ id, share? db id = none)
  (h : Reachable (program abilities) outside db s) :
  Standing s.shared :=
 (reachable_wellRun (sound abilities) (standing_initial hempty) h).inv

end Runs

/-- No two shares are of one game to one recipient. A share into a household
    that is in effect was created so by a sharer whom the roster and policy
    allowed it, or approved once, by a caller whom the roster allowed to. -/
theorem household_share_let_in (abilities : ℕ → Db → ℕ → Ability) (db : Db)
    (hempty : ∀ id, share? db id = none) (s : Sys Row Empty Mutation)
    (h : Reachable (program abilities) outside db s) :
    (∀ id id' share share', share? s.shared.db id = some share → share? s.shared.db id' = some share' →
      share.gameId = share'.gameId → share.recipient = share'.recipient → id = id') ∧
    ∀ id share householdId, share? s.shared.db id = some share → share.recipient = .household householdId →
      share.approvedAt ≠ none →
        (approvals s.shared.ledger id = [] ∧
         ∃ e ∈ s.shared.ledger, CreatedInEffect e id share householdId) ∨
        ∃ e, approvals s.shared.ledger id = [e] ∧ ApprovedInEffect e id share householdId := by
 have hstanding := reachable_standing hempty h
 constructor
 · intro id id' share share' hshare hshare' hgame hrecipient
   have hindex := hstanding.indexed id share hshare
   rw [hgame, hrecipient, hstanding.indexed id' share' hshare'] at hindex
   exact (Option.some.inj hindex).symm
 · exact hstanding.inEffect

section Sample

def administers (userId : ℕ) (members : Finset RosterRow) : Bool :=
  decide (∃ member ∈ members, member.userId = userId ∧
    (member.role = some .householdOwner ∨ member.role = some .householdAdmin))

def belongs (userId : ℕ) (members : Finset RosterRow) : Bool :=
  decide (∃ member ∈ members, member.userId = userId ∧ member.role = some .householdMember)

def roleAbility (userId : ℕ) : Ability
  | .createForUser _ game => game.createdById == some userId
  | .createForHousehold subject =>
    administers userId subject.household.members ||
      (belongs userId subject.household.members &&
        (subject.household.settings == some .direct ||
          (subject.household.settings == some .needsApproval && subject.approvedAt.isNone)))
  | .approve _ _ members => administers userId members
  | .delete _ sharedById _ members => sharedById == some userId || members.any (administers userId)
  | .manageMember _ _ _ _ members => administers userId members

def roleAbilities : ℕ → Db → ℕ → Ability := fun _ _ userId => roleAbility userId

def signedIn (userId : ℕ) : Actor := ⟨userId, roleAbility userId⟩

def ofRows (rows : List (Sigma Row)) : Db := rows.foldr (fun entry db => db.insert entry.1 entry.2) ∅

def sampleHousehold : Db :=
  ofRows [⟨.household 0, ⟨none⟩⟩, ⟨.settings 0, .needsApproval⟩, ⟨.member 0 1, 1⟩,
   ⟨.householdRole 0 1, .householdOwner⟩,
    ⟨.member 0 2, 2⟩, ⟨.householdRole 0 2, .householdMember⟩, ⟨.game 7, ⟨none, some 2⟩⟩]

def steps (i n : ℕ) : List (ReadCommitted.Action Row Request) := List.replicate n (.advance i)

/-- The member's share waits; of two approvals the one that writes first puts it
    in effect. -/
def twoApprovals : List (ReadCommitted.Action Row Request) :=
  .spawn (.create (signedIn 2) 100 7 none (some 0)) :: steps 0 6 ++
    .spawn (.approve (signedIn 1) 200 0 5) :: .spawn (.approve (signedIn 1) 201 0 5) :: steps 1
     3 ++ steps 2 3 ++
    steps 1 6 ++ steps 2 3

def approvedSample : GameShare := ⟨7, .household 0, some 2, some 1, some 200, 100⟩

theorem sample_empty : ∀ id, share? sampleHousehold id = none := by
 intro id
 simp only [sampleHousehold, ofRows, List.foldr_cons, List.foldr_nil, share?]
 repeat rw [AList.lookup_insert_ne (by simp)]
 rfl

theorem household_share_let_in_approved : ∃ s : Sys Row Empty Mutation,
    share? s.shared.db 5 = some approvedSample ∧ ∃ e, approvals s.shared.ledger 5 = [e] ∧
      ApprovedInEffect e 5 approvedSample 0 := by
 have hrun : (run (program roleAbilities) outside (initial sampleHousehold) twoApprovals).map
   (fun s => (share? s.shared.db 5, (approvals s.shared.ledger 5).length)) = some
    (some approvedSample, 1) := by
  decide +kernel
 obtain ⟨s, hs, hsample⟩ := Option.map_eq_some_iff.1 hrun
 obtain ⟨hshare, hlength⟩ := Prod.mk.inj hsample
 have hresult :=
  (household_share_let_in roleAbilities sampleHousehold sample_empty s (reachable_of_run hs)).2 5
  approvedSample 0 hshare rfl (Option.some_ne_none 200)
 rcases hresult with ⟨hnone, -⟩ | hone
 · rw [hnone] at hlength
   cases hlength
 · exact ⟨s, hshare, hone⟩

end Sample

end BoardGamesEmpire.GameSharing
