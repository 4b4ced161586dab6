import BoardGamesEmpire.ReadCommittedStepwise
import BoardGamesEmpire.EventRules

set_option autoImplicit false

/-!
# What a commit does to a nomination and its votes

A nomination that is settled or withdrawn stays as it is, a game comes with the
nomination that won it, a vote is written while its nomination is open, and a
resolve stores the count of the votes it found under the nomination's lock.
-/
namespace BoardGamesEmpire.EventPlanning
open JsText ReadCommitted ReadCommittedProtocol

section Outcomes

def finalStatuses : List NominationStatus :=
    [.passed, .failed, .quorumNotMet, .approved, .rejected, .withdrawn]

def isFinal (status : NominationStatus) : Bool := finalStatuses.contains status

def elevates (status : NominationStatus) : Bool := status == .passed || status == .approved

def won (db : Db) (nominationId : ℕ) : Bool :=
    (nomination? db nominationId).any fun row => elevates row.status

def createdFor (nominationId : ℕ) (before after : Db) : ℕ :=
  ((lineup after).filter fun game =>
   (game? before game.1).isNone && game.2.nominationId == some nominationId).length

def everCreated (nominationId : ℕ) (ledger : List (Entry Row Mutation)) : ℕ :=
  (ledger.map fun entry => createdFor nominationId entry.before entry.after).sum

/-- The count a resolve stored: of the votes under the nomination's lock, by the
    policy of the date the nomination named there. -/
structure Counted (percentOf : ℕ → ℕ → ℕ) (before after : Db) (id : ℕ) (updated : Nomination)
    (counted : ResolutionResult) (voters : List (ℕ × AttendeeStub)) (takenOn : Db) : Prop where
  stored : nomination? after id = some updated ∧ updated.status = counted.status
  count : ∃ current, nomination? takenOn id = some current ∧ current.status = .open ∧
    counted = countVotes percentOf (votesOn takenOn id) voters (policyOf takenOn current.occurrenceId)
  same : nomination? before id = nomination? takenOn id ∧
   ∀ attendeeId, vote? before id attendeeId = vote? takenOn id attendeeId

structure Kept (row row' : Nomination) : Prop where
  deadline : row'.votingDeadline = row.votingDeadline
  final : isFinal row.status = true → row'.status = row.status

structure BallotStep (percentOf : ℕ → ℕ → ℕ) (σ : State) (m : Mutation) (db' : Db) : Prop where
  kept : ∀ n row, nomination? σ.db n = some row → ∃ row', nomination? db' n = some row' ∧ Kept row row'
  games : ∀ n, createdFor n σ.db db' = if won db' n && !won σ.db n then 1 else 0
  cast : ∀ n attendeeId before after, m = .voteCast n attendeeId before after →
    (nomination? σ.db n).any (·.status = .open) = true ∧ vote? db' n attendeeId = some after
  votes : ∀ n attendeeId, vote? db' n attendeeId ≠ vote? σ.db n attendeeId →
    ∃ before after, m = .voteCast n attendeeId before after
  counted : ∀ id updated gameId counted voters takenOn,
   m = .nominationResolved id updated gameId counted voters takenOn →
    Counted percentOf σ.db db' id updated counted voters takenOn

def Tallied (σ : State) : Prop := ∀ n, everCreated n σ.ledger = if won σ.db n then 1 else 0

/-- A vote changes under a share lock of its nomination; the policies change
    under the event's. -/
def ballotLocks : Discipline Row Advisory where
  requires _ k _ _ :=
    match k with
    | .vote n _ => [⟨.row (.nomination n), false⟩]
    | .eventPolicy | .datePolicy _ => [⟨.row .event, true⟩]
    | _ => []

def ballot (percentOf : ℕ → ℕ → ℕ) : Protocol Row Advisory Mutation where
  inv := Tallied
  effect := BallotStep percentOf
  guarantee := ballotLocks.Respected
  outside := outside

variable {percentOf : ℕ → ℕ → ℕ} {σ : State} {m : Mutation} {db db' : Db}

theorem Kept.refl (row : Nomination) : Kept row row := ⟨rfl, fun _ => rfl⟩

theorem Kept.trans {row row' row'' : Nomination} (h : Kept row row') (h' : Kept row' row'') :
  Kept row row'' := by
 refine ⟨h'.deadline.trans h.deadline, fun hfinal => ?_⟩
 have hsame := h.final hfinal
 rw [← hsame] at hfinal
 exact (h'.final hfinal).trans hsame

theorem isFinal_of_elevates {status : NominationStatus} (h : elevates status = true) :
  isFinal status = true := by
 cases status <;> first | rfl | cases h

theorem BallotStep.stays_won (h : BallotStep percentOf σ m db') {n : ℕ} (hwon : won σ.db n = true) :
  won db' n = true := by
 rw [won] at hwon ⊢
 cases hrow : nomination? σ.db n with
 | none =>
  rw [hrow] at hwon
  cases hwon
 | some row =>
  rw [hrow, Option.any_some] at hwon
  obtain ⟨row', hrow', hkept⟩ := h.kept n row hrow
  rw [hrow', Option.any_some, hkept.final (isFinal_of_elevates hwon)]
  exact hwon

theorem BallotStep.tallied (h : BallotStep percentOf σ m db') (hinv : Tallied σ) :
  Tallied (σ.commit m db') := by
 intro n
 have hsum : everCreated n (σ.commit m db').ledger = everCreated n σ.ledger + createdFor n σ.db db' := by
  simp [everCreated, Shared.commit]
 rw [hsum, hinv n, h.games n]
 change _ = if won db' n then 1 else 0
 by_cases hbefore : won σ.db n = true
 · simp [hbefore, h.stays_won hbefore]
 · simp [hbefore]

end Outcomes

section Rows

variable {percentOf : ℕ → ℕ → ℕ} {σ : State} {m : Mutation} {db' : Db}

def BallotRow : RowRelation Row Advisory
  | known, .eventPolicy, old, new => new = old ∨ Covers known ⟨.row .event, true⟩
  | known, .datePolicy _, old, new => new = old ∨ Covers known ⟨.row .event, true⟩
  | _, .vote _ _, old, new => new = old
  | _, .nomination _, old, new => new = old ∨ ∃ row row', old = some row ∧ new = some row' ∧
   Kept row row' ∧
      elevates row'.status = elevates row.status
  | _, .game _, old, new => new = old ∨ new = none ∨ ∃ game, new = some game ∧ game.nominationId = none
  | _, _, _, _ => True

def plain : Mutation → Bool
  | .voteCast _ _ _ _ | .nominationResolved _ _ _ _ _ _ => false
  | _ => true

theorem composes_ballotRow : Composes BallotRow where
 refl known k row := by
  cases k with
  | eventPolicy | datePolicy d | nomination n | game g => exact .inl rfl
  | vote n a => rfl
  | _ => trivial
 trans known k a b c hab hbc := by
  cases k with
  | eventPolicy | datePolicy d =>
   rcases hbc with rfl | hcovers
   · exact hab
   · exact .inr hcovers
  | vote n attendeeId => exact Eq.trans hbc hab
  | nomination n =>
   rcases hbc with rfl | ⟨row, row', rfl, rfl, hkept, hsame⟩
   · exact hab
   · rcases hab with hab | ⟨row₀, row₁, rfl, hrow, hkept', hsame'⟩
     · exact .inr ⟨row, row', hab.symm, rfl, hkept, hsame⟩
     · cases hrow
       exact .inr ⟨row₀, row', rfl, rfl, hkept'.trans hkept, hsame.trans hsame'⟩
  | game g =>
   rcases hbc with rfl | hbc
   · exact hab
   · exact .inr hbc
  | _ => trivial
 mono known more k a b hsub h := by
  cases k with
  | eventPolicy | datePolicy d => exact h.imp_right fun hcovers => covers_more hcovers hsub
  | _ => exact h

theorem mem_lineup {v : Db} {id : ℕ} {game : EventGame} :
  (id, game) ∈ lineup v ↔ game? v id = some game := by
 rw [lineup, mem_select]
 constructor
 · rintro ⟨k, row, hrow, hgame⟩
   cases k with
   | game g => cases hgame; exact hrow
   | _ => cases hgame
 · exact fun h => ⟨.game id, game, h, rfl⟩

theorem createdFor_eq_zero {n : ℕ} {before after : Db} (h : ∀ id game, game? after id = some game →
  game? before id = none → game.nominationId ≠ some n) : createdFor n before after = 0 := by
 rw [createdFor, List.length_eq_zero_iff, List.filter_eq_nil_iff]
 intro game hgame hcreated
 obtain ⟨hnone, hid⟩ := Bool.and_eq_true_iff.1 hcreated
 exact h game.1 game.2 (mem_lineup.1 hgame) (Option.isNone_iff_eq_none.1 hnone) (eq_of_beq hid)

theorem ballotStep_of_rows {held : List (Lock Key Advisory)}
  (hrows : ∀ k, BallotRow held k (σ.db.lookup k) (db'.lookup k)) (hplain : plain m = true) :
  ballotLocks.Respected held σ.db db' ∧ BallotStep percentOf σ m db' := by
 have hwon : ∀ n, won db' n = won σ.db n := by
  intro n
  rcases hrows (.nomination n) with hsame | ⟨row, row', hrow, hrow', -, helevates⟩
  · rw [won, nomination?, hsame, won]
  · rw [won, nomination?, hrow', won, nomination?, hrow, Option.any_some, Option.any_some, helevates]
 refine ⟨fun k hne l hl => ?_, ?_⟩
 · have hrow := hrows k
   cases k with
   | eventPolicy | datePolicy d =>
    rw [List.mem_singleton.1 hl]
    exact hrow.resolve_left hne
   | vote n a => exact absurd hrow hne
   | _ => cases hl
 · constructor
   · intro n row hrow
     rcases hrows (.nomination n) with hsame | ⟨old, row', hold, hrow', hkept, -⟩
     · exact ⟨row, hsame.trans hrow, .refl row⟩
     · obtain rfl := Option.some.inj (hold.symm.trans hrow)
       exact ⟨row', hrow', hkept⟩
   · intro n
     rw [hwon n, Bool.and_not_self, if_neg (by simp)]
     refine createdFor_eq_zero fun id game hgame hnone hid => ?_
     rcases hrows (.game id) with hsame | hgone | ⟨new, hnew, hnew'⟩
     · cases hnone.symm.trans (hsame.symm.trans hgame)
     · cases hgone.symm.trans hgame
     · cases hnew.symm.trans hgame
       cases hnew'.symm.trans hid
   · rintro n attendeeId before after rfl
     cases hplain
   · exact fun n attendeeId hne => absurd (hrows (.vote n attendeeId)) hne
   · rintro id updated gameId counted voters takenOn rfl
     cases hplain

end Rows

end BoardGamesEmpire.EventPlanning
