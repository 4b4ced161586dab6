import BoardGamesEmpire.EventBallot

set_option autoImplicit false

/-!
# The programs keep the ballot

Most requests settle no nomination, and are judged write by write. The three
that touch an outcome or a vote, a nomination, a vote cast and a settlement, go
by what their locks let them know.
-/
namespace BoardGamesEmpire.EventPlanning
open JsText ReadCommitted ReadCommittedProtocol

section Plain

abbrev Plain (known : List (Lock Key Advisory)) (code : EventProgram) : Prop :=
  Stepwise BallotRow (fun m => plain m = true) known code

variable {known : List (Lock Key Advisory)} {next : EventProgram}

theorem plain_query {next : ℕ → Db → EventProgram} (h : ∀ clock v, Plain known (next clock v)) :
  Plain known (.query next) := stepwise_query composes_ballotRow h

theorem plain_lock {locks : Db → List (Lock Key Advisory)} {next : ℕ → Db → EventProgram}
  (h : ∀ clock v, Plain (known ++ locks v) (next clock v)) : Plain known (.lock locks next) :=
 stepwise_lock composes_ballotRow h

theorem plain_more {more : List (Lock Key Advisory)} (h : Plain known next) (hsub : known ⊆ more) :
  Plain more next :=
 h.more composes_ballotRow hsub

theorem plain_lockEvent {exclusive : Bool} (h : Plain (known ++ [⟨.row .event, exclusive⟩]) next) :
  Plain known (lockEvent exclusive next) := by
 refine plain_lock fun _ v => stepwise_check fun hthere => ?_
 rw [if_pos hthere]
 exact h

theorem plain_lockLiveEvent {next : Event → EventProgram}
  (h : ∀ e, Plain (known ++ [⟨.row .event, true⟩]) (next e)) : Plain known (lockLiveEvent next) :=
 plain_lockEvent (plain_query fun _ _ => stepwise_found fun e _ => h e)

theorem plain_assertEventNotCancelled (h : Plain known next) :
  Plain known (assertEventNotCancelled next) :=
 plain_lock fun _ _ => stepwise_unless fun _ => plain_more h (List.subset_append_left _ _)

theorem plain_commit {m : Mutation} (h : plain m = true) :
  Plain known (.commit m .halt) := stepwise_commit h

theorem plain_requireEvent {next : Event → EventProgram} (h : ∀ e, Plain known (next e)) :
  Plain known (requireEvent next) := plain_query fun _ _ => stepwise_found fun e _ => h e

theorem plain_actingAttendee {userId : ℕ} {next : ℕ → EventProgram}
  (h : ∀ id, Plain known (next id)) :
  Plain known (resolveActingAttendeeId userId next) :=
   plain_query fun _ _ => stepwise_found fun a _ => h a.1

theorem plain_policy {occurrenceId : Option ℕ} {next : EventPolicy → EventProgram}
  (h : ∀ policy, Plain known (next policy)) :
  Plain known (getEffectivePolicy occurrenceId next) := plain_query fun _ _ => plain_query fun _ _ => h _

theorem plain_lockSupplier {gameListId : ℕ} {next : Option LockedSupplier → EventProgram}
  (h : ∀ supplier, Plain known (next supplier)) : Plain known (lockSupplier gameListId next) :=
 plain_lock fun _ v => plain_more (h (lockedSupplier v gameListId)) (List.subset_append_left _ _)

theorem plain_referDate {occurrenceId : Option ℕ} (h : Plain known next) :
  Plain known (referDate occurrenceId next) := by
 cases occurrenceId with
 | none => exact h
 | some id => exact plain_lock fun _ _ => stepwise_check fun _ => plain_more h (List.subset_append_left _ _)

theorem plain_lockEventDates (h : Plain known next) : Plain known (lockEventDates next) :=
 plain_lockEvent (plain_more h (List.subset_append_left _ _))

theorem ballotRow_nomination {n : ℕ} {row row' : Nomination}
  (hdeadline : row'.votingDeadline = row.votingDeadline)
  (hstatus : row'.status = row.status ∨ isFinal row.status = false ∧ elevates row'.status = false) :
  BallotRow known (.nomination n) (some row) (some row') := by
 refine .inr ⟨row, row', rfl, rfl, ⟨hdeadline, fun hfinal => ?_⟩, ?_⟩
 · rcases hstatus with hsame | ⟨hopen, -⟩
   · exact hsame
   · rw [hopen] at hfinal
     cases hfinal
 · rcases hstatus with hsame | ⟨hopen, hlost⟩
   · rw [hsame]
   · rw [hlost]
     by_contra hne
     have hwon : elevates row.status = true := by simpa using Ne.symm hne
     rw [isFinal_of_elevates hwon] at hopen
     cases hopen

variable {attendeeId : ℕ}

theorem plain_moveNominations {selects : Nomination → Bool} {data : Nomination → Nomination}
  (hdata : ∀ row, selects row = true → (data row).votingDeadline = row.votingDeadline ∧
   isFinal row.status = false ∧ elevates (data row).status = false) (h : Plain known next) :
  Plain known (updateManyWith (moveNominations attendeeId selects data) next) := by
 refine plain_query fun _ v => stepwise_eachRow composes_ballotRow (fun k _ row value hchange => ?_) h
 cases k with
 | nomination n =>
  rw [moveNominations] at hchange
  by_cases hselected :
   ((gameList? v row.suppliedFromId).any (·.attendeeId = attendeeId) && selects row) = true
  · rw [if_pos hselected] at hchange
    cases hchange
    obtain ⟨hdeadline, hmoves⟩ := hdata row (Bool.and_eq_true_iff.1 hselected).2
    exact ballotRow_nomination hdeadline (.inr hmoves)
  · rw [if_neg hselected] at hchange
    cases hchange
 | _ => cases hchange

theorem plain_pauseFrom {status : NominationStatus}
  (hstatus : isFinal status = false) (h : Plain known next) :
  Plain known (updateManyWith (pauseFrom attendeeId status) next) := by
 refine plain_moveNominations (fun row hselects => ⟨rfl, ?_, rfl⟩) h
 rw [eq_of_beq hselects]
 exact hstatus

theorem plain_resumeTo {status : NominationStatus}
  (hstatus : elevates status = false) (h : Plain known next) :
  Plain known (updateManyWith (resumeTo attendeeId status) next) := by
 refine plain_moveNominations (fun row hselects => ⟨rfl, ?_, hstatus⟩) h
 rw [eq_of_beq (Bool.and_eq_true_iff.1 hselects).1]
 rfl

theorem plain_deleteGames {games : List (ℕ × EventGame)} (h : Plain known next) :
  Plain known (Code.eachRow deleteAll (games.map fun game => .game game.1) next) := by
 refine stepwise_eachRow composes_ballotRow (fun k hk row value hchange => ?_) h
 obtain ⟨game, -, rfl⟩ := List.mem_map.1 hk
 cases hchange
 exact .inr (.inl rfl)

theorem plain_sync {attendee : EventAttendee} {initiatedAt : ℕ} (h : Plain known next) :
  Plain known (syncSuppliedGames attendeeId attendee initiatedAt next) := by
 have hmore : Plain (known ++ [⟨.row .event, false⟩]) next := plain_more h (List.subset_append_left _ _)
 refine plain_lockEvent (stepwise_ite (fun _ => ?_) fun _ => ?_)
 · refine plain_pauseFrom rfl (plain_pauseFrom rfl (plain_query fun _ v => ?_))
   exact plain_deleteGames hmore
 · exact plain_resumeTo rfl (plain_resumeTo rfl hmore)

theorem plain_updateRow {k : Key} {may : Db → Row k → Bool} {data : Row k → Row k}
  {next : Row k → EventProgram} (hrow : ∀ row, BallotRow known k (some row) (some (data row)))
  (h : ∀ row, Plain known (next row)) :
  Plain known (Code.updateRow k may data next) :=
 stepwise_writeRow
  (fun _ row _ => composes_ballotRow.mono _ _ _ _ _ (List.subset_append_left _ _) (hrow row))
  fun row => plain_more (h (data row)) (List.subset_append_left _ _)

theorem plain_insertRow {key : ℕ → Key} {row : (clock : ℕ) → Row (key clock)}
  {next : ℕ → EventProgram} (hrow : ∀ clock, BallotRow known (key clock) none (some (row clock)))
  (h : ∀ clock, Plain known (next clock)) :
  Plain known (Code.insertRow key row next) :=
 stepwise_insertRow
  (fun clock => composes_ballotRow.mono _ _ _ _ _ (List.subset_append_left _ _) (hrow clock))
  fun clock => plain_more (h clock) (List.subset_append_left _ _)

theorem plain_writeEventDates {α : Type} {initiatedAt : ℕ} {write : (α → EventProgram) → EventProgram}
  {next : α → List (ℕ × EventGame) → EventProgram}
  (hwrite : ∀ after : α → EventProgram, (∀ a, Plain (known ++ [⟨.row .event, true⟩]) (after a)) →
   Plain (known ++ [⟨.row .event, true⟩]) (write after))
  (hnext : ∀ a removed, Plain (known ++ [⟨.row .event, true⟩]) (next a removed)) :
  Plain known (writeEventDates initiatedAt write next) :=
 plain_lockEvent (hwrite _ fun a => plain_query fun _ _ => plain_deleteGames (hnext a _))

section Decisions

variable (userId : ℕ) (ceiling : Ceiling)

theorem plain_transition {write : Event → List EventOccurrence → EventProgram}
  (h : ∀ e dates, Plain (known ++ [⟨.row .event, true⟩]) (write e dates)) :
  Plain known (transition ceiling write) :=
 plain_lockLiveEvent fun _ => plain_query fun _ _ => stepwise_check fun _ => plain_query fun _ _ => h _ _

theorem plain_cascade {status : OccurrenceStatus} {data : EventOccurrence → EventOccurrence}
  (h : Plain known next) :
  Plain known (Code.updateMany (cascade status data) next) := by
 refine stepwise_updateMany composes_ballotRow (fun k row value hchange => ?_) h
 cases k with
 | date d => trivial
 | _ => cases hchange

theorem plain_cancelEvent (reason : Option Text) :
  Plain [] (cancelEvent userId ceiling reason) := by
 refine plain_query fun _ _ => plain_transition ceiling fun existing _ => ?_
 refine stepwise_ite (fun _ => plain_commit rfl) fun _ => stepwise_unless fun _ => ?_
 exact plain_updateRow (fun _ => trivial) fun cancelled => plain_cascade (plain_cascade (plain_commit rfl))

theorem plain_reopenEvent : Plain [] (reopenEvent userId ceiling) := by
 refine plain_query fun _ _ => plain_transition ceiling fun existing _ => ?_
 refine stepwise_ite (fun _ => plain_commit rfl) fun _ => stepwise_unless fun _ => ?_
 exact plain_updateRow (fun _ => trivial) fun _ => plain_commit rfl

theorem plain_archiveEvent : Plain [] (archiveEvent ceiling) := by
 refine plain_query fun _ _ => plain_transition ceiling fun existing _ => ?_
 refine stepwise_ite (fun _ => plain_commit rfl) fun _ => stepwise_check fun _ => ?_
 exact plain_updateRow (fun _ => trivial) fun _ => plain_commit rfl

theorem plain_unarchiveEvent : Plain [] (unarchiveEvent ceiling) := by
 refine plain_query fun _ _ => plain_transition ceiling fun existing _ => ?_
 refine stepwise_ite (fun _ => plain_commit rfl) fun _ => ?_
 exact plain_updateRow (fun _ => trivial) fun _ => plain_commit rfl

theorem plain_updateEvent (dto : UpdateEvent) (relations : Bool) :
  Plain [] (updateEvent ceiling dto relations) := by
 refine stepwise_check fun _ => plain_lockLiveEvent fun existing => ?_
 exact plain_updateRow (fun _ => trivial) fun _ => plain_commit rfl

theorem plain_deleteEvent : Plain [] (deleteEvent userId ceiling) := by
 refine plain_lockLiveEvent fun existing => plain_query fun _ _ => ?_
 exact plain_updateRow (fun _ => trivial) fun _ => plain_commit rfl

theorem plain_createOccurrences {poll : Bool}
  (hevent : (⟨.row .event, true⟩ : Lock Key Advisory) ∈ known) (h : Plain known next)
  (dtos : List CreateOccurrence) :
   ∀ index, Plain known (createOccurrences poll index dtos next) := by
 induction dtos with
 | nil => exact fun _ => h
 | cons dto rest ih =>
  refine fun index => plain_insertRow (fun _ => trivial) fun id => stepwise_ite (fun _ => ih _) fun _ => ?_
  exact plain_insertRow (fun _ => .inr (covers_of_mem hevent)) fun _ => ih _

theorem plain_createAttendees (h : Plain known next)
  (people : List (ℕ × ParticipationStatus × EventRole)) :
  Plain known (createAttendees people next) := by
 induction people with
 | nil => exact h
 | cons person rest ih =>
  exact plain_insertRow (fun _ => trivial) fun id => plain_insertRow (fun _ => trivial) fun _ => ih

theorem plain_createEvent (mayCreate : Option ℕ → Bool) (invitable : Ceiling) (dto : CreateEvent) :
  Plain [] (createEvent userId mayCreate invitable dto) := by
 refine stepwise_check fun _ => plain_query fun _ _ => stepwise_check fun _ => ?_
 refine stepwise_insertRow (fun _ => trivial) fun _ => ?_
 have hevent : (⟨.row .event, true⟩ : Lock Key Advisory) ∈ [] ++ [⟨.row .event, true⟩] :=
  List.mem_singleton_self _
 have hpolicy : BallotRow ([] ++ [⟨.row .event, true⟩]) .eventPolicy none (some dto.policy) :=
  .inr (covers_of_mem hevent)
 refine plain_createOccurrences hevent (plain_insertRow (fun _ => hpolicy) fun _ => ?_) _ _
 exact plain_createAttendees (plain_commit rfl) _

end Decisions

section Dates

variable (ceiling : Ceiling)

theorem plain_addOccurrence (mayCreate : Option ℕ → Bool) (dto : AddOccurrence) :
  Plain [] (addOccurrence mayCreate dto) := by
 refine plain_query fun initiatedAt _ => plain_query fun _ v => stepwise_found fun event _ =>
  stepwise_check fun _ => ?_
 have hwrite : Plain [] (writeEventDates initiatedAt
   (fun next => assertEventNotCancelled <|
    Code.insertRow Key.date (fun _ => addedOccurrence event.schedulingMode dto) next)
   fun id removed =>
    .commit (.occurrenceAdded id (addedOccurrence event.schedulingMode dto) removed) .halt) := by
  refine plain_writeEventDates (fun after hafter => ?_) fun _ _ => plain_commit rfl
  exact plain_assertEventNotCancelled (plain_insertRow (fun _ => trivial) hafter)
 exact stepwise_ite (fun _ => plain_query fun _ _ => stepwise_unless fun _ => hwrite) fun _ => hwrite

theorem plain_updateOccurrence (id : ℕ) (dto : UpdateOccurrence) :
  Plain [] (updateOccurrence ceiling id dto) := by
 refine plain_query fun initiatedAt _ => stepwise_check fun _ => plain_query fun _ v =>
  stepwise_found fun existing _ => ?_
 refine plain_writeEventDates (fun after hafter => ?_) fun _ _ => plain_commit rfl
 exact plain_updateRow (fun _ => trivial) hafter

theorem plain_removeOccurrence (id : ℕ) : Plain [] (removeOccurrence ceiling id) := by
 refine plain_query fun initiatedAt _ => plain_query fun _ v => stepwise_check fun _ => ?_
 refine plain_writeEventDates (fun after hafter => ?_) fun _ _ => plain_commit rfl
 refine plain_query fun _ v => stepwise_found fun current _ => stepwise_unless fun _ =>
  plain_lock fun _ _ => ?_
 refine stepwise_writeRow (fun _ _ _ => trivial) fun deleted => ?_
 have hevent : (⟨.row .event, true⟩ : Lock Key Advisory) ∈
   [] ++ [⟨.row .event, true⟩] ++ [⟨.advisory (.dateExists id), true⟩] ++ [⟨.row
    (.date id), true⟩] := by simp
 refine stepwise_updateMany composes_ballotRow (fun k row value hchange => ?_) ?_
 · cases k with
   | datePolicy d => exact .inr (covers_of_mem hevent)
   | game g =>
    rw [cascadeDate] at hchange
    by_cases hdate : row.occurrenceId = some id
    · rw [if_pos hdate] at hchange
      cases hchange
      exact .inr (.inl rfl)
    · rw [if_neg hdate] at hchange
      cases hchange
   | _ => cases hchange
 · refine stepwise_updateMany composes_ballotRow (fun k row value hchange => ?_) ?_
   · cases k with
     | nomination n =>
      rw [clearDate] at hchange
      by_cases hdate : row.occurrenceId = some id
      · rw [if_pos hdate] at hchange
        cases hchange
        exact ballotRow_nomination rfl (.inl rfl)
      · rw [if_neg hdate] at hchange
        cases hchange
     | _ => cases hchange
   · exact plain_more (hafter deleted) fun l hl => by simp at hl ⊢; simp [hl]

theorem plain_transitionStatus {id : ℕ} {allowedFrom newStatus : OccurrenceStatus}
  {extraData : EventOccurrence → EventOccurrence} {refuseOnCancelledEvent : Bool} :
  Plain [] (transitionStatus ceiling id allowedFrom newStatus extraData refuseOnCancelledEvent) := by
 refine plain_query fun _ v => stepwise_check fun _ => plain_lockEvent ?_
 have hwrite : Plain ([] ++ [⟨.row .event, true⟩]) (.query fun _ v =>
   (((date? v id).filter (·.status = allowedFrom)).map fun current =>
    Code.updateRow (.date id) (fun v row => row.status == current.status && ceiling v)
     (fun row : EventOccurrence => extraData { row with status := newStatus })
     fun written => .commit (.occurrenceStatusChanged id current.status written) .halt).getD refuse) :=
  plain_query fun _ v => stepwise_found fun current _ => plain_updateRow (fun _ => trivial) fun _ =>
   plain_commit rfl
 cases refuseOnCancelledEvent with
 | false => exact hwrite
 | true => exact plain_assertEventNotCancelled hwrite

end Dates

section Supply

variable (userId : ℕ) (ceiling : Ceiling)

theorem plain_withdraw (id : ℕ) : Plain [] (withdraw userId ceiling id) := by
 refine plain_actingAttendee fun attendeeId => plain_query fun _ v => stepwise_check fun _ =>
  plain_lock fun _ v => ?_
 refine stepwise_found fun current hcurrent => stepwise_writeRow (fun _ row hmay => ?_) fun _ =>
  plain_commit rfl
 have hstatus : row.status = current.status := eq_of_beq (Bool.and_eq_true_iff.1 hmay).1
 have hopen : withdrawable.contains current.status = true := (Option.filter_eq_some_iff.1 hcurrent).2
 refine ballotRow_nomination rfl (.inr ⟨?_, rfl⟩)
 rw [hstatus]
 revert hopen
 cases current.status <;> decide

theorem plain_directAddGame (mayCreate : Option ℕ → Option ℕ → Bool) (dto : DirectAddGame) :
  Plain [] (directAddGame userId mayCreate dto) := by
 refine plain_requireEvent fun event => plain_query fun _ v => stepwise_check fun _ => ?_
 refine plain_actingAttendee fun attendeeId => plain_policy fun policy => stepwise_check fun _ => ?_
 refine plain_lockSupplier fun supplier => stepwise_check fun _ => plain_referDate ?_
 exact plain_insertRow (fun _ => .inr (.inr ⟨_, rfl, rfl⟩)) fun _ => plain_commit rfl

theorem plain_addAttendee (mayCreate : Option ℕ → EventRole → Bool) (invitable : Ceiling)
  (dto : AddAttendee) :
  Plain [] (addAttendee userId mayCreate invitable dto) := by
 refine plain_query fun initiatedAt _ => plain_requireEvent fun event => stepwise_check fun _ => ?_
 refine plain_query fun _ v => plain_query fun _ v' => ?_
 cases findAttendeeOf v' dto.userId with
 | none =>
  refine plain_query fun _ v => stepwise_check fun _ => ?_
  have hinsert : ∀ (inviterId : Option ℕ) (next : ℕ → EventProgram), (∀ id, Plain [] (next id)) →
    Plain [] (reserveUser dto.userId <| Code.insertRow Key.attendee
     (fun _ => addedAttendee dto inviterId) next) := by
   intro inviterId next hnext
   unfold reserveUser
   cases dto.userId with
   | none => exact plain_insertRow (fun _ => trivial) hnext
   | some user =>
    refine plain_lock fun _ v => stepwise_unless fun _ => plain_insertRow (fun _ => trivial) fun id => ?_
    exact plain_more (hnext id) (List.nil_subset _)
  exact hinsert _ _ fun id => plain_insertRow (fun _ => trivial) fun _ => plain_commit rfl
 | some found =>
  refine stepwise_unless fun _ => plain_query fun _ v => stepwise_check fun _ => ?_
  refine plain_updateRow (fun _ => trivial) fun attendee clock v => ⟨fun w hw => ?_, ?_⟩
  · rw [List.mem_singleton.1 hw]
    trivial
  · exact plain_sync (plain_commit rfl)

theorem plain_removeAttendee (id : ℕ) : Plain [] (removeAttendee ceiling id) := by
 refine plain_query fun initiatedAt _ => plain_requireEvent fun event => plain_query fun _ v =>
  stepwise_check fun _ => ?_
 refine plain_query fun removedAt _ => plain_updateRow (fun _ => trivial) fun removed clock v => ⟨?_, ?_⟩
 · exact stepwise_rowWrites fun _ _ _ => trivial
 · exact plain_sync (plain_commit rfl)

theorem plain_updateStatus (id : ℕ) (dto : UpdateAttendeeStatus) :
  Plain [] (updateStatus ceiling id dto) := by
 refine plain_query fun initiatedAt _ => plain_requireEvent fun event => plain_query fun _ v =>
  stepwise_check fun _ => ?_
 refine plain_query fun rsvpDate _ => plain_lock fun _ _ =>
  plain_updateRow (fun _ => trivial) fun updated => ?_
 exact plain_sync (plain_commit rfl)

theorem plain_addGameToList (mayCreate : Option ℕ → Option ℕ → Bool) (attendeeId collectionId : ℕ) :
  Plain [] (addGameToList mayCreate attendeeId collectionId) := by
 refine plain_requireEvent fun event => plain_query fun _ v => stepwise_found fun attendee _ =>
  stepwise_check fun _ => ?_
 refine plain_query fun _ v => stepwise_check fun _ => plain_query fun _ v => ?_
 cases (listEntry v attendeeId collectionId).filter (·.2.removedAt.isSome) with
 | none =>
  refine plain_lock fun _ v => stepwise_unless fun _ => plain_insertRow (fun _ => trivial) fun _ => ?_
  exact plain_commit rfl
 | some found => exact plain_updateRow (fun _ => trivial) fun _ => plain_commit rfl

theorem plain_removeGameFromList (attendeeId gameListId : ℕ) :
  Plain [] (removeGameFromList ceiling attendeeId gameListId) := by
 refine plain_query fun initiatedAt _ => plain_query fun _ v => stepwise_found fun attendee _ =>
  plain_query fun _ v => ?_
 refine stepwise_check fun _ => plain_lock fun _ v => stepwise_check fun _ => plain_query fun _ v =>
  stepwise_check fun _ => ?_
 refine plain_lockEventDates (plain_query fun _ v => plain_query fun _ v => stepwise_unless fun _ => ?_)
 exact plain_query fun removedAt _ => plain_updateRow (fun _ => trivial) fun _ => plain_commit rfl

end Supply

end Plain

section Outcomes

variable {percentOf : ℕ → ℕ → ℕ} {σ : State} {m : Mutation} {before after : Db}

theorem createdFor_eq_one {n g : ℕ} {game : EventGame} (hnew : game? after g = some game)
  (hnone : game? before g = none) (hid : game.nominationId = some n)
  (honly : ∀ id other, game? after id = some other → game? before id = none → id = g) :
  createdFor n before after = 1 := by
 have hkeys : ∀ k (row : Row k) k' (row' : Row k') a, asGame k row = some a →
  asGame k' row' = some a → k = k' := by
  intro k row k' row' a h h'
  cases k with
  | game id =>
   cases k' with
   | game id' => cases h; cases h'; rfl
   | _ => cases h'
  | _ => cases h
 have hperm : List.Perm ((lineup after).filter fun game =>
   (game? before game.1).isNone && game.2.nominationId == some n) [(g, game)] := by
  refine (List.perm_ext_iff_of_nodup ((nodup_select hkeys after).filter _)
   (List.nodup_singleton _)).2 fun a => ?_
  rw [List.mem_filter, List.mem_singleton]
  constructor
  · rintro ⟨hmem, hcreated⟩
    have hgame := mem_lineup.1 hmem
    obtain ⟨hgone, -⟩ := Bool.and_eq_true_iff.1 hcreated
    have hg := honly a.1 a.2 hgame (Option.isNone_iff_eq_none.1 hgone)
    rw [hg] at hgame
    exact Prod.ext hg (Option.some.inj (hgame.symm.trans hnew))
  · rintro rfl
    exact ⟨mem_lineup.2 hnew, by simp [hnone, hid]⟩
 exact hperm.length_eq

def Elevation (σ : State) (id : ℕ) (row : Nomination) (log : List (Write Row)) : Prop :=
  (log = [] ∧ elevates row.status = false) ∨
    ∃ g game, log = [⟨.game g, some game⟩] ∧ elevates row.status = true ∧
     game.nominationId = some id ∧ game? σ.db g = none

theorem lookup_outcome {id : ℕ} {row : Nomination} {log : List (Write Row)}
  (h : Elevation σ id row log) :
  nomination? (applyLog σ.db (⟨.nomination id, some row⟩ :: log)) id = some row ∧
   (∀ k, k ≠ .nomination id → (∀ g, k ≠ .game g) →
    (applyLog σ.db (⟨.nomination id, some row⟩ :: log)).lookup k = σ.db.lookup k) := by
 have hgames : ∀ w ∈ log, ∃ g, w.key = .game g := by
  rintro w hw
  rcases h with ⟨rfl, -⟩ | ⟨g, game, rfl, -⟩
  · cases hw
  · rw [List.mem_singleton.1 hw]
    exact ⟨g, rfl⟩
 refine ⟨lookup_applyLog_eq _ ⟨_, List.mem_cons_self, rfl⟩ fun w hw hkey => ?_, fun k hk hnot => ?_⟩
 · rcases List.mem_cons.1 hw with rfl | hw
   · rfl
   · obtain ⟨g, hg⟩ := hgames w hw
     rw [hg] at hkey
     cases hkey
 · apply lookup_applyLog_of_notMem
   intro w hw hkey
   rcases List.mem_cons.1 hw with rfl | hw
   · exact hk hkey.symm
   · obtain ⟨g, hg⟩ := hgames w hw
     exact hnot g (hkey.symm.trans hg)

theorem game_outcome {id g : ℕ} {row : Nomination} {log : List (Write Row)}
  (h : Elevation σ id row log) :
  (game? (applyLog σ.db (⟨.nomination id, some row⟩ :: log)) g = game? σ.db g ∧
   ∀ game, log ≠ [⟨.game g, some game⟩]) ∨
  ∃ game, game? (applyLog σ.db (⟨.nomination id, some row⟩ :: log)) g = some game ∧
   log = [⟨.game g, some game⟩] := by
 rcases h with ⟨rfl, -⟩ | ⟨g', game, rfl, -⟩
 · exact .inl ⟨lookup_applyLog_of_notMem _ (by simp), by simp⟩
 · by_cases hg : g' = g
   · subst hg
     exact .inr ⟨game, lookup_applyLog_eq _ ⟨_, List.mem_cons_of_mem _ List.mem_cons_self, rfl⟩
      (by simp), rfl⟩
   · exact .inl ⟨lookup_applyLog_of_notMem _ (by simpa using hg), by simp [hg]⟩

theorem ballotStep_outcome {held : List (Lock Key Advisory)} {id : ℕ} {row : Nomination}
  {log : List (Write Row)}
  (hgame : Elevation σ id row log)
  (hold : ∀ old, nomination? σ.db id = some old → Kept old row ∧ elevates old.status = false)
  (hcast : ∀ n attendeeId old new, m ≠ .voteCast n attendeeId old new)
  (hcounted : ∀ id' updated gameId counted voters takenOn,
   m = .nominationResolved id' updated gameId counted voters takenOn →
    Counted percentOf σ.db (applyLog σ.db (⟨.nomination id, some row⟩ :: log)) id' updated counted
     voters takenOn) :
  ballotLocks.Respected held σ.db (applyLog σ.db (⟨.nomination id, some row⟩ :: log)) ∧
   BallotStep percentOf σ m (applyLog σ.db (⟨.nomination id, some row⟩ :: log)) := by
 obtain ⟨hself, hother⟩ := lookup_outcome hgame
 have hgames := fun g => game_outcome (g := g) hgame
 generalize applyLog σ.db (⟨.nomination id, some row⟩ :: log) = db' at hself hother hgames hcounted ⊢
 have hnomination : ∀ n, n ≠ id → nomination? db' n = nomination? σ.db n := fun n hn =>
  hother (.nomination n) (by simpa using hn) (by simp)
 -- a game that was not there came with this nomination, which won
 have hcame : ∀ g game, game? db' g = some game → game? σ.db g = none →
   log = [⟨.game g, some game⟩] ∧ elevates row.status = true ∧ game.nominationId = some id := by
  intro g game hnow hnone
  rcases hgames g with ⟨hsame, -⟩ | ⟨game', hgame', hlog⟩
  · cases hnone.symm.trans (hsame.symm.trans hnow)
  · obtain rfl := Option.some.inj (hgame'.symm.trans hnow)
    rcases hgame with ⟨hnil, -⟩ | ⟨g₀, game₀, hlog₀, helevates, hid, -⟩
    · cases hnil.symm.trans hlog
    · cases hlog₀.symm.trans hlog
      exact ⟨hlog, helevates, hid⟩
 have hbefore : won σ.db id = false := by
  cases hrow : nomination? σ.db id with
  | none => rw [won, hrow, Option.any_none]
  | some old => rw [won, hrow, Option.any_some, (hold old hrow).2]
 have hafter : won db' id = elevates row.status := by rw [won, hself, Option.any_some]
 refine ⟨fun k hne l hl => ?_, ?_⟩
 · cases k with
   | nomination n => cases hl
   | game g => cases hl
   | _ => exact absurd (hother _ (by simp) (by simp)) hne
 · constructor
   · intro n old hn
     by_cases hid : n = id
     · subst hid
       exact ⟨row, hself, (hold old hn).1⟩
     · exact ⟨old, (hnomination n hid).trans hn, .refl old⟩
   · intro n
     by_cases hid : n = id
     · subst hid
       rw [hbefore, hafter, Bool.not_false, Bool.and_true]
       rcases hgame with ⟨rfl, hlost⟩ | ⟨g, game, rfl, hwon, hgid, hnone⟩
       · rw [hlost, if_neg (by simp)]
         refine createdFor_eq_zero fun g game hnow hnone _ => ?_
         cases (hcame g game hnow hnone).1
       · rw [hwon, if_pos rfl]
         have hnew : game? db' g = some game := by
          rcases hgames g with ⟨-, hnot⟩ | ⟨game', hgame', hlog⟩
          · exact absurd rfl (hnot game)
          · cases hlog
            exact hgame'
         refine createdFor_eq_one hnew hnone hgid fun g' game' hnow hnone' => ?_
         cases (hcame g' game' hnow hnone').1
         rfl
     · rw [won, hnomination n hid, ← won, Bool.and_not_self, if_neg (by simp)]
       refine createdFor_eq_zero fun g game hnow hnone hgame' => hid ?_
       exact (Option.some.inj ((hcame g game hnow hnone).2.2.symm.trans hgame')).symm
   · exact fun n attendeeId old new hm => absurd hm (hcast n attendeeId old new)
   · exact fun n attendeeId hne => absurd (hother (.vote n attendeeId) (by simp) (by simp)) hne
   · exact hcounted

end Outcomes

section Votes

variable {percentOf : ℕ → ℕ → ℕ} {σ : State} {known : List (Lock Key Advisory)} {Φ : State → Prop}

theorem ballotStep_cast {held : List (Lock Key Advisory)} {n attendeeId : ℕ}
  {before : Option GameVote} {after : GameVote}
  (hopen : (nomination? σ.db n).any (·.status = .open) = true)
  (hheld : Covers held ⟨.row (.nomination n), false⟩) :
  ballotLocks.Respected held σ.db (applyLog σ.db [⟨.vote n attendeeId, some after⟩]) ∧
   BallotStep percentOf σ (.voteCast n attendeeId before after)
    (applyLog σ.db [⟨.vote n attendeeId, some after⟩]) := by
 have hother : ∀ k, k ≠ .vote n attendeeId →
   (applyLog σ.db [⟨.vote n attendeeId, some after⟩]).lookup k = σ.db.lookup k := fun k hk =>
  lookup_applyLog_of_notMem _ (by simpa using Ne.symm hk)
 have hself : vote? (applyLog σ.db [⟨.vote n attendeeId, some after⟩]) n attendeeId = some after :=
  lookup_applyWrite_self σ.db (.vote n attendeeId) (some after)
 generalize applyLog σ.db [⟨.vote n attendeeId, some after⟩] = db' at hother hself ⊢
 have hnomination : ∀ n', nomination? db' n' = nomination? σ.db n' :=
  fun n' => hother (.nomination n') (by simp)
 refine ⟨fun k hne l hl => ?_, ?_⟩
 · by_cases hk : k = .vote n attendeeId
   · subst hk
     rw [List.mem_singleton.1 hl]
     exact hheld
   · exact absurd (hother k hk) hne
 · constructor
   · exact fun n' row hrow => ⟨row, (hnomination n').trans hrow, .refl row⟩
   · intro n'
     rw [won, hnomination n', ← won, Bool.and_not_self, if_neg (by simp)]
     refine createdFor_eq_zero fun g game hnow hnone _ => ?_
     cases hnone.symm.trans ((hother (.game g) (by simp)).symm.trans hnow)
   · intro n' a' old new hm
     cases hm
     exact ⟨hopen, hself⟩
   · intro n' a' hne
     by_cases hk : Key.vote n' a' = .vote n attendeeId
     · cases hk
       exact ⟨before, after, rfl⟩
     · exact absurd (hother _ hk) hne
   · exact fun id updated gameId counted voters takenOn hm => by cases hm

theorem safe_castVote (userId : ℕ) (mayVote : ℕ → Bool) (nominationId : ℕ) (dto : CastVote)
  (σ : State) :
  Safe (ballot percentOf) (castVote userId mayVote nominationId dto) [] [] σ := by
 apply safe_of_safeOn
 have hnothing := keeps_const (ballot percentOf) [] True
 refine safeOn_actingAttendee hnothing fun attendeeId => safeOn_check hnothing fun _ => ?_
 refine safeOn_query hnothing fun σ₁ _ _ => safeOn_check hnothing fun _ =>
  safeOn_lock hnothing fun σ₂ _ _ _ => ?_
 by_cases hopen : (nomination? (view σ₂ []) nominationId).any (·.status = .open) = true
 · have hthere : (nomination? (view σ₂ []) nominationId).isSome = true := by
    cases hrow : nomination? (view σ₂ []) nominationId with
    | none =>
     rw [hrow] at hopen
     cases hopen
    | some row => rfl
   rw [if_pos hopen, if_pos hthere]
   -- the share lock keeps the nomination open
   have hheld : (⟨.row (.nomination nominationId), false⟩ : Lock Key Advisory) ∈
     [] ++ [⟨.row (.nomination nominationId), false⟩] := List.mem_singleton_self _
   have hkeeps := keeps_row (ballot percentOf) hheld (nomination? (view σ₂ []) nominationId)
   refine ⟨fun σ => nomination? σ.db nominationId = nomination? (view σ₂ []) nominationId, rfl, ?_⟩
   refine safeOn_query hkeeps fun σ₃ _ _ => safeOn_keep hkeeps fun σ₄ _ _ => ?_
   refine safeOn_commit (hkeeps.weaken (List.subset_append_left _ _))
    (fun held σ₅ hknown _ _ hrow' => ?_) safeOn_halt
   refine ballotStep_cast ?_ (covers_of_mem (hknown (List.mem_append_left _ hheld)))
   rw [hrow']
   exact hopen
 · rw [if_neg hopen]
   exact ⟨_, trivial, safeOn_stop⟩

end Votes

section Settlement

variable {percentOf : ℕ → ℕ → ℕ} {σ : State} {known : List (Lock Key Advisory)} {Φ : State → Prop}
  {log : List (Write Row)}

variable {id : ℕ}

theorem safeOn_elevate {P : Protocol Row Advisory Mutation} {row : Nomination} {occurrenceId : Option ℕ}
  {next : ℕ → EventProgram} (hkeeps : Keeps P known Φ) (hlog : ∀ w ∈ log, ∀ g, w.key ≠ .game g)
  (hnext : ∀ g more, known ⊆ more → Keeps P more (fun σ => Φ σ ∧ game? σ.db g = none) →
   SafeOn P more (fun σ => Φ σ ∧ game? σ.db g = none) (next g)
    (log ++ [⟨.game g, some (elevatedGame id row occurrenceId)⟩])) :
  SafeOn P known Φ (elevateToEventGame id row occurrenceId next) log := by
 refine safeOn_referDate hkeeps fun more hmore => safeOn_insertRow (hkeeps.weaken hmore) ?_
 intro σ _ _ hΦ' hnone
 have hfree : game? σ.db σ.clock = none :=
  (lookup_applyLog_of_notMem σ.db fun w hw => hlog w hw σ.clock).symm.trans hnone
 have hsub := List.subset_append_left more [⟨.row (.game σ.clock), true⟩]
 have hrow := keeps_row P (List.mem_append_right more (List.mem_singleton_self
  (⟨.row (.game σ.clock), true⟩ : Lock Key Advisory))) none
 exact ⟨_, ⟨hΦ', hfree⟩, hnext _ _ (List.Subset.trans hmore hsub)
  ((hkeeps.weaken (List.Subset.trans hmore hsub)).and hrow)⟩

theorem safe_nominate (userId : ℕ) (mayCreate : Option ℕ → Bool) (dto : NominateGame) (σ : State) :
  Safe (ballot percentOf) (nominate userId mayCreate dto) [] [] σ := by
 apply safe_of_safeOn
 have hnothing := fun known => keeps_const (ballot percentOf) known True
 refine safeOn_requireEvent (hnothing _) fun event => safeOn_query (hnothing _) fun _ _ _ => ?_
 refine safeOn_check (hnothing _) fun _ => safeOn_actingAttendee (hnothing _) fun attendeeId => ?_
 refine safeOn_policy (hnothing _) fun σ₁ σ₂ _ _ => safeOn_unless (hnothing _) fun _ => ?_
 generalize effectivePolicy _ _ = policy
 refine safeOn_now (hnothing _) fun σ₃ _ _ => safeOn_lock (hnothing _) fun σ₄ _ _ _ =>
  ⟨fun _ => True, trivial, ?_⟩
 refine safeOn_check (hnothing _) fun _ => safeOn_referDate (hnothing _) fun more _ => ?_
 refine safeOn_insertRow (hnothing _) fun σ₅ _ _ _ hnone => ?_
 -- the nomination's key is held, and nobody has it
 refine ⟨fun σ => nomination? σ.db σ₅.clock = none, hnone, ?_⟩
 have hkeeps := keeps_row (ballot percentOf) (List.mem_append_right more (List.mem_singleton_self
  (⟨.row (.nomination σ₅.clock), true⟩ : Lock Key Advisory))) none
 have hnew : ∀ (σ : State) (row : Nomination), nomination? σ.db σ₅.clock = none →
   ∀ old, nomination? σ.db σ₅.clock = some old → Kept old row ∧ elevates old.status = false :=
  fun σ row hnone' old hold => by cases hnone'.symm.trans hold
 by_cases hdirect : policy.gameAdditionMode = .direct
 · rw [if_pos hdirect]
   refine safeOn_elevate hkeeps (by simp) fun g more' _ hkeeps' => ?_
   refine safeOn_commit hkeeps' (fun held σ₆ _ _ _ hknown => ?_) safeOn_halt
   refine ballotStep_outcome (.inr ⟨g, _, rfl, ?_, rfl, hknown.2⟩) (hnew σ₆ _ hknown.1) (by simp) (by simp)
   rw [hdirect]
   rfl
 · rw [if_neg hdirect]
   refine safeOn_commit hkeeps (fun held σ₆ _ _ _ hknown => ?_) safeOn_halt
   refine ballotStep_outcome (.inl ⟨rfl, ?_⟩) (hnew σ₆ _ hknown) (by simp) (by simp)
   revert hdirect
   cases policy.gameAdditionMode <;> simp [initialStatus, elevates]

def Ballots (id : ℕ) : Key → Prop
  | .nomination n => n = id
  | .vote n _ => n = id
  | .eventPolicy | .datePolicy _ => True
  | _ => False

theorem keeps_ballots (hnomination : (⟨.row (.nomination id), true⟩ : Lock Key Advisory) ∈ known)
  (hevent : (⟨.row .event, false⟩ : Lock Key Advisory) ∈ known) (takenOn : Db) :
  Keeps (ballot percentOf) known fun σ => Agree (Ballots id) takenOn σ.db := by
 have hrow := keeps_row (ballot percentOf) hnomination (nomination? takenOn id)
 have hothers : Keeps (ballot percentOf) known fun σ =>
   Agree (fun k => Ballots id k ∧ k ≠ .nomination id) takenOn σ.db := by
  refine keeps_agree (D := ballotLocks) (fun _ _ _ h => h) (fun k hk => ?_)
   (fun k hk db old new _ => ?_) takenOn
  · obtain ⟨hk, -⟩ := hk
    cases k with
    | collection c => exact hk.elim
    | voteGrant role => exact hk.elim
    | _ => rfl
  · obtain ⟨hk, hne⟩ := hk
    cases k with
    | nomination n => exact absurd (congrArg Key.nomination hk) hne
    | vote n a =>
     obtain rfl : n = id := hk
     exact ⟨_, List.mem_singleton_self _, _, hnomination, rfl, .inl rfl⟩
    | eventPolicy | datePolicy d => exact ⟨_, List.mem_singleton_self _, _, hevent, rfl, .inr rfl⟩
    | _ => exact hk.elim
 intro held hknown σ σ' hagree hinv hinv' hrely k hk
 by_cases hself : k = .nomination id
 · subst hself
   exact hrow held hknown σ σ' (hagree _ rfl) hinv hinv' hrely
 · exact hothers held hknown σ σ' (fun k' hk' => hagree k' hk'.1) hinv hinv' hrely k ⟨hk, hself⟩

structure Fits (percentOf : ℕ → ℕ → ℕ) (id : ℕ) (takenOn : Db) (current : Nomination)
    (outcome : NominationStatus)
    (mutation : Nomination → Option ℕ → Mutation) : Prop where
  cast : ∀ updated gameId n attendeeId old new, mutation updated gameId ≠ .voteCast n attendeeId old new
  counted : ∀ updated gameId id' updated' gameId' counted voters takenOn',
    mutation updated gameId = .nominationResolved id' updated' gameId' counted voters takenOn' →
      id' = id ∧ updated' = updated ∧ takenOn' = takenOn ∧ current.status = .open ∧
       outcome = counted.status ∧
        counted = countVotes percentOf (votesOn takenOn id) voters (policyOf takenOn current.occurrenceId)

theorem counted_of_fits {takenOn db db' : Db} {current : Nomination}
  {outcome : NominationStatus} {mutation : Nomination → Option ℕ → Mutation}
  (hfits : Fits percentOf id takenOn current outcome mutation)
  (hagree : Agree (Ballots id) takenOn db) (hcurrent : nomination? takenOn id = some current)
  {gameId : Option ℕ} (hself : nomination? db' id = some { current with status := outcome }) :
  ∀ id' updated gameId' counted voters takenOn', mutation { current with status := outcome } gameId =
   .nominationResolved id' updated gameId' counted voters takenOn' →
    Counted percentOf db db' id' updated counted voters takenOn' := by
 intro id' updated gameId' counted voters takenOn' hm
 obtain ⟨rfl, rfl, rfl, hopen, houtcome, hcount⟩ := hfits.counted _ _ _ _ _ _ _ _ hm
 exact ⟨⟨hself, houtcome⟩, ⟨current, hcurrent, hopen, hcount⟩, hagree (.nomination id') rfl,
  fun attendeeId => hagree (.vote id' attendeeId) rfl⟩

theorem safeOn_decided {ceiling : Ceiling} {nomination current : Nomination}
  {outcome : NominationStatus} {supplied : Bool} {mutation : Nomination → Option ℕ → Mutation}
  {takenOn : Db} (hnomination : (⟨.row (.nomination id), true⟩ : Lock Key Advisory) ∈ known)
  (hevent : (⟨.row .event, false⟩ : Lock Key Advisory) ∈ known)
  (hcurrent : nomination? takenOn id = some current) (hopen : isFinal current.status = false)
  (hfits : Fits percentOf id takenOn current outcome mutation) :
  SafeOn (ballot percentOf) known (fun σ => Agree (Ballots id) takenOn σ.db)
   (if elevates outcome && !supplied then refuse
    else Code.updateRow (Key.nomination id) (fun v _ => ceiling v)
     (fun row : Nomination => { row with status := outcome }) fun updated =>
      if elevates outcome then
       elevateToEventGame id nomination current.occurrenceId fun gameId =>
        .commit (mutation updated (some gameId)) .halt
      else .commit (mutation updated none) .halt) [] := by
 refine safeOn_unless (keeps_ballots hnomination hevent takenOn) fun _ => ?_
 refine safeOn_writeRow (keeps_ballots hnomination hevent takenOn) fun σ _ hagree _ row hrow _ => ?_
 obtain rfl : row = current :=
  Option.some.inj (hrow.symm.trans ((hagree (.nomination id) rfl).trans hcurrent))
 refine ⟨fun σ => Agree (Ballots id) takenOn σ.db, hagree, ?_⟩
 have hkeeps : Keeps (ballot percentOf) _ _ := keeps_ballots
  (List.mem_append_left [⟨.row (.nomination id), true⟩] hnomination)
  (List.mem_append_left _ hevent) takenOn
 have hold : ∀ db : Db, Agree (Ballots id) takenOn db → ∀ old, nomination? db id = some old →
   Kept old { row with status := outcome } ∧ elevates old.status = false := by
  intro db hagree' old hold
  obtain rfl := Option.some.inj (hold.symm.trans ((hagree' (.nomination id) rfl).trans hcurrent))
  refine ⟨⟨rfl, fun hfinal => ?_⟩, ?_⟩
  · rw [hopen] at hfinal
    cases hfinal
  · by_contra hwon
    rw [isFinal_of_elevates (by simpa using hwon)] at hopen
    cases hopen
 dsimp only
 by_cases hwins : elevates outcome = true
 · rw [if_pos hwins]
   refine safeOn_elevate hkeeps (by simp) fun g more _ hkeeps' => ?_
   refine safeOn_commit hkeeps' (fun held σ' _ _ _ hknown => ?_) safeOn_halt
   have hgame : Elevation σ' id { row with status := outcome }
     [⟨.game g, some (elevatedGame id nomination row.occurrenceId)⟩] :=
      .inr ⟨g, _, rfl, hwins, rfl, hknown.2⟩
   exact ballotStep_outcome hgame (hold _ hknown.1) (hfits.cast _ _)
    (counted_of_fits hfits hknown.1 hcurrent (lookup_outcome hgame).1)
 · rw [if_neg hwins]
   refine safeOn_commit hkeeps (fun held σ' _ _ _ hknown => ?_) safeOn_halt
   have hgame : Elevation σ' id { row with status := outcome } [] := .inl ⟨rfl, by simpa using hwins⟩
   exact ballotStep_outcome hgame (hold _ hknown) (hfits.cast _ _)
    (counted_of_fits hfits hknown hcurrent (lookup_outcome hgame).1)

theorem safeOn_settle {ceiling : Ceiling} {nomination : Nomination} {expected : NominationStatus}
  {decide : Option ℕ → Db → (NominationStatus → (Nomination → Option ℕ → Mutation) → EventProgram) → EventProgram}
  (hexpected : isFinal expected = false)
  (hdecide : ∀ takenOn current known next, nomination? takenOn id = some current →
   current.status = expected →
   Keeps (ballot percentOf) known (fun σ => Agree (Ballots id) takenOn σ.db) →
   (∀ outcome mutation, Fits percentOf id takenOn current outcome mutation →
    SafeOn (ballot percentOf) known (fun σ => Agree (Ballots id) takenOn σ.db)
     (next outcome mutation) []) →
   SafeOn (ballot percentOf) known (fun σ => Agree (Ballots id) takenOn σ.db)
    (decide current.occurrenceId takenOn next) []) :
  SafeOn (ballot percentOf) [] (fun _ => True) (settle ceiling id nomination expected decide) [] := by
 have hnothing := fun known => keeps_const (ballot percentOf) known True
 refine safeOn_lock (hnothing _) fun σ₁ _ _ _ => ⟨fun _ => True, trivial, ?_⟩
 refine safeOn_lockEvent (hnothing _) fun σ₂ e _ _ _ _ => ⟨fun _ => True, trivial, ?_⟩
 refine safeOn_lock (hnothing _) fun σ₃ _ _ _ => ⟨fun σ => Agree (Ballots id) σ₃.db σ.db, .refl _ _, ?_⟩
 cases hfound : (nomination? (view σ₃ []) id).filter (·.status = expected) with
 | none =>
  rw [Option.map_none, Option.getD_none]
  intro held σ hknown _
  exact safeOn_stop held σ hknown trivial
 | some current =>
  obtain ⟨hrow, hstatus⟩ := Option.filter_eq_some_iff.1 hfound
  have hthere : (nomination? (view σ₃ []) id).isSome = true := by
   rw [hrow]
   rfl
  rw [if_pos hthere, Option.map_some, Option.getD_some]
  have hstatus' : current.status = expected := by simpa using hstatus
  refine hdecide σ₃.db current _ _ hrow hstatus' (keeps_ballots ?_ ?_ _) fun outcome mutation hfits => ?_
  · exact List.mem_append_right _ (List.mem_singleton_self _)
  · exact List.mem_append_left _ (List.mem_append_right _ (List.mem_singleton_self _))
  · refine safeOn_decided ?_ ?_ hrow (hstatus' ▸ hexpected) hfits
    · exact List.mem_append_right _ (List.mem_singleton_self _)
    · exact List.mem_append_left _ (List.mem_append_right _ (List.mem_singleton_self _))

theorem mem_votesOn {v : Db} {n attendeeId : ℕ} {vote : GameVote} :
  (attendeeId, vote) ∈ votesOn v n ↔ vote? v n attendeeId = some vote := by
 rw [votesOn, mem_select]
 constructor
 · rintro ⟨k, row, hrow, hvote⟩
   cases k with
   | vote n' a =>
    by_cases hn : n' = n
    · rw [asVoteOn, if_pos hn] at hvote
      cases hvote
      exact hn ▸ hrow
    · rw [asVoteOn, if_neg hn] at hvote
      cases hvote
   | _ => cases hvote
 · exact fun h => ⟨.vote n attendeeId, vote, h, by rw [asVoteOn, if_pos rfl]⟩

theorem votesOn_perm {v v' : Db} {n : ℕ}
  (h : ∀ attendeeId, vote? v' n attendeeId = vote? v n attendeeId) :
  (votesOn v' n).Perm (votesOn v n) := by
 refine perm_select (fun k row k' row' a ha ha' => ?_) fun a => ?_
 · cases k with
   | vote n₁ a₁ =>
    cases k' with
    | vote n₂ a₂ =>
     rw [asVoteOn] at ha ha'
     by_cases hn₁ : n₁ = n
     · by_cases hn₂ : n₂ = n
       · rw [if_pos hn₁] at ha
         rw [if_pos hn₂] at ha'
         cases ha
         cases ha'
         rw [hn₁, hn₂]
       · rw [if_neg hn₂] at ha'
         cases ha'
     · rw [if_neg hn₁] at ha
       cases ha
    | _ => cases ha'
   | _ => cases ha
 · have hv : a ∈ votesOn v n ↔ vote? v n a.1 = some a.2 := mem_votesOn
   have hv' : a ∈ votesOn v' n ↔ vote? v' n a.1 = some a.2 := mem_votesOn
   rw [h] at hv'
   exact hv'.trans hv.symm

theorem safe_resolveNomination (ceiling : Ceiling) (id : ℕ) (σ : State) :
  Safe (ballot percentOf) (resolveNomination percentOf ceiling id) [] [] σ := by
 apply safe_of_safeOn
 have hnothing := keeps_const (ballot percentOf) [] True
 refine safeOn_query hnothing fun _ _ _ => safeOn_found hnothing fun nomination _ => safeOn_settle rfl ?_
 intro takenOn current known next hcurrent hstatus hkeeps hnext
 refine safeOn_policy hkeeps fun σ₁ σ₂ hagree₁ hagree₂ => safeOn_query hkeeps fun σ₃ _ hagree₃ => ?_
 refine safeOn_query hkeeps fun σ₄ _ _ => hnext _ _ ⟨by simp, ?_⟩
 -- what the policy reads and the vote read found is what the lock took
 have hpolicy : effectivePolicy (eventPolicy? (view σ₁ []))
  (current.occurrenceId.bind (datePolicy? (view σ₂ []))) =
   policyOf takenOn current.occurrenceId := by
  have hevent : eventPolicy? (view σ₁ []) = eventPolicy? takenOn := hagree₁ .eventPolicy trivial
  have hdate : ∀ d, datePolicy? (view σ₂ []) d = datePolicy? takenOn d :=
   fun d => hagree₂ (.datePolicy d) trivial
  rw [policyOf, hevent]
  cases current.occurrenceId with
  | none => rfl
  | some d => rw [Option.bind_some, Option.bind_some, hdate]
 have hvotes : (votesOn (view σ₃ []) id).Perm (votesOn takenOn id) :=
  votesOn_perm fun attendeeId => hagree₃ (.vote id attendeeId) rfl
 intro updated gameId id' updated' gameId' counted voters takenOn' hm
 cases hm
 refine ⟨rfl, rfl, rfl, hstatus, rfl, ?_⟩
 rw [hpolicy, countVotes_perm percentOf hvotes]

theorem safe_hostDecision (ceiling : Ceiling) (id : ℕ) (decision : NominationStatus) (σ : State) :
  Safe (ballot percentOf) (handleHostDecision ceiling id decision) [] [] σ := by
 apply safe_of_safeOn
 have hnothing := keeps_const (ballot percentOf) [] True
 refine safeOn_check hnothing fun _ => safeOn_query hnothing fun _ _ _ => ?_
 refine safeOn_found hnothing fun nomination _ => safeOn_settle rfl ?_
 intro takenOn current known next _ _ _ hnext
 exact hnext _ _ ⟨by simp, by simp⟩

end Settlement

end BoardGamesEmpire.EventPlanning
