import BoardGamesEmpire.EventSchedule

set_option autoImplicit false

/-!
# Rules for the event's programs

How a request goes through its first reads and its locks, for any protocol over
the event's rows, and which programs leave the event and its dates alone.
-/
namespace BoardGamesEmpire.EventPlanning
open JsText ReadCommitted ReadCommittedProtocol

section Rules

variable {P : Protocol Row Advisory Mutation} {known : List (Lock Key Advisory)} {Φ : State → Prop}
  {log : List (Write Row)}

theorem safeOn_refuse (hkeeps : Keeps P known Φ) :
  SafeOn P known Φ refuse log := safeOn_refused hkeeps

theorem safeOn_stop :
  SafeOn P known (fun _ => True) refuse log := safeOn_refuse (keeps_const P known True)

theorem safeOn_now {next : ℕ → EventProgram} (hkeeps : Keeps P known Φ)
  (hnext : ∀ σ, P.inv σ → Φ σ → SafeOn P known Φ (next σ.clock) log) :
  SafeOn P known Φ (now next) log :=
 safeOn_query hkeeps hnext

theorem safeOn_found {α : Type} {found : Option α} {next : α → EventProgram}
  (hkeeps : Keeps P known Φ) (hnext : ∀ a, found = some a → SafeOn P known Φ (next a) log) :
  SafeOn P known Φ ((found.map next).getD refuse) log := by
 cases found with
 | none => exact safeOn_refuse hkeeps
 | some a => exact hnext a rfl

theorem safeOn_check {p : Prop} [Decidable p] {next : EventProgram} (hkeeps : Keeps P known Φ)
  (hnext : p → SafeOn P known Φ next log) : SafeOn P known Φ (if p then next else refuse) log := by
 by_cases hp : p
 · rw [if_pos hp]
   exact hnext hp
 · rw [if_neg hp]
   exact safeOn_refuse hkeeps

theorem safeOn_unless {p : Prop} [Decidable p] {next : EventProgram} (hkeeps : Keeps P known Φ)
  (hnext : ¬ p → SafeOn P known Φ next log) :
  SafeOn P known Φ (if p then refuse else next) log := by
 by_cases hp : p
 · rw [if_pos hp]
   exact safeOn_refuse hkeeps
 · rw [if_neg hp]
   exact hnext hp

theorem safeOn_lock {locks : Db → List (Lock Key Advisory)} {next : ℕ → Db → EventProgram}
  (hkeeps : Keeps P known Φ)
  (hnext : ∀ σ, P.inv σ → Φ σ → Φ σ.tick → ∃ Ψ : State → Prop, Ψ σ.tick ∧
   SafeOn P (known ++ locks (view σ log)) Ψ (next σ.clock (view σ log)) log) :
  SafeOn P known Φ (.lock locks next) log := by
 refine safeOn_stmt hkeeps fun σ hinv hΦ hΦ' => ?_
 obtain ⟨Ψ, hΨ, hsafe⟩ := hnext σ hinv hΦ hΦ'
 refine ⟨Ψ, hΨ, ?_⟩
 rw [writeLocks, List.map_nil, List.append_nil, List.append_nil]
 exact hsafe

theorem safeOn_lockEvent {exclusive : Bool} {next : EventProgram} (hkeeps : Keeps P known Φ)
  (hnext : ∀ σ e, P.inv σ → Φ σ → Φ σ.tick → event? (view σ log) = some e → ∃ Ψ : State → Prop, Ψ σ.tick ∧
   SafeOn P (known ++ [⟨.row .event, exclusive⟩]) Ψ next log) :
  SafeOn P known Φ (lockEvent exclusive next) log := by
 refine safeOn_lock hkeeps fun σ hinv hΦ hΦ' => ?_
 cases he : event? (view σ log) with
 | none =>
  refine ⟨fun _ => True, trivial, ?_⟩
  rw [if_neg (by simp), if_neg (by simp)]
  exact safeOn_stop
 | some e =>
  rw [if_pos (by simp), if_pos (by simp)]
  exact hnext σ e hinv hΦ hΦ' he

theorem safeOn_assertEventNotCancelled {next : EventProgram} (hkeeps : Keeps P known Φ)
  (hnext : ∀ σ, P.inv σ → Φ σ → (∀ e, event? (view σ log) = some e → e.cancelledAt = none) →
   SafeOn P known Φ next log) :
  SafeOn P known Φ (assertEventNotCancelled next) log := by
 refine safeOn_lock hkeeps fun σ hinv hΦ hΦ' => ?_
 by_cases hcancelled : (event? (view σ log)).any (·.cancelledAt.isSome) = true
 · refine ⟨fun _ => True, trivial, ?_⟩
   rw [if_pos hcancelled]
   exact safeOn_stop
 · have hnone : ∀ e, event? (view σ log) = some e → e.cancelledAt = none := by
    intro e he
    rw [he] at hcancelled
    simpa using hcancelled
   refine ⟨Φ, hΦ', ?_⟩
   rw [if_neg hcancelled]
   exact (hnext σ hinv hΦ hnone).more (List.subset_append_left _ _)

theorem safeOn_requireEvent {next : Event → EventProgram} (hkeeps : Keeps P known Φ)
  (hnext : ∀ e, SafeOn P known Φ (next e) log) : SafeOn P known Φ (requireEvent next) log :=
 safeOn_query hkeeps fun _ _ _ => safeOn_found hkeeps fun e _ => hnext e

theorem safeOn_actingAttendee {userId : ℕ} {next : ℕ → EventProgram} (hkeeps : Keeps P known Φ)
  (hnext : ∀ id, SafeOn P known Φ (next id) log) :
  SafeOn P known Φ (resolveActingAttendeeId userId next) log :=
 safeOn_query hkeeps fun _ _ _ => safeOn_found hkeeps fun a _ => hnext a.1

theorem safeOn_policy {occurrenceId : Option ℕ} {next : EventPolicy → EventProgram}
  (hkeeps : Keeps P known Φ)
  (hnext : ∀ σ σ', Φ σ → Φ σ' → SafeOn P known Φ
   (next (effectivePolicy (eventPolicy? (view σ log))
    (occurrenceId.bind (datePolicy? (view σ' log))))) log) :
  SafeOn P known Φ (getEffectivePolicy occurrenceId next) log :=
 safeOn_query hkeeps fun σ _ hΦ => safeOn_query hkeeps fun σ' _ hΦ' => hnext σ σ' hΦ hΦ'

theorem safeOn_referDate {occurrenceId : Option ℕ} {next : EventProgram} (hkeeps : Keeps P known Φ)
  (hnext : ∀ more, known ⊆ more → SafeOn P more Φ next log) :
   SafeOn P known Φ (referDate occurrenceId next) log := by
 cases occurrenceId with
 | none => exact hnext known (List.Subset.refl _)
 | some id =>
  refine safeOn_lock hkeeps fun σ _ _ hΦ' => ⟨Φ, hΦ', ?_⟩
  have hsub := List.subset_append_left known [⟨.advisory (.dateExists id), false⟩]
  exact safeOn_check (hkeeps.weaken hsub) fun _ => hnext _ hsub

end Rules

section Untouched

def Elsewhere (w : Write Row) : Prop := ¬ Schedule w.key

def Quiet (m : Mutation) : Prop := domainEvents m = [] ∧ m ≠ .unchanged

abbrev Untouched : EventProgram → Prop := Confined Elsewhere Quiet

variable {next : EventProgram}

theorem untouched_lockEventDates (h : Untouched next) : Untouched (lockEventDates next) :=
 confined_lock fun _ _ => confined_ite h trivial

theorem untouched_lockSupplier {gameListId : ℕ} {next : Option LockedSupplier → EventProgram}
  (h : ∀ supplier, Untouched (next supplier)) : Untouched (lockSupplier gameListId next) :=
 confined_lock fun _ v => h (lockedSupplier v gameListId)

theorem untouched_referDate {occurrenceId : Option ℕ} (h : Untouched next) :
  Untouched (referDate occurrenceId next) := by
 cases occurrenceId with
 | none => exact h
 | some id => exact confined_lock fun _ _ => confined_ite h trivial

theorem untouched_requireEvent {next : Event → EventProgram} (h : ∀ e, Untouched (next e)) :
  Untouched (requireEvent next) :=
 confined_query fun _ _ => confined_found _ h

theorem untouched_actingAttendee {userId : ℕ} {next : ℕ → EventProgram}
  (h : ∀ id, Untouched (next id)) :
  Untouched (resolveActingAttendeeId userId next) :=
 confined_query fun _ _ => confined_found _ fun a => h a.1

theorem untouched_policy {occurrenceId : Option ℕ} {next : EventPolicy → EventProgram}
  (h : ∀ policy, Untouched (next policy)) : Untouched (getEffectivePolicy occurrenceId next) :=
 confined_query fun _ _ => confined_query fun _ _ => h _

theorem untouched_updateManyWith {change : Db → RowChange Row} (hwrite : ∀ v k row value,
  change v k row = some value → ¬ Schedule k) (h : Untouched next) :
   Untouched (updateManyWith change next) :=
 confined_query fun _ v => confined_eachRow (fun k _ row value hchange => hwrite v k row value hchange) h

theorem moveNominations_key {attendeeId : ℕ} {selects : Nomination → Bool}
  {data : Nomination → Nomination} {v : Db} {k : Key} {row : Row k} {value : Option (Row k)}
  (h : moveNominations attendeeId selects data v k row = some value) : ∃ n, k = .nomination n := by
 cases k with
 | nomination n => exact ⟨n, rfl⟩
 | _ => simp [moveNominations] at h

theorem untouched_moveNominations {attendeeId : ℕ} {selects : Nomination → Bool}
  {data : Nomination → Nomination} (h : Untouched next) :
  Untouched (updateManyWith (moveNominations attendeeId selects data) next) := by
 refine untouched_updateManyWith (fun v k row value hchange => ?_) h
 obtain ⟨n, rfl⟩ := moveNominations_key hchange
 exact id

theorem untouched_deleteGames {games : List (ℕ × EventGame)} (h : Untouched next) :
  Untouched (Code.eachRow deleteAll (games.map fun game => .game game.1) next) := by
 refine confined_eachRow (fun k hk row value _ => ?_) h
 obtain ⟨game, -, rfl⟩ := List.mem_map.1 hk
 exact id

theorem untouched_sync {attendeeId : ℕ} {attendee : EventAttendee} {initiatedAt : ℕ}
  (h : Untouched next) :
  Untouched (syncSuppliedGames attendeeId attendee initiatedAt next) := by
 refine untouched_lockEventDates (confined_ite ?_ ?_)
 · refine untouched_moveNominations (untouched_moveNominations (confined_query fun _ v => ?_))
   exact untouched_deleteGames h
 · exact untouched_moveNominations (untouched_moveNominations h)

theorem untouched_elevate {nominationId : ℕ} {nomination : Nomination} {occurrenceId : Option ℕ}
  {next : ℕ → EventProgram} (h : ∀ id, Untouched (next id)) :
  Untouched (elevateToEventGame nominationId nomination occurrenceId next) :=
 untouched_referDate (confined_insertRow (fun _ => id) h)

theorem quiet_commit {m : Mutation} (h : Quiet m) : Untouched (.commit m .halt) := ⟨h, trivial⟩

theorem untouched_nominate (userId : ℕ) (mayCreate : Option ℕ → Bool) (dto : NominateGame) :
  Untouched (nominate userId mayCreate dto) := by
 refine untouched_requireEvent fun event => confined_query fun _ v => confined_ite ?_ trivial
 refine untouched_actingAttendee fun attendeeId => untouched_policy fun policy => confined_ite trivial ?_
 refine confined_query fun clock _ => untouched_lockSupplier fun supplier => confined_ite ?_ trivial
 refine untouched_referDate (confined_insertRow (fun _ => id) fun id => confined_ite ?_ ?_)
 · exact untouched_elevate fun gameId => quiet_commit ⟨rfl, nofun⟩
 · exact quiet_commit ⟨rfl, nofun⟩

theorem untouched_withdraw (userId : ℕ) (ceiling : Ceiling) (id : ℕ) :
  Untouched (withdraw userId ceiling id) := by
 refine untouched_actingAttendee fun attendeeId => confined_query fun _ v => confined_ite ?_ trivial
 refine confined_lock fun _ v => confined_found _ fun current => ?_
 exact confined_writeRow (fun _ h => h) fun _ => quiet_commit ⟨rfl, nofun⟩

theorem untouched_castVote (userId : ℕ) (mayVote : ℕ → Bool) (nominationId : ℕ) (dto : CastVote) :
  Untouched (castVote userId mayVote nominationId dto) := by
 refine untouched_actingAttendee fun attendeeId => confined_ite (confined_query fun _ v => ?_) trivial
 refine confined_ite
  (confined_lock fun _ v => confined_ite (confined_query fun _ before => ?_) trivial) trivial
 refine fun clock v => ⟨fun w hw => ?_, quiet_commit ⟨rfl, nofun⟩⟩
 rw [List.mem_singleton.1 hw]
 exact id

theorem untouched_settle {ceiling : Ceiling} {id : ℕ} {nomination : Nomination}
  {expected : NominationStatus}
  {decide : Option ℕ → Db → (NominationStatus → (Nomination → Option ℕ → Mutation) → EventProgram) → EventProgram}
  (hdecide : ∀ occurrenceId takenOn next, (∀ outcome mutation, (∀ n g, Quiet (mutation n g)) →
   Untouched (next outcome mutation)) → Untouched (decide occurrenceId takenOn next)) :
  Untouched (settle ceiling id nomination expected decide) := by
 refine untouched_lockSupplier fun supplier => untouched_lockEventDates (confined_lock fun _ takenOn => ?_)
 refine confined_found _ fun current => hdecide _ _ _ fun outcome mutation hquiet =>
  confined_ite trivial ?_
 refine confined_writeRow (fun _ h => h) fun updated => confined_ite ?_ (quiet_commit (hquiet _ _))
 exact untouched_elevate fun gameId => quiet_commit (hquiet _ _)

theorem untouched_resolveNomination (percentOf : ℕ → ℕ → ℕ) (ceiling : Ceiling) (id : ℕ) :
  Untouched (resolveNomination percentOf ceiling id) := by
 refine confined_query fun _ v => confined_found _ fun nomination => untouched_settle ?_
 intro occurrenceId takenOn next hnext
 refine untouched_policy fun policy => confined_query fun _ voted => confined_query fun _ v => ?_
 exact hnext _ _ fun _ _ => ⟨rfl, nofun⟩

theorem untouched_hostDecision (ceiling : Ceiling) (id : ℕ) (decision : NominationStatus) :
  Untouched (handleHostDecision ceiling id decision) := by
 refine confined_ite
  (confined_query fun _ v => confined_found _ fun nomination => untouched_settle ?_) trivial
 intro occurrenceId takenOn next hnext
 exact hnext _ _ fun _ _ => ⟨rfl, nofun⟩

theorem untouched_directAddGame (userId : ℕ) (mayCreate : Option ℕ → Option ℕ → Bool)
  (dto : DirectAddGame) :
  Untouched (directAddGame userId mayCreate dto) := by
 refine untouched_requireEvent fun event => confined_query fun _ v => confined_ite ?_ trivial
 refine untouched_actingAttendee fun attendeeId => untouched_policy fun policy => confined_ite ?_ trivial
 refine untouched_lockSupplier fun supplier => confined_ite (untouched_referDate ?_) trivial
 exact confined_insertRow (fun _ => id) fun _ => quiet_commit ⟨rfl, nofun⟩

theorem untouched_addAttendee (userId : ℕ) (mayCreate : Option ℕ → EventRole → Bool)
  (invitable : Ceiling) (dto : AddAttendee) :
  Untouched (addAttendee userId mayCreate invitable dto) := by
 refine confined_query fun initiatedAt _ => untouched_requireEvent fun event => confined_ite ?_ trivial
 refine confined_query fun _ v => confined_query fun _ v' => ?_
 cases findAttendeeOf v' dto.userId with
 | none =>
  refine confined_query fun _ v => confined_ite ?_ trivial
  have hinsert : ∀ (inviterId : Option ℕ) (next : ℕ → EventProgram), (∀ id, Untouched (next id)) →
    Untouched (reserveUser dto.userId <| Code.insertRow Key.attendee
     (fun _ => addedAttendee dto inviterId) next) := by
   intro inviterId next hnext
   unfold reserveUser
   cases dto.userId with
   | none => exact confined_insertRow (fun _ => id) hnext
   | some user =>
    exact confined_lock fun _ v => confined_ite trivial (confined_insertRow (fun _ => id) hnext)
  refine hinsert _ _ fun id => confined_insertRow (fun _ => fun h => h) fun _ => ?_
  exact quiet_commit ⟨rfl, nofun⟩
 | some found =>
  refine confined_ite trivial (confined_query fun _ v => confined_ite ?_ trivial)
  refine confined_writeRow (fun _ h => h) fun attendee clock v => ⟨fun w hw => ?_, ?_⟩
  · rw [List.mem_singleton.1 hw]
    exact id
  · exact untouched_sync (quiet_commit ⟨rfl, nofun⟩)

theorem untouched_removeAttendee (ceiling : Ceiling) (id : ℕ) :
  Untouched (removeAttendee ceiling id) := by
 refine confined_query fun initiatedAt _ => untouched_requireEvent fun event =>
  confined_query fun _ v => ?_
 refine confined_ite (confined_query fun removedAt _ => ?_) trivial
 refine confined_writeRow (fun _ h => h) fun removed clock v => ⟨fun w hw => ?_, ?_⟩
 · rw [Elsewhere, mem_rowWrites hw]
   exact fun h => h
 · exact untouched_sync (quiet_commit ⟨rfl, nofun⟩)

theorem untouched_updateStatus (ceiling : Ceiling) (id : ℕ) (dto : UpdateAttendeeStatus) :
  Untouched (updateStatus ceiling id dto) := by
 refine confined_query fun initiatedAt _ => untouched_requireEvent fun event =>
  confined_query fun _ v => ?_
 refine confined_ite (confined_query fun rsvpDate _ => confined_lock fun _ _ => ?_) trivial
 exact confined_writeRow (fun _ h => h) fun updated => untouched_sync (quiet_commit ⟨rfl, nofun⟩)

theorem untouched_addGameToList (mayCreate : Option ℕ → Option ℕ → Bool)
  (attendeeId collectionId : ℕ) :
  Untouched (addGameToList mayCreate attendeeId collectionId) := by
 refine untouched_requireEvent fun event => confined_query fun _ v => confined_found _ fun attendee => ?_
 refine confined_ite (confined_query fun _ v => confined_ite (confined_query fun _ v => ?_) trivial)
  trivial
 cases (listEntry v attendeeId collectionId).filter (·.2.removedAt.isSome) with
 | none =>
  refine confined_lock fun _ v => confined_ite trivial (confined_insertRow (fun _ => id) fun _ => ?_)
  exact quiet_commit ⟨rfl, nofun⟩
 | some found => exact confined_writeRow (fun _ h => h) fun _ => quiet_commit ⟨rfl, nofun⟩

theorem untouched_removeGameFromList (ceiling : Ceiling) (attendeeId gameListId : ℕ) :
  Untouched (removeGameFromList ceiling attendeeId gameListId) := by
 refine confined_query fun initiatedAt _ => confined_query fun _ v => confined_found _ fun _ => ?_
 refine confined_query fun _ v => confined_ite (confined_lock fun _ v => confined_ite ?_ trivial) trivial
 refine confined_query fun _ v =>
  confined_ite (untouched_lockEventDates (confined_query fun _ nominated => ?_)) trivial
 refine confined_query fun _ scheduled => confined_ite trivial (confined_query fun removedAt _ => ?_)
 exact confined_writeRow (fun _ h => h) fun _ => quiet_commit ⟨rfl, nofun⟩

theorem safe_of_untouched {code : EventProgram} (h : Untouched code) (σ : State) :
  Safe schedule code [] [] σ := by
 refine safe_of_confined ?_ code [] [] σ h fun w hw => ?_
 · intro σ held log m hinv _ hlog hquiet
   have hagree : Agree Schedule σ.db (applyLog σ.db log) := agree_applyLog σ.db hlog
   refine ⟨fun k hne l hl => ?_, scheduleStep_of_agree hinv hagree hquiet.1 fun hm => absurd hm hquiet.2⟩
   by_cases hk : Schedule k
   · exact absurd (hagree k hk) hne
   · cases k with
     | event => exact absurd trivial hk
     | date d => exact absurd trivial hk
     | _ => exact absurd hl List.not_mem_nil
 · exact absurd hw List.not_mem_nil

end Untouched

end BoardGamesEmpire.EventPlanning
