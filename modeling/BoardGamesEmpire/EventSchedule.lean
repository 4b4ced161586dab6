import BoardGamesEmpire.EventSupply

set_option autoImplicit false

/-!
# What a commit does to the event and its dates

The domain events of the host's decisions and of the date writes, and the rules
a commit keeps: who may change which column, and when a date may come or go.
-/
namespace BoardGamesEmpire.EventPlanning
open JsText ReadCommitted ReadCommittedProtocol

section Announcements

structure CancelSnapshot where
  title : Text
  householdId : Option ℕ
  cancelledAt : Option ℕ
  cancelledById : Option ℕ
  cancelReason : Option Text
deriving DecidableEq

structure ArchiveSnapshot where
  householdId : Option ℕ
  archivedAt : Option ℕ
deriving DecidableEq

def cancelSnapshot (event : Event) : CancelSnapshot :=
  ⟨event.title, event.householdId, event.cancelledAt, event.cancelledById, event.cancelReason⟩

def archiveSnapshot (event : Event) : ArchiveSnapshot := ⟨event.householdId, event.archivedAt⟩

/-- What the listeners hear. The events of nominations and attendees are left out. -/
inductive DomainEvent where
  | eventCreated (after : Event) (invitees : List ℕ)
  | eventUpdated (before after : Event)
  | eventDeleted (after : Event) (userId : ℕ)
  | eventCancelled (before after : CancelSnapshot) (userId : ℕ)
  | eventReopened (before after : CancelSnapshot) (userId : ℕ)
  | eventArchived (before after : ArchiveSnapshot)
  | eventUnarchived (before after : ArchiveSnapshot)
  | occurrenceAdded (id : ℕ) (after : EventOccurrence)
  | occurrenceUpdated (id : ℕ) (before after : EventOccurrence)
  | occurrenceRemoved (id : ℕ) (before : EventOccurrence)
  | occurrenceStatusChanged (id : ℕ) (before after : OccurrenceStatus)
  | gameRemovedFromEvent (id : ℕ) (before : EventGame)
deriving DecidableEq

def gamesRemoved (removed : List (ℕ × EventGame)) : List DomainEvent :=
  removed.map fun game => .gameRemovedFromEvent game.1 game.2

def domainEvents : Mutation → List DomainEvent
  | .eventCreated after invitees => [.eventCreated after invitees]
  | .eventUpdated before after named => if named then [.eventUpdated before after] else []
  | .eventDeleted after userId => [.eventDeleted after userId]
  | .eventCancelled before after userId =>
   [.eventCancelled (cancelSnapshot before) (cancelSnapshot after) userId]
  | .eventReopened before after userId =>
   [.eventReopened (cancelSnapshot before) (cancelSnapshot after) userId]
  | .eventArchived before after => [.eventArchived (archiveSnapshot before) (archiveSnapshot after)]
  | .eventUnarchived before after => [.eventUnarchived (archiveSnapshot before) (archiveSnapshot after)]
  | .occurrenceAdded id after removed => .occurrenceAdded id after :: gamesRemoved removed
  | .occurrenceUpdated id before after removed => .occurrenceUpdated id before after :: gamesRemoved
   removed
  | .occurrenceRemoved id before removed => .occurrenceRemoved id before :: gamesRemoved removed
  | .occurrenceStatusChanged id before after => [.occurrenceStatusChanged id before after.status]
  | _ => []

end Announcements

section Columns

def live (date : EventOccurrence) : Bool := date.status == .proposed || date.status == .confirmed

def cancelColumns (event : Event) : Option ℕ × Option ℕ × Option Text :=
  (event.cancelledAt, event.cancelledById, event.cancelReason)

def Settled (db : Db) : Prop :=
  ∀ e, event? db = some e → e.cancelledAt.isSome = true → ∀ d o, date? db d = some o → live o = false

def Schedule : Key → Prop
  | .event | .date _ => True
  | _ => False

def Names (before after : Db) : DomainEvent → Prop
  | .eventCancelled b a _ => ∃ e e', event? before = some e ∧ event? after = some e' ∧
      b = cancelSnapshot e ∧ a = cancelSnapshot e' ∧ e.cancelledAt = none ∧ e'.cancelledAt.isSome = true
  | .eventReopened b a _ => ∃ e e', event? before = some e ∧ event? after = some e' ∧
      b = cancelSnapshot e ∧ a = cancelSnapshot e' ∧ e.cancelledAt.isSome = true ∧ e'.cancelledAt = none
  | .eventArchived b a => ∃ e e', event? before = some e ∧ event? after = some e' ∧
      b = archiveSnapshot e ∧ a = archiveSnapshot e' ∧ e.archivedAt = none ∧ e'.archivedAt.isSome = true
  | .eventUnarchived b a => ∃ e e', event? before = some e ∧ event? after = some e' ∧
      b = archiveSnapshot e ∧ a = archiveSnapshot e' ∧ e.archivedAt.isSome = true ∧ e'.archivedAt = none
  | .occurrenceStatusChanged d b a => ∃ o o', date? before d = some o ∧ date? after d = some o' ∧
      b = o.status ∧ a = o'.status ∧ b ≠ a
  | .eventCreated a _ => event? before = none ∧ event? after = some a
  | .eventUpdated b a => event? before = some b ∧ event? after = some a
  | .eventDeleted a _ => ∃ e, event? before = some e ∧ e.deletedAt = none ∧ event? after = some a
  | .occurrenceAdded d a => date? before d = none ∧ date? after d = some a
  | .occurrenceRemoved d b => date? before d = some b ∧ date? after d = none
  | .occurrenceUpdated d _ a => (date? before d).isSome = true ∧ date? after d = some a
  | .gameRemovedFromEvent _ _ => True

def decides : DomainEvent → Bool
  | .eventCancelled _ _ _ | .eventReopened _ _ _ | .eventArchived _ _ | .eventUnarchived _ _ => true
  | _ => false

/-- The domain events of a commit that moves this date to another status. -/
def movesDate (d : ℕ) : DomainEvent → Bool
  | .occurrenceStatusChanged id _ _ => id == d
  | .eventCancelled _ _ _ => true
  | _ => false

structure Announced (before : Db) (m : Mutation) (after : Db) : Prop where
  named : ∀ x ∈ domainEvents m, Names before after x
  unchanged : m = .unchanged → after = before
  event : ∀ e e', event? before = some e → event? after = some e' →
    (cancelColumns e', e'.archivedAt) ≠ (cancelColumns e, e.archivedAt) →
      ∃ x, domainEvents m = [x] ∧ decides x = true
  date : ∀ d o o', date? before d = some o → date? after d = some o' → o'.status ≠ o.status →
    ∃ x, domainEvents m = [x] ∧ movesDate d x = true

structure Dated (before : Db) (m : Mutation) (after : Db) : Prop where
  comes : ∀ d o, date? before d = none → date? after d = some o →
    (∃ removed, m = .occurrenceAdded d o removed) ∨ ∃ e invitees, m = .eventCreated e invitees
  mode : ∀ e e', event? before = some e → event? after = some e' → e'.schedulingMode ≠ e.schedulingMode →
    ∃ named, m = .eventUpdated e e' named
  created : ∀ e', event? before = none → event? after = some e' → e'.schedulingMode = .fixed →
    ∀ d d', (date? after d).isSome = true → (date? after d').isSome = true → d = d'

abbrev State := Shared Row Mutation

structure ScheduleStep (σ : State) (m : Mutation) (db' : Db) : Prop where
  settled : Settled db'
  housed : ∀ d, (date? db' d).isSome = true → (event? db').isSome = true
  kept : ∀ e, event? σ.db = some e → ∃ e', event? db' = some e'
  dead : ∀ d o o', date? σ.db d = some o → date? db' d = some o' → live o = false → live o' = false
  fresh : ∀ d o', date? σ.db d = none → date? db' d = some o' →
    d < σ.clock ∧ ∀ entry ∈ σ.ledger, date? entry.after d = none
  confirmed : ∀ d o, date? σ.db d = some o → date? db' d = none → o.status ≠ .confirmed
  archived : ∀ e e', event? σ.db = some e → event? db' = some e' → e.archivedAt.isSome = true →
    cancelColumns e' = cancelColumns e
  archives : ∀ e e', event? σ.db = some e → event? db' = some e' → e.archivedAt = none →
    e'.archivedAt.isSome = true →
      archivable.contains (deriveEventStatus e ((occurrences σ.db).map (·.2)) σ.clock) = true
  announced : Announced σ.db m db'
  dated : Dated σ.db m db'

structure Orderly (σ : State) : Prop where
  settled : Settled σ.db
  housed : ∀ d, (date? σ.db d).isSome = true → (event? σ.db).isSome = true
  present : ∀ d, (date? σ.db d).isSome = true → d < σ.clock
  past : ∀ entry ∈ σ.ledger, ∀ d, (date? entry.after d).isSome = true → d < σ.clock

end Columns

section Discipline

def scheduleLocks : Discipline Row Advisory where
  requires _ k _ _ :=
    match k with
    | .event | .date _ => [⟨.row .event, true⟩]
    | _ => []

def schedule : Protocol Row Advisory Mutation where
  inv := Orderly
  effect := ScheduleStep
  guarantee := scheduleLocks.Respected
  outside := outside

end Discipline

section Steps

variable {σ : State} {m : Mutation} {db' : Db}

theorem not_schedule_outside {k : Key} (h : Schedule k) : outside k = false := by
 cases k with
 | collection id => exact h.elim
 | voteGrant role => exact h.elim
 | _ => rfl

theorem Orderly.tick (h : Orderly σ) : Orderly σ.tick :=
 ⟨h.settled, h.housed, fun d hd => Nat.lt_succ_of_lt (h.present d hd),
  fun entry hentry d hd => Nat.lt_succ_of_lt (h.past entry hentry d hd)⟩

theorem ScheduleStep.orderly (h : ScheduleStep σ m db') (hinv : Orderly σ) :
  Orderly (σ.commit m db') := by
 have hpresent : ∀ d, (date? db' d).isSome = true → d < σ.clock := by
  intro d hd
  obtain ⟨o', ho'⟩ := Option.isSome_iff_exists.1 hd
  cases hold : date? σ.db d with
  | some o => exact hinv.present d (by rw [hold]; rfl)
  | none => exact (h.fresh d o' hold ho').1
 refine ⟨h.settled, h.housed, fun d hd => Nat.lt_succ_of_lt (hpresent d hd), fun entry hentry d hd => ?_⟩
 apply Nat.lt_succ_of_lt
 rcases List.mem_append.1 hentry with hold | hnew
 · exact hinv.past entry hold d hd
 · rw [List.mem_singleton.1 hnew] at hd
   exact hpresent d hd

theorem Orderly.outside (h : Orderly σ) {w : Write Row} (hw : outside w.key = true) :
  Orderly { σ.tick with db := applyWrite σ.db w } := by
 have hsame : Agree Schedule σ.db (applyWrite σ.db w) := by
  intro k hk
  apply lookup_applyWrite_ne
  rintro rfl
  rw [not_schedule_outside hk] at hw
  cases hw
 have hevent : event? (applyWrite σ.db w) = event? σ.db := hsame .event trivial
 have hdate : ∀ d, date? (applyWrite σ.db w) d = date? σ.db d := fun d => hsame (.date d) trivial
 constructor
 · intro e he hcancelled d o ho
   exact h.settled e (hevent ▸ he) hcancelled d o (hdate d ▸ ho)
 · intro d hd
   rw [hevent]
   exact h.housed d (hdate d ▸ hd)
 · intro d hd
   exact Nat.lt_succ_of_lt (h.present d (hdate d ▸ hd))
 · intro entry hentry d hd
   exact Nat.lt_succ_of_lt (h.past entry hentry d hd)

theorem scheduleStep_of_agree (hinv : Orderly σ) (hagree : Agree Schedule σ.db db')
  (hquiet : domainEvents m = []) (hunchanged : m = .unchanged → db' = σ.db) :
  ScheduleStep σ m db' := by
 have hevent : event? db' = event? σ.db := hagree .event trivial
 have hdate : ∀ d, date? db' d = date? σ.db d := fun d => hagree (.date d) trivial
 have hsameEvent : ∀ e e', event? σ.db = some e → event? db' = some e' → e' = e := by
  intro e e' he he'
  rw [hevent, he] at he'
  exact (Option.some.inj he').symm
 have hsameDate : ∀ d o o', date? σ.db d = some o → date? db' d = some o' → o' = o := by
  intro d o o' ho ho'
  rw [hdate, ho] at ho'
  exact (Option.some.inj ho').symm
 have hgone : ∀ d o, date? σ.db d = some o → date? db' d ≠ none := by
  intro d o ho hnone
  rw [hdate, ho] at hnone
  cases hnone
 have hnew : ∀ d o', date? σ.db d = none → date? db' d ≠ some o' := by
  intro d o' hnone ho'
  rw [hdate, hnone] at ho'
  cases ho'
 constructor
 · intro e he hcancelled d o ho
   exact hinv.settled e (hevent ▸ he) hcancelled d o (hdate d ▸ ho)
 · intro d hd
   rw [hevent]
   exact hinv.housed d (hdate d ▸ hd)
 · intro e he
   exact ⟨e, hevent.trans he⟩
 · intro d o o' ho ho' hlive
   rw [hsameDate d o o' ho ho']
   exact hlive
 · exact fun d o' hnone ho' => absurd ho' (hnew d o' hnone)
 · exact fun d o ho hnone => absurd hnone (hgone d o ho)
 · intro e e' he he' _
   rw [hsameEvent e e' he he']
 · intro e e' he he' hnone hsome
   rw [hsameEvent e e' he he', hnone] at hsome
   cases hsome
 · refine ⟨fun x hx => ?_, hunchanged, fun e e' he he' hne => ?_, fun d o o' ho ho' hne => ?_⟩
   · rw [hquiet] at hx
     exact absurd hx List.not_mem_nil
   · exact absurd (by rw [hsameEvent e e' he he']) hne
   · exact absurd (by rw [hsameDate d o o' ho ho']) hne
 · refine ⟨fun d o hnone ho => absurd ho (hnew d o hnone), fun e e' he he' hne => ?_,
    fun e' hnone he' => ?_⟩
   · exact absurd (by rw [hsameEvent e e' he he']) hne
   · rw [hevent, hnone] at he'
     cases he'

end Steps

end BoardGamesEmpire.EventPlanning
