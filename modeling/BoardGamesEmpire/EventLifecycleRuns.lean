import BoardGamesEmpire.EventScheduleSafe

set_option autoImplicit false

/-!
# The lifecycle of an event, over whole runs

What every commit of every run keeps of the event's columns and its dates, and
when a Fixed event keeps to its one date.
-/
namespace BoardGamesEmpire.EventPlanning
open JsText ReadCommitted ReadCommittedProtocol

section Commits

variable {percentOf : ℕ → ℕ → ℕ} {s : Sys Row Advisory Mutation}

structure Lawful (entry : Entry Row Mutation) : Prop where
  archived : ∀ e e', event? entry.before = some e → event? entry.after = some e' →
   e.archivedAt.isSome = true →
    cancelColumns e' = cancelColumns e
  archives : ∀ e e', event? entry.before = some e → event? entry.after = some e' → e.archivedAt = none →
    e'.archivedAt.isSome = true →
      archivable.contains (deriveEventStatus e ((occurrences entry.before).map (·.2)) entry.time) = true
  confirmed : ∀ d o, date? entry.before d = some o → date? entry.after d = none → o.status ≠ .confirmed
  announced : Announced entry.before entry.event entry.after

def DeadFrom (σ : State) : Prop :=
  (∀ (i j : ℕ) entry entry', i ≤ j → σ.ledger[i]? = some entry → σ.ledger[j]? = some entry' →
    ∀ d o o', date? entry.after d = some o → live o = false → date? entry'.after d = some o' →
     live o' = false) ∧
  ∀ entry ∈ σ.ledger, ∀ d o o', date? entry.after d = some o → live o = false → date? σ.db d = some o' →
    live o' = false

theorem DeadFrom.commit {σ : State} {m : Mutation} {db' : Db} (h : DeadFrom σ)
  (hstep : ScheduleStep σ m db') :
  DeadFrom (σ.commit m db') := by
 have hnow : ∀ entry ∈ σ.ledger, ∀ d o o', date? entry.after d = some o → live o = false →
  date? db' d = some o' →
   live o' = false := by
  intro entry hentry d o o' ho hdead ho'
  cases hold : date? σ.db d with
  | some old => exact hstep.dead d old o' hold ho' (h.2 entry hentry d o old ho hdead hold)
  | none =>
   -- an id that came back would have been in the ledger
   have hunseen := (hstep.fresh d o' hold ho').2 entry hentry
   rw [ho] at hunseen
   cases hunseen
 have hself : ∀ d o o', date? db' d = some o → live o = false → date? db' d = some o' →
  live o' = false := by
  intro d o o' ho hdead ho'
  rw [← Option.some.inj (ho.symm.trans ho')]
  exact hdead
 refine ⟨fun i j entry entry' hij hi hj => ?_, fun entry hentry => ?_⟩
 · rcases getElem?_concat_cases hj with hjold | ⟨hjlast, rfl⟩
   · rcases getElem?_concat_cases hi with hiold | ⟨hilast, rfl⟩
     · exact h.1 i j entry entry' hij hiold hjold
     · have hlt := (List.getElem?_eq_some_iff.1 hjold).1
       omega
   · rcases getElem?_concat_cases hi with hiold | ⟨-, rfl⟩
     · exact hnow entry (List.mem_of_getElem? hiold)
     · exact hself
 · rcases List.mem_append.1 hentry with hold | hnew
   · exact hnow entry hold
   · rw [List.mem_singleton.1 hnew]
     exact hself

theorem DeadFrom.outside {σ : State} (h : DeadFrom σ) {w : Write Row}
  (hw : EventPlanning.outside w.key = true) : DeadFrom { σ.tick with db := applyWrite σ.db w } := by
 refine ⟨h.1, fun entry hentry d o o' ho hdead ho' => h.2 entry hentry d o o' ho hdead ?_⟩
 rw [← ho']
 refine (lookup_applyWrite_ne σ.db ?_).symm
 rintro hkey
 rw [← hkey] at hw
 cases hw

theorem reachable_orderly (h : EventReachable percentOf s) : Orderly s.shared ∧ DeadFrom s.shared ∧
  ∀ entry ∈ s.shared.ledger, Lawful entry := by
 refine schedule_induction percentOf (fun σ => Orderly σ ∧ DeadFrom σ ∧
  ∀ entry ∈ σ.ledger, Lawful entry) ?_ ?_ h
 · refine ⟨⟨fun _ he => absurd he (by simp), ?_, ?_, ?_⟩, ⟨?_, ?_⟩, ?_⟩ <;> simp
 · intro σ σ' _ ⟨hinv, hdead, hlawful⟩ hmove
   cases hmove with
   | tick => exact ⟨hinv.tick, hdead, hlawful⟩
   | outside w hw => exact ⟨hinv.outside hw, hdead.outside hw, hlawful⟩
   | commit m db' hstep =>
    refine ⟨hstep.orderly hinv, hdead.commit hstep, fun entry hentry => ?_⟩
    rcases List.mem_append.1 hentry with hold | hnew
    · exact hlawful entry hold
    · rw [List.mem_singleton.1 hnew]
      exact ⟨hstep.archived, hstep.archives, hstep.confirmed, hstep.announced⟩

/-- No live date under a cancelled event, whatever overlapped; a date that is
    off stays off; and every commit kept to the rules and announced what it did. -/
theorem event_lifecycle (h : EventReachable percentOf s) :
    Settled s.shared.db ∧
    (∀ (i j : ℕ) entry entry', i ≤ j → s.shared.ledger[i]? = some entry →
     s.shared.ledger[j]? = some entry' →
      ∀ d o o', date? entry.after d = some o → live o = false → date? entry'.after d = some o' →
       live o' = false) ∧
    ∀ entry ∈ s.shared.ledger, Lawful entry := by
 obtain ⟨hinv, hdead, hlawful⟩ := reachable_orderly h
 exact ⟨hinv.settled, hdead.1, hlawful⟩

end Commits

section FixedMode

variable {percentOf : ℕ → ℕ → ℕ} {s : Sys Row Advisory Mutation}

def OneDate (db : Db) : Prop :=
  ∀ e, event? db = some e → e.schedulingMode = .fixed →
    ∀ d d', (date? db d).isSome = true → (date? db d').isSome = true → d = d'

/-- The commit neither adds a date to a Fixed event that has one when it
    commits, nor makes an event Fixed that has several. -/
def FitsMode (entry : Entry Row Mutation) : Prop :=
  match entry.event with
  | .occurrenceAdded _ _ _ => ∀ e, event? entry.before = some e → e.schedulingMode = .fixed →
      ∀ d, date? entry.before d = none
  | .eventUpdated _ after _ => after.schedulingMode = .fixed →
      ∀ d d', (date? entry.before d).isSome = true → (date? entry.before d').isSome = true → d = d'
  | _ => True

theorem OneDate.congr {db db' : Db} (h : OneDate db) (hagree : Agree Schedule db db') :
  OneDate db' := by
 intro e he hfixed d d' hd hd'
 rw [date?, hagree (.date d) trivial] at hd
 rw [date?, hagree (.date d') trivial] at hd'
 rw [event?, hagree .event trivial] at he
 exact h e he hfixed d d' hd hd'

theorem OneDate.commit {σ : State} {m : Mutation} {db' : Db} (h : OneDate σ.db)
  (hstep : ScheduleStep σ m db') (hfits : FitsMode ⟨m, σ.clock, σ.db, db'⟩) : OneDate db' := by
 intro e' he' hfixed d d' hd hd'
 cases hold : event? σ.db with
 | none => exact hstep.dated.created e' hold he' hfixed d d' hd hd'
 | some e =>
  -- a date that was not there came with an added date, and then none was there
  have hcame : ∀ a, (date? db' a).isSome = true → date? σ.db a = none →
    ∃ o removed, m = .occurrenceAdded a o removed := by
   intro a ha hnone
   obtain ⟨o, ho⟩ := Option.isSome_iff_exists.1 ha
   rcases hstep.dated.comes a o hnone ho with ⟨removed, hm⟩ | ⟨created, invitees, hm⟩
   · exact ⟨o, removed, hm⟩
   · have hnamed :=
      hstep.announced.named (.eventCreated created invitees) (by rw [hm]; exact List.mem_cons_self)
     have hnone : event? σ.db = none := hnamed.1
     rw [hold] at hnone
     cases hnone
  by_cases hmode : e'.schedulingMode = e.schedulingMode
  · have hfixed' : e.schedulingMode = .fixed := hmode ▸ hfixed
    have hadded : ∀ a, (date? db' a).isSome = true → date? σ.db a = none →
      (∀ b, date? σ.db b = none) ∧ ∃ o removed, m = .occurrenceAdded a o removed := by
     intro a ha hnone
     obtain ⟨o, removed, rfl⟩ := hcame a ha hnone
     exact ⟨hfits e hold hfixed', o, removed, rfl⟩
    by_cases hdold : date? σ.db d = none
    · obtain ⟨hempty, o, removed, hm⟩ := hadded d hd hdold
      obtain ⟨-, o', removed', hm'⟩ := hadded d' hd' (hempty d')
      rw [hm] at hm'
      cases hm'
      rfl
    · by_cases hdold' : date? σ.db d' = none
      · exact absurd ((hadded d' hd' hdold').1 d) hdold
      · exact h e hold hfixed' d d' (Option.isSome_iff_ne_none.2 hdold)
         (Option.isSome_iff_ne_none.2 hdold')
  · obtain ⟨named, hm⟩ := hstep.dated.mode e e' hold he' hmode
    subst hm
    have hpresent : ∀ a, (date? db' a).isSome = true → (date? σ.db a).isSome = true := by
     intro a ha
     by_contra hnone
     obtain ⟨o, removed, hm⟩ := hcame a ha (by simpa using hnone)
     cases hm
    exact hfits hfixed d d' (hpresent d hd) (hpresent d' hd')

/-- In a run whose commits all fit the mode, a Fixed event never has two dates. -/
theorem fixed_event_has_one_date (h : EventReachable percentOf s)
  (hfits : ∀ entry ∈ s.shared.ledger, FitsMode entry) :
    OneDate s.shared.db := by
 refine schedule_induction percentOf
  (fun σ => Orderly σ ∧ ((∀ entry ∈ σ.ledger, FitsMode entry) → OneDate σ.db)) ?_ ?_ h |>.2 hfits
 · refine ⟨⟨fun _ he => absurd he (by simp), ?_, ?_, ?_⟩, fun _ _ he => absurd he (by simp)⟩ <;> simp
 · intro σ σ' _ ⟨hinv, hone⟩ hmove
   cases hmove with
   | tick => exact ⟨hinv.tick, hone⟩
   | outside w hw =>
    refine ⟨hinv.outside hw, fun hall => (hone hall).congr fun k hk => lookup_applyWrite_ne σ.db ?_⟩
    rintro rfl
    have hout : EventPlanning.outside w.key = true := hw
    rw [not_schedule_outside hk] at hout
    cases hout
   | commit m db' hstep =>
    refine ⟨hstep.orderly hinv, fun hall => ?_⟩
    have hbefore := hone fun entry hentry => hall entry (List.mem_append_left _ hentry)
    exact hbefore.commit hstep (hall _ (List.mem_append_right _ List.mem_cons_self))

end FixedMode

section Samples

def sampleEvent : CreateEvent where
  householdId := none
  title := "Games night".toList
  schedulingMode := some .fixed
  image := none
  description := none
  location := none
  url := none
  type := none
  reach := none
  inviteUserIds := []
  occurrences := []
  policy := ⟨.direct, .simpleMajority, none, .none, none, .confirmedOnly, .asAbstain, none⟩

def anyone : Ceiling := fun _ => true

def sampleDate : AddOccurrence := ⟨some "Friday".toList, some 100, some 104, none, none, none⟩

def ceilPercent (count percent : ℕ) : ℕ := (count * percent + 99) / 100

def steps (i n : ℕ) : List (Action Row Request) := List.replicate n (.advance i)

def eventMade : List (Action Row Request) :=
  .spawn (.createEvent 1 (fun _ => true) anyone sampleEvent) :: steps 0 6

def addOnce : List (Action Row Request) := eventMade ++ .spawn
    (.addOccurrence (fun _ => true) sampleDate) :: steps 1 8

def addThenCancel : List (Action Row Request) :=
    addOnce ++ .spawn (.cancelEvent 1 anyone none) :: steps 2 10

def addTwice : List (Action Row Request) :=
  eventMade ++ [.spawn (.addOccurrence (fun _ => true) sampleDate),
   .spawn (.addOccurrence (fun _ => true) sampleDate)] ++
    steps 1 3 ++ steps 2 3 ++ steps 1 5 ++ steps 2 5

def datesOf (db : Db) : List (ℕ × Bool) := (occurrences db).map fun date => (date.1, live date.2)

/-- Calling the event off took its date along. -/
theorem event_lifecycle_cancelled : ∃ s : Sys Row Advisory Mutation,
    (s.shared.ledger.length, datesOf s.shared.db) = (3, [(13, false)]) ∧ Settled s.shared.db ∧
      (∀ (i j : ℕ) entry entry', i ≤ j → s.shared.ledger[i]? = some entry →
       s.shared.ledger[j]? = some entry' →
        ∀ d o o', date? entry.after d = some o → live o = false → date? entry'.after d = some o' →
         live o' = false) ∧
      ∀ entry ∈ s.shared.ledger, Lawful entry := by
 have hrun : (run (program ceilPercent) outside (initial ∅) addThenCancel).map
   (fun s => (s.shared.ledger.length, datesOf s.shared.db)) = some (3, [(13, false)]) := by
  decide +kernel
 obtain ⟨s, hs, hdates⟩ := Option.map_eq_some_iff.1 hrun
 exact ⟨s, hdates, event_lifecycle (reachable_of_run hs)⟩

/-- `FitsMode`, on the dates the commit found. -/
def fitsMode (entry : Entry Row Mutation) : Bool :=
  match entry.event with
  | .occurrenceAdded _ _ _ =>
    (event? entry.before).all fun e => !(e.schedulingMode == .fixed) || (occurrences entry.before).isEmpty
  | .eventUpdated _ after _ => !(after.schedulingMode == .fixed) || decide
   ((occurrences entry.before).length ≤ 1)
  | _ => true

theorem fitsMode_of_check {entry : Entry Row Mutation} (h : fitsMode entry = true) :
  FitsMode entry := by
 obtain ⟨m, time, before, after⟩ := entry
 cases m with
 | occurrenceAdded id date removed =>
  intro e he hfixed d
  have hempty : occurrences before = [] := by simpa [fitsMode, he, hfixed] using h
  cases hd : date? before d with
  | none => rfl
  | some o =>
   have hmem := mem_occurrences.2 hd
   rw [hempty] at hmem
   cases hmem
 | eventUpdated old new named =>
  intro hfixed d d' hd hd'
  have hshort : (occurrences before).length ≤ 1 := by
   have h' : new.schedulingMode ≠ .fixed ∨ (occurrences before).length ≤ 1 := by simpa [fitsMode] using h
   exact h'.resolve_left fun hne => hne hfixed
  obtain ⟨o, ho⟩ := Option.isSome_iff_exists.1 hd
  obtain ⟨o', ho'⟩ := Option.isSome_iff_exists.1 hd'
  have hmem := mem_occurrences.2 ho
  have hmem' := mem_occurrences.2 ho'
  obtain ⟨only, hall⟩ := List.length_eq_one_iff.1 (le_antisymm hshort (List.length_pos_of_mem hmem))
  rw [hall, List.mem_singleton] at hmem hmem'
  exact (Prod.mk.inj (hmem.trans hmem'.symm)).1
 | _ => trivial

theorem fixed_event_added_date : ∃ s : Sys Row Advisory Mutation,
    (s.shared.ledger.length, datesOf s.shared.db) = (2, [(13, true)]) ∧ OneDate s.shared.db := by
 have hrun : (run (program ceilPercent) outside (initial ∅) addOnce).map
   (fun s => ((s.shared.ledger.length, datesOf s.shared.db), s.shared.ledger.all fitsMode)) =
    some ((2, [(13, true)]), true) := by
  decide +kernel
 obtain ⟨s, hs, hsample⟩ := Option.map_eq_some_iff.1 hrun
 obtain ⟨hdates, hfits⟩ := Prod.mk.inj hsample
 exact ⟨s, hdates, fixed_event_has_one_date (reachable_of_run hs)
  fun entry hentry => fitsMode_of_check (List.all_eq_true.1 hfits entry hentry)⟩

/-- Two adds that overlap each find no date. -/
theorem fixed_event_two_dates : ¬ ∀ (percentOf : ℕ → ℕ → ℕ) (s : Sys Row Advisory Mutation),
    EventReachable percentOf s → OneDate s.shared.db := by
 intro h
 have hrun : (run (program ceilPercent) outside (initial ∅) addTwice).map
   (fun s => ((event? s.shared.db).map (·.schedulingMode), datesOf s.shared.db)) =
    some (some .fixed, [(22, true), (17, true)]) := by
  decide +kernel
 obtain ⟨s, hs, hsample⟩ := Option.map_eq_some_iff.1 hrun
 obtain ⟨hmode, hdates⟩ := Prod.mk.inj hsample
 obtain ⟨e, he, hfixed⟩ := Option.map_eq_some_iff.1 hmode
 have hpresent : ∀ d, (d, true) ∈ datesOf s.shared.db → (date? s.shared.db d).isSome = true := by
  intro d hd
  obtain ⟨⟨id, o⟩, hmem, heq⟩ := List.mem_map.1 hd
  obtain rfl : id = d := (Prod.mk.inj heq).1
  rw [mem_occurrences.1 hmem]
  rfl
 have hsame := h ceilPercent s (reachable_of_run hs) e he hfixed 22 17 (hpresent 22 (by rw [hdates]; simp))
  (hpresent 17 (by rw [hdates]; simp))
 cases hsame

end Samples

end BoardGamesEmpire.EventPlanning
