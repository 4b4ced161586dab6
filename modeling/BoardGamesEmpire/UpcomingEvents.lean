import BoardGamesEmpire.EventStatusWindow

set_option autoImplicit false

/-!
# Pages of upcoming events

`pageUpcomingEvents` over one snapshot: the ids from a `groupBy` over the dates,
the count and the rows from the events.
-/
namespace BoardGamesEmpire.UpcomingEvents
open JsText EventPlanning EventStatusWindow

section Model

-- The ids, in the order of the database's collation.
variable (ι : Type)

structure EventRow where
  id : ι
  decisions : EventDecisions

structure OccurrenceRow where
  id : ι
  eventId : ι
  sortOrder : ℤ
  date : EventStatusDate

structure EventAttendeeRow where
  id : ι
  eventId : ι
  userId : Option ι
  status : ParticipationStatus
  role : Option Text
  rsvpDate : Option ℤ

/-- What one REPEATABLE READ transaction sees; `id` is the key of the events. -/
structure Snapshot where
  events : List (EventRow ι)
  ids : (events.map (·.id)).Nodup
  occurrences : List (OccurrenceRow ι)
  attendees : List (EventAttendeeRow ι)

-- Two events, of which the second has a date.
example : Snapshot ℕ where
  events := [⟨1, ⟨none, none, none⟩⟩, ⟨2, ⟨none, none, none⟩⟩]
  ids := by decide
  occurrences := [⟨7, 2, 0, ⟨.confirmed, some 100, none⟩⟩]
  attendees := []

structure EventAttendance where
  attendeeId : ι
  status : ParticipationStatus
  role : Option Text
  rsvpDate : Option ℤ

structure EventWithStatus where
  event : EventRow ι
  occurrences : List (OccurrenceRow ι)
  status : EventStatus

structure EventListRow where
  event : EventWithStatus ι
  attendance : Option (EventAttendance ι)

structure PaginatedRows where
  rows : List (EventListRow ι)
  total : ℕ

/-- One row of the `groupBy`: an event id and `_min.startDate`. -/
structure Group where
  eventId : ι
  startDate : Option ℤ

end Model

section Page

variable {ι : Type} [LinearOrder ι]

/-- `event: { is: { AND: [standingEventWhere(), where] } }`. -/
def isStanding (snapshot : Snapshot ι) (clause : EventRow ι → Bool) (eventId : ι) : Bool :=
  snapshot.events.any fun event => event.id == eventId &&
   (standingEventWhere event.decisions && clause event)

def upcomingEventWhere (snapshot : Snapshot ι) (now : ℤ) (event : EventRow ι) : Bool :=
  standingEventWhere event.decisions &&
    snapshot.occurrences.any fun row => row.eventId == event.id && upcomingDateWhere now row.date

def minStart (rows : List (OccurrenceRow ι)) : Option ℤ := (rows.filterMap (·.date.startDate)).min?

/-- The groups of the dates that the `groupBy` keeps. -/
def groups (snapshot : Snapshot ι) (clause : EventRow ι → Bool) (now : ℤ) : List (Group ι) :=
  let kept := snapshot.occurrences.filter fun row =>
    upcomingDateWhere now row.date && isStanding snapshot clause row.eventId
  (kept.map (·.eventId)).dedup.map fun id => ⟨id, minStart (kept.filter fun row => row.eventId == id)⟩

/-- `orderBy: [{ _min: { startDate: 'asc' } }, { eventId: 'asc' }]`; nulls stand last. -/
def sooner (a b : Group ι) : Bool :=
  match a.startDate, b.startDate with
  | some s, some t => decide (s < t) || (s == t && decide (a.eventId ≤ b.eventId))
  | some _, none => true
  | none, some _ => false
  | none, none => decide (a.eventId ≤ b.eventId)

def groupBy (snapshot : Snapshot ι) (clause : EventRow ι → Bool) (now : ℤ) (skip take : ℕ) :
    List (Group ι) :=
  (((groups snapshot clause now).mergeSort sooner).drop skip).take take

/-- `OCCURRENCE_ORDER`. -/
def occurrenceOrder (a b : OccurrenceRow ι) : Bool :=
  decide (a.sortOrder < b.sortOrder) || (a.sortOrder == b.sortOrder && decide (a.id ≤ b.id))

def occurrencesOf (snapshot : Snapshot ι) (eventId : ι) : List (OccurrenceRow ι) :=
  (snapshot.occurrences.filter fun row => row.eventId == eventId).mergeSort occurrenceOrder

def withEventStatus (snapshot : Snapshot ι) (now : ℤ) (event : EventRow ι) : EventWithStatus ι where
  event := event
  occurrences := occurrencesOf snapshot event.id
  status := deriveEventStatus event.decisions ((occurrencesOf snapshot event.id).map (·.date)) now

/-- `new Map(rows…).get(id)`: the last row of an id wins. -/
def byId (events : List (EventRow ι)) (id : ι) : Option (EventRow ι) :=
  events.reverse.find? fun event => event.id == id

/-- `ownAttendeeWhere` is none for an actor with no user. -/
def readEventAttendance (snapshot : Snapshot ι) (eventIds : List ι)
    (ownAttendeeWhere : Option (List ι → EventAttendeeRow ι → Bool)) (id : ι) :
     Option (EventAttendance ι) :=
  match ownAttendeeWhere with
  | none => none
  | some own =>
    ((snapshot.attendees.filter (own eventIds)).reverse.find? fun row => row.eventId == id).map fun row =>
      ⟨row.id, row.status, row.role, row.rsvpDate⟩

def pageUpcomingEvents (snapshot : Snapshot ι) (clause : EventRow ι → Bool) (skip take : ℕ) (now : ℤ)
    (ownAttendeeWhere : Option (List ι → EventAttendeeRow ι → Bool)) : PaginatedRows ι :=
  let ids := (groupBy snapshot clause now skip take).map (·.eventId)
  let total := (snapshot.events.filter fun event => upcomingEventWhere snapshot now event && clause
   event).length
  if ids = [] then ⟨[], total⟩
  else
    let events := snapshot.events.filter fun event => ids.contains event.id
    let rows := ids.flatMap fun id => ((byId events id).map (withEventStatus snapshot now)).toList
    ⟨rows.map fun row => ⟨row, readEventAttendance snapshot ids ownAttendeeWhere row.event.id⟩, total⟩

variable {snapshot : Snapshot ι} {clause : EventRow ι → Bool} {now : ℤ}

theorem byId_iff {id : ι} {event : EventRow ι} :
  byId snapshot.events id = some event ↔ event ∈ snapshot.events ∧ event.id = id := by
 constructor
 · intro h
   exact ⟨List.mem_reverse.1 (List.mem_of_find?_eq_some h), by simpa using List.find?_some h⟩
 · rintro ⟨hmem, rfl⟩
   cases hfound : byId snapshot.events event.id with
   | none => exact absurd (List.find?_eq_none.1 hfound event (List.mem_reverse.2 hmem)) (by simp)
   | some other =>
    have hother := List.mem_reverse.1 (List.mem_of_find?_eq_some hfound)
    have hid : other.id = event.id := by simpa using List.find?_some hfound
    rw [List.inj_on_of_nodup_map snapshot.ids hother hmem hid]

theorem byId_filter {ids : List ι} {id : ι} (h : id ∈ ids) :
  byId (snapshot.events.filter fun event => ids.contains event.id) id = byId snapshot.events id := by
 rw [byId, byId, ← List.filter_reverse, List.find?_filter]
 refine congrArg (fun p => List.find? p _) (funext fun event => ?_)
 by_cases hid : event.id = id
 · simp [hid, h]
 · simp [hid]

theorem isStanding_iff {id : ι} : isStanding snapshot clause id = true ↔
  ∃ event ∈ snapshot.events, event.id = id ∧ standingEventWhere event.decisions = true ∧
   clause event = true := by
 simp only [isStanding, List.any_eq_true, Bool.and_eq_true, beq_iff_eq]

def Matches (snapshot : Snapshot ι) (clause : EventRow ι → Bool) (now : ℤ) (event : EventRow ι) : Prop :=
  standingEventWhere event.decisions = true ∧ clause event = true ∧
    ∃ row ∈ snapshot.occurrences, row.eventId = event.id ∧ upcomingDateWhere now row.date = true

theorem matches_iff {event : EventRow ι} :
  (upcomingEventWhere snapshot now event && clause event) = true ↔ Matches snapshot clause now event := by
 simp only [upcomingEventWhere, Matches, Bool.and_eq_true, List.any_eq_true, beq_iff_eq]
 tauto

def Soonest (snapshot : Snapshot ι) (now : ℤ) (id : ι) (start : ℤ) : Prop :=
  IsLeast (fun s => ∃ row ∈ snapshot.occurrences, row.eventId = id ∧
   upcomingDateWhere now row.date = true ∧
    row.date.startDate = some s) start

theorem startDate_of_upcoming {date : EventStatusDate} (h : upcomingDateWhere now date = true) :
  ∃ start, date.startDate = some start := by
 obtain ⟨start, _, hcounts, -⟩ := (upcomingDateWhere_iff now date).1 h
 exact ⟨start, hcounts.2.1⟩

theorem mem_groups {group : Group ι} (h : group ∈ groups snapshot clause now) :
  ∃ event ∈ snapshot.events, event.id = group.eventId ∧ Matches snapshot clause now event ∧
   ∃ start, group.startDate = some start ∧ Soonest snapshot now group.eventId start := by
 obtain ⟨id, hid, rfl⟩ := List.mem_map.1 h
 obtain ⟨row, hrow, rfl⟩ := List.mem_map.1 (List.mem_dedup.1 hid)
 obtain ⟨hin, hkept⟩ := List.mem_filter.1 hrow
 rw [Bool.and_eq_true] at hkept
 obtain ⟨event, hevent, heq, hstands, hclause⟩ := isStanding_iff.1 hkept.2
 refine ⟨event, hevent, heq, ⟨hstands, hclause, row, hin, heq.symm, hkept.1⟩, ?_⟩
 have hstarts : ∀ s, s ∈ ((snapshot.occurrences.filter fun other => upcomingDateWhere now other.date &&
   isStanding snapshot clause other.eventId).filter fun other => other.eventId == row.eventId).filterMap
    (·.date.startDate) ↔ ∃ other ∈ snapshot.occurrences, other.eventId = row.eventId ∧
     upcomingDateWhere now other.date = true ∧ other.date.startDate = some s := by
  intro s
  simp only [List.mem_filterMap, List.mem_filter, Bool.and_eq_true, beq_iff_eq]
  constructor
  · rintro ⟨other, ⟨⟨hother, hupcoming, -⟩, hid⟩, hs⟩
    exact ⟨other, hother, hid, hupcoming, hs⟩
  · rintro ⟨other, hother, hid, hupcoming, hs⟩
    exact ⟨other, ⟨⟨hother, hupcoming, hid ▸ hkept.2⟩, hid⟩, hs⟩
 obtain ⟨start, hstart⟩ := startDate_of_upcoming hkept.1
 dsimp only
 cases hmin : minStart ((snapshot.occurrences.filter fun other => upcomingDateWhere now other.date &&
   isStanding snapshot clause other.eventId).filter fun other => other.eventId == row.eventId) with
 | none =>
  have hnone := List.min?_eq_none_iff.1 hmin
  have hsome := (hstarts start).2 ⟨row, hin, rfl, hkept.1, hstart⟩
  rw [hnone] at hsome
  simp at hsome
 | some least =>
  obtain ⟨hmem, hle⟩ := List.min?_eq_some_iff.1 hmin
  exact ⟨least, rfl, (hstarts least).1 hmem, fun s hs => hle s ((hstarts s).2 hs)⟩

theorem groups_complete {event : EventRow ι} (hevent : event ∈ snapshot.events)
  (h : Matches snapshot clause now event) :
  ∃ group ∈ groups snapshot clause now, group.eventId = event.id := by
 obtain ⟨hstands, hclause, row, hrow, hid, hupcoming⟩ := h
 refine ⟨_, List.mem_map_of_mem
  (List.mem_dedup.2 (List.mem_map_of_mem (List.mem_filter.2 ⟨hrow, ?_⟩))), hid⟩
 rw [hupcoming, hid, Bool.true_and]
 exact isStanding_iff.2 ⟨event, hevent, rfl, hstands, hclause⟩

theorem groups_nodup : ((groups snapshot clause now).map (·.eventId)).Nodup := by
 rw [groups, List.map_map]
 exact (List.map_id _).symm ▸ List.nodup_dedup _

end Page

section Order

variable {ι : Type} [LinearOrder ι]

theorem sooner_total (a b : Group ι) : (sooner a b || sooner b a) = true := by
 unfold sooner
 cases a.startDate with
 | none =>
  cases b.startDate with
  | none => simpa using le_total a.eventId b.eventId
  | some t => rfl
 | some s =>
  cases b.startDate with
  | none => rfl
  | some t =>
   simp only [Bool.or_eq_true, decide_eq_true_eq, Bool.and_eq_true, beq_iff_eq]
   rcases lt_trichotomy s t with hlt | rfl | hlt
   · exact .inl (.inl hlt)
   · exact (le_total a.eventId b.eventId).imp (fun h => .inr ⟨rfl, h⟩) fun h => .inr ⟨rfl, h⟩
   · exact .inr (.inl hlt)

theorem sooner_trans {a b c : Group ι} (hab : sooner a b = true) (hbc : sooner b c = true) :
  sooner a c = true := by
 unfold sooner at *
 cases ha : a.startDate <;> cases hb : b.startDate <;> cases hc : c.startDate <;>
  simp only [ha, hb, hc, Bool.or_eq_true, decide_eq_true_eq, Bool.and_eq_true, beq_iff_eq,
   reduceCtorEq] at hab hbc ⊢
 · exact le_trans hab hbc
 · rcases hab with hlt | ⟨rfl, hle⟩
   · rcases hbc with hlt' | ⟨rfl, -⟩
     · exact .inl (hlt.trans hlt')
     · exact .inl hlt
   · rcases hbc with hlt' | ⟨rfl, hle'⟩
     · exact .inl hlt'
     · exact .inr ⟨rfl, hle.trans hle'⟩

theorem sorted_groups (groups : List (Group ι)) :
  (groups.mergeSort sooner).Pairwise fun a b => sooner a b = true := by
 apply List.pairwise_mergeSort
 · intro a b c hab hbc
   exact sooner_trans hab hbc
 · intro a b
   exact sooner_total a b

end Order

section Pages

variable {ι : Type} [LinearOrder ι] {snapshot : Snapshot ι} {clause : EventRow ι → Bool} {now : ℤ}

theorem filterMap_part {α β : Type} {f : α → Option β} {l : List α}
  (h : ∀ a ∈ l, (f a).isSome = true) (skip take : ℕ) :
  ((l.drop skip).take take).filterMap f = ((l.filterMap f).drop skip).take take := by
 have hmap : ∀ {m : List α}, (∀ a ∈ m, (f a).isSome = true) → (m.filterMap f).map some = m.map f := by
  intro m hm
  induction m with
  | nil => rfl
  | cons a m ih =>
   obtain ⟨b, hb⟩ := Option.isSome_iff_exists.1 (hm a List.mem_cons_self)
   rw [List.filterMap_cons_some hb, List.map_cons, List.map_cons, hb,
    ih fun a' ha' => hm a' (List.mem_cons_of_mem a ha')]
 refine List.map_injective_iff.2 (Option.some_injective β) ?_
 rw [hmap fun a ha => h a (List.mem_of_mem_drop (List.mem_of_mem_take ha)), List.map_take, List.map_drop,
  List.map_take, List.map_drop, hmap h]

def rowFor (snapshot : Snapshot ι) (now : ℤ) (group : Group ι) : Option (EventWithStatus ι) :=
  (byId snapshot.events group.eventId).map (withEventStatus snapshot now)

def upcomingList (snapshot : Snapshot ι) (clause : EventRow ι → Bool) (now : ℤ) :
    List (EventWithStatus ι) :=
  ((groups snapshot clause now).mergeSort sooner).filterMap (rowFor snapshot now)

theorem rowFor_some {group : Group ι} (h : group ∈ groups snapshot clause now) :
  ∃ event ∈ snapshot.events, event.id = group.eventId ∧ Matches snapshot clause now event ∧
   rowFor snapshot now group = some (withEventStatus snapshot now event) := by
 obtain ⟨event, hevent, hid, hmatches, -⟩ := mem_groups h
 refine ⟨event, hevent, hid, hmatches, ?_⟩
 rw [rowFor, byId_iff.2 ⟨hevent, hid⟩, Option.map_some]

theorem page_rows (skip take : ℕ) (own : Option (List ι → EventAttendeeRow ι → Bool)) :
  (pageUpcomingEvents snapshot clause skip take now own).rows.map (·.event) =
   ((upcomingList snapshot clause now).drop skip).take take := by
 have hsome : ∀ group ∈ (groups snapshot clause now).mergeSort sooner,
  (rowFor snapshot now group).isSome = true := by
  intro group hgroup
  obtain ⟨event, -, -, -, hrow⟩ := rowFor_some ((List.mergeSort_perm _ _).mem_iff.1 hgroup)
  rw [hrow]
  rfl
 rw [upcomingList, ← filterMap_part hsome, ← groupBy.eq_1, pageUpcomingEvents]
 dsimp only
 split
 · next hnone => simp [List.map_eq_nil_iff.1 hnone]
 · rw [List.map_map]
   change List.map id _ = _
   rw [List.map_id, List.filterMap_eq_flatMap_toList, List.flatMap_map]
   refine List.flatMap_congr fun group hgroup => ?_
   rw [byId_filter (List.mem_map_of_mem hgroup), rowFor]

theorem upcomingList_ids :
  (upcomingList snapshot clause now).map (·.event.id) =
   ((groups snapshot clause now).mergeSort sooner).map (·.eventId) := by
 have hall : ∀ group ∈ (groups snapshot clause now).mergeSort sooner, group ∈ groups snapshot clause now :=
  fun group h => (List.mergeSort_perm _ _).mem_iff.1 h
 unfold upcomingList
 generalize (groups snapshot clause now).mergeSort sooner = sorted at hall ⊢
 induction sorted with
 | nil => rfl
 | cons group rest ih =>
  obtain ⟨event, -, hid, -, hrow⟩ := rowFor_some (hall group List.mem_cons_self)
  rw [List.filterMap_cons_some hrow, List.map_cons, List.map_cons,
   ih fun g hg => hall g (List.mem_cons_of_mem _ hg)]
  exact congrArg (· :: _) hid

theorem sorted_nodup : (((groups snapshot clause now).mergeSort sooner).map (·.eventId)).Nodup :=
 ((List.mergeSort_perm _ _).map _).nodup_iff.2 groups_nodup

theorem upcomingList_nodup : ((upcomingList snapshot clause now).map (·.event.id)).Nodup := by
 rw [upcomingList_ids]
 exact sorted_nodup

theorem mem_upcomingList {row : EventWithStatus ι} (h : row ∈ upcomingList snapshot clause now) :
  row.event ∈ snapshot.events ∧ Matches snapshot clause now row.event ∧
   row = withEventStatus snapshot now row.event := by
 obtain ⟨group, hgroup, hrow⟩ := List.mem_filterMap.1 h
 obtain ⟨event, hevent, -, hmatches, hsome⟩ := rowFor_some ((List.mergeSort_perm _ _).mem_iff.1 hgroup)
 obtain rfl := Option.some.inj (hsome.symm.trans hrow)
 exact ⟨hevent, hmatches, rfl⟩

theorem upcomingList_complete {event : EventRow ι} (hevent : event ∈ snapshot.events)
  (h : Matches snapshot clause now event) :
  withEventStatus snapshot now event ∈ upcomingList snapshot clause now := by
 obtain ⟨group, hgroup, hid⟩ := groups_complete hevent h
 refine List.mem_filterMap.2 ⟨group, (List.mergeSort_perm _ _).mem_iff.2 hgroup, ?_⟩
 rw [rowFor, byId_iff.2 ⟨hevent, hid.symm⟩, Option.map_some]

theorem upcomingList_length : (upcomingList snapshot clause now).length =
  (snapshot.events.filter fun event => upcomingEventWhere snapshot now event && clause event).length := by
 have hperm : ((upcomingList snapshot clause now).map (·.event.id)).Perm
   ((snapshot.events.filter fun event => upcomingEventWhere snapshot now event && clause event).map
    (·.id)) := by
  refine (List.perm_ext_iff_of_nodup upcomingList_nodup
   (snapshot.ids.sublist (List.filter_sublist.map _))).2 fun id => ?_
  simp only [List.mem_map, List.mem_filter, matches_iff]
  constructor
  · rintro ⟨row, hrow, rfl⟩
    obtain ⟨hevent, hmatches, -⟩ := mem_upcomingList hrow
    exact ⟨row.event, ⟨hevent, hmatches⟩, rfl⟩
  · rintro ⟨event, ⟨hevent, hmatches⟩, rfl⟩
    exact ⟨_, upcomingList_complete hevent hmatches, rfl⟩
 simpa using hperm.length_eq

theorem status_of_matches {event : EventRow ι} (h : Matches snapshot clause now event) :
  (withEventStatus snapshot now event).status = .scheduled ∨
   (withEventStatus snapshot now event).status = .ongoing := by
 obtain ⟨hstands, -, row, hrow, hid, hupcoming⟩ := h
 refine (upcoming_iff event.decisions _ now hstands).1 ⟨row.date, List.mem_map_of_mem ?_, hupcoming⟩
 exact (List.mergeSort_perm _ _).mem_iff.2 (List.mem_filter.2 ⟨hrow, by simpa using hid⟩)

/-- One row stands before another: by the start of its earliest date that has
    not ended, then by its id. -/
def StandsBefore (snapshot : Snapshot ι) (now : ℤ) (a b : EventWithStatus ι) : Prop :=
  ∃ s t, Soonest snapshot now a.event.id s ∧ Soonest snapshot now b.event.id t ∧
    (s < t ∨ s = t ∧ a.event.id < b.event.id)

theorem upcomingList_sorted :
  (upcomingList snapshot clause now).Pairwise (StandsBefore snapshot now) := by
 have hdistinct :
  ((groups snapshot clause now).mergeSort sooner).Pairwise fun a b => a.eventId ≠ b.eventId :=
  List.pairwise_map.1 sorted_nodup
 have hin : ∀ group ∈ (groups snapshot clause now).mergeSort sooner, group ∈ groups snapshot clause now :=
  fun group h => (List.mergeSort_perm _ _).mem_iff.1 h
 refine List.pairwise_filterMap.2 (((sorted_groups _).and hdistinct).imp_of_mem fun {a b} ha hb h => ?_)
 intro row hrow other hother
 obtain ⟨hsooner, hne⟩ := h
 obtain ⟨event, -, hid, -, hsome⟩ := rowFor_some (hin a ha)
 obtain ⟨event', -, hid', -, hsome'⟩ := rowFor_some (hin b hb)
 obtain rfl := Option.some.inj (hsome.symm.trans hrow)
 obtain rfl := Option.some.inj (hsome'.symm.trans hother)
 obtain ⟨-, -, -, -, s, hs, hsoonest⟩ := mem_groups (hin a ha)
 obtain ⟨-, -, -, -, t, ht, hsoonest'⟩ := mem_groups (hin b hb)
 refine ⟨s, t, hid ▸ hsoonest, hid' ▸ hsoonest', ?_⟩
 simp only [sooner, hs, ht, Bool.or_eq_true, decide_eq_true_eq, Bool.and_eq_true, beq_iff_eq] at hsooner
 refine hsooner.imp_right fun heq => ⟨heq.1, ?_⟩
 change event.id < event'.id
 rw [hid, hid']
 exact lt_of_le_of_ne heq.2 hne

theorem parts_concat {α : Type} (l : List α) (size count : ℕ) :
  ((List.range count).flatMap fun k => (l.drop (k * size)).take size) = l.take (count * size) := by
 induction count with
 | zero => simp
 | succ count ih =>
  rw [List.range_succ, List.flatMap_append, ih, List.flatMap_singleton, Nat.succ_mul, List.take_add]

/-- The status an event shows and the lists of upcoming events agree: one date
    at a time, in any order of the dates, as the clock goes on, and page by page. -/
theorem upcoming_agrees (ι : Type) [LinearOrder ι] :
    (∀ (event : EventDecisions) (dates : List EventStatusDate) (now : ℤ),
      event.deletedAt = none ∧ event.cancelledAt = none ∧ event.archivedAt = none →
        ((∃ date ∈ dates, upcomingDateWhere now date = true) ↔
          deriveEventStatus event dates now = .scheduled ∨ deriveEventStatus event dates now = .ongoing)) ∧
    (∀ (event : EventDecisions) (dates dates' : List EventStatusDate) (now : ℤ), dates'.Perm dates →
      deriveEventStatus event dates' now = deriveEventStatus event dates now) ∧
    (∀ (event : EventDecisions) (dates : List EventStatusDate) (now later : ℤ), now ≤ later →
      Forward (deriveEventStatus event dates now) (deriveEventStatus event dates later)) ∧
    ∀ (snapshot : Snapshot ι) (clause : EventRow ι → Bool) (now : ℤ)
      (own : Option (List ι → EventAttendeeRow ι → Bool)), ∃ full : List (EventWithStatus ι),
      (full.map (·.event.id)).Nodup ∧
      (∀ event ∈ snapshot.events, Matches snapshot clause now event ↔ ∃ row ∈ full, row.event = event) ∧
      (∀ row ∈ full, row.event ∈ snapshot.events ∧ clause row.event = true ∧
        (row.status = .scheduled ∨ row.status = .ongoing)) ∧
      full.Pairwise (StandsBefore snapshot now) ∧
      (∀ skip take, (pageUpcomingEvents snapshot clause skip take now own).total = full.length) ∧
      (∀ skip take, (pageUpcomingEvents snapshot clause skip take now own).rows.map (·.event) =
        (full.drop skip).take take) ∧
      ∀ size count, full.length ≤ count * size → ((List.range count).flatMap fun k =>
        (pageUpcomingEvents snapshot clause (k * size) size now own).rows.map (·.event)) = full := by
 refine ⟨fun event dates now h => upcoming_iff event dates now ?_, fun event dates dates' now h => ?_,
  fun event dates now later h => deriveEventStatus_forward event dates h,
   fun snapshot clause now own => ?_⟩
 · simp [standingEventWhere, h.1, h.2.1, h.2.2]
 · exact deriveEventStatus_perm h event now
 refine ⟨upcomingList snapshot clause now, upcomingList_nodup, fun event hevent => ⟨fun h => ?_, ?_⟩,
  fun row hrow => ?_, upcomingList_sorted, fun skip take => ?_, fun skip take => page_rows skip take own,
  fun size count hall => ?_⟩
 · exact ⟨_, upcomingList_complete hevent h, rfl⟩
 · rintro ⟨row, hrow, rfl⟩
   exact (mem_upcomingList hrow).2.1
 · obtain ⟨hevent, hmatches, heq⟩ := mem_upcomingList hrow
   refine ⟨hevent, hmatches.2.1, ?_⟩
   rw [heq]
   exact status_of_matches hmatches
 · rw [upcomingList_length, pageUpcomingEvents]
   dsimp only
   split <;> rfl
 · simp only [page_rows]
   rw [parts_concat, List.take_of_length_le hall]

end Pages

end BoardGamesEmpire.UpcomingEvents
