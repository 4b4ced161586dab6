import BoardGamesEmpire.EventRows

set_option autoImplicit false

/-!
# The status an event shows

`deriveEventStatus` as its loop over the dates, and the filter on single dates
that the lists of upcoming events use. Instants are milliseconds.
-/
namespace BoardGamesEmpire.EventStatusWindow
open EventPlanning

structure EventStatusDate where
  status : OccurrenceStatus
  startDate : Option ℤ
  endDate : Option ℤ
deriving DecidableEq

structure EventDecisions where
  deletedAt : Option ℤ
  cancelledAt : Option ℤ
  archivedAt : Option ℤ
deriving DecidableEq

structure Window where
  earliestStart : Option ℤ
  latestEnd : Option ℤ
deriving DecidableEq

/-- A date without an end ends when it starts; an end before its start is
    clamped up to it. -/
def widen (w : Window) (date : EventStatusDate) : Window :=
  if date.status ≠ .confirmed then w
  else
    match date.startDate with
    | none => w
    | some start =>
      let stop := max start (date.endDate.getD start)
      ⟨some (w.earliestStart.elim start fun earliest => min earliest start),
        some (w.latestEnd.elim stop fun latest => max latest stop)⟩

def windowOf (dates : List EventStatusDate) : Window := dates.foldl widen ⟨none, none⟩

def deriveEventStatus (event : EventDecisions) (dates : List EventStatusDate) (now : ℤ) : EventStatus :=
  if event.archivedAt ≠ none then .archived
  else if event.cancelledAt ≠ none then .cancelled
  else
    match windowOf dates with
    | ⟨some earliestStart, some latestEnd⟩ =>
      if now < earliestStart then .scheduled else if now < latestEnd then .ongoing else .completed
    | _ => .planning

def after (now : ℤ) (column : Option ℤ) : Bool := column.any fun instant => now < instant

def upcomingDateWhere (now : ℤ) (date : EventStatusDate) : Bool :=
  date.status == .confirmed && date.startDate.isSome &&
   (after now date.startDate || after now date.endDate)

def standingEventWhere (event : EventDecisions) : Bool :=
  event.deletedAt.isNone && event.cancelledAt.isNone && event.archivedAt.isNone

section Loop

variable {dates : List EventStatusDate} {date : EventStatusDate} {event : EventDecisions} {now : ℤ}

def Counts (date : EventStatusDate) (start stop : ℤ) : Prop :=
  date.status = .confirmed ∧ date.startDate = some start ∧ stop = max start (date.endDate.getD start)

theorem counts_cases (date : EventStatusDate) : (∃ start stop, Counts date start stop) ∨
  ((∀ start stop, ¬ Counts date start stop) ∧ ∀ w, widen w date = w) := by
 by_cases hconfirmed : date.status = .confirmed
 · cases hstart : date.startDate with
   | none =>
    right
    refine ⟨fun start stop h => ?_, fun w => ?_⟩
    · simp [h.2.1] at hstart
    · rw [widen, if_neg (not_not.2 hconfirmed), hstart]
   | some start => exact .inl ⟨start, _, hconfirmed, hstart, rfl⟩
 · right
   exact ⟨fun start stop h => hconfirmed h.1, fun w => if_pos hconfirmed⟩

theorem widen_counted {start stop : ℤ} (h : Counts date start stop) (w : Window) :
  widen w date = ⟨some (w.earliestStart.elim start fun earliest => min earliest start),
   some (w.latestEnd.elim stop fun latest => max latest stop)⟩ := by
 obtain ⟨hconfirmed, hstart, rfl⟩ := h
 rw [widen, if_neg (not_not.2 hconfirmed), hstart]

theorem Counts.unique {start stop start' stop' : ℤ} (h : Counts date start stop)
  (h' : Counts date start' stop') :
  start' = start ∧ stop' = stop := by
 obtain ⟨-, hstart, rfl⟩ := h
 obtain ⟨-, hstart', rfl⟩ := h'
 obtain rfl : start = start' := Option.some.inj (hstart.symm.trans hstart')
 exact ⟨rfl, rfl⟩

theorem widen_comm (w : Window) (a b : EventStatusDate) :
  widen (widen w a) b = widen (widen w b) a := by
 rcases counts_cases a with ⟨s, e, ha⟩ | ⟨-, ha⟩
 · rcases counts_cases b with ⟨s', e', hb⟩ | ⟨-, hb⟩
   · simp only [widen_counted ha, widen_counted hb, Option.elim_some]
     congr 2
     · cases w.earliestStart with
       | none => exact min_comm s s'
       | some earliest => exact min_right_comm earliest s s'
     · cases w.latestEnd with
       | none => exact max_comm e e'
       | some latest => exact max_right_comm latest e e'
   · rw [hb, hb]
 · rw [ha, ha]

theorem windowOf_perm {dates' : List EventStatusDate} (h : dates'.Perm dates) :
  windowOf dates' = windowOf dates :=
 h.foldl_eq' (fun a _ b _ w => widen_comm w a b) ⟨none, none⟩

theorem latest_widen (w : Window) (date : EventStatusDate) (t : ℤ) :
  (∃ latest ∈ (widen w date).latestEnd, t < latest) ↔
   (∃ latest ∈ w.latestEnd, t < latest) ∨ ∃ start stop, Counts date start stop ∧ t < stop := by
 rcases counts_cases date with ⟨start, stop, h⟩ | ⟨hnone, hsame⟩
 · have hthis : (∃ start stop, Counts date start stop ∧ t < stop) ↔ t < stop := by
    constructor
    · rintro ⟨start', stop', h', ht⟩
      rwa [(h.unique h').2] at ht
    · exact fun ht => ⟨start, stop, h, ht⟩
   rw [widen_counted h, hthis]
   cases w.latestEnd <;> simp
 · rw [hsame]
   simp [hnone]

theorem earliest_widen (w : Window) (date : EventStatusDate) (t : ℤ) :
  (∃ earliest ∈ (widen w date).earliestStart, earliest ≤ t) ↔
   (∃ earliest ∈ w.earliestStart, earliest ≤ t) ∨ ∃ start stop, Counts date start stop ∧ start ≤ t := by
 rcases counts_cases date with ⟨start, stop, h⟩ | ⟨hnone, hsame⟩
 · have hthis : (∃ start stop, Counts date start stop ∧ start ≤ t) ↔ start ≤ t := by
    constructor
    · rintro ⟨start', stop', h', ht⟩
      rwa [(h.unique h').1] at ht
    · exact fun ht => ⟨start, stop, h, ht⟩
   rw [widen_counted h, hthis]
   cases w.earliestStart <;> simp
 · rw [hsame]
   simp [hnone]

theorem latest_foldl (dates : List EventStatusDate) (w : Window) (t : ℤ) :
  (∃ latest ∈ (dates.foldl widen w).latestEnd, t < latest) ↔
  (∃ latest ∈ w.latestEnd, t < latest) ∨ ∃ date ∈ dates, ∃ start stop, Counts date start stop ∧
   t < stop := by
 induction dates generalizing w with
 | nil => simp
 | cons date rest ih =>
  rw [List.foldl_cons, ih, latest_widen, or_assoc]
  simp only [List.mem_cons, exists_eq_or_imp]

theorem earliest_foldl (dates : List EventStatusDate) (w : Window) (t : ℤ) :
  (∃ earliest ∈ (dates.foldl widen w).earliestStart, earliest ≤ t) ↔
  (∃ earliest ∈ w.earliestStart, earliest ≤ t) ∨
   ∃ date ∈ dates, ∃ start stop, Counts date start stop ∧ start ≤ t := by
 induction dates generalizing w with
 | nil => simp
 | cons date rest ih =>
  rw [List.foldl_cons, ih, earliest_widen, or_assoc]
  simp only [List.mem_cons, exists_eq_or_imp]

theorem isSome_foldl (dates : List EventStatusDate) (w : Window)
  (h : w.earliestStart.isSome = w.latestEnd.isSome) :
  (dates.foldl widen w).earliestStart.isSome = (dates.foldl widen w).latestEnd.isSome := by
 induction dates generalizing w with
 | nil => exact h
 | cons date rest ih =>
  rw [List.foldl_cons]
  refine ih _ ?_
  rcases counts_cases date with ⟨start, stop, hcounts⟩ | ⟨-, hsame⟩
  · rw [widen_counted hcounts]
    rfl
  · rw [hsame]
    exact h

theorem windowOf_cases (dates : List EventStatusDate) :
  (windowOf dates = ⟨none, none⟩ ∧ ∀ date ∈ dates, ∀ start stop, ¬ Counts date start stop) ∨
  ∃ earliest latest, windowOf dates = ⟨some earliest, some latest⟩ ∧
   (∀ t, earliest ≤ t ↔ ∃ date ∈ dates, ∃ start stop, Counts date start stop ∧ start ≤ t) ∧
   ∀ t, t < latest ↔ ∃ date ∈ dates, ∃ start stop, Counts date start stop ∧ t < stop := by
 have hlatest := latest_foldl dates ⟨none, none⟩
 have hearliest := earliest_foldl dates ⟨none, none⟩
 have hboth := isSome_foldl dates ⟨none, none⟩ rfl
 rw [← windowOf.eq_1] at hlatest hearliest hboth
 cases hw : windowOf dates with
 | mk earliestStart latestEnd =>
  rw [hw] at hlatest hearliest hboth
  cases earliestStart with
  | none =>
   obtain rfl : latestEnd = none := by simpa using hboth
   refine .inl ⟨rfl, fun date hdate start stop hcounts => ?_⟩
   have hsome := (hearliest start).2 (.inr ⟨date, hdate, start, stop, hcounts, le_refl start⟩)
   simp at hsome
  | some earliest =>
   obtain ⟨latest, rfl⟩ : ∃ latest, latestEnd = some latest := Option.isSome_iff_exists.1 hboth.symm
   refine .inr ⟨earliest, latest, rfl, fun t => ?_, fun t => ?_⟩
   · simpa using hearliest t
   · simpa using hlatest t

theorem upcomingDateWhere_iff (now : ℤ) (date : EventStatusDate) :
  upcomingDateWhere now date = true ↔ ∃ start stop, Counts date start stop ∧ now < stop := by
 unfold upcomingDateWhere after
 constructor
 · intro h
   simp only [Bool.and_eq_true, beq_iff_eq, Bool.or_eq_true] at h
   obtain ⟨⟨hconfirmed, hsome⟩, hahead⟩ := h
   obtain ⟨start, hstart⟩ := Option.isSome_iff_exists.1 hsome
   refine ⟨start, _, ⟨hconfirmed, hstart, rfl⟩, lt_max_iff.2 ?_⟩
   cases hend : date.endDate with
   | none => simpa [hstart, hend] using hahead
   | some stop => simpa [hstart, hend] using hahead
 · rintro ⟨start, stop, ⟨hconfirmed, hstart, rfl⟩, hahead⟩
   rw [lt_max_iff] at hahead
   cases hend : date.endDate with
   | none => simpa [hconfirmed, hstart, hend] using hahead
   | some stop => simpa [hconfirmed, hstart, hend] using hahead

theorem upcoming_iff (event : EventDecisions) (dates : List EventStatusDate) (now : ℤ)
  (h : standingEventWhere event = true) :
  (∃ date ∈ dates, upcomingDateWhere now date = true) ↔
   deriveEventStatus event dates now = .scheduled ∨ deriveEventStatus event dates now = .ongoing := by
 simp only [standingEventWhere, Bool.and_eq_true, Option.isNone_iff_eq_none] at h
 simp only [upcomingDateWhere_iff, deriveEventStatus, h, ne_eq, not_true_eq_false, if_false]
 rcases windowOf_cases dates with ⟨hw, hnone⟩ | ⟨earliest, latest, hw, hearliest, hlatest⟩
 · rw [hw]
   simp only [reduceCtorEq, or_self, iff_false]
   rintro ⟨date, hdate, start, stop, hcounts, -⟩
   exact hnone date hdate start stop hcounts
 · rw [hw, ← hlatest]
   dsimp only
   by_cases hearly : now < earliest
   · -- Every counted date starts after the instant, so it ends after it too.
     have hlate : now < latest := by
      obtain ⟨date, hdate, start, stop, hcounts, -⟩ := (hearliest earliest).1 (le_refl _)
      have hstart : earliest ≤ start := (hearliest start).2 ⟨date, hdate, start, stop, hcounts, le_refl _⟩
      have hstop : start ≤ stop := hcounts.2.2 ▸ le_max_left _ _
      exact (hlatest now).2 ⟨date, hdate, start, stop, hcounts, by omega⟩
     simp [hearly, hlate]
   · by_cases hlate : now < latest <;> simp [hearly, hlate]

theorem deriveEventStatus_perm {dates' : List EventStatusDate} (h : dates'.Perm dates)
  (event : EventDecisions) (now : ℤ) :
  deriveEventStatus event dates' now = deriveEventStatus event dates now := by
 rw [deriveEventStatus, deriveEventStatus, windowOf_perm h]

def Forward (before later : EventStatus) : Prop :=
  later = before ∨ (before = .scheduled ∧ (later = .ongoing ∨ later = .completed)) ∨
    (before = .ongoing ∧ later = .completed)

theorem deriveEventStatus_forward (event : EventDecisions) (dates : List EventStatusDate)
  {now later : ℤ} (h : now ≤ later) :
  Forward (deriveEventStatus event dates now) (deriveEventStatus event dates later) := by
 unfold deriveEventStatus
 split
 · exact .inl rfl
 split
 · exact .inl rfl
 split
 · next earliest latest _ =>
   by_cases hearly : now < earliest
   · rw [if_pos hearly]
     split
     · exact .inl rfl
     split
     · exact .inr (.inl ⟨rfl, .inl rfl⟩)
     · exact .inr (.inl ⟨rfl, .inr rfl⟩)
   rw [if_neg hearly, if_neg (show ¬ later < earliest by omega)]
   by_cases hlate : now < latest
   · rw [if_pos hlate]
     split
     · exact .inl rfl
     · exact .inr (.inr ⟨rfl, rfl⟩)
   · rw [if_neg hlate, if_neg (show ¬ later < latest by omega)]
     exact .inl rfl
 · exact .inl rfl

end Loop

section Rows

def decisions (event : Event) : EventDecisions where
  deletedAt := event.deletedAt.map fun t => (t : ℤ)
  cancelledAt := event.cancelledAt.map fun t => (t : ℤ)
  archivedAt := event.archivedAt.map fun t => (t : ℤ)

def lift : Option (ℕ × ℕ) → Window
  | none => ⟨none, none⟩
  | some (earliest, latest) => ⟨some (earliest : ℤ), some (latest : ℤ)⟩

end Rows

end BoardGamesEmpire.EventStatusWindow
