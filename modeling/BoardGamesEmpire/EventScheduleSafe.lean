import BoardGamesEmpire.EventRules

set_option autoImplicit false

/-!
# The schedule's writers keep its rules

Each of them holds the event's row lock from before it reads what it judges to
its commit, so the event and its dates are the ones it judged.
-/
namespace BoardGamesEmpire.EventPlanning
open JsText ReadCommitted ReadCommittedProtocol

section Locked

variable {known : List (Lock Key Advisory)} {db : Db} {since : ℕ}

/-- The event and its dates are those of `db`, and the request began before. -/
def Known (db : Db) (since : ℕ) (σ : State) : Prop := Agree Schedule db σ.db ∧ since ≤ σ.clock

theorem keeps_known {exclusive : Bool} (h : (⟨.row .event, exclusive⟩ : Lock Key Advisory) ∈ known)
  (db : Db) (since : ℕ) : Keeps schedule known (Known db since) := by
 refine Keeps.and
  (keeps_agree (D := scheduleLocks) (fun _ _ _ hguar => hguar) (fun k hk => not_schedule_outside hk)
  (fun k hk v old new _ => ⟨⟨.row .event, true⟩, ?_, ⟨.row .event, exclusive⟩, h, rfl, .inr rfl⟩) db)
  (keeps_clock _ _ since)
 cases k with
 | event => exact List.mem_cons_self
 | date d => exact List.mem_cons_self
 | _ => exact hk.elim

theorem Known.event {σ : State} (h : Known db since σ) :
  event? σ.db = event? db := h.1 .event trivial

theorem Known.date {σ : State} (h : Known db since σ) (d : ℕ) :
  date? σ.db d = date? db d := h.1 (.date d) trivial

theorem Known.rebase {σ σ' : State} (h : Known db since σ) (h' : Known db since σ') :
  Known σ.db since σ' :=
 ⟨h.1.symm.trans h'.1, h'.2⟩

theorem known_here (σ : State) (h : since ≤ σ.clock) : Known σ.db since σ.tick :=
 ⟨Agree.refl _ _, Nat.le_succ_of_le h⟩

theorem safeOn_commitUnder {m : Mutation} {log : List (Write Row)} {Φ : State → Prop}
  (h : (⟨.row .event, true⟩ : Lock Key Advisory) ∈ known) (hkeeps : Keeps schedule known Φ)
  (hstep : ∀ σ, Orderly σ → Φ σ → ScheduleStep σ m (applyLog σ.db log)) :
  SafeOn schedule known Φ (.commit m .halt) log := by
 refine safeOn_commit hkeeps (fun held σ hknown _ hinv hΦ => ?_) safeOn_halt
 refine ⟨fun k _ l hl => ?_, hstep σ hinv hΦ⟩
 cases k with
 | event =>
  rw [List.mem_singleton.1 hl]
  exact covers_of_mem (hknown h)
 | date d =>
  rw [List.mem_singleton.1 hl]
  exact covers_of_mem (hknown h)
 | _ => exact absurd hl List.not_mem_nil

theorem safeOn_commitSchedule {m : Mutation} {log : List (Write Row)}
  (h : (⟨.row .event, true⟩ : Lock Key Advisory) ∈ known)
  (hstep : ∀ σ, Orderly σ → Known db since σ → ScheduleStep σ m (applyLog σ.db log)) :
  SafeOn schedule known (Known db since) (.commit m .halt) log :=
 safeOn_commitUnder h (keeps_known h db since) hstep

theorem safeOn_begin {P : Protocol Row Advisory Mutation} {next : ℕ → EventProgram}
  (hnext : ∀ since, SafeOn P [] (fun σ => since ≤ σ.clock) (next since) []) :
  SafeOn P [] (fun _ => True) (now next) [] := by
 refine safeOn_stmt (keeps_const _ _ True) fun σ _ _ _ => ⟨fun σ' => σ.clock ≤ σ'.clock, Nat.le_succ _, ?_⟩
 exact (hnext σ.clock).more (List.nil_subset _)

theorem safeOn_lockLiveEvent {next : Event → EventProgram}
  (hnext : ∀ σ e, Orderly σ → event? σ.db = some e → e.deletedAt = none → since ≤ σ.clock →
   SafeOn schedule [⟨.row .event, true⟩] (Known σ.db since) (next e) []) :
  SafeOn schedule [] (fun σ => since ≤ σ.clock) (lockLiveEvent next) [] := by
 refine safeOn_lockEvent (keeps_clock _ _ since) fun σ _ _ hΦ _ _ => ?_
 have hkeeps : Keeps schedule [⟨.row .event, true⟩] (Known σ.db since) :=
  keeps_known List.mem_cons_self _ _
 refine ⟨Known σ.db since, known_here σ hΦ, safeOn_query hkeeps fun σ' hinv' hΦ' => ?_⟩
 refine safeOn_found hkeeps fun e he => ?_
 obtain ⟨hevent, hlive⟩ := Option.filter_eq_some_iff.1 he
 exact (hnext σ' e hinv' hevent (Option.isNone_iff_eq_none.1 hlive) hΦ'.2).mono fun _ hΦ'' =>
  hΦ'.rebase hΦ''

theorem safeOn_transition {ceiling : Ceiling} {write : Event → List EventOccurrence → EventProgram}
  (hwrite : ∀ σ e, Orderly σ → event? σ.db = some e → since ≤ σ.clock →
   SafeOn schedule [⟨.row .event, true⟩] (Known σ.db since) (write e ((occurrences σ.db).map (·.2))) []) :
  SafeOn schedule [] (fun σ => since ≤ σ.clock) (transition ceiling write) [] := by
 refine safeOn_lockLiveEvent fun σ e _ he _ _ => ?_
 have hkeeps : Keeps schedule [⟨.row .event, true⟩] (Known σ.db since) :=
  keeps_known List.mem_cons_self _ _
 refine safeOn_query hkeeps fun _ _ _ => safeOn_check hkeeps fun _ => ?_
 refine safeOn_query hkeeps fun σ' hinv' hΦ' => ?_
 have hevent : event? σ'.db = some e := hΦ'.event.trans he
 exact (hwrite σ' e hinv' hevent hΦ'.2).mono fun _ hΦ'' => hΦ'.rebase hΦ''

theorem safeOn_updateEvent {e : Event} {allowed : Db → Event → Bool} {data : Event → Event}
  {next : Event → EventProgram} (h : (⟨.row .event, true⟩ : Lock Key Advisory) ∈ known)
  (he : event? db = some e)
  (hnext : SafeOn schedule known (Known db since) (next (data e)) [⟨.event, some (data e)⟩]) :
  SafeOn schedule known (Known db since) (Code.updateRow .event allowed data next) [] := by
 refine safeOn_writeRow (keeps_known h db since) fun σ _ hΦ hΦ' row hrow _ => ?_
 have hsame : event? σ.db = some e := hΦ.event.trans he
 obtain rfl : row = e := Option.some.inj (hrow.symm.trans hsame)
 exact ⟨Known db since, hΦ', hnext.more (List.subset_append_left _ _)⟩

end Locked

section Builders

variable {σ : State} {m : Mutation} {db' : Db} {e e' : Event}

theorem scheduleStep_event (hinv : Orderly σ) (he : event? σ.db = some e) (he' : event? db' = some e')
  (hdates : ∀ d, date? db' d = date? σ.db d) (hm : m ≠ .unchanged)
  (hcancel : e'.cancelledAt.isSome = true → e.cancelledAt.isSome = true)
  (harchived : e.archivedAt.isSome = true → cancelColumns e' = cancelColumns e)
  (harchives : e.archivedAt = none → e'.archivedAt.isSome = true →
   archivable.contains (deriveEventStatus e ((occurrences σ.db).map (·.2)) σ.clock) = true)
  (hnamed : ∀ x ∈ domainEvents m, Names σ.db db' x)
  (hdecides : (cancelColumns e', e'.archivedAt) ≠ (cancelColumns e, e.archivedAt) →
   ∃ x, domainEvents m = [x] ∧ decides x = true)
  (hmode : e'.schedulingMode ≠ e.schedulingMode → ∃ named, m = .eventUpdated e e' named) :
  ScheduleStep σ m db' := by
 have hrow : ∀ a a', event? σ.db = some a → event? db' = some a' → a = e ∧ a' = e' := by
  intro a a' ha ha'
  rw [he] at ha
  rw [he'] at ha'
  exact ⟨(Option.some.inj ha).symm, (Option.some.inj ha').symm⟩
 have hsameDate : ∀ d o o', date? σ.db d = some o → date? db' d = some o' → o' = o := by
  intro d o o' ho ho'
  rw [hdates, ho] at ho'
  exact (Option.some.inj ho').symm
 have hnew : ∀ d o', date? σ.db d = none → date? db' d ≠ some o' := by
  intro d o' hnone ho'
  rw [hdates, hnone] at ho'
  cases ho'
 constructor
 · intro a ha hcancelled d o ho
   rw [he'] at ha
   cases ha
   rw [hdates] at ho
   exact hinv.settled e he (hcancel hcancelled) d o ho
 · intro d _
   rw [he']
   rfl
 · exact fun _ _ => ⟨e', he'⟩
 · intro d o o' ho ho' hlive
   rw [hsameDate d o o' ho ho']
   exact hlive
 · exact fun d o' hnone ho' => absurd ho' (hnew d o' hnone)
 · intro d o ho hnone
   rw [hdates, ho] at hnone
   cases hnone
 · intro a a' ha ha' hold
   obtain ⟨rfl, rfl⟩ := hrow a a' ha ha'
   exact harchived hold
 · intro a a' ha ha' hnone hsome
   obtain ⟨rfl, rfl⟩ := hrow a a' ha ha'
   exact harchives hnone hsome
 · refine ⟨hnamed, fun h => absurd h hm, fun a a' ha ha' hne => ?_, fun d o o' ho ho' hne => ?_⟩
   · obtain ⟨rfl, rfl⟩ := hrow a a' ha ha'
     exact hdecides hne
   · exact absurd (by rw [hsameDate d o o' ho ho']) hne
 · refine ⟨fun d o hnone ho => absurd ho (hnew d o hnone), fun a a' ha ha' hne => ?_, fun a' hnone _ => ?_⟩
   · obtain ⟨rfl, rfl⟩ := hrow a a' ha ha'
     exact hmode hne
   · rw [he] at hnone
     cases hnone

theorem scheduleStep_dates (hinv : Orderly σ) (he : event? σ.db = some e) (he' : event? db' = some e)
  (hm : m ≠ .unchanged)
  (hlive : ∀ d o', date? db' d = some o' → live o' = true →
   e.cancelledAt = none ∨ ∃ o, date? σ.db d = some o ∧ live o = true)
  (hdead : ∀ d o o', date? σ.db d = some o → date? db' d = some o' → live o = false → live o' = false)
  (hfresh : ∀ d o', date? σ.db d = none → date? db' d = some o' →
   d < σ.clock ∧ (∀ entry ∈ σ.ledger, date? entry.after d = none) ∧
    ∃ removed, m = .occurrenceAdded d o' removed)
  (hconfirmed : ∀ d o, date? σ.db d = some o → date? db' d = none → o.status ≠ .confirmed)
  (hnamed : ∀ x ∈ domainEvents m, Names σ.db db' x)
  (hmoves : ∀ d o o', date? σ.db d = some o → date? db' d = some o' → o'.status ≠ o.status →
   ∃ x, domainEvents m = [x] ∧ movesDate d x = true) : ScheduleStep σ m db' := by
 have hrow : ∀ a a', event? σ.db = some a → event? db' = some a' → a' = a := by
  intro a a' ha ha'
  rw [he] at ha
  rw [he'] at ha'
  exact (Option.some.inj ha').symm.trans (Option.some.inj ha)
 constructor
 · intro a ha hcancelled d o ho
   rw [he'] at ha
   cases ha
   by_contra hne
   rcases hlive d o ho (by simpa using hne) with hnone | ⟨old, hold, holdLive⟩
   · rw [hnone] at hcancelled
     cases hcancelled
   · rw [hinv.settled e he hcancelled d old hold] at holdLive
     cases holdLive
 · intro d _
   rw [he']
   rfl
 · exact fun _ _ => ⟨e, he'⟩
 · exact hdead
 · intro d o' hnone ho'
   obtain ⟨hlt, hunseen, -⟩ := hfresh d o' hnone ho'
   exact ⟨hlt, hunseen⟩
 · exact hconfirmed
 · intro a a' ha ha' _
   rw [hrow a a' ha ha']
 · intro a a' ha ha' hnone hsome
   rw [hrow a a' ha ha', hnone] at hsome
   cases hsome
 · refine ⟨hnamed, fun h => absurd h hm, fun a a' ha ha' hne => ?_, hmoves⟩
   exact absurd (by rw [hrow a a' ha ha']) hne
 · refine ⟨fun d o hnone ho => ?_, fun a a' ha ha' hne => ?_, fun a' hnone _ => ?_⟩
   · obtain ⟨-, -, hadded⟩ := hfresh d o hnone ho
     exact .inl hadded
   · exact absurd (by rw [hrow a a' ha ha']) hne
   · rw [he] at hnone
     cases hnone

end Builders

section Status

variable {e : Event}

theorem window_le {date : EventOccurrence} {w : ℕ × ℕ} (h : window date = some w) : w.1 ≤ w.2 := by
 unfold window at h
 by_cases hconfirmed : date.status = .confirmed
 · rw [if_pos hconfirmed] at h
   obtain ⟨start, -, rfl⟩ := Option.map_eq_some_iff.1 h
   exact le_max_left _ _
 · rw [if_neg hconfirmed] at h
   cases h

theorem foldl_widen (windows : List (ℕ × ℕ)) (a b : ℕ) :
  ∃ r, windows.foldl widen (some (a, b)) = some r ∧
  r.1 ≤ a ∧ ∀ t, r.2 ≤ t ↔ b ≤ t ∧ ∀ w ∈ windows, w.2 ≤ t := by
 induction windows generalizing a b with
 | nil => exact ⟨(a, b), rfl, le_refl a, fun t => by simp⟩
 | cons w rest ih =>
  obtain ⟨r, hr, hle, hend⟩ := ih (min a w.1) (max b w.2)
  refine ⟨r, hr, hle.trans (min_le_left _ _), fun t => ?_⟩
  rw [hend, max_le_iff, List.forall_mem_cons, and_assoc]

theorem completed_iff (hlive : e.archivedAt = none) (hon : e.cancelledAt = none)
  (dates : List EventOccurrence) (t : ℕ) : deriveEventStatus e dates t = .completed ↔
   dates.filterMap window ≠ [] ∧ ∀ w ∈ dates.filterMap window, w.2 ≤ t := by
 rw [deriveEventStatus, if_neg (by simp [hlive]), if_neg (by simp [hon])]
 have hle : ∀ w ∈ dates.filterMap window, w.1 ≤ w.2 := by
  intro w hw
  obtain ⟨date, -, hdate⟩ := List.mem_filterMap.1 hw
  exact window_le hdate
 cases hwindows : dates.filterMap window with
 | nil => simp
 | cons w rest =>
  rw [hwindows] at hle
  obtain ⟨r, hr, hstart, hend⟩ := foldl_widen rest w.1 w.2
  have hfold : rest.foldl widen (widen none w) = some r := hr
  rw [List.foldl_cons, hfold]
  have hfirst := hle w List.mem_cons_self
  have hbound := (hend r.2).1 (le_refl _)
  have hsplit : (r.2 ≤ t) ↔ ∀ w' ∈ w :: rest, w'.2 ≤ t := by rw [hend, List.forall_mem_cons]
  rw [← hsplit]
  dsimp only
  by_cases hearly : t < r.1
  · rw [if_pos hearly]
    have hlate : ¬ r.2 ≤ t := by omega
    simp [hlate]
  · rw [if_neg hearly]
    by_cases hongoing : t < r.2
    · simp [hongoing, Nat.not_le.2 hongoing]
    · simp [hongoing, Nat.le_of_not_lt hongoing]

theorem archivable_later {dates dates' : List EventOccurrence} {t t' : ℕ}
  (hlive : e.archivedAt = none) (hsame : ∀ o, o ∈ dates ↔ o ∈ dates') (hle : t ≤ t')
  (h : archivable.contains (deriveEventStatus e dates t) = true) :
  archivable.contains (deriveEventStatus e dates' t') = true := by
 by_cases hon : e.cancelledAt = none
 · have hstatus : deriveEventStatus e dates t = .completed := by
    rcases List.mem_cons.1 (List.contains_iff_mem.1 h) with hcancelled | hcompleted
    · exfalso
      rw [deriveEventStatus, if_neg (by simp [hlive]), if_neg (by simp [hon])] at hcancelled
      cases hfold : (dates.filterMap window).foldl widen none with
      | none => simp [hfold] at hcancelled
      | some r =>
       rw [hfold] at hcancelled
       dsimp only at hcancelled
       by_cases hearly : t < r.1
       · simp [hearly] at hcancelled
       · by_cases hongoing : t < r.2 <;> simp [hearly, hongoing] at hcancelled
    · exact List.mem_singleton.1 hcompleted
   obtain ⟨hne, hends⟩ := (completed_iff hlive hon dates t).1 hstatus
   have hwindows : ∀ w, w ∈ dates.filterMap window ↔ w ∈ dates'.filterMap window := by
    intro w
    rw [List.mem_filterMap, List.mem_filterMap]
    exact exists_congr fun o => and_congr_left fun _ => hsame o
   have hlater : deriveEventStatus e dates' t' = .completed := by
    refine (completed_iff hlive hon dates' t').2 ⟨?_, fun w hw => (hends w ((hwindows w).2 hw)).trans hle⟩
    obtain ⟨w, hw⟩ := List.exists_mem_of_ne_nil _ hne
    exact List.ne_nil_of_mem ((hwindows w).1 hw)
   rw [hlater]
   rfl
 · have hstatus : deriveEventStatus e dates' t' = .cancelled := by
    rw [deriveEventStatus, if_neg (by simp [hlive]), if_pos (Option.isSome_iff_ne_none.2 hon)]
   rw [hstatus]
   rfl

theorem mem_occurrences {v : Db} {d : ℕ} {o : EventOccurrence} :
  (d, o) ∈ occurrences v ↔ date? v d = some o := by
 rw [occurrences, mem_select]
 constructor
 · rintro ⟨k, row, hrow, hk⟩
   cases k with
   | date id =>
    cases hk
    exact hrow
   | _ => cases hk
 · intro ho
   exact ⟨.date d, o, ho, rfl⟩

theorem mem_dates {v : Db} {o : EventOccurrence} :
  o ∈ (occurrences v).map (·.2) ↔ ∃ d, date? v d = some o := by
 rw [List.mem_map]
 constructor
 · rintro ⟨⟨d, o'⟩, hmem, rfl⟩
   exact ⟨d, mem_occurrences.1 hmem⟩
 · rintro ⟨d, ho⟩
   exact ⟨(d, o), mem_occurrences.2 ho, rfl⟩

end Status

section Decisions

theorem event_written (db : Db) (e : Event) : event? (applyLog db [⟨.event, some e⟩]) = some e :=
 lookup_applyWrite_self db .event (some e)

theorem date_event_written (db : Db) (e : Event) (d : ℕ) :
  date? (applyLog db [⟨.event, some e⟩]) d = date? db d :=
 lookup_applyLog_of_notMem db (by simp)

theorem safeOn_unchanged {known : List (Lock Key Advisory)} {db : Db} {since : ℕ}
  (h : (⟨.row .event, true⟩ : Lock Key Advisory) ∈ known) :
  SafeOn schedule known (Known db since) (.commit .unchanged .halt) [] :=
 safeOn_commitSchedule h fun _ hinv _ => scheduleStep_of_agree hinv (Agree.refl _ _) rfl fun _ => rfl

theorem safe_reopenEvent (userId : ℕ) (ceiling : Ceiling) :
  SafeOn schedule [] (fun _ => True) (reopenEvent userId ceiling) [] := by
 refine safeOn_begin fun since => safeOn_transition fun σ e _ he _ => ?_
 have hkeeps : Keeps schedule [⟨.row .event, true⟩] (Known σ.db since) :=
  keeps_known List.mem_cons_self _ _
 by_cases hnone : e.cancelledAt.isNone = true
 · rw [if_pos hnone]
   exact safeOn_unchanged List.mem_cons_self
 · rw [if_neg hnone]
   refine safeOn_unless hkeeps fun harchived => safeOn_updateEvent List.mem_cons_self he ?_
   refine safeOn_commitSchedule List.mem_cons_self fun σ' hinv hΦ => ?_
   have he' : event? σ'.db = some e := hΦ.event.trans he
   refine scheduleStep_event hinv he' (event_written _ _) (date_event_written _ _) nofun nofun ?_ ?_ ?_
    (fun _ => ⟨_, rfl, rfl⟩) fun hmode => absurd rfl hmode
   · exact fun h => absurd h harchived
   · intro hold hnew
     rw [hold] at hnew
     cases hnew
   · intro x hx
     rw [List.mem_singleton.1 hx]
     refine ⟨e, _, he', event_written _ _, rfl, rfl, ?_, rfl⟩
     simpa [Option.isSome_iff_ne_none] using hnone

theorem safe_unarchiveEvent (ceiling : Ceiling) :
  SafeOn schedule [] (fun _ => True) (unarchiveEvent ceiling) [] := by
 refine safeOn_begin fun since => safeOn_transition fun σ e _ he _ => ?_
 by_cases hnone : e.archivedAt.isNone = true
 · rw [if_pos hnone]
   exact safeOn_unchanged List.mem_cons_self
 · rw [if_neg hnone]
   refine safeOn_updateEvent List.mem_cons_self he ?_
   refine safeOn_commitSchedule List.mem_cons_self fun σ' hinv hΦ => ?_
   have he' : event? σ'.db = some e := hΦ.event.trans he
   refine scheduleStep_event hinv he' (event_written _ _) (date_event_written _ _) nofun id (fun _ => rfl) nofun ?_
    (fun _ => ⟨_, rfl, rfl⟩) fun hmode => absurd rfl hmode
   intro x hx
   rw [List.mem_singleton.1 hx]
   refine ⟨e, _, he', event_written _ _, rfl, rfl, ?_, rfl⟩
   simpa [Option.isSome_iff_ne_none] using hnone

theorem safe_archiveEvent (ceiling : Ceiling) :
  SafeOn schedule [] (fun _ => True) (archiveEvent ceiling) [] := by
 refine safeOn_begin fun since => safeOn_transition fun σ e _ he _ => ?_
 have hkeeps : Keeps schedule [⟨.row .event, true⟩] (Known σ.db since) :=
  keeps_known List.mem_cons_self _ _
 by_cases hsome : e.archivedAt.isSome = true
 · rw [if_pos hsome]
   exact safeOn_unchanged List.mem_cons_self
 · have hnone : e.archivedAt = none := by simpa using hsome
   rw [if_neg hsome]
   refine safeOn_check hkeeps fun hstatus => safeOn_updateEvent List.mem_cons_self he ?_
   refine safeOn_commitSchedule List.mem_cons_self fun σ' hinv hΦ => ?_
   have he' : event? σ'.db = some e := hΦ.event.trans he
   refine scheduleStep_event hinv he' (event_written _ _) (date_event_written _ _) nofun id (fun _ => rfl) ?_ ?_
    (fun _ => ⟨_, rfl, rfl⟩) fun hmode => absurd rfl hmode
   · intro _ _
     refine archivable_later hnone (fun o => ?_) hΦ.2 hstatus
     rw [mem_dates, mem_dates]
     exact exists_congr fun d => by rw [hΦ.date d]
   · intro x hx
     rw [List.mem_singleton.1 hx]
     exact ⟨e, _, he', event_written _ _, rfl, rfl, hnone, rfl⟩

theorem UpdateEvent.apply_columns (dto : UpdateEvent) (e : Event) :
  cancelColumns (dto.apply e) = cancelColumns e ∧ (dto.apply e).archivedAt = e.archivedAt ∧
   (dto.apply e).cancelledAt = e.cancelledAt := ⟨rfl, rfl, rfl⟩

theorem safe_updateEvent (ceiling : Ceiling) (dto : UpdateEvent) (relations : Bool) :
  SafeOn schedule [] (fun _ => True) (updateEvent ceiling dto relations) [] := by
 refine safeOn_check (keeps_const _ _ True) fun _ => ?_
 refine SafeOn.mono (Ψ := fun σ => 0 ≤ σ.clock) ?_ fun _ _ => Nat.zero_le _
 refine safeOn_lockLiveEvent fun σ e _ he _ _ => safeOn_updateEvent List.mem_cons_self he ?_
 refine safeOn_commitSchedule List.mem_cons_self fun σ' hinv hΦ => ?_
 have he' : event? σ'.db = some e := hΦ.event.trans he
 refine scheduleStep_event hinv he' (event_written _ _) (date_event_written _ _) nofun id (fun _ =>
  rfl) ?_ ?_
  (fun hne => absurd rfl hne) fun _ => ⟨_, rfl⟩
 · intro hold hnew
   rw [(dto.apply_columns e).2.1, hold] at hnew
   cases hnew
 · intro x hx
   dsimp only [domainEvents] at hx
   by_cases hnamed : dto.named = true
   · rw [if_pos hnamed] at hx
     rw [List.mem_singleton.1 hx]
     exact ⟨he', event_written _ _⟩
   · rw [if_neg hnamed] at hx
     exact absurd hx List.not_mem_nil

theorem safe_deleteEvent (userId : ℕ) (ceiling : Ceiling) :
  SafeOn schedule [] (fun _ => True) (deleteEvent userId ceiling) [] := by
 refine SafeOn.mono (Ψ := fun σ => 0 ≤ σ.clock) ?_ fun _ _ => Nat.zero_le _
 refine safeOn_lockLiveEvent fun σ e _ he hlive _ => ?_
 refine safeOn_now (keeps_known List.mem_cons_self _ _) fun _ _ _ =>
  safeOn_updateEvent List.mem_cons_self he ?_
 refine safeOn_commitSchedule List.mem_cons_self fun σ' hinv hΦ => ?_
 have he' : event? σ'.db = some e := hΦ.event.trans he
 refine scheduleStep_event hinv he' (event_written _ _) (date_event_written _ _) nofun id (fun _ =>
  rfl) ?_ ?_
  (fun hne => absurd rfl hne) fun hmode => absurd rfl hmode
 · intro hold hnew
   rw [hold] at hnew
   cases hnew
 · intro x hx
   rw [List.mem_singleton.1 hx]
   exact ⟨e, he', hlive, event_written _ _⟩

end Decisions

section Cancel

variable {status : OccurrenceStatus} {data : EventOccurrence → EventOccurrence}

theorem cascade_touches {k : Key} {row : Row k} {value : Option (Row k)}
  (h : cascade status data k row = some value) : Schedule k := by
 cases k with
 | date d => trivial
 | _ => simp [cascade] at h

theorem cascade_settles (hdata : ∀ o, (data o).status ≠ status) {k : Key} {row row' : Row k}
  (h : cascade status data k row = some (some row')) : cascade status data k row' = none := by
 cases k with
 | date d =>
  simp only [cascade] at h ⊢
  by_cases hrow : row.status = status
  · rw [if_pos hrow] at h
    cases h
    exact if_neg (hdata row)
  · rw [if_neg hrow] at h
    cases h
 | _ => simp [cascade] at h

theorem applied_cascade_event (row : Option Event) :
  applied (cascade status data) .event row = row := by
 cases row <;> rfl

theorem applied_cascade_date (d : ℕ) (row : Option EventOccurrence) :
  applied (cascade status data) (.date d) row = row.map fun o =>
   if o.status = status then data o else o := by
 cases row with
 | none => rfl
 | some o =>
  simp only [applied, Option.bind_some, cascade, Option.map_some]
  by_cases ho : o.status = status
  · rw [if_pos ho, if_pos ho]
    rfl
  · rw [if_neg ho, if_neg ho]
    rfl

def calledOff (cancelled declined : EventOccurrence → EventOccurrence) (o : EventOccurrence) :
    EventOccurrence :=
  let first := if o.status = .confirmed then cancelled o else o
  if first.status = .proposed then declined first else first

theorem applied_cascades (cancelled declined : EventOccurrence → EventOccurrence) (d : ℕ)
  (row : Option EventOccurrence) :
  applied (cascade .proposed declined) (.date d) (applied (cascade .confirmed cancelled) (.date d) row) =
   row.map (calledOff cancelled declined) := by
 rw [applied_cascade_date, applied_cascade_date, Option.map_map]
 rfl

theorem live_calledOff {cancelled declined : EventOccurrence → EventOccurrence}
  (hcancelled : ∀ o, (cancelled o).status = .cancelled)
  (hdeclined : ∀ o, (declined o).status = .declined) (o : EventOccurrence) :
  live (calledOff cancelled declined o) = false := by
 cases hstatus : o.status <;> simp [calledOff, hstatus, live, hcancelled, hdeclined]

theorem scheduleStep_cancel {σ : State} {m : Mutation} {db' : Db} {e e' : Event}
  (fall : EventOccurrence → EventOccurrence) (he : event? σ.db = some e)
  (he' : event? db' = some e') (hdates : ∀ d, date? db' d = (date? σ.db d).map fall)
  (hfall : ∀ o, live (fall o) = false) (hm : m ≠ .unchanged) (hlive : e.archivedAt = none)
  (hlive' : e'.archivedAt = none) (hmode : e'.schedulingMode = e.schedulingMode)
  (hnamed : ∀ x ∈ domainEvents m, Names σ.db db' x)
  (hone : ∃ x, domainEvents m = [x] ∧ decides x = true ∧ ∀ d, movesDate d x = true) :
  ScheduleStep σ m db' := by
 obtain ⟨x, hx, hdecides, hmoves⟩ := hone
 have hdate : ∀ d o', date? db' d = some o' → ∃ o, date? σ.db d = some o ∧ fall o = o' := by
  intro d o' ho'
  rw [hdates] at ho'
  exact Option.map_eq_some_iff.1 ho'
 have hdown : ∀ d o', date? db' d = some o' → live o' = false := by
  intro d o' ho'
  obtain ⟨o, -, rfl⟩ := hdate d o' ho'
  exact hfall o
 have hnew : ∀ d o', date? σ.db d = none → date? db' d ≠ some o' := by
  intro d o' hnone ho'
  rw [hdates, hnone] at ho'
  cases ho'
 constructor
 · exact fun _ _ _ d o ho => hdown d o ho
 · intro d _
   rw [he']
   rfl
 · exact fun _ _ => ⟨e', he'⟩
 · exact fun d _ o' _ ho' _ => hdown d o' ho'
 · exact fun d o' hnone ho' => absurd ho' (hnew d o' hnone)
 · intro d o ho hnone
   rw [hdates, ho] at hnone
   cases hnone
 · intro a a' ha _ hold
   rw [he] at ha
   cases ha
   rw [hlive] at hold
   cases hold
 · intro a a' _ ha' _ hsome
   rw [he'] at ha'
   cases ha'
   rw [hlive'] at hsome
   cases hsome
 · exact ⟨hnamed, fun h => absurd h hm, fun _ _ _ _ _ => ⟨x, hx, hdecides⟩,
    fun d _ _ _ _ _ => ⟨x, hx, hmoves d⟩⟩
 · refine ⟨fun d o hnone ho => absurd ho (hnew d o hnone), fun a a' ha ha' hne => ?_, fun a' hnone _ => ?_⟩
   · rw [he] at ha
     rw [he'] at ha'
     cases ha
     cases ha'
     exact absurd hmode hne
   · rw [he] at hnone
     cases hnone

theorem safe_cancelEvent (userId : ℕ) (ceiling : Ceiling) (reason : Option Text) :
  SafeOn schedule [] (fun _ => True) (cancelEvent userId ceiling reason) [] := by
 refine safeOn_begin fun since => safeOn_transition fun σ e _ he _ => ?_
 have hkeeps : ∀ more, Keeps schedule ([⟨.row .event, true⟩] ++ more) (Known σ.db since) :=
  fun _ => keeps_known (List.mem_append_left _ List.mem_cons_self) _ _
 by_cases hcancelled : e.cancelledAt.isSome = true
 · rw [if_pos hcancelled]
   exact safeOn_unchanged List.mem_cons_self
 · rw [if_neg hcancelled]
   refine safeOn_unless (hkeeps []) fun harchived => safeOn_updateEvent List.mem_cons_self he ?_
   refine safeOn_updateMany (fun _ _ _ => cascade_touches)
    (fun _ _ _ h => cascade_settles (fun o hstatus => by cases hstatus) h) (hkeeps [])
    (fun _ hΦ => hΦ.1) fun first _ hfirst => ?_
   refine safeOn_updateMany (fun _ _ _ => cascade_touches)
    (fun _ _ _ h => cascade_settles (fun o hstatus => by cases hstatus) h)
    (hkeeps _) (fun _ hΦ => hΦ.1) fun second _ hsecond => ?_
   refine safeOn_commitSchedule (by simp) fun σ' _ hΦ => ?_
   have hagree : ∀ log, Agree Schedule (applyLog σ.db log) (applyLog σ'.db log) := hΦ.1.applyLog
   have hlive : e.archivedAt = none := by simpa using harchived
   have hevent :=
    (hagree _ .event trivial).trans ((hsecond .event trivial).trans
     ((applied_cascade_event _).trans ((hfirst .event trivial).trans
      ((applied_cascade_event _).trans (event_written _ _)))))
   have hdate := fun d => (hagree _ (.date d) trivial).trans ((hsecond (.date d) trivial).trans
    ((congrArg (applied _ (Key.date d)) ((hfirst (.date d) trivial).trans
     (congrArg (applied _ (Key.date d)) (date_event_written σ.db _ d)))).trans (applied_cascades _ _ d _)))
   refine scheduleStep_cancel _ (hΦ.event.trans he) hevent (fun d => (hdate d).trans (by rw [hΦ.date]))
    (live_calledOff (fun _ => rfl) fun _ => rfl) nofun hlive hlive rfl ?_ ⟨_, rfl, rfl, fun _ => rfl⟩
   intro x hx
   rw [List.mem_singleton.1 hx]
   exact ⟨e, _, hΦ.event.trans he, hevent, rfl, rfl, by simpa using hcancelled, rfl⟩

end Cancel

section Dates

variable {known : List (Lock Key Advisory)} {Φ : State → Prop} {log : List (Write Row)} {since : ℕ}

theorem safeOn_dropUnsupplied (initiatedAt : ℕ) (next : List (ℕ × EventGame) → EventProgram)
  (hkeeps : Keeps schedule known Φ) (hnext : ∀ removed written, (∀ w ∈ written, Elsewhere w) →
   SafeOn schedule (known ++ writeLocks written) Φ (next removed) (log ++ written)) :
  SafeOn schedule known Φ (.query fun _ v =>
   Code.eachRow deleteAll ((unsuppliedGames initiatedAt v).map fun game => .game game.1)
    (next (unsuppliedGames initiatedAt v))) log := by
 refine safeOn_query hkeeps fun σ _ _ => safeOn_eachRow_allowed (fun k hk row value _ => ?_) hkeeps
  fun written => hnext _ written
 obtain ⟨game, -, rfl⟩ := List.mem_map.1 hk
 exact id

theorem safeOn_updateElsewhere {change : RowChange Row} {next : EventProgram}
  (hchange : ∀ k row value, change k row = some value → ¬ Schedule k) (hkeeps : Keeps schedule known Φ)
  (hnext : ∀ written, (∀ w ∈ written, Elsewhere w) →
   SafeOn schedule (known ++ writeLocks written) Φ next (log ++ written)) :
  SafeOn schedule known Φ (Code.updateMany change next) log :=
 safeOn_query hkeeps fun _ _ _ => safeOn_eachRow_allowed
  (fun k _ row value h => hchange k row value h) hkeeps hnext

theorem date_written (db : Db) (d : ℕ) (value : Option EventOccurrence) {written : List (Write Row)}
  (h : ∀ w ∈ written, Elsewhere w) :
  event? (applyLog db (⟨.date d, value⟩ :: written)) = event? db ∧
  date? (applyLog db (⟨.date d, value⟩ :: written)) d = value ∧
  ∀ other, other ≠ d → date? (applyLog db (⟨.date d, value⟩ :: written)) other = date? db other := by
 have hagree :
  Agree Schedule (applyWrite db ⟨.date d, value⟩) (applyLog db (⟨.date d, value⟩ :: written)) :=
  agree_applyLog _ h
 refine ⟨?_, ?_, fun other hne => ?_⟩
 · rw [event?, hagree .event trivial]
   exact lookup_applyWrite_ne db (by simp)
 · rw [date?, hagree (.date d) trivial]
   exact lookup_applyWrite_self db (.date d) value
 · rw [date?, hagree (.date other) trivial]
   exact lookup_applyWrite_ne db (by simpa using hne)

theorem names_gamesRemoved (before after : Db) {removed : List (ℕ × EventGame)} {x : DomainEvent}
  (h : x ∈ gamesRemoved removed) : Names before after x := by
 obtain ⟨game, -, rfl⟩ := List.mem_map.1 h
 trivial

theorem elsewhere_append {first second : List (Write Row)} (hfirst : ∀ w ∈ first, Elsewhere w)
  (hsecond : ∀ w ∈ second, Elsewhere w) : ∀ w ∈ first ++ second, Elsewhere w :=
 fun w hw => (List.mem_append.1 hw).elim (hfirst w) (hsecond w)

theorem safeOn_dateLock {next : EventProgram} (hnext : ∀ σ e, Orderly σ → event? σ.db = some e →
  since ≤ σ.clock →
   SafeOn schedule [⟨.row .event, true⟩] (Known σ.db since) next []) :
  SafeOn schedule [] (fun σ => since ≤ σ.clock) (lockEvent true next) [] :=
 safeOn_lockEvent (keeps_clock _ _ since) fun σ e hinv hΦ _ he =>
  ⟨Known σ.db since, known_here σ hΦ, hnext σ e hinv he hΦ⟩

theorem safe_addOccurrence (mayCreate : Option ℕ → Bool) (dto : AddOccurrence) :
  SafeOn schedule [] (fun _ => True) (addOccurrence mayCreate dto) [] := by
 refine safeOn_begin fun since => ?_
 have hopen := keeps_clock schedule [] since
 refine safeOn_query hopen fun _ _ _ => safeOn_found hopen fun event _ => ?_
 have hwrite : SafeOn schedule [] (fun σ => since ≤ σ.clock)
   (writeEventDates since
    (fun next => assertEventNotCancelled <|
     Code.insertRow Key.date (fun _ => addedOccurrence event.schedulingMode dto) next)
    fun id removed =>
     .commit (.occurrenceAdded id (addedOccurrence event.schedulingMode dto) removed) .halt) [] := by
  refine safeOn_dateLock fun σ e _ he _ => ?_
  have hkeeps : Keeps schedule [⟨.row .event, true⟩] (Known σ.db since) :=
   keeps_known List.mem_cons_self _ _
  refine safeOn_assertEventNotCancelled hkeeps fun τ _ hΦ hon => ?_
  have hnone : e.cancelledAt = none := hon e (hΦ.event.trans he)
  refine safeOn_insertRow hkeeps fun τ hinv hΦ hΦ' hfresh => ?_
  -- the id is the clock, which no other commit has used
  have hunseen : ∀ entry ∈ τ.ledger, date? entry.after τ.clock = none := by
   intro entry hentry
   by_contra hsome
   exact absurd (hinv.past entry hentry τ.clock (Option.isSome_iff_ne_none.2 hsome)) (lt_irrefl _)
  refine ⟨fun σ' => (Known σ.db since σ' ∧ τ.clock + 1 ≤ σ'.clock) ∧ date? σ'.db τ.clock = none ∧
   ∀ entry ∈ σ'.ledger, date? entry.after τ.clock = none, ⟨⟨hΦ', le_refl _⟩, hfresh, hunseen⟩, ?_⟩
  have hlater : Keeps schedule ([⟨.row .event, true⟩] ++ [⟨.row (.date τ.clock), true⟩]) fun σ' =>
    (Known σ.db since σ' ∧ τ.clock + 1 ≤ σ'.clock) ∧ date? σ'.db τ.clock = none ∧
     ∀ entry ∈ σ'.ledger, date? entry.after τ.clock = none :=
   ((keeps_known (List.mem_append_left _ List.mem_cons_self) _ _).and (keeps_clock _ _ _)).and
    (keeps_unseen schedule (k := Key.date τ.clock) (List.mem_append_right _ List.mem_cons_self))
  refine safeOn_dropUnsupplied since
   (fun removed => .commit (.occurrenceAdded τ.clock _ removed) .halt) hlater
   fun removed written hwritten => ?_
  refine safeOn_commitUnder (List.mem_append_left _ (List.mem_append_left _ List.mem_cons_self))
   (hlater.weaken (List.subset_append_left _ _)) fun σ' hinv' hΦ' => ?_
  obtain ⟨⟨hknown, hlt⟩, hnew, hpast⟩ := hΦ'
  have he' : event? σ'.db = some e := hknown.event.trans he
  obtain ⟨hevent, hself, hother⟩ := date_written σ'.db τ.clock
   (some (addedOccurrence event.schedulingMode dto)) hwritten
  have hsame : ∀ d o o', date? σ'.db d = some o →
    date? (applyLog σ'.db
     (⟨.date τ.clock, some (addedOccurrence event.schedulingMode dto)⟩ :: written)) d =
     some o' → o' = o := by
   intro d o o' ho ho'
   have hne : d ≠ τ.clock := by
    rintro rfl
    rw [hnew] at ho
    cases ho
   rw [hother d hne, ho] at ho'
   exact (Option.some.inj ho').symm
  refine scheduleStep_dates hinv' he' (hevent.trans he') nofun (fun _ _ _ _ => .inl hnone) ?_ ?_ ?_ ?_ ?_
  · intro d o o' ho ho' hlive
    rw [hsame d o o' ho ho']
    exact hlive
  · intro d o' hd ho'
    by_cases hdc : d = τ.clock
    · subst hdc
      obtain rfl := Option.some.inj (hself.symm.trans ho')
      exact ⟨hlt, hpast, removed, rfl⟩
    · have hgone := (hother d hdc).symm.trans ho'
      rw [hd] at hgone
      cases hgone
  · intro d o ho hgone
    by_cases hdc : d = τ.clock
    · subst hdc
      rw [hnew] at ho
      cases ho
    · have hstays := (hother d hdc).symm.trans hgone
      rw [ho] at hstays
      cases hstays
  · intro x hx
    rcases List.mem_cons.1 hx with rfl | hx
    · exact ⟨hnew, hself⟩
    · exact names_gamesRemoved _ _ hx
  · intro d o o' ho ho' hne
    exact absurd (by rw [hsame d o o' ho ho']) hne
 refine safeOn_check hopen fun _ => ?_
 by_cases hfixed : event.schedulingMode = .fixed
 · rw [if_pos hfixed]
   exact safeOn_query hopen fun _ _ _ => safeOn_unless hopen fun _ => hwrite
 · rw [if_neg hfixed]
   exact hwrite

theorem scheduleStep_redate {σ : State} {m : Mutation} {e : Event} {d : ℕ} {o o' : EventOccurrence}
  {written : List (Write Row)} (hinv : Orderly σ) (he : event? σ.db = some e) (ho : date? σ.db d = some o)
  (hwritten : ∀ w ∈ written, Elsewhere w) (hm : m ≠ .unchanged)
  (hlive : live o' = true → e.cancelledAt = none ∨ live o = true) (hdead : live o = false →
   live o' = false)
  (hnamed : date? (applyLog σ.db (⟨.date d, some o'⟩ :: written)) d = some o' →
   ∀ x ∈ domainEvents m, Names σ.db (applyLog σ.db (⟨.date d, some o'⟩ :: written)) x)
  (hmoves : o'.status ≠ o.status → ∃ x, domainEvents m = [x] ∧ movesDate d x = true) :
  ScheduleStep σ m (applyLog σ.db (⟨.date d, some o'⟩ :: written)) := by
 obtain ⟨hevent, hself, hother⟩ := date_written σ.db d (some o') hwritten
 have hcases : ∀ a b', date? (applyLog σ.db (⟨.date d, some o'⟩ :: written)) a = some b' →
   (a = d ∧ b' = o') ∨ (a ≠ d ∧ date? σ.db a = some b') := by
  intro a b' hb'
  by_cases had : a = d
  · subst had
    exact .inl ⟨rfl, (Option.some.inj (hself.symm.trans hb')).symm⟩
  · exact .inr ⟨had, (hother a had).symm.trans hb'⟩
 have hold : ∀ b, date? σ.db d = some b → b = o := fun b hb => Option.some.inj (hb.symm.trans ho)
 refine scheduleStep_dates hinv he (hevent.trans he) hm ?_ ?_ ?_ ?_ (hnamed hself) ?_
 · intro a b' hb' hb'live
   rcases hcases a b' hb' with ⟨rfl, rfl⟩ | ⟨-, hsame⟩
   · exact (hlive hb'live).imp_right fun holdLive => ⟨o, ho, holdLive⟩
   · exact .inr ⟨b', hsame, hb'live⟩
 · intro a b b' hb hb' hbdead
   rcases hcases a b' hb' with ⟨rfl, rfl⟩ | ⟨-, hsame⟩
   · rw [hold b hb] at hbdead
     exact hdead hbdead
   · rw [← Option.some.inj (hb.symm.trans hsame)]
     exact hbdead
 · intro a b' hnone hb'
   rcases hcases a b' hb' with ⟨rfl, -⟩ | ⟨-, hsame⟩
   · rw [ho] at hnone
     cases hnone
   · rw [hsame] at hnone
     cases hnone
 · intro a b hb hnone
   by_cases had : a = d
   · subst had
     rw [hself] at hnone
     cases hnone
   · rw [hother a had, hb] at hnone
     cases hnone
 · intro a b b' hb hb' hne
   rcases hcases a b' hb' with ⟨rfl, rfl⟩ | ⟨-, hsame⟩
   · rw [hold b hb] at hne
     exact hmoves hne
   · exact absurd (by rw [Option.some.inj (hb.symm.trans hsame)]) hne

theorem UpdateOccurrence.apply_status (dto : UpdateOccurrence) (o : EventOccurrence) :
  (dto.apply o).status = o.status := rfl

theorem safe_updateOccurrence (ceiling : Ceiling) (id : ℕ) (dto : UpdateOccurrence) :
  SafeOn schedule [] (fun _ => True) (updateOccurrence ceiling id dto) [] := by
 refine safeOn_begin fun since => ?_
 have hopen := keeps_clock schedule [] since
 refine safeOn_check hopen fun _ => safeOn_query hopen fun _ _ _ => safeOn_found hopen fun existing _ => ?_
 refine safeOn_dateLock fun σ e _ he _ => ?_
 have hkeeps : Keeps schedule [⟨.row .event, true⟩] (Known σ.db since) :=
  keeps_known List.mem_cons_self _ _
 refine safeOn_writeRow hkeeps fun τ _ hΦ hΦ' o ho _ => ⟨Known σ.db since, hΦ', ?_⟩
 have hbefore : date? σ.db id = some o := (hΦ.date id).symm.trans ho
 refine safeOn_dropUnsupplied since
  (fun removed => .commit (.occurrenceUpdated id existing (dto.apply o) removed) .halt)
  (keeps_known (List.mem_append_left _ List.mem_cons_self) _ _) fun removed written hwritten => ?_
 refine safeOn_commitSchedule (List.mem_append_left _ (List.mem_append_left _ List.mem_cons_self))
  fun σ' hinv' hΦ'' => ?_
 have ho' : date? σ'.db id = some o := (hΦ''.date id).trans hbefore
 have hlive : live (dto.apply o) = live o := by
  rw [live, live, dto.apply_status]
 refine scheduleStep_redate hinv' (hΦ''.event.trans he) ho' hwritten nofun (fun h => .inr (hlive ▸ h))
  (fun h => hlive.trans h) (fun hself x hx => ?_) fun hne => absurd (dto.apply_status o) hne
 rcases List.mem_cons.1 hx with rfl | hx
 · exact ⟨by rw [ho']; rfl, hself⟩
 · exact names_gamesRemoved _ _ hx

theorem safe_transitionStatus {ceiling : Ceiling} {id : ℕ}
  {allowedFrom newStatus : OccurrenceStatus} {extraData : EventOccurrence → EventOccurrence}
  {refuseOnCancelledEvent : Bool} (hextra : ∀ o, (extraData o).status = o.status)
  (hfrom : allowedFrom = .proposed ∨ allowedFrom = .confirmed) (hmove : newStatus ≠ allowedFrom)
  (hrefuse : newStatus = .proposed ∨ newStatus = .confirmed → refuseOnCancelledEvent = true)
  (since : ℕ) :
  SafeOn schedule [] (fun σ => since ≤ σ.clock)
   (transitionStatus ceiling id allowedFrom newStatus extraData refuseOnCancelledEvent) [] := by
 have hopen := keeps_clock schedule [] since
 refine safeOn_query hopen fun _ _ _ => safeOn_check hopen fun _ => safeOn_dateLock fun σ e _ he _ => ?_
 have hkeeps : Keeps schedule [⟨.row .event, true⟩] (Known σ.db since) :=
  keeps_known List.mem_cons_self _ _
 have hrest : (newStatus = .proposed ∨ newStatus = .confirmed → e.cancelledAt = none) →
   SafeOn schedule [⟨.row .event, true⟩] (Known σ.db since)
    (.query fun _ v => (((date? v id).filter (·.status = allowedFrom)).map fun current =>
     Code.updateRow (.date id) (fun v row => row.status == current.status && ceiling v)
      (fun row : EventOccurrence => extraData { row with status := newStatus })
      fun written => .commit (.occurrenceStatusChanged id current.status written) .halt).getD
       refuse) [] := by
  intro hon
  refine safeOn_query hkeeps fun τ _ hΦ => safeOn_found hkeeps fun current hcurrent => ?_
  obtain ⟨hrow, hallowed⟩ := Option.filter_eq_some_iff.1 hcurrent
  have hbefore : date? σ.db id = some current := (hΦ.date id).symm.trans hrow
  have hstatus : current.status = allowedFrom := by simpa using hallowed
  refine safeOn_writeRow hkeeps fun τ' _ hΦ' hΦt row hrow' _ => ⟨Known σ.db since, hΦt, ?_⟩
  obtain rfl : row = current := Option.some.inj (hrow'.symm.trans ((hΦ'.date id).trans hbefore))
  refine safeOn_commitSchedule (List.mem_append_left _ List.mem_cons_self) fun σ' hinv' hΦ'' => ?_
  have ho' : date? σ'.db id = some row := (hΦ''.date id).trans hbefore
  have hnew : (extraData { row with status := newStatus }).status = newStatus := hextra _
  refine scheduleStep_redate hinv' (hΦ''.event.trans he) ho'
   (fun _ hw => absurd hw List.not_mem_nil) nofun ?_ ?_ ?_ ?_
  · intro hlive
    refine .inl (hon ?_)
    simpa [live, hnew] using hlive
  · intro hdead
    rcases hfrom with hfrom | hfrom <;> simp [live, hstatus, hfrom] at hdead
  · intro hself x hx
    rw [List.mem_singleton.1 hx]
    refine ⟨row, _, ho', hself, rfl, rfl, ?_⟩
    rw [hnew, hstatus]
    exact Ne.symm hmove
  · exact fun _ => ⟨_, rfl, by simp [movesDate]⟩
 cases hflag : refuseOnCancelledEvent with
 | true =>
  refine safeOn_assertEventNotCancelled hkeeps fun τ _ hΦ hon => hrest fun _ => ?_
  exact hon e (hΦ.event.trans he)
 | false =>
  refine hrest fun hlive => ?_
  rw [hrefuse hlive] at hflag
  cases hflag

theorem safe_confirmOccurrence (ceiling : Ceiling) (id : ℕ) :
  SafeOn schedule [] (fun _ => True) (confirmOccurrence ceiling id) [] := by
 refine safeOn_begin fun since => ?_
 apply safe_transitionStatus <;> simp

theorem safe_declineOccurrence (ceiling : Ceiling) (id : ℕ) :
  SafeOn schedule [] (fun _ => True) (declineOccurrence ceiling id) [] := by
 refine safeOn_begin fun since => ?_
 apply safe_transitionStatus <;> simp

theorem safe_cancelOccurrence (userId : ℕ) (ceiling : Ceiling) (id : ℕ) (reason : Option Text) :
  SafeOn schedule [] (fun _ => True) (cancelOccurrence userId ceiling id reason) [] := by
 refine safeOn_begin fun since => ?_
 apply safe_transitionStatus <;> simp

theorem cascadeDate_elsewhere {id : ℕ} {k : Key} {row : Row k} {value : Option (Row k)}
  (h : cascadeDate id k row = some value) : ¬ Schedule k := by
 cases k with
 | event => simp [cascadeDate] at h
 | date d => simp [cascadeDate] at h
 | _ => exact fun hk => hk

theorem clearDate_elsewhere {id : ℕ} {k : Key} {row : Row k} {value : Option (Row k)}
  (h : clearDate id k row = some value) : ¬ Schedule k := by
 cases k with
 | event => simp [clearDate] at h
 | date d => simp [clearDate] at h
 | _ => exact fun hk => hk

theorem safe_removeOccurrence (ceiling : Ceiling) (id : ℕ) :
  SafeOn schedule [] (fun _ => True) (removeOccurrence ceiling id) [] := by
 refine safeOn_begin fun since => ?_
 have hopen := keeps_clock schedule [] since
 refine safeOn_query hopen fun _ _ _ => safeOn_check hopen fun _ => safeOn_dateLock fun σ e _ he _ => ?_
 have hkeeps : ∀ more, Keeps schedule ([⟨.row .event, true⟩] ++ more) (Known σ.db since) :=
  fun _ => keeps_known (List.mem_append_left _ List.mem_cons_self) _ _
 refine safeOn_query (hkeeps []) fun τ _ hΦ => safeOn_found (hkeeps []) fun current hcurrent => ?_
 have hbefore : date? σ.db id = some current :=
  (hΦ.date id).symm.trans (Option.filter_eq_some_iff.1 hcurrent).1
 refine safeOn_unless (hkeeps []) fun hstatus => safeOn_lock (hkeeps []) fun _ _ _ hΦt => ⟨_, hΦt, ?_⟩
 refine safeOn_writeRow (hkeeps _) fun τ' _ hΦ' hΦt row hrow _ => ⟨Known σ.db since, hΦt, ?_⟩
 obtain rfl : row = current := Option.some.inj (hrow.symm.trans ((hΦ'.date id).trans hbefore))
 refine safeOn_updateElsewhere (fun _ _ _ => cascadeDate_elsewhere) (hkeeps _) fun first hfirst => ?_
 refine safeOn_updateElsewhere (fun _ _ _ => clearDate_elsewhere) (hkeeps _) fun second hsecond => ?_
 refine safeOn_dropUnsupplied since
  (fun removed => .commit (.occurrenceRemoved id row removed) .halt) (hkeeps _)
  fun removed third hthird => ?_
 refine safeOn_commitSchedule (List.mem_append_left _ List.mem_cons_self) fun σ' hinv' hΦ'' => ?_
 have hwritten := elsewhere_append (elsewhere_append hfirst hsecond) hthird
 have ho' : date? σ'.db id = some row := (hΦ''.date id).trans hbefore
 have he' : event? σ'.db = some e := hΦ''.event.trans he
 obtain ⟨hevent, hself, hother⟩ := date_written σ'.db id none hwritten
 have hstays :
  ∀ d o', date? (applyLog σ'.db (⟨.date id, none⟩ :: (first ++ second ++ third))) d = some o' →
   d ≠ id ∧ date? σ'.db d = some o' := by
  intro d o' hd
  have hne : d ≠ id := by
   rintro rfl
   rw [hself] at hd
   cases hd
  exact ⟨hne, (hother d hne).symm.trans hd⟩
 change ScheduleStep σ' _ (applyLog σ'.db (⟨.date id, none⟩ :: (first ++ second ++ third)))
 refine scheduleStep_dates hinv' he' (hevent.trans he') nofun ?_ ?_ ?_ ?_ ?_ ?_
 · exact fun d o' hd hlive => .inr ⟨o', (hstays d o' hd).2, hlive⟩
 · intro d o o' ho hd hlive
   rw [← Option.some.inj (ho.symm.trans (hstays d o' hd).2)]
   exact hlive
 · intro d o' hnone hd
   rw [(hstays d o' hd).2] at hnone
   cases hnone
 · intro d o ho hgone
   by_cases hdi : d = id
   · subst hdi
     rw [Option.some.inj (ho.symm.trans ho')]
     exact hstatus
   · rw [hother d hdi, ho] at hgone
     cases hgone
 · intro x hx
   rcases List.mem_cons.1 hx with rfl | hx
   · exact ⟨ho', hself⟩
   · exact names_gamesRemoved _ _ hx
 · intro d o o' ho hd hne
   exact absurd (by rw [Option.some.inj (ho.symm.trans (hstays d o' hd).2)]) hne

end Dates

section Create

variable {known : List (Lock Key Advisory)} {db : Db} {e : Event} {ids : List ℕ} {log : List (Write Row)}

/-- A create under way: the event was not there, and the ids of its dates were
    never used. -/
structure Creating (db : Db) (ids : List ℕ) (σ : State) : Prop where
  same : Agree Schedule db σ.db
  unseen : ∀ d ∈ ids, (date? σ.db d = none ∧ ∀ entry ∈ σ.ledger, date? entry.after d = none) ∧ d < σ.clock

structure Draft (db : Db) (e : Event) (ids : List ℕ) (log : List (Write Row)) : Prop where
  event : event? (applyLog db log) = some e
  dates : ∀ d, (date? (applyLog db log) d).isSome = true → d ∈ ids

def CreateLocks (known : List (Lock Key Advisory)) (ids : List ℕ) : Prop :=
  ⟨.row .event, true⟩ ∈ known ∧ ∀ d ∈ ids, ⟨.row (.date d), true⟩ ∈ known

theorem CreateLocks.more (h : CreateLocks known ids) (more : List (Lock Key Advisory)) :
  CreateLocks (known ++ more) ids :=
 ⟨List.mem_append_left _ h.1, fun d hd => List.mem_append_left _ (h.2 d hd)⟩

theorem keeps_creating (h : CreateLocks known ids) : Keeps schedule known (Creating db ids) := by
 intro held hknown σ σ' hΦ hinv hinv' hrely
 refine ⟨(keeps_known h.1 db 0 held hknown σ σ' ⟨hΦ.same, Nat.zero_le _⟩ hinv hinv' hrely).1,
  fun d hd => ?_⟩
 refine ⟨?_, (hΦ.unseen d hd).2.trans_le hrely.clock⟩
 exact keeps_unseen schedule (k := Key.date d) (h.2 d hd) held hknown σ σ' (hΦ.unseen d hd).1 hinv
  hinv' hrely

theorem Draft.elsewhere (h : Draft db e ids log) {written : List (Write Row)}
  (hwritten : ∀ w ∈ written, Elsewhere w) :
  Draft db e ids (log ++ written) := by
 have hagree : Agree Schedule (applyLog db log) (applyLog db (log ++ written)) := by
  rw [applyLog_append]
  exact agree_applyLog _ hwritten
 constructor
 · exact (hagree .event trivial).trans h.event
 · intro d hd
   rw [date?, hagree (.date d) trivial] at hd
   exact h.dates d hd

theorem Draft.date (h : Draft db e ids log) (d : ℕ) (o : EventOccurrence) :
  Draft db e (d :: ids) (log ++ [⟨.date d, some o⟩]) := by
 constructor
 · rw [applyLog_append, event?, lookup_applyLog_of_notMem _ (by simp)]
   exact h.event
 · intro d' hd'
   by_cases hdd : d' = d
   · subst hdd
     exact List.mem_cons_self
   · rw [applyLog_append, date?] at hd'
     have hold : (applyWrite (applyLog db log) ⟨.date d, some o⟩).lookup (.date d') = date?
      (applyLog db log) d' :=
      lookup_applyWrite_ne _ (by simpa using hdd)
     exact List.mem_cons_of_mem _ (h.dates d' (hold ▸ hd'))

theorem safeOn_insertElsewhere {key : ℕ → Key} {row : (clock : ℕ) → Row (key clock)}
  {next : ℕ → EventProgram}
  (hkey : ∀ clock, ¬ Schedule (key clock)) (hlocks : CreateLocks known ids) (hdraft : Draft db e ids log)
  (hnext : ∀ clock more written, CreateLocks (known ++ more) ids → Draft db e ids (log ++ written) →
   SafeOn schedule (known ++ more) (Creating db ids) (next clock) (log ++ written)) :
  SafeOn schedule known (Creating db ids) (Code.insertRow key row next) log := by
 refine safeOn_insertRow (keeps_creating hlocks) fun σ _ _ hΦ' _ => ⟨_, hΦ', ?_⟩
 refine hnext _ _ _ (hlocks.more _) (hdraft.elsewhere fun w hw => ?_)
 rw [List.mem_singleton.1 hw]
 exact hkey _

theorem safeOn_createAttendees {rows : List (ℕ × ParticipationStatus × EventRole)} {next : EventProgram}
  (hnext : ∀ known log, CreateLocks known ids → Draft db e ids log →
   SafeOn schedule known (Creating db ids) next log) (known : List (Lock Key Advisory))
    (log : List (Write Row))
  (hlocks : CreateLocks known ids) (hdraft : Draft db e ids log) :
  SafeOn schedule known (Creating db ids) (createAttendees rows next) log := by
 induction rows generalizing known log with
 | nil => exact hnext known log hlocks hdraft
 | cons row rest ih =>
  refine safeOn_insertElsewhere (fun _ hk => hk) hlocks hdraft fun id more written hlocks' hdraft' => ?_
  refine safeOn_insertElsewhere (fun _ hk => hk) hlocks' hdraft'
   fun _ more' written' hlocks'' hdraft'' => ?_
  exact ih _ _ hlocks'' hdraft''

theorem safeOn_createOccurrences (bound : ℕ) {poll : Bool} {dtos : List CreateOccurrence}
  {next : EventProgram}
  (hnext : ∀ known ids log, ids.length ≤ bound → CreateLocks known ids → Draft db e ids log →
   SafeOn schedule known (Creating db ids) next log) (index : ℕ) (known : List (Lock Key Advisory))
    (ids : List ℕ)
  (log : List (Write Row)) (hlength : ids.length + dtos.length ≤ bound) (hlocks : CreateLocks known ids)
  (hdraft : Draft db e ids log) :
  SafeOn schedule known (Creating db ids) (createOccurrences poll index dtos next) log := by
 induction dtos generalizing index known ids log with
 | nil => exact hnext known ids log hlength hlocks hdraft
 | cons dto rest ih =>
  refine safeOn_insertRow (keeps_creating hlocks) fun σ hinv hΦ hΦ' hfresh => ?_
  have hnone : date? σ.db σ.clock = none := by
   by_contra hsome
   exact absurd (hinv.present σ.clock (Option.isSome_iff_ne_none.2 hsome)) (lt_irrefl _)
  have hunseen : ∀ entry ∈ σ.ledger, date? entry.after σ.clock = none := by
   intro entry hentry
   by_contra hsome
   exact absurd (hinv.past entry hentry σ.clock (Option.isSome_iff_ne_none.2 hsome)) (lt_irrefl _)
  refine ⟨Creating db (σ.clock :: ids), ⟨hΦ'.same, fun d hd => ?_⟩, ?_⟩
  · rcases List.mem_cons.1 hd with rfl | hd
    · exact ⟨⟨hnone, hunseen⟩, Nat.lt_succ_self _⟩
    · exact hΦ'.unseen d hd
  · have hlocks' : CreateLocks (known ++ [⟨.row (.date σ.clock), true⟩]) (σ.clock :: ids) := by
     refine ⟨List.mem_append_left _ hlocks.1, fun d hd => ?_⟩
     rcases List.mem_cons.1 hd with rfl | hd
     · exact List.mem_append_right _ List.mem_cons_self
     · exact List.mem_append_left _ (hlocks.2 d hd)
    have hlength' : (σ.clock :: ids).length + rest.length ≤ bound := by
     simp only [List.length_cons] at hlength ⊢
     omega
    by_cases hpoll : poll = true
    · rw [if_pos hpoll]
      exact ih _ _ _ _ hlength' hlocks' (hdraft.date _ _)
    · rw [if_neg hpoll]
      refine safeOn_insertElsewhere (fun _ hk => hk) hlocks'
       (hdraft.date _ _) fun _ more written hmore hdraft' => ?_
      exact ih _ _ _ _ hlength' hmore hdraft'

theorem scheduleStep_created {σ : State} {invitees : List ℕ} (hnone : event? db = none)
  (hdates : ∀ d, date? db d = none) (hlive : e.cancelledAt = none)
  (hmode : e.schedulingMode = .fixed → ids.length ≤ 1) (hΦ : Creating db ids σ)
  (hdraft : Draft db e ids log) :
  ScheduleStep σ (.eventCreated e invitees) (applyLog σ.db log) := by
 have hagree := hΦ.same.applyLog log
 have hevent : event? (applyLog σ.db log) = some e := (hagree .event trivial).trans hdraft.event
 have hbefore : event? σ.db = none := (hΦ.same .event trivial).trans hnone
 have hnew : ∀ d, date? σ.db d = none := fun d => (hΦ.same (.date d) trivial).trans (hdates d)
 have hids : ∀ d, (date? (applyLog σ.db log) d).isSome = true → d ∈ ids := by
  intro d hd
  rw [date?, hagree (.date d) trivial] at hd
  exact hdraft.dates d hd
 have hnoEvent : ∀ a, event? σ.db ≠ some a := by
  intro a ha
  rw [hbefore] at ha
  cases ha
 have hnoDate : ∀ d o, date? σ.db d ≠ some o := by
  intro d o ho
  rw [hnew d] at ho
  cases ho
 constructor
 · intro a ha hcancelled
   rw [← Option.some.inj (hevent.symm.trans ha), hlive] at hcancelled
   cases hcancelled
 · intro d _
   rw [hevent]
   rfl
 · exact fun a ha => absurd ha (hnoEvent a)
 · exact fun d o _ ho => absurd ho (hnoDate d o)
 · intro d o' _ ho'
   obtain ⟨⟨-, hunseen⟩, hlt⟩ := hΦ.unseen d (hids d (by rw [ho']; rfl))
   exact ⟨hlt, hunseen⟩
 · exact fun d o ho => absurd ho (hnoDate d o)
 · exact fun a _ ha => absurd ha (hnoEvent a)
 · exact fun a _ ha => absurd ha (hnoEvent a)
 · refine ⟨fun x hx => ?_, nofun, fun a _ ha => absurd ha (hnoEvent a),
    fun d o _ ho => absurd ho (hnoDate d o)⟩
   rw [List.mem_singleton.1 hx]
   exact ⟨hbefore, hevent⟩
 · refine ⟨fun d o _ _ => .inr ⟨_, _, rfl⟩, fun a _ ha => absurd ha (hnoEvent a),
    fun a' _ ha' hfixed d d' hd hd' => ?_⟩
   obtain rfl := Option.some.inj (hevent.symm.trans ha')
   have hle := hmode hfixed
   have hd := hids d hd
   have hd' := hids d' hd'
   rcases ids with - | ⟨a, - | ⟨b, rest⟩⟩
   · exact absurd hd List.not_mem_nil
   · exact (List.mem_singleton.1 hd).trans (List.mem_singleton.1 hd').symm
   · simp at hle

theorem safe_createEvent (userId : ℕ) (mayCreate : Option ℕ → Bool) (invitable : Ceiling)
  (dto : CreateEvent) :
  SafeOn schedule [] (fun _ => True) (createEvent userId mayCreate invitable dto) [] := by
 have hopen := keeps_const schedule ([] : List (Lock Key Advisory)) True
 refine safeOn_check hopen fun hfit => safeOn_query hopen fun _ _ _ => safeOn_check hopen fun _ => ?_
 have hcount : dto.schedulingMode.getD .fixed = .fixed → dto.occurrences.length ≤ 1 := by
  intro hfixed
  have hfit := (Bool.and_eq_true_iff.1 hfit).2
  rw [hfixed] at hfit
  simpa [occurrencesFitMode] using hfit
 refine safeOn_insertRow hopen fun σ hinv _ _ hfresh => ?_
 have hdates : ∀ d, date? σ.db d = none := by
  intro d
  by_contra hsome
  have hhoused := hinv.housed d (Option.isSome_iff_ne_none.2 hsome)
  rw [show event? σ.db = none from hfresh] at hhoused
  cases hhoused
 refine ⟨Creating σ.db [], ⟨Agree.refl _ _, fun d hd => absurd hd List.not_mem_nil⟩, ?_⟩
 have hdraft :
  Draft σ.db (createdEvent userId dto) [] ([] ++ [⟨.event, some (createdEvent userId dto)⟩]) := by
  refine ⟨event_written _ _, fun d hd => ?_⟩
  rw [List.nil_append, date_event_written, hdates] at hd
  cases hd
 refine safeOn_createOccurrences dto.occurrences.length ?_ 0 _ [] _ (by simp)
  ⟨List.mem_append_right _ List.mem_cons_self, fun d hd => absurd hd List.not_mem_nil⟩ hdraft
 intro known ids log hlength hlocks hdraft
 refine safeOn_insertElsewhere (fun _ hk => hk) hlocks hdraft fun _ more written hlocks' hdraft' => ?_
 refine safeOn_createAttendees (fun known log hlocks hdraft => ?_) _ _ hlocks' hdraft'
 refine safeOn_commitUnder hlocks.1 (keeps_creating hlocks) fun σ' _ hΦ => ?_
 exact scheduleStep_created hfresh hdates rfl (fun hfixed => hlength.trans (hcount hfixed)) hΦ hdraft

end Create

section Sound

variable (percentOf : ℕ → ℕ → ℕ)

theorem safe_program (request : Request) (σ : State) :
  Safe schedule (program percentOf request) [] [] σ := by
 cases request with
 | createEvent userId mayCreate invitable dto =>
  exact safe_of_safeOn (safe_createEvent userId mayCreate invitable dto) σ
 | updateEvent ceiling dto relations => exact safe_of_safeOn (safe_updateEvent ceiling dto relations) σ
 | deleteEvent userId ceiling => exact safe_of_safeOn (safe_deleteEvent userId ceiling) σ
 | cancelEvent userId ceiling reason => exact safe_of_safeOn (safe_cancelEvent userId ceiling reason) σ
 | reopenEvent userId ceiling => exact safe_of_safeOn (safe_reopenEvent userId ceiling) σ
 | archiveEvent ceiling => exact safe_of_safeOn (safe_archiveEvent ceiling) σ
 | unarchiveEvent ceiling => exact safe_of_safeOn (safe_unarchiveEvent ceiling) σ
 | addOccurrence mayCreate dto => exact safe_of_safeOn (safe_addOccurrence mayCreate dto) σ
 | updateOccurrence ceiling id dto => exact safe_of_safeOn (safe_updateOccurrence ceiling id dto) σ
 | removeOccurrence ceiling id => exact safe_of_safeOn (safe_removeOccurrence ceiling id) σ
 | confirmOccurrence ceiling id => exact safe_of_safeOn (safe_confirmOccurrence ceiling id) σ
 | declineOccurrence ceiling id => exact safe_of_safeOn (safe_declineOccurrence ceiling id) σ
 | cancelOccurrence userId ceiling id reason =>
  exact safe_of_safeOn (safe_cancelOccurrence userId ceiling id reason) σ
 | nominate userId mayCreate dto => exact safe_of_untouched (untouched_nominate userId mayCreate dto) σ
 | withdraw userId ceiling id => exact safe_of_untouched (untouched_withdraw userId ceiling id) σ
 | castVote userId mayVote id dto => exact safe_of_untouched (untouched_castVote userId mayVote id dto) σ
 | resolveNomination ceiling id =>
  exact safe_of_untouched (untouched_resolveNomination percentOf ceiling id) σ
 | hostApprove ceiling id => exact safe_of_untouched (untouched_hostDecision ceiling id .approved) σ
 | hostReject ceiling id => exact safe_of_untouched (untouched_hostDecision ceiling id .rejected) σ
 | directAddGame userId mayCreate dto =>
  exact safe_of_untouched (untouched_directAddGame userId mayCreate dto) σ
 | addAttendee userId mayCreate invitable dto =>
  exact safe_of_untouched (untouched_addAttendee userId mayCreate invitable dto) σ
 | removeAttendee ceiling id => exact safe_of_untouched (untouched_removeAttendee ceiling id) σ
 | updateStatus ceiling id dto => exact safe_of_untouched (untouched_updateStatus ceiling id dto) σ
 | addGameToList mayCreate attendeeId collectionId =>
  exact safe_of_untouched (untouched_addGameToList mayCreate attendeeId collectionId) σ
 | removeGameFromList ceiling attendeeId gameListId =>
  exact safe_of_untouched (untouched_removeGameFromList ceiling attendeeId gameListId) σ

theorem schedule_sound : Sound schedule (program percentOf) where
 safe request σ _ := safe_program percentOf request σ
 tick _ h := h.tick
 commit _ _ _ hinv heffect := heffect.orderly hinv
 outside _ _ hinv hw := hinv.outside hw

theorem schedule_induction (motive : State → Prop) (hstart : motive ⟨∅, 0, []⟩)
  (hmoves : ∀ σ σ', Orderly σ → motive σ → Moves schedule σ σ' → motive σ')
  {s : Sys Row Advisory Mutation} (h : EventReachable percentOf s) : motive s.shared := by
 refine reachable_induction (schedule_sound percentOf) ⟨?_, ?_, ?_, ?_⟩ motive hstart hmoves h
 · exact fun _ he => absurd he (by simp)
 all_goals simp

end Sound

end BoardGamesEmpire.EventPlanning
