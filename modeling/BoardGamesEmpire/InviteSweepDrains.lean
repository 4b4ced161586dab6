import BoardGamesEmpire.InviteSweepSafe

set_option autoImplicit false

/-!
# The expiry sweep drains

What a batch has covered at each of its statements, what it takes off the
overdue rows, and how many steps a run can take.
-/
namespace BoardGamesEmpire.InviteSweep

section Steps

variable {σ σ' : State} {a : Step} {rows₀ : List Invite}

theorem step_evolves (hinv : Inv rows₀ σ) (h : step σ a = some σ') :
  σ.clock ≤ σ'.clock ∧ Evolves σ.clock σ.rows σ'.rows := by
 rcases step_cases hinv h with ⟨-, houtside⟩ | ⟨limit, -, -, rfl⟩ | ⟨i, s, act, phase, -, hs, hadv, rfl⟩ |
  ⟨i, s, b, -, hs, hphase, rfl⟩
 · exact ⟨houtside.clock, houtside.evolves⟩
 · exact ⟨le_refl _, Evolves.refl _ _⟩
 · exact ⟨le_refl _, Evolves.refl _ _⟩
 · have hcommitted : Committed σ (commitBatch σ i s b) i b :=
    commit_committed (hinv.held i s b hs (by rw [hphase]; rfl))
   exact ⟨hcommitted.clock.ge, hcommitted.evolves⟩

inductive Seen (σ σ' : State) (a : Step) (j : ℕ) (t : Sweep) : Prop where
  | other (hown : ∀ act, a ≠ .sweep j act) (ht : σ.sweeps[j]? = some t)
  | launched (limit : ℕ) (hown : ∀ act, a ≠ .sweep j act) (hj : σ.sweeps.length ≤ j) (hlimit : 1 ≤ limit)
      (ht : t = ⟨limit, 0, [], .ready⟩)
  | advanced (s : Sweep) (act : Act) (phase : Phase) (hown : a = .sweep j act) (hs : σ.sweeps[j]? = some s)
      (hadv : Advances σ j s.limit s.phase act phase) (ht : t = { s with phase := phase })
      (hrows : σ'.rows = σ.rows) (hclock : σ'.clock = σ.clock)
  | committed (s : Sweep) (b : Batch) (hown : a = .sweep j .commit) (hs : σ.sweeps[j]? = some s)
      (hphase : s.phase = .reading b []) (hlimit : t.limit = s.limit)
      (ht : t.phase = if b.drained then .drained b.now else .ready) (hcommitted : Committed σ σ' j b)

theorem step_seen (hinv : Inv rows₀ σ) (h : step σ a = some σ') {j : ℕ} {t : Sweep}
  (ht : σ'.sweeps[j]? = some t) : Seen σ σ' a j t := by
 rcases step_cases hinv h with ⟨hnobody, houtside⟩ | ⟨limit, hlimit, rfl, rfl⟩
  | ⟨i, s, act, phase, rfl, hs, hadv, rfl⟩ |
  ⟨i, s, b, rfl, hs, hphase, rfl⟩
 · exact .other (hnobody j) (houtside.sweeps ▸ ht)
 · rcases getElem?_concat_cases ht with hold | ⟨rfl, rfl⟩
   · exact .other (by simp) hold
   · exact .launched limit (by simp) (le_refl _) hlimit rfl
 · rcases getElem?_set_cases ht with ⟨rfl, rfl⟩ | ⟨hj, hold⟩
   · exact .advanced s act phase rfl hs hadv rfl rfl rfl
   · exact .other (by simp [Ne.symm hj]) hold
 · have hheld := hinv.held i s b hs (by rw [hphase]; rfl)
   have hkept : (b.written.foldl (commitWrite i) σ).sweeps = σ.sweeps :=
    (commitWrites_written i b.written σ hheld.nodup hheld.rows).1.sweeps
   rw [commitBatch, setSweep, hkept] at ht
   rcases getElem?_set_cases ht with ⟨rfl, rfl⟩ | ⟨hj, hold⟩
   · exact .committed s b rfl hs hphase rfl rfl (commit_committed hheld)
   · exact .other (by simp [Ne.symm hj]) hold

end Steps

section Covering

variable {rows rows' : List Invite} {b : Batch} {limit : ℕ} {todo : List ℕ} {Q Q' : ℕ → Prop}

/-- What a batch still has to see to of the rows that `Q` names: all of them
    while its reads came back short, and else enough of those that were overdue
    when it read the clock. -/
structure Covers (limit : ℕ) (b : Batch) (todo : List ℕ) (Q : ℕ → Prop) : Prop where
  short : b.drained = false → ∃ target : List ℕ, target.Nodup ∧ limit ≤ target.length ∧
    ∀ id ∈ target, Overdue b.now b.opened id ∧ (Q id → id ∈ todo ∨ id ∈ b.ids)
  clear : b.drained = true → ∀ id, Q id → id ∈ todo ∨ id ∈ b.ids

theorem Covers.mono (h : Covers limit b todo Q) (hQ : ∀ id, Q' id → Q id) :
  Covers limit b todo Q' := by
 constructor
 · intro hshort
   obtain ⟨target, hnodup, hlimit, htarget⟩ := h.short hshort
   exact ⟨target, hnodup, hlimit, fun id hid =>
    ⟨(htarget id hid).1, fun hq => (htarget id hid).2 (hQ id hq)⟩⟩
 · exact fun hdrained id hq => h.clear hdrained id (hQ id hq)

theorem Covers.meet {source : InviteStatus} {id : ℕ} (h : Covers limit b (id :: todo) Q)
  (hguard : Q id → OverdueIn source b.now rows id) :
  Covers limit (b.meet rows source id) todo Q := by
 have hfields : (b.meet rows source id).now = b.now ∧ (b.meet rows source id).opened = b.opened ∧
   (b.meet rows source id).drained = b.drained ∧ (∀ other ∈ b.ids, other ∈ (b.meet rows source id).ids) ∧
   (Q id → id ∈ (b.meet rows source id).ids) := by
  rcases meet_cases b rows source id with ⟨heq, hnot⟩ | ⟨row, -, -, -, -, heq⟩
  · rw [heq]
    refine ⟨rfl, rfl, rfl, fun _ hother => hother, fun hq => ?_⟩
    by_contra hnew
    exact hnot ⟨hguard hq, hnew⟩
  · rw [heq]
    refine ⟨rfl, rfl, rfl, fun other hother => ?_, fun _ => ?_⟩
    · rw [Batch.ids, List.map_append]
      exact List.mem_append_left _ hother
    · simp [Batch.ids]
 obtain ⟨hnow, hopened, hdrained, hkept, hhead⟩ := hfields
 have hnext : ∀ other, Q other → other ∈ id :: todo ∨ other ∈ b.ids →
   other ∈ todo ∨ other ∈ (b.meet rows source id).ids := by
  intro other hq hother
  rcases hother with hother | hold
  · rcases List.mem_cons.1 hother with rfl | hlater
    · exact .inr (hhead hq)
    · exact .inl hlater
  · exact .inr (hkept other hold)
 constructor
 · rw [hdrained, hnow, hopened]
   intro hshort
   obtain ⟨target, hnodup, hlimit, htarget⟩ := h.short hshort
   exact ⟨target, hnodup, hlimit, fun other hother =>
    ⟨(htarget other hother).1, fun hq => hnext other hq ((htarget other hother).2 hq)⟩⟩
 · rw [hdrained]
   exact fun hall other hq => hnext other hq (h.clear hall other hq)

theorem isRead_iff {source : InviteStatus} {ids : List ℕ}
  (h : isRead rows b source limit ids = true) :
  ids.Nodup ∧ (∀ id ∈ ids, OverdueIn source b.now rows id ∧ id ∉ b.ids) ∧ ids.length ≤ limit ∧
   (ids.length < limit → ∀ id, OverdueIn source b.now rows id → id ∈ ids ∨ id ∈ b.ids) := by
 simp only [isRead, Bool.and_eq_true, decide_eq_true_eq, List.all_eq_true, Bool.or_eq_true] at h
 obtain ⟨⟨⟨hnodup, hguarded⟩, hlimit⟩, hall⟩ := h
 refine ⟨hnodup, fun id hid => guarded_iff.1 (hguarded id hid), hlimit, fun hshort id hoverdue => ?_⟩
 by_cases hmine : id ∈ b.ids
 · exact .inr hmine
 left
 rcases hall with hfull | hall
 · omega
 · have hlt : id < rows.length := by
    obtain ⟨row, hrow, -⟩ := hoverdue
    exact (List.getElem?_eq_some_iff.1 hrow).1
   have hthis := hall id (List.mem_range.2 hlt)
   rw [guarded_iff.2 ⟨hoverdue, hmine⟩] at hthis
   simpa using hthis

theorem covers_first {ids : List ℕ} (hdrained : b.drained = true)
  (hopened : Evolves b.now b.opened rows) (h : isRead rows b .awaitingApproval limit ids = true) :
  Covers limit { b with drained := b.drained && decide (ids.length < limit) } ids
   (OverdueIn .awaitingApproval b.now rows) := by
 obtain ⟨hnodup, hguarded, -, hall⟩ := isRead_iff h
 constructor
 · intro hshort
   refine ⟨ids, hnodup, by simpa [hdrained] using hshort, fun id hid => ⟨?_, fun _ => .inl hid⟩⟩
   exact hopened.overdue (overdue_iff.2 (.inl (hguarded id hid).1))
 · intro hclear id hoverdue
   exact hall (by simpa [hdrained] using hclear) id hoverdue

theorem covers_second {ids : List ℕ} (hopened : Evolves b.now b.opened rows)
  (hfirst : Covers limit b [] (OverdueIn .awaitingApproval b.now rows))
  (h : isRead rows b .pending limit ids = true) :
  Covers limit { b with drained := b.drained && decide (ids.length < limit) } ids
   (Overdue b.now rows) := by
 obtain ⟨hnodup, hguarded, -, hall⟩ := isRead_iff h
 have hrest : ids.length < limit →
  ∀ id, (OverdueIn .awaitingApproval b.now rows id → id ∈ [] ∨ id ∈ b.ids) →
   Overdue b.now rows id → id ∈ ids ∨ id ∈ b.ids := by
  intro hshort id hawaits hoverdue
  rcases overdue_iff.1 hoverdue with hawaiting | hpending
  · exact .inr ((hawaits hawaiting).resolve_left List.not_mem_nil)
  · exact hall hshort id hpending
 constructor
 · intro hshort
   by_cases hfull : ids.length < limit
   · obtain ⟨target, hnodup', hlimit, htarget⟩ := hfirst.short (by simpa [hfull] using hshort)
     exact ⟨target, hnodup', hlimit, fun id hid => ⟨(htarget id hid).1, hrest hfull id (htarget id hid).2⟩⟩
   · refine ⟨ids, hnodup, not_lt.1 hfull, fun id hid => ⟨?_, fun _ => .inl hid⟩⟩
     exact hopened.overdue (overdue_iff.2 (.inr (hguarded id hid).1))
 · intro hclear id hoverdue
   simp only [Bool.and_eq_true, decide_eq_true_eq] at hclear
   exact hrest hclear.2 id (hfirst.clear hclear.1 id) hoverdue

end Covering

section Stages

variable {σ σ' : State} {a : Step} {i limit clock clock' : ℕ} {rows rows' rows₀ : List Invite}
  {s : Sweep} {act : Act}

inductive Stage (limit : ℕ) (rows : List Invite) : Phase → Prop where
  | ready : Stage limit rows .ready
  | ended : Stage limit rows .ended
  | drained (now : ℕ) (h : ∀ id, ¬ Overdue now rows id) : Stage limit rows (.drained now)
  | opening (b : Batch) (h : b.drained = true) : Stage limit rows (.reading b outstandingInviteStatuses)
  | awaiting (b : Batch) (todo : List ℕ) (h : Covers limit b todo (OverdueIn .awaitingApproval b.now rows)) :
      Stage limit rows (.updating b .awaitingApproval todo [.pending])
  | between (b : Batch) (h : Covers limit b [] (OverdueIn .awaitingApproval b.now rows)) :
      Stage limit rows (.reading b [.pending])
  | pending (b : Batch) (todo : List ℕ) (h : Covers limit b todo (Overdue b.now rows))
      (hpending : ∀ id ∈ todo, ¬ OverdueIn .awaitingApproval b.now rows id) :
      Stage limit rows (.updating b .pending todo [])
  | closing (b : Batch) (h : Covers limit b [] (Overdue b.now rows)) : Stage limit rows (.reading b [])

structure Sound (clock : ℕ) (rows : List Invite) (s : Sweep) : Prop where
  limit : 1 ≤ s.limit
  stage : Stage s.limit rows s.phase
  opened : ∀ b, s.phase.batch? = some b → b.now ≤ clock ∧ Evolves b.now b.opened rows
  past : ∀ now, s.phase = .drained now → now ≤ clock

theorem Sound.evolves (h : Sound clock rows s) (hclock : clock ≤ clock')
  (hrows : Evolves clock rows rows') :
  Sound clock' rows' s := by
 refine ⟨h.limit, ?_, fun b hb => ?_, fun now hnow => (h.past now hnow).trans hclock⟩
 · have hbatch : ∀ b, s.phase.batch? = some b → Evolves b.now rows rows' := fun b hb =>
    hrows.earlier (h.opened b hb).1
   have hstage := h.stage
   have hpast := h.past
   generalize s.phase = phase at hstage hbatch hpast ⊢
   cases hstage with
   | ready => exact .ready
   | ended => exact .ended
   | drained now hclear =>
    exact .drained now fun id hid => hclear id ((hrows.earlier (hpast now rfl)).overdue hid)
   | opening b hdrained => exact .opening b hdrained
   | awaiting b todo hcovers => exact .awaiting b todo (hcovers.mono fun id => (hbatch b rfl).awaiting)
   | between b hcovers => exact .between b (hcovers.mono fun id => (hbatch b rfl).awaiting)
   | pending b todo hcovers hpending =>
    exact .pending b todo (hcovers.mono fun id => (hbatch b rfl).overdue) fun id hid hawaiting =>
     hpending id hid ((hbatch b rfl).awaiting hawaiting)
   | closing b hcovers => exact .closing b (hcovers.mono fun id => (hbatch b rfl).overdue)
 · obtain ⟨hnow, hopened⟩ := h.opened b hb
   exact ⟨hnow.trans hclock, hopened.trans (hrows.earlier hnow)⟩

theorem meet_fields (b : Batch) (rows : List Invite) (source : InviteStatus) (id : ℕ) :
  (b.meet rows source id).now = b.now ∧ (b.meet rows source id).opened = b.opened := by
 rcases meet_cases b rows source id with ⟨heq, -⟩ | ⟨row, -, -, -, -, heq⟩ <;> rw [heq] <;>
  exact ⟨rfl, rfl⟩

theorem Sound.advance (h : Sound σ.clock σ.rows s) {phase : Phase}
  (hadv : Advances σ i s.limit s.phase act phase) :
  Sound σ.clock σ.rows { s with phase := phase } := by
 have hstage := h.stage
 have hopened := h.opened
 have hlimit := h.limit
 generalize s.phase = before at hadv hstage hopened
 cases hadv with
 | start =>
  refine ⟨hlimit, .opening _ rfl, fun b hb => ?_, fun now hnow => by cases hnow⟩
  obtain rfl := Option.some.inj hb
  exact ⟨le_refl _, Evolves.refl _ _⟩
 | stop | failReading | failUpdating =>
  exact ⟨hlimit, .ended, fun b hb => (by cases hb), fun now hnow => (by cases hnow)⟩
 | @read b source rest ids hread =>
  obtain ⟨hnow, hevolves⟩ := hopened b rfl
  refine ⟨hlimit, ?_, fun b' hb' => ?_, fun now hnow => by cases hnow⟩
  · cases hstage with
    | opening _ hdrained => exact .awaiting _ _ (covers_first hdrained hevolves hread)
    | between _ hcovers =>
     refine .pending _ _ (covers_second hevolves hcovers hread) fun id hid hawaiting => ?_
     -- The rows read were pending.
     obtain ⟨row, hrow, hstatus, -⟩ := ((isRead_iff hread).2.1 id hid).1
     obtain ⟨found, hfound, hstatus', -⟩ := hawaiting
     obtain rfl := Option.some.inj (hrow.symm.trans hfound)
     rw [hstatus] at hstatus'
     cases hstatus'
  · obtain rfl := Option.some.inj hb'
    exact ⟨hnow, hevolves⟩
 | @meet b source rest id todo hunlocked =>
  obtain ⟨hnow, hopened'⟩ := meet_fields b σ.rows source id
  refine ⟨hlimit, ?_, fun b' hb' => ?_, fun now hnow => by cases hnow⟩
  · cases hstage with
    | awaiting _ _ hcovers =>
     refine .awaiting _ _ ?_
     rw [hnow]
     exact hcovers.meet fun hq => hq
    | pending _ _ hcovers hpending =>
     refine .pending _ _ ?_ ?_
     · rw [hnow]
       exact hcovers.meet fun hq => (overdue_iff.1 hq).resolve_left (hpending id List.mem_cons_self)
     · rw [hnow]
       exact fun other hother => hpending other (List.mem_cons_of_mem _ hother)
  · obtain rfl := Option.some.inj hb'
    rw [hnow, hopened']
    exact hopened b rfl
 | @finish b source rest =>
  refine ⟨hlimit, ?_, fun b' hb' => ?_, fun now hnow => by cases hnow⟩
  · cases hstage with
    | awaiting _ _ hcovers => exact .between _ hcovers
    | pending _ _ hcovers _ => exact .closing _ hcovers
  · obtain rfl := Option.some.inj hb'
    exact hopened b rfl

theorem Committed.overdue {b : Batch} (h : Committed σ σ' i b) {now id : ℕ} (hid : id ∈ b.ids) :
  ¬ Overdue now σ'.rows id := by
 rintro ⟨row, hrow, hopen, -⟩
 obtain ⟨w, hw, rfl⟩ := List.mem_map.1 hid
 obtain rfl := Option.some.inj ((h.moved w hw).symm.trans hrow)
 cases hopen

theorem closing_covers {b : Batch} (h : Stage limit rows (.reading b [])) :
  Covers limit b [] (Overdue b.now rows) := by
 generalize hphase : Phase.reading b [] = phase at h
 cases h with
 | closing c hcovers =>
  obtain rfl : b = c := by simpa using hphase
  exact hcovers
 | ready | ended | drained _ _ | opening _ _ | awaiting _ _ _ | between _ _ | pending _ _ _ _ =>
  simp [outstandingInviteStatuses] at hphase

theorem Sound.commit {b : Batch} (h : Sound σ.clock σ.rows s) (hphase : s.phase = .reading b [])
  (hcommitted : Committed σ σ' i b) {t : Sweep} (hlimit : t.limit = s.limit)
  (ht : t.phase = if b.drained then .drained b.now else .ready) : Sound σ'.clock σ'.rows t := by
 have hnow : b.now ≤ σ.clock := (h.opened b (by rw [hphase]; rfl)).1
 refine ⟨hlimit ▸ h.limit, ?_, fun c hc => ?_, fun now hpast => ?_⟩
 · rw [ht]
   by_cases hdrained : b.drained = true
   · rw [if_pos hdrained]
     refine .drained _ fun id hoverdue => ?_
     have hcovers := closing_covers (hphase ▸ h.stage)
     have hmine := hcovers.clear hdrained id ((hcommitted.evolves.earlier hnow).overdue hoverdue)
     exact hcommitted.overdue (hmine.resolve_left List.not_mem_nil) hoverdue
   · rw [if_neg hdrained]
     exact .ready
 · rw [ht] at hc
   split at hc <;> cases hc
 · rw [ht] at hpast
   split at hpast
   · obtain rfl : b.now = now := by simpa using hpast
     exact hnow.trans hcommitted.clock.ge
   · cases hpast

theorem sound_step (hinv : Inv rows₀ σ) (h : step σ a = some σ')
  (hsound : ∀ (i : ℕ) (s : Sweep), σ.sweeps[i]? = some s → Sound σ.clock σ.rows s) (j : ℕ)
  (t : Sweep) (ht : σ'.sweeps[j]? = some t) : Sound σ'.clock σ'.rows t := by
 obtain ⟨hclock, hrows⟩ := step_evolves hinv h
 cases step_seen hinv h ht with
 | other _ hs => exact (hsound j t hs).evolves hclock hrows
 | launched limit _ _ hlimit heq =>
  rw [heq]
  exact ⟨hlimit, .ready, fun b hb => (by cases hb), fun now hnow => (by cases hnow)⟩
 | advanced s act phase _ hs hadv heq hsame hclock' =>
  rw [heq, hsame, hclock']
  exact (hsound j s hs).advance hadv
 | committed s b _ hs hphase hlimit hnext hcommitted =>
  exact (hsound j s hs).commit hphase hcommitted hlimit hnext

theorem sound_run {steps : List Step} (h : run (initial clock rows₀) steps = some σ) (i : ℕ)
  (s : Sweep) (hs : σ.sweeps[i]? = some s) : Sound σ.clock σ.rows s := by
 induction steps using List.reverseRecOn generalizing σ i s with
 | nil =>
  obtain rfl := Option.some.inj h
  simp [initial] at hs
 | append_singleton steps a ih =>
  obtain ⟨σ', hrun, hstep⟩ := run_concat h
  exact sound_step (inv_run hrun) hstep (ih hrun) i s hs

end Stages

section Overdue

variable {σ σ' : State} {i id now : ℕ} {rows rows' rows₀ : List Invite} {s : Sweep} {b : Batch}

/-- What has become of a row that was overdue: somebody settled it, or it was
    approved with a later date. -/
def Cleared (now : ℕ) (before after : Invite) : Prop :=
  isOutstanding after.status = false ∨
    (before.status = .awaitingApproval ∧ after.status = .pending ∧ now < after.expiresAt)

theorem Evolves.cleared (h : Evolves now rows rows') (hbefore : Overdue now rows id)
  (hafter : ¬ Overdue now rows' id) :
  ∃ before after, rows[id]? = some before ∧ isOutstanding before.status = true ∧ before.expiresAt ≤ now ∧
   rows'[id]? = some after ∧ Cleared now before after := by
 obtain ⟨before, hrow, hopen, hdate⟩ := hbefore
 obtain ⟨after, hrow', hmoves⟩ := h.old id before hrow
 refine ⟨before, after, hrow, hopen, hdate, hrow', ?_⟩
 rcases hmoves with rfl | ⟨-, hsettled⟩ | ⟨hawaiting, hpending, hsame | hlater⟩
 · exact absurd ⟨after, hrow', hopen, hdate⟩ hafter
 · exact .inl hsettled
 · exact absurd ⟨after, hrow', (isOutstanding_iff _).2 (.inr hpending), hsame ▸ hdate⟩ hafter
 · exact .inr ⟨hawaiting, hpending, hlater⟩

/-- A batch that does not end its run takes `limit` rows off the overdue ones. -/
theorem Sound.takes (h : Sound σ.clock σ.rows s) (hphase : s.phase = .reading b [])
  (hcommitted : Committed σ σ' i b) (hshort : b.drained = false) :
  ∃ target : List ℕ, target.Nodup ∧ s.limit ≤ target.length ∧
   ∀ id ∈ target, Overdue b.now b.opened id ∧ ¬ Overdue b.now σ'.rows id := by
 have hnow : b.now ≤ σ.clock := (h.opened b (by rw [hphase]; rfl)).1
 obtain ⟨target, hnodup, hlimit, htarget⟩ := (closing_covers (hphase ▸ h.stage)).short hshort
 refine ⟨target, hnodup, hlimit, fun id hid => ⟨(htarget id hid).1, fun hoverdue => ?_⟩⟩
 have hmine := (htarget id hid).2 ((hcommitted.evolves.earlier hnow).overdue hoverdue)
 exact hcommitted.overdue (hmine.resolve_left List.not_mem_nil) hoverdue

/-- The changes of a row that take it out of the statuses `P`. -/
def Entry.leaves (P : InviteStatus → Bool) (id : ℕ) : Entry → Bool
  | .changed _ other before after => other == id && P before.status && !P after.status
  | .created _ => false

theorem leaves_once {P : InviteStatus → Bool} {log : List Entry} (id : ℕ)
  (hP : ∀ author other before after, Lawful (.changed author other before after) →
   P after.status = true → P before.status = true)
  (hlawful : ∀ entry ∈ log, Lawful entry) (hreplay : replay rows₀ log = some rows) :
  log.countP (Entry.leaves P id) ≤ 1 ∧
   (log.countP (Entry.leaves P id) ≠ 0 → ∃ row, rows[id]? = some row ∧ P row.status = false) := by
 induction log using List.reverseRecOn generalizing rows with
 | nil => simp
 | append_singleton log entry ih =>
  cases hbefore : replay rows₀ log with
  | none =>
   rw [replay, List.foldlM_append, ← replay.eq_1, hbefore] at hreplay
   cases hreplay
  | some rows' =>
   obtain ⟨hle, hleft⟩ := ih (fun e he => hlawful e (List.mem_append_left _ he)) hbefore
   have hentry : Lawful entry := hlawful entry (by simp)
   rw [replay_concat hbefore] at hreplay
   rw [List.countP_append, List.countP_singleton]
   cases entry with
   | created row =>
    obtain rfl := Option.some.inj hreplay
    refine ⟨by simpa [Entry.leaves] using hle, fun hne => ?_⟩
    obtain ⟨found, hfound, hout⟩ := hleft (by simpa [Entry.leaves] using hne)
    exact ⟨found, by rw [List.getElem?_append_left (List.getElem?_eq_some_iff.1 hfound).1, hfound], hout⟩
   | changed author other before after =>
    rw [replayEntry] at hreplay
    split at hreplay
    · next hrow =>
      obtain rfl := Option.some.inj hreplay
      have hlt : other < rows'.length := (List.getElem?_eq_some_iff.1 hrow).1
      by_cases hother : other = id
      · subst hother
        by_cases hin : P before.status = true
        · -- The row has not left yet.
          have hnone : log.countP (Entry.leaves P other) = 0 := by
           by_contra hne
           obtain ⟨found, hfound, hout⟩ := hleft hne
           obtain rfl := Option.some.inj (hrow.symm.trans hfound)
           rw [hin] at hout
           cases hout
          rw [hnone]
          refine ⟨by split <;> omega, fun hne => ⟨after, List.getElem?_set_self hlt, ?_⟩⟩
          by_contra hstays
          simp [Entry.leaves, hstays] at hne
        · have hout : P after.status = false := by
           by_contra hback
           exact hin (hP _ _ _ _ hentry (by simpa using hback))
          refine ⟨by simpa [Entry.leaves, hin] using hle, fun _ => ⟨after, List.getElem?_set_self hlt, hout⟩⟩
      · refine ⟨by simpa [Entry.leaves, hother] using hle, fun hne => ?_⟩
        obtain ⟨found, hfound, hout⟩ := hleft (by simpa [Entry.leaves, hother] using hne)
        exact ⟨found, by rw [List.getElem?_set_ne hother, hfound], hout⟩
    · cases hreplay

theorem awaiting_before (author : Option ℕ) (other : ℕ) (before after : Invite)
  (h : Lawful (.changed author other before after))
  (hafter : (after.status == .awaitingApproval) = true) :
  (before.status == .awaitingApproval) = true := by
 rw [beq_iff_eq] at hafter
 rcases h.1 with ⟨-, hsettled⟩ | ⟨-, hpending⟩
 · rw [hafter] at hsettled
   cases hsettled
 · rw [hafter] at hpending
   cases hpending

theorem outstanding_before (author : Option ℕ) (other : ℕ) (before after : Invite)
  (h : Lawful (.changed author other before after)) (_ : isOutstanding after.status = true) :
  isOutstanding before.status = true := by
 rcases h.1 with ⟨hopen, -⟩ | ⟨hawaiting, -⟩
 · exact hopen
 · exact (isOutstanding_iff _).2 (.inl hawaiting)

end Overdue

section Counting

open Finset

variable {σ σ' : State} {a : Step} {i id now N : ℕ} {rows rows' rows₀ : List Invite}
  {steps : List Step} {s : Sweep}

def load (rows : List Invite) (id : ℕ) : ℕ :=
  match rows[id]? with
  | none => 2
  | some row =>
    match row.status with
    | .awaitingApproval => 2
    | .pending => 1
    | _ => 0

def potential (N : ℕ) (rows : List Invite) : ℕ := ∑ id ∈ range N, load rows id

theorem load_le_two (rows : List Invite) (id : ℕ) : load rows id ≤ 2 := by
 unfold load
 split
 · exact le_refl _
 · split <;> omega

theorem load_settled {row : Invite} (h : rows[id]? = some row)
  (hsettled : isOutstanding row.status = false) :
  load rows id = 0 := by
 have hstatus : row.status ≠ .awaitingApproval ∧ row.status ≠ .pending := by
  rw [← Bool.not_eq_true, isOutstanding_iff] at hsettled
  tauto
 rw [load, h]
 split <;> simp_all

theorem load_outstanding {row : Invite} (h : rows[id]? = some row)
  (hopen : isOutstanding row.status = true) :
  1 ≤ load rows id := by
 rw [load, h]
 rcases (isOutstanding_iff _).1 hopen with hstatus | hstatus <;> simp [hstatus]

theorem load_changes {row row' : Invite} {clock : ℕ} (h : rows[id]? = some row)
  (h' : rows'[id]? = some row') (hchanges : Changes clock row row') :
  load rows' id + 1 ≤ load rows id := by
 rcases hchanges with ⟨hopen, hsettled⟩ | ⟨hawaiting, hpending, -⟩
 · rw [load_settled h' hsettled]
   exact load_outstanding h hopen
 · simp [load, h, h', hawaiting, hpending]

theorem Evolves.load_le (h : Evolves now rows rows') (id : ℕ) : load rows' id ≤ load rows id := by
 cases hrow : rows[id]? with
 | none =>
  have htwo : load rows id = 2 := by rw [load, hrow]
  rw [htwo]
  exact load_le_two rows' id
 | some row =>
  obtain ⟨row', hrow', hmoves⟩ := h.old id row hrow
  rcases hmoves with rfl | hchanges
  · rw [load, load, hrow, hrow']
  · have := load_changes hrow hrow' hchanges
    omega

theorem Evolves.potential_le (h : Evolves now rows rows') (N : ℕ) :
  potential N rows' ≤ potential N rows :=
 sum_le_sum fun id _ => h.load_le id

theorem Evolves.potential_drop (h : Evolves now rows rows') (hN : rows.length ≤ N) {target : List ℕ}
  (hnodup : target.Nodup) (htarget : ∀ id ∈ target, Overdue now rows id ∧ ¬ Overdue now rows' id) :
  potential N rows' + target.length ≤ potential N rows := by
 have hterm : ∀ id ∈ range N, load rows' id + (if id ∈ target then 1 else 0) ≤ load rows id := by
  intro id _
  split
  · next hid =>
    obtain ⟨before, after, hrow, hopen, hdate, hrow', hcleared⟩ :=
     h.cleared (htarget id hid).1 (htarget id hid).2
    have hchanges : Changes now before after := by
     rcases hcleared with hsettled | ⟨hawaiting, hpending, hlater⟩
     · exact .inl ⟨hopen, hsettled⟩
     · exact .inr ⟨hawaiting, hpending, .inr hlater⟩
    exact load_changes hrow hrow' hchanges
  · exact h.load_le id
 have hcount : ∑ id ∈ range N, (if id ∈ target then 1 else 0) = target.length := by
  have hfilter : (range N).filter (· ∈ target) = target.toFinset := by
   ext id
   simp only [mem_filter, mem_range, List.mem_toFinset, and_iff_right_iff_imp]
   intro hid
   obtain ⟨row, hrow, -⟩ := (htarget id hid).1
   exact (List.getElem?_eq_some_iff.1 hrow).1.trans_le hN
  rw [sum_boole, hfilter, List.toFinset_card_of_nodup hnodup]
  rfl
 calc potential N rows' + target.length
     = ∑ id ∈ range N, (load rows' id + (if id ∈ target then 1 else 0)) := by
       rw [sum_add_distrib, hcount, potential]
  _ ≤ potential N rows := sum_le_sum hterm

def Step.isOf (i : ℕ) : Step → Bool
  | .sweep j _ => j == i
  | _ => false

def ownSteps (i : ℕ) (steps : List Step) : ℕ := steps.countP (Step.isOf i)

def Phase.left (limit : ℕ) : Phase → ℕ
  | .ready => 2 * limit + 6
  | .reading _ rest => rest.length * (limit + 2) + 1
  | .updating _ _ todo rest => todo.length + 2 + rest.length * (limit + 2)
  | .drained _ => 0
  | .ended => 0

def Phase.base (rows : List Invite) (p : Phase) : List Invite := (p.batch?.map Batch.opened).getD rows

/-- Every batch so far spent `limit` of the changes that the rows had left. -/
def Paced (N own : ℕ) (rows : List Invite) (s : Sweep) : Prop :=
  ∃ spent, spent * s.limit + potential N (s.phase.base rows) ≤ 2 * N ∧
    own + s.phase.left s.limit ≤ (spent + 1) * (2 * s.limit + 6)

variable {act : Act}

theorem Advances.left_lt {limit : ℕ} {p p' : Phase} (h : Advances σ i limit p act p') :
  p'.left limit + 1 ≤ p.left limit := by
 cases h with
 | start => simp only [Phase.left, outstandingInviteStatuses, List.length_cons, List.length_nil]; omega
 | read hread =>
  have := (isRead_iff hread).2.2.1
  simp only [Phase.left, List.length_cons, Nat.add_mul]
  omega
 | stop | meet _ | finish | failReading | failUpdating =>
  simp only [Phase.left, List.length_cons, List.length_nil]; omega

theorem ownSteps_other (h : ∀ act, a ≠ .sweep i act) :
  ownSteps i (steps ++ [a]) = ownSteps i steps := by
 have hnot : a.isOf i = false := by
  cases a with
  | sweep j act =>
   have hj : j ≠ i := fun heq => h act (heq ▸ rfl)
   simpa [Step.isOf] using hj
  | tick | rival _ | create _ | launch _ => rfl
 rw [ownSteps, List.countP_append, List.countP_singleton, hnot]
 rfl

theorem ownSteps_own : ownSteps i (steps ++ [.sweep i act]) = ownSteps i steps + 1 := by
 rw [ownSteps, List.countP_append, List.countP_singleton]
 simp [Step.isOf, ownSteps]

theorem ownSteps_fresh {clock : ℕ} (h : run (initial clock rows₀) steps = some σ)
  (hi : σ.sweeps.length ≤ i) :
  ownSteps i steps = 0 := by
 induction steps using List.reverseRecOn generalizing σ with
 | nil => rfl
 | append_singleton steps a ih =>
  obtain ⟨σ', hrun, hstep⟩ := run_concat h
  rcases step_cases (inv_run hrun) hstep with ⟨hnobody, houtside⟩ | ⟨limit, -, rfl, rfl⟩ |
   ⟨j, s, act, phase, rfl, hs, -, rfl⟩ | ⟨j, s, b, rfl, hs, hphase, rfl⟩
  · rw [ownSteps_other (hnobody i)]
    exact ih hrun (houtside.sweeps ▸ hi)
  · rw [ownSteps_other (by simp)]
    simp only [List.length_append, List.length_singleton] at hi
    exact ih hrun (by omega)
  · have hj : j < σ'.sweeps.length := (List.getElem?_eq_some_iff.1 hs).1
    simp only [setPhase, setSweep, List.length_set] at hi
    rw [ownSteps_other (by intro act heq; injection heq; omega)]
    exact ih hrun hi
  · have hj : j < σ'.sweeps.length := (List.getElem?_eq_some_iff.1 hs).1
    have hheld := (inv_run hrun).held j s b hs (by rw [hphase]; rfl)
    have hkept : (b.written.foldl (commitWrite j) σ').sweeps = σ'.sweeps :=
     (commitWrites_written j b.written σ' hheld.nodup hheld.rows).1.sweeps
    rw [commitBatch, setSweep, hkept, List.length_set] at hi
    rw [ownSteps_other (by intro act heq; injection heq; omega)]
    exact ih hrun hi

theorem potential_le (N : ℕ) (rows : List Invite) : potential N rows ≤ 2 * N := by
 calc potential N rows ≤ ∑ _id ∈ range N, 2 := sum_le_sum fun id _ => load_le_two rows id
  _ = 2 * N := by simp [Nat.mul_comm]

theorem Paced.other {clock own : ℕ} (h : Paced N own rows s) (hrows : Evolves clock rows rows') :
  Paced N own rows' s := by
 obtain ⟨spent, hspent, hown⟩ := h
 refine ⟨spent, ?_, hown⟩
 cases hb : s.phase.batch? with
 | none =>
  have hdrop := hrows.potential_le N
  simp only [Phase.base, hb, Option.map_none, Option.getD_none] at hspent ⊢
  omega
 | some b => simpa [Phase.base, hb] using hspent

theorem Advances.base {limit : ℕ} {p p' : Phase} (h : Advances σ i limit p act p')
  (hopened : ∀ b, p.batch? = some b → Evolves b.now b.opened σ.rows) :
  potential N (p'.base σ.rows) ≤ potential N (p.base σ.rows) := by
 cases h with
 | start | stop | read _ | finish => exact le_refl _
 | @meet b source rest id todo _ =>
  have hsame : (b.meet σ.rows source id).opened = b.opened := (meet_fields b σ.rows source id).2
  simp [Phase.base, Phase.batch?, hsame]
 | failReading | failUpdating => exact (hopened _ rfl).potential_le N

theorem Paced.advance {own : ℕ} {phase : Phase} (h : Paced N own σ.rows s)
  (hsound : Sound σ.clock σ.rows s) (hadv : Advances σ i s.limit s.phase act phase) :
  Paced N (own + 1) σ.rows { s with phase := phase } := by
 obtain ⟨spent, hspent, hown⟩ := h
 have hleft := hadv.left_lt
 have hbase := hadv.base (N := N) fun b hb => (hsound.opened b hb).2
 exact ⟨spent, by simpa using (Nat.add_le_add_left hbase _).trans hspent, by simp only; omega⟩

theorem Paced.commit {own : ℕ} {b : Batch} {t : Sweep} (h : Paced N own σ.rows s)
  (hsound : Sound σ.clock σ.rows s) (hphase : s.phase = .reading b [])
  (hcommitted : Committed σ σ' i b) (hlimit : t.limit = s.limit)
  (ht : t.phase = if b.drained then .drained b.now else .ready) (hN : σ.rows.length ≤ N) :
  Paced N (own + 1) σ'.rows t := by
 obtain ⟨spent, hspent, hown⟩ := h
 obtain ⟨hnow, hopened⟩ := hsound.opened b (by rw [hphase]; rfl)
 have hevolves : Evolves b.now b.opened σ'.rows := hopened.trans (hcommitted.evolves.earlier hnow)
 simp only [hphase, Phase.base, Phase.batch?, Option.map_some, Option.getD_some] at hspent
 simp only [hphase, Phase.left, List.length_nil, Nat.zero_mul, Nat.zero_add] at hown
 by_cases hdrained : b.drained = true
 · refine ⟨spent, ?_, ?_⟩
   · have hdrop := hevolves.potential_le N
     simp only [ht, if_pos hdrained, Phase.base, Phase.batch?, Option.map_none, Option.getD_none, hlimit]
     omega
   · rw [ht, if_pos hdrained, hlimit, Phase.left]
     exact hown
 · refine ⟨spent + 1, ?_, ?_⟩
   · obtain ⟨target, hnodup, hlength, htarget⟩ := hsound.takes hphase hcommitted (by simpa using hdrained)
     have hdrop := hevolves.potential_drop (hopened.grows.trans hN) hnodup htarget
     simp only [ht, if_neg hdrained, Phase.base, Phase.batch?, Option.map_none, Option.getD_none, hlimit]
     rw [Nat.add_one_mul]
     omega
   · rw [ht, if_neg hdrained, hlimit, Phase.left, Nat.add_one_mul (spent + 1)]
     omega

theorem paced_run {clock : ℕ} (h : run (initial clock rows₀) steps = some σ)
  (hN : σ.rows.length ≤ N) (hs : σ.sweeps[i]? = some s) : Paced N (ownSteps i steps) σ.rows s := by
 induction steps using List.reverseRecOn generalizing σ s with
 | nil =>
  obtain rfl := Option.some.inj h
  simp [initial] at hs
 | append_singleton steps a ih =>
  obtain ⟨σ', hrun, hstep⟩ := run_concat h
  have hinv := inv_run hrun
  obtain ⟨-, hrows⟩ := step_evolves hinv hstep
  have hN' : σ'.rows.length ≤ N := hrows.grows.trans hN
  cases step_seen hinv hstep hs with
  | other hown ht =>
   rw [ownSteps_other hown]
   exact (ih hrun hN' ht).other hrows
  | launched limit hown hfresh _ heq =>
   rw [ownSteps_other hown, ownSteps_fresh hrun hfresh, heq]
   refine ⟨0, ?_, by simp [Phase.left]⟩
   rw [Nat.zero_mul, Nat.zero_add]
   exact potential_le N _
  | advanced s' act phase hown hs' hadv heq hsame hclock =>
   rw [hown, ownSteps_own, heq, hsame]
   exact (ih hrun hN' hs').advance (sound_run hrun i s' hs') hadv
  | committed s' b hown hs' hphase hlimit hnext hcommitted =>
   rw [hown, ownSteps_own]
   exact (ih hrun hN' hs').commit (sound_run hrun i s' hs') hphase hcommitted hlimit hnext hN'

end Counting

section Result

variable {σ : State} {i clock : ℕ} {rows₀ : List Invite} {steps : List Step} {s : Sweep}

theorem isRead_exists (rows : List Invite) (b : Batch) (source : InviteStatus) (limit : ℕ) :
  ∃ ids, isRead rows b source limit ids = true := by
 have hall : ∀ id ∈ ((List.range rows.length).filter (guarded rows b source)).take limit,
  guarded rows b source id = true :=
  fun id hid => (List.mem_filter.1 (List.mem_of_mem_take hid)).2
 refine ⟨((List.range rows.length).filter (guarded rows b source)).take limit, ?_⟩
 simp only [isRead, Bool.and_eq_true, decide_eq_true_eq, Bool.or_eq_true, List.all_eq_true]
 refine ⟨⟨⟨?_, hall⟩, List.length_take_le _ _⟩, ?_⟩
 · exact (List.nodup_range.filter _).sublist (List.take_sublist _ _)
 · by_cases hshort : ((List.range rows.length).filter (guarded rows b source)).length ≤ limit
   · right
     intro id hid
     rw [List.take_of_length_le hshort]
     cases hguard : guarded rows b source id with
     | false => exact .inl rfl
     | true =>
      right
      simpa [hguard] using hid
   · left
     rw [List.length_take]
     omega

def Phase.isOver : Phase → Bool
  | .drained _ => true
  | .ended => true
  | _ => false

def Waits (σ : State) (i : ℕ) (s : Sweep) : Prop :=
  ∃ b source id todo rest, s.phase = .updating b source (id :: todo) rest ∧ unlockedFor σ i id = false

def Able (σ : State) (i : ℕ) : Prop :=
  ∃ act σ', act ≠ .fail ∧ act ≠ .stop ∧ step σ (.sweep i act) = some σ'

theorem able_or_waits (hs : σ.sweeps[i]? = some s) :
  s.phase.isOver = true ∨ Able σ i ∨ Waits σ i s := by
 have hable : ∀ act, act ≠ .fail → act ≠ .stop → (sweepStep σ i s act).isSome = true → Able σ i := by
  intro act hfail hstop h
  obtain ⟨σ', hσ'⟩ := Option.isSome_iff_exists.1 h
  exact ⟨act, σ', hfail, hstop, by simp only [step, hs, hσ']⟩
 cases hphase : s.phase with
 | drained _ | ended => exact .inl rfl
 | ready => exact .inr (.inl (hable .start (by simp) (by simp) (by simp [sweepStep, hphase])))
 | reading b rest =>
  right
  left
  cases rest with
  | nil => exact hable .commit (by simp) (by simp) (by simp [sweepStep, hphase])
  | cons source rest =>
   obtain ⟨ids, hread⟩ := isRead_exists σ.rows b source s.limit
   exact hable (.read ids) (by simp) (by simp) (by simp [sweepStep, hphase, hread])
 | updating b source todo rest =>
  right
  cases todo with
  | nil => exact .inl (hable .update (by simp) (by simp) (by simp [sweepStep, hphase]))
  | cons id todo =>
   cases hfree : unlockedFor σ i id with
   | false => exact .inr ⟨b, source, id, todo, rest, hphase, hfree⟩
   | true => exact .inl (hable .update (by simp) (by simp) (by simp [sweepStep, hphase, hfree]))

structure Drains (rows₀ : List Invite) (steps : List Step) (σ : State) : Prop where
  /-- A drained run leaves nothing overdue at its last clock. -/
  drained : ∀ (i : ℕ) (s : Sweep) (now : ℕ), σ.sweeps[i]? = some s → s.phase = .drained now →
    ∀ row ∈ σ.rows, isOutstanding row.status = true → now < row.expiresAt
  /-- A run counts and announces the rows that it moved. -/
  announced : ∀ (i : ℕ) (s : Sweep), σ.sweeps[i]? = some s →
    s.expired = (sweptBy i σ.log).length ∧ s.events = (sweptBy i σ.log).map expiredEvent
  /-- No row is moved by two runs, or twice by one. -/
  once : (sweptIds σ.log).Nodup
  /-- Each change starts from the version committed before it. -/
  recorded : replay rows₀ σ.log = some σ.rows
  lawful : ∀ entry ∈ σ.log, Lawful entry
  /-- A batch that does not end its run clears `limit` rows. -/
  progress : ∀ (i : ℕ) (s : Sweep) (b : Batch) (σ' : State), σ.sweeps[i]? = some s →
   s.phase = .reading b [] →
    b.drained = false → step σ (.sweep i .commit) = some σ' → ∃ target : List ℕ, target.Nodup ∧
     s.limit ≤ target.length ∧
      ∀ id ∈ target, ∃ before after, b.opened[id]? = some before ∧ isOutstanding before.status = true ∧
        before.expiresAt ≤ b.now ∧ σ'.rows[id]? = some after ∧ Cleared b.now before after
  /-- A row leaves its approval at most once, and is settled at most once. -/
  leaves : ∀ id, σ.log.countP (Entry.leaves (· == .awaitingApproval) id) ≤ 1 ∧
    σ.log.countP (Entry.leaves isOutstanding id) ≤ 1
  /-- A run over finitely many rows has finitely many steps to take, -/
  bounded : ∀ (i : ℕ) (s : Sweep), σ.sweeps[i]? = some s →
    ownSteps i steps ≤ (2 * σ.rows.length / s.limit + 1) * (2 * s.limit + 6)
  /-- and takes them unless it waits for another. -/
  able : ∀ (i : ℕ) (s : Sweep), σ.sweeps[i]? = some s → s.phase.isOver = true ∨ Able σ i ∨ Waits σ i s

theorem sweeps_drain (h : run (initial clock rows₀) steps = some σ) : Drains rows₀ steps σ := by
 have hinv := inv_run h
 refine ⟨fun i s now hs hphase row hrow hopen => ?_, fun i s hs => ?_, hinv.once, hinv.recorded,
  hinv.lawful,
  fun i s b σ' hs hphase hshort hstep => ?_, fun id => ?_, fun i s hs => ?_,
   fun i s hs => able_or_waits hs⟩
 · obtain ⟨id, hid⟩ := List.mem_iff_getElem?.1 hrow
   have hstage := (sound_run h i s hs).stage
   rw [hphase] at hstage
   cases hstage with
   | drained _ hclear =>
    by_contra hdate
    exact hclear id ⟨row, hid, hopen, not_lt.1 hdate⟩
 · obtain ⟨hevents, hcount⟩ := hinv.events i s hs
   exact ⟨by rw [hcount, hevents, List.length_map], hevents⟩
 · have hsound := sound_run h i s hs
   have hcommitted : Committed σ (commitBatch σ i s b) i b :=
    commit_committed (hinv.held i s b hs (by rw [hphase]; rfl))
   obtain rfl : commitBatch σ i s b = σ' := by
    simpa only [step, hs, sweepStep, hphase, Option.some.injEq] using hstep
   obtain ⟨hnow, hopened⟩ := hsound.opened b (by rw [hphase]; rfl)
   obtain ⟨target, hnodup, hlimit, htarget⟩ := hsound.takes hphase hcommitted hshort
   refine ⟨target, hnodup, hlimit, fun id hid => ?_⟩
   exact (hopened.trans (hcommitted.evolves.earlier hnow)).cleared (htarget id hid).1 (htarget id hid).2
 · exact ⟨(leaves_once id awaiting_before hinv.lawful hinv.recorded).1,
    (leaves_once id outstanding_before hinv.lawful hinv.recorded).1⟩
 · obtain ⟨spent, hspent, hown⟩ := paced_run h (le_refl σ.rows.length) hs
   have hle : spent ≤ 2 * σ.rows.length / s.limit :=
    (Nat.le_div_iff_mul_le (sound_run h i s hs).limit).2 (by omega)
   calc ownSteps i steps ≤ (spent + 1) * (2 * s.limit + 6) := by omega
    _ ≤ (2 * σ.rows.length / s.limit + 1) * (2 * s.limit + 6) := Nat.mul_le_mul_right _ (by omega)

def approvedMeanwhile : List Step :=
  [.launch 1, .sweep 0 .start, .sweep 0 (.read [1]), .rival [(1, .approve 5 (some 9))], .sweep 0 .update,
    .sweep 0 .update, .sweep 0 (.read [0]), .sweep 0 .update, .sweep 0 .update, .sweep 0 .commit,
     .sweep 0 .start,
    .sweep 0 (.read []), .sweep 0 .update, .sweep 0 (.read []), .sweep 0 .update, .sweep 0 .commit]

def overdueInvites : List Invite :=
    [⟨.pending, 3, none, none, none⟩, ⟨.awaitingApproval, 4, none, none, none⟩]

theorem approvedMeanwhile_drains :
    ((run (initial 5 overdueInvites) approvedMeanwhile).map fun σ => σ.sweeps.map fun s =>
     (s.phase, s.expired)) =
        some [(.drained 5, 1)] ∧
      ∃ σ, run (initial 5 overdueInvites) approvedMeanwhile = some σ ∧
       Drains overdueInvites approvedMeanwhile σ := by
 have hruns : (run (initial 5 overdueInvites) approvedMeanwhile).isSome = true := by decide +kernel
 have hsome : run (initial 5 overdueInvites) approvedMeanwhile = some _ := (Option.some_get hruns).symm
 exact ⟨by decide +kernel, _, hsome, sweeps_drain hsome⟩

end Result

end BoardGamesEmpire.InviteSweep
