import BoardGamesEmpire.InviteSweep
import BoardGamesEmpire.ReadCommitted

set_option autoImplicit false

/-!
# Invites under concurrent sweeps

What one step may do to a row, and that a run commits over the versions its
guards met.
-/
namespace BoardGamesEmpire.InviteSweep

section Rows

variable {clock now : ℕ} {rows rows' rows'' : List Invite} {id : ℕ}

/-- What a write makes of a row: it is settled, or approved with its date or
    one that lies ahead. -/
def Changes (clock : ℕ) (row row' : Invite) : Prop :=
  (isOutstanding row.status = true ∧ isOutstanding row'.status = false) ∨
    (row.status = .awaitingApproval ∧ row'.status = .pending ∧
      (row'.expiresAt = row.expiresAt ∨ clock < row'.expiresAt))

def Moves (clock : ℕ) (row row' : Invite) : Prop := row' = row ∨ Changes clock row row'

structure Evolves (clock : ℕ) (rows rows' : List Invite) : Prop where
  grows : rows.length ≤ rows'.length
  old : ∀ (id : ℕ) (row : Invite), rows[id]? = some row → ∃ row', rows'[id]? = some row' ∧
   Moves clock row row'
  new : ∀ (id : ℕ) (row' : Invite), rows'[id]? = some row' → rows.length ≤ id →
   isOutstanding row'.status = true → clock < row'.expiresAt

theorem isOutstanding_iff (status : InviteStatus) :
  isOutstanding status = true ↔ status = .awaitingApproval ∨ status = .pending := by
 simp [isOutstanding, outstandingInviteStatuses]

theorem Moves.trans {row row' row'' : Invite} (h : Moves clock row row')
  (h' : Moves clock row' row'') :
  Moves clock row row'' := by
 unfold Moves at *
 rcases h with rfl | ⟨hopen, hsettled⟩ | ⟨hawaiting, hpending, hdate⟩
 · exact h'
 · right
   left
   rcases h' with rfl | ⟨hopen', -⟩ | ⟨hawaiting', -, -⟩
   · exact ⟨hopen, hsettled⟩
   · rw [hsettled] at hopen'
     cases hopen'
   · rw [hawaiting'] at hsettled
     cases hsettled
 · have hopen : isOutstanding row.status = true := (isOutstanding_iff _).2 (.inl hawaiting)
   rcases h' with rfl | ⟨-, hsettled'⟩ | ⟨hawaiting', -, -⟩
   · exact .inr (.inr ⟨hawaiting, hpending, hdate⟩)
   · exact .inr (.inl ⟨hopen, hsettled'⟩)
   · rw [hawaiting'] at hpending
     cases hpending

theorem Evolves.refl (clock : ℕ) (rows : List Invite) : Evolves clock rows rows :=
 ⟨le_refl _, fun _ row h => ⟨row, h, .inl rfl⟩, fun id row' h hle => by
  rw [List.getElem?_eq_none hle] at h
  cases h⟩

theorem Evolves.trans (h : Evolves clock rows rows') (h' : Evolves clock rows' rows'') :
  Evolves clock rows rows'' := by
 refine ⟨h.grows.trans h'.grows, fun id row hrow => ?_, fun id row'' hrow'' hle hopen => ?_⟩
 · obtain ⟨row', hrow', hmoves⟩ := h.old id row hrow
   obtain ⟨row'', hrow'', hmoves'⟩ := h'.old id row' hrow'
   exact ⟨row'', hrow'', hmoves.trans hmoves'⟩
 · by_cases hlt : id < rows'.length
   · obtain ⟨found, hfound, hmoves⟩ := h'.old id _ (List.getElem?_eq_getElem hlt)
     obtain rfl := Option.some.inj (hfound.symm.trans hrow'')
     have hnew := h.new id _ (List.getElem?_eq_getElem hlt) hle
     rcases hmoves with heq | ⟨-, hsettled⟩ | ⟨hawaiting, -, hdate | hdate⟩
     · rw [heq] at hopen ⊢
       exact hnew hopen
     · rw [hsettled] at hopen
       cases hopen
     · rw [hdate]
       exact hnew ((isOutstanding_iff _).2 (.inl hawaiting))
     · exact hdate
   · exact h'.new id row'' hrow'' (not_lt.1 hlt) hopen

theorem Evolves.earlier (h : Evolves clock rows rows') (hle : now ≤ clock) :
  Evolves now rows rows' := by
 refine ⟨h.grows, fun id row hrow => ?_, fun id row' hrow' hold hopen =>
  hle.trans_lt (h.new id row' hrow' hold hopen)⟩
 obtain ⟨row', hrow', hmoves⟩ := h.old id row hrow
 refine ⟨row', hrow', hmoves.imp_right (Or.imp_right fun happroved => ⟨happroved.1, happroved.2.1, ?_⟩)⟩
 exact happroved.2.2.imp_right fun hdate => hle.trans_lt hdate

theorem evolves_set {row after : Invite} (hrow : rows[id]? = some row)
  (hmoves : Moves clock row after) :
  Evolves clock rows (rows.set id after) := by
 have hlt : id < rows.length := (List.getElem?_eq_some_iff.1 hrow).1
 refine ⟨by simp, fun other found hfound => ?_, fun other row' hrow' hle => ?_⟩
 · by_cases hother : id = other
   · subst hother
     obtain rfl := Option.some.inj (hrow.symm.trans hfound)
     exact ⟨after, List.getElem?_set_self hlt, hmoves⟩
   · exact ⟨found, by rw [List.getElem?_set_ne hother, hfound], .inl rfl⟩
 · rw [List.getElem?_eq_none (by simpa using hle)] at hrow'
   cases hrow'

theorem evolves_concat {row : Invite} (h : clock < row.expiresAt) :
  Evolves clock rows (rows ++ [row]) := by
 refine ⟨by simp, fun id found hfound => ?_, fun id row' hrow' hle _ => ?_⟩
 · have hlt : id < rows.length := (List.getElem?_eq_some_iff.1 hfound).1
   exact ⟨found, by rw [List.getElem?_append_left hlt, hfound], .inl rfl⟩
 · rw [List.getElem?_append_right hle, List.getElem?_singleton] at hrow'
   split at hrow'
   · obtain rfl := Option.some.inj hrow'
     exact h
   · cases hrow'

def OverdueIn (source : InviteStatus) (now : ℕ) (rows : List Invite) (id : ℕ) : Prop :=
  ∃ row, rows[id]? = some row ∧ row.status = source ∧ row.expiresAt ≤ now

def Overdue (now : ℕ) (rows : List Invite) (id : ℕ) : Prop :=
  ∃ row, rows[id]? = some row ∧ isOutstanding row.status = true ∧ row.expiresAt ≤ now

theorem overdue_iff : Overdue now rows id ↔
  OverdueIn .awaitingApproval now rows id ∨ OverdueIn .pending now rows id := by
 simp only [Overdue, OverdueIn, isOutstanding_iff]
 constructor
 · rintro ⟨row, hrow, hawaiting | hpending, hdate⟩
   · exact .inl ⟨row, hrow, hawaiting, hdate⟩
   · exact .inr ⟨row, hrow, hpending, hdate⟩
 · rintro (⟨row, hrow, hawaiting, hdate⟩ | ⟨row, hrow, hpending, hdate⟩)
   · exact ⟨row, hrow, .inl hawaiting, hdate⟩
   · exact ⟨row, hrow, .inr hpending, hdate⟩

theorem Evolves.awaiting (h : Evolves now rows rows')
  (hafter : OverdueIn .awaitingApproval now rows' id) :
  OverdueIn .awaitingApproval now rows id := by
 obtain ⟨row', hrow', hstatus, hdate⟩ := hafter
 have hopen : isOutstanding row'.status = true := (isOutstanding_iff _).2 (.inl hstatus)
 by_cases hlt : id < rows.length
 · obtain ⟨found, hfound, hmoves⟩ := h.old id _ (List.getElem?_eq_getElem hlt)
   obtain rfl := Option.some.inj (hfound.symm.trans hrow')
   rcases hmoves with heq | ⟨-, hsettled⟩ | ⟨-, hpending, -⟩
   · exact ⟨_, List.getElem?_eq_getElem hlt, heq ▸ hstatus, heq ▸ hdate⟩
   · rw [hsettled] at hopen
     cases hopen
   · rw [hpending] at hstatus
     cases hstatus
 · have := h.new id row' hrow' (not_lt.1 hlt) hopen
   omega

theorem Evolves.pending (h : Evolves now rows rows') (hafter : OverdueIn .pending now rows' id) :
  OverdueIn .pending now rows id ∨ (OverdueIn .awaitingApproval now rows id ∧ rows'[id]? ≠ rows[id]?) := by
 obtain ⟨row', hrow', hstatus, hdate⟩ := hafter
 have hopen : isOutstanding row'.status = true := (isOutstanding_iff _).2 (.inr hstatus)
 by_cases hlt : id < rows.length
 · have hrow := List.getElem?_eq_getElem hlt
   obtain ⟨found, hfound, hmoves⟩ := h.old id _ hrow
   obtain rfl := Option.some.inj (hfound.symm.trans hrow')
   rcases hmoves with heq | ⟨-, hsettled⟩ | ⟨hawaiting, -, hsame | hlater⟩
   · exact .inl ⟨_, hrow, heq ▸ hstatus, heq ▸ hdate⟩
   · rw [hsettled] at hopen
     cases hopen
   · refine .inr ⟨⟨_, hrow, hawaiting, hsame ▸ hdate⟩, fun heq => ?_⟩
     rw [hrow', hrow] at heq
     obtain rfl := Option.some.inj heq
     rw [hawaiting] at hstatus
     cases hstatus
   · omega
 · have := h.new id row' hrow' (not_lt.1 hlt) hopen
   omega

theorem Evolves.overdue (h : Evolves now rows rows') (hafter : Overdue now rows' id) :
  Overdue now rows id := by
 rw [overdue_iff] at hafter ⊢
 rcases hafter with hawaiting | hpending
 · exact .inl (h.awaiting hawaiting)
 · exact (h.pending hpending).elim .inr fun hboth => .inl hboth.1

theorem apply_changes {row after : Invite} {change : RivalChange}
  (h : change.apply clock row = some after) :
  Changes clock row after := by
 cases change with
 | accept respondedAt inviteeId =>
  rw [RivalChange.apply] at h
  split at h
  · next hpending =>
    obtain rfl := Option.some.inj h
    exact .inl ⟨(isOutstanding_iff _).2 (.inr hpending), rfl⟩
  · cases h
 | decline _ _ | withdraw _ | revoke _ =>
  rw [RivalChange.apply] at h
  split at h
  · next hopen =>
    obtain rfl := Option.some.inj h
    exact .inl ⟨hopen, rfl⟩
  · cases h
 | approve approvedAt expiresAt =>
  rw [RivalChange.apply] at h
  split at h
  · next happroves =>
    obtain rfl := Option.some.inj h
    refine .inr ⟨happroves.1, rfl, ?_⟩
    cases expiresAt with
    | none => exact .inl rfl
    | some date => exact .inr (by simpa using happroves.2)
  · cases h
 | expire now =>
  rw [RivalChange.apply] at h
  split at h
  · next hexpires =>
    obtain rfl := Option.some.inj h
    exact .inl ⟨hexpires.1, rfl⟩
  · cases h

end Rows

section Writes

variable {σ : State} {i id : ℕ} {rows₀ : List Invite}

def replayEntry (rows : List Invite) : Entry → Option (List Invite)
  | .changed _ id before after => if rows[id]? = some before then some (rows.set id after) else none
  | .created row => some (rows ++ [row])

def replay (rows : List Invite) (log : List Entry) : Option (List Invite) := log.foldlM replayEntry rows

theorem replay_concat {log : List Entry} {rows : List Invite} (h : replay rows₀ log = some rows)
  (entry : Entry) :
  replay rows₀ (log ++ [entry]) = replayEntry rows entry := by
 rw [replay, List.foldlM_append, ← replay.eq_1, h]
 simp

/-- Nobody changes a settled row, a row is approved while it awaits that, and a
    run only expires the row it changes. -/
def Lawful : Entry → Prop
  | .changed author _ before after =>
    ((isOutstanding before.status = true ∧ isOutstanding after.status = false) ∨
      (before.status = .awaitingApproval ∧ after.status = .pending)) ∧
      (author.isSome = true → after = expiredRow before)
  | .created _ => True

def Entry.swept : Entry → Option (ℕ × ℕ × Invite)
  | .changed (some i) id before _ => some (i, id, before)
  | .changed none _ _ _ => none
  | .created _ => none

def swept (log : List Entry) : List (ℕ × ℕ × Invite) := log.filterMap Entry.swept

def sweptBy (i : ℕ) (log : List Entry) : List (ℕ × Invite) :=
  ((swept log).filter fun change => change.1 == i).map (·.2)

def sweptIds (log : List Entry) : List ℕ := (swept log).map (·.2.1)

structure Written (author : Option ℕ) (σ σ' : State) (entries : List Entry) : Prop where
  sweeps : σ'.sweeps = σ.sweeps
  clock : σ'.clock = σ.clock
  log : σ'.log = σ.log ++ entries
  lawful : ∀ entry ∈ entries, Lawful entry ∧ ∃ id before after, entry = .changed author id before after
  evolves : Evolves σ.clock σ.rows σ'.rows
  replays : ∀ rows₀, replay rows₀ σ.log = some σ.rows → replay rows₀ σ'.log = some σ'.rows

theorem Written.refl (author : Option ℕ) (σ : State) : Written author σ σ [] :=
 ⟨rfl, rfl, (List.append_nil _).symm, fun _ h => absurd h List.not_mem_nil, Evolves.refl _ _, fun _ => id⟩

theorem Written.trans {author : Option ℕ} {σ' σ'' : State} {entries entries' : List Entry}
  (h : Written author σ σ' entries) (h' : Written author σ' σ'' entries') :
  Written author σ σ'' (entries ++ entries') := by
 refine ⟨h'.sweeps.trans h.sweeps, h'.clock.trans h.clock, by rw [h'.log, h.log, List.append_assoc],
  fun entry hentry => ?_, h.evolves.trans (h.clock ▸ h'.evolves),
   fun rows₀ hrows => h'.replays _ (h.replays _ hrows)⟩
 exact (List.mem_append.1 hentry).elim (h.lawful entry) (h'.lawful entry)

theorem write_written {author : Option ℕ} {before after : Invite} (hrow : σ.rows[id]? = some before)
  (hchanges : Changes σ.clock before after)
  (hswept : author.isSome = true → after = expiredRow before) :
  Written author σ (write σ author id before after) [.changed author id before after] := by
 refine ⟨rfl, rfl, rfl, fun entry hentry => ?_, evolves_set hrow (.inr hchanges), fun rows₀ hrows => ?_⟩
 · rw [List.mem_singleton.1 hentry]
   exact ⟨⟨hchanges.imp_right fun happroved => ⟨happroved.1, happroved.2.1⟩, hswept⟩, id, before,
    after, rfl⟩
 · rw [write, replay_concat hrows, replayEntry, if_pos hrow]

theorem rivalWrites_written (changes : List (ℕ × RivalChange)) (σ : State) :
  (∃ entries, Written none σ (changes.foldl rivalWrite σ) entries) ∧
   ∀ id ∉ changes.map Prod.fst, (changes.foldl rivalWrite σ).rows[id]? = σ.rows[id]? := by
 induction changes generalizing σ with
 | nil => exact ⟨⟨[], Written.refl none σ⟩, fun _ _ => rfl⟩
 | cons change rest ih =>
  have hone : (∃ entries, Written none σ (rivalWrite σ change) entries) ∧
    ∀ id, id ≠ change.1 → (rivalWrite σ change).rows[id]? = σ.rows[id]? := by
   unfold rivalWrite
   split
   · exact ⟨⟨[], Written.refl none σ⟩, fun _ _ => rfl⟩
   · next row hrow =>
     split
     · exact ⟨⟨[], Written.refl none σ⟩, fun _ _ => rfl⟩
     · next after happly =>
       refine ⟨⟨_, write_written hrow (apply_changes happly) (by simp)⟩, fun id hid => ?_⟩
       exact List.getElem?_set_ne (Ne.symm hid)
  obtain ⟨⟨entries, hwritten⟩, hothers⟩ := hone
  obtain ⟨⟨entries', hwritten'⟩, hothers'⟩ := ih (rivalWrite σ change)
  refine ⟨⟨_, hwritten.trans hwritten'⟩, fun id hid => ?_⟩
  rw [List.map_cons, List.mem_cons, not_or] at hid
  rw [List.foldl_cons, hothers' id hid.2, hothers id hid.1]

theorem commitWrites_written (i : ℕ) (written : List (ℕ × Invite)) (σ : State)
  (hnodup : (written.map Prod.fst).Nodup)
  (hrows : ∀ w ∈ written, σ.rows[w.1]? = some w.2 ∧ isOutstanding w.2.status = true) :
  Written (some i) σ (written.foldl (commitWrite i) σ)
    (written.map fun w => .changed (some i) w.1 w.2 (expiredRow w.2)) ∧
   (∀ id ∉ written.map Prod.fst, (written.foldl (commitWrite i) σ).rows[id]? = σ.rows[id]?) ∧
   ∀ w ∈ written, (written.foldl (commitWrite i) σ).rows[w.1]? = some (expiredRow w.2) := by
 induction written generalizing σ with
 | nil => exact ⟨Written.refl (some i) σ, fun _ _ => rfl, fun w hw => absurd hw List.not_mem_nil⟩
 | cons w rest ih =>
  rw [List.map_cons, List.nodup_cons] at hnodup
  obtain ⟨hrow, hopen⟩ := hrows w List.mem_cons_self
  have hone : commitWrite i σ w = write σ (some i) w.1 w.2 (expiredRow w.2) := by
   rw [commitWrite, hrow]
  have hlater : ∀ id, id ≠ w.1 → (commitWrite i σ w).rows[id]? = σ.rows[id]? := by
   intro id hid
   rw [hone]
   exact List.getElem?_set_ne (Ne.symm hid)
  have hfirst : (commitWrite i σ w).rows[w.1]? = some (expiredRow w.2) := by
   rw [hone]
   exact List.getElem?_set_self (List.getElem?_eq_some_iff.1 hrow).1
  obtain ⟨hwritten, hothers, hmoved⟩ := ih (commitWrite i σ w) hnodup.2 fun v hv => by
   rw [hlater v.1 fun heq => hnodup.1 (heq ▸ List.mem_map_of_mem hv)]
   exact hrows v (List.mem_cons_of_mem _ hv)
  refine ⟨?_, fun id hid => ?_, fun v hv => ?_⟩
  · have hchanges : Changes σ.clock w.2 (expiredRow w.2) := .inl ⟨hopen, rfl⟩
    have hthis : Written (some i) σ (write σ (some i) w.1 w.2 (expiredRow w.2))
      [.changed (some i) w.1 w.2 (expiredRow w.2)] := write_written hrow hchanges fun _ => rfl
    rw [← hone] at hthis
    exact hthis.trans hwritten
  · rw [List.map_cons, List.mem_cons, not_or] at hid
    rw [List.foldl_cons, hothers id hid.2, hlater id hid.1]
  · rw [List.foldl_cons]
    rcases List.mem_cons.1 hv with rfl | hin
    · rw [hothers v.1 hnodup.1]
      exact hfirst
    · exact hmoved v hin

end Writes

section Invariant

variable {σ σ' : State} {i : ℕ} {s : Sweep} {act : Act} {rows₀ : List Invite}

inductive Advances (σ : State) (i limit : ℕ) : Phase → Act → Phase → Prop where
  | start : Advances σ i limit .ready .start (.reading ⟨σ.clock, σ.rows, true, []⟩ outstandingInviteStatuses)
  | stop : Advances σ i limit .ready .stop .ended
  | read {b : Batch} {source : InviteStatus} {rest : List InviteStatus} {ids : List ℕ}
      (h : isRead σ.rows b source limit ids = true) :
       Advances σ i limit (.reading b (source :: rest)) (.read ids)
        (.updating { b with drained := b.drained && decide (ids.length < limit) } source ids rest)
  | meet {b : Batch} {source : InviteStatus} {rest : List InviteStatus} {id : ℕ} {todo : List ℕ}
      (h : unlockedFor σ i id = true) : Advances σ i limit (.updating b source (id :: todo) rest) .update
        (.updating (b.meet σ.rows source id) source todo rest)
  | finish {b : Batch} {source : InviteStatus} {rest : List InviteStatus} :
      Advances σ i limit (.updating b source [] rest) .update (.reading b rest)
  | failReading {b : Batch} {rest : List InviteStatus} : Advances σ i limit (.reading b rest) .fail .ended
  | failUpdating {b : Batch} {source : InviteStatus} {todo : List ℕ} {rest : List InviteStatus} :
      Advances σ i limit (.updating b source todo rest) .fail .ended

theorem sweepStep_cases (h : sweepStep σ i s act = some σ') :
  (∃ phase, Advances σ i s.limit s.phase act phase ∧ σ' = setPhase σ i s phase) ∨
   ∃ b, act = .commit ∧ s.phase = .reading b [] ∧ σ' = commitBatch σ i s b := by
 unfold sweepStep at h
 split at h
 · next hphase => exact .inl ⟨_, hphase ▸ .start, (Option.some.inj h).symm⟩
 · next hphase => exact .inl ⟨_, hphase ▸ .stop, (Option.some.inj h).symm⟩
 · next b source rest ids hphase =>
   split at h
   · next hread => exact .inl ⟨_, hphase ▸ .read hread, (Option.some.inj h).symm⟩
   · cases h
 · next hphase => exact .inl ⟨_, hphase ▸ .finish, (Option.some.inj h).symm⟩
 · next b source id todo rest hphase =>
   split at h
   · next hunlocked => exact .inl ⟨_, hphase ▸ .meet hunlocked, (Option.some.inj h).symm⟩
   · cases h
 · next b hphase => exact .inr ⟨b, rfl, hphase, (Option.some.inj h).symm⟩
 · next hphase => exact .inl ⟨_, hphase ▸ .failReading, (Option.some.inj h).symm⟩
 · next hphase => exact .inl ⟨_, hphase ▸ .failUpdating, (Option.some.inj h).symm⟩
 · cases h

structure Held (clock : ℕ) (rows : List Invite) (b : Batch) : Prop where
  now_le : b.now ≤ clock
  nodup : b.ids.Nodup
  rows : ∀ w ∈ b.written, rows[w.1]? = some w.2 ∧ isOutstanding w.2.status = true

def Phase.sources : Phase → List InviteStatus
  | .reading _ rest => rest
  | .updating _ source _ rest => source :: rest
  | .ready => []
  | .drained _ => []
  | .ended => []

structure Inv (rows₀ : List Invite) (σ : State) : Prop where
  sources : ∀ (i : ℕ) (s : Sweep), σ.sweeps[i]? = some s →
   ∀ status ∈ s.phase.sources, isOutstanding status = true
  held : ∀ (i : ℕ) (s : Sweep) (b : Batch), σ.sweeps[i]? = some s → s.phase.batch? = some b →
   Held σ.clock σ.rows b
  apart : ∀ (i j : ℕ) (s t : Sweep) (id : ℕ), σ.sweeps[i]? = some s → σ.sweeps[j]? = some t →
   i ≠ j → id ∈ s.locked → id ∉ t.locked
  recorded : replay rows₀ σ.log = some σ.rows
  lawful : ∀ entry ∈ σ.log, Lawful entry
  settled : ∀ id ∈ sweptIds σ.log, ∃ row, σ.rows[id]? = some row ∧ isOutstanding row.status = false
  once : (sweptIds σ.log).Nodup
  events : ∀ (i : ℕ) (s : Sweep), σ.sweeps[i]? = some s →
    s.events = (sweptBy i σ.log).map expiredEvent ∧ s.expired = s.events.length
  fresh : ∀ i, σ.sweeps.length ≤ i → sweptBy i σ.log = []

variable {b : Batch}

theorem locked_eq (h : s.phase.batch? = some b) : s.locked = b.ids := by
 rw [Sweep.locked, h]
 rfl

theorem mem_locked {id : ℕ} (h : id ∈ s.locked) : ∃ b, s.phase.batch? = some b ∧ id ∈ b.ids := by
 rw [Sweep.locked] at h
 cases hb : s.phase.batch? with
 | none => simp [hb] at h
 | some b => exact ⟨b, rfl, by simpa [hb] using h⟩

theorem Evolves.settled {clock id : ℕ} {rows rows' : List Invite} (h : Evolves clock rows rows')
  (hrow : ∃ row, rows[id]? = some row ∧ isOutstanding row.status = false) :
  ∃ row, rows'[id]? = some row ∧ isOutstanding row.status = false := by
 obtain ⟨row, hrow, hsettled⟩ := hrow
 obtain ⟨row', hrow', hmoves⟩ := h.old id row hrow
 refine ⟨row', hrow', ?_⟩
 rcases hmoves with rfl | ⟨-, hsettled'⟩ | ⟨hawaiting, -, -⟩
 · exact hsettled
 · exact hsettled'
 · rw [hawaiting] at hsettled
   cases hsettled

theorem Held.evolves {clock clock' : ℕ} {rows rows' : List Invite} (h : Held clock rows b)
  (hclock : clock ≤ clock') (hkept : ∀ id ∈ b.ids, rows'[id]? = rows[id]?) : Held clock' rows' b :=
 ⟨h.now_le.trans hclock, h.nodup, fun w hw => by
  rw [hkept w.1 (List.mem_map_of_mem hw)]
  exact h.rows w hw⟩

theorem swept_append (log log' : List Entry) : swept (log ++ log') = swept log ++ swept log' :=
 List.filterMap_append

theorem swept_none {entries : List Entry} (h : ∀ entry ∈ entries, entry.swept = none) :
  swept entries = [] :=
 List.filterMap_eq_nil_iff.2 h

theorem swept_commit (i : ℕ) (written : List (ℕ × Invite)) :
  swept (written.map fun w => .changed (some i) w.1 w.2 (expiredRow w.2)) = written.map fun w =>
   (i, w) := by
 rw [swept, List.filterMap_map]
 exact List.filterMap_eq_map_iff_forall_eq_some.2 fun w _ => rfl

structure Outside (σ σ' : State) : Prop where
  sweeps : σ'.sweeps = σ.sweeps
  clock : σ.clock ≤ σ'.clock
  evolves : Evolves σ.clock σ.rows σ'.rows
  kept : ∀ s ∈ σ.sweeps, ∀ id ∈ s.locked, σ'.rows[id]? = σ.rows[id]?
  log : ∃ entries, σ'.log = σ.log ++ entries ∧ swept entries = [] ∧ ∀ entry ∈ entries, Lawful entry
  replays : ∀ rows₀, replay rows₀ σ.log = some σ.rows → replay rows₀ σ'.log = some σ'.rows

theorem Inv.outside (hinv : Inv rows₀ σ) (h : Outside σ σ') : Inv rows₀ σ' := by
 obtain ⟨entries, hlog, hswept, hlawful⟩ := h.log
 have hsame : swept σ'.log = swept σ.log := by rw [hlog, swept_append, hswept, List.append_nil]
 refine ⟨fun i s hs => ?_, fun i s b hs hb => ?_, fun i j s t id hs ht => ?_, h.replays _ hinv.recorded,
  fun entry hentry => ?_, fun id hid => ?_, ?_, fun i s hs => ?_, fun i hi => ?_⟩
 · rw [h.sweeps] at hs
   exact hinv.sources i s hs
 · rw [h.sweeps] at hs
   refine (hinv.held i s b hs hb).evolves h.clock fun id hid => h.kept s (List.mem_of_getElem? hs) id ?_
   rwa [locked_eq hb]
 · rw [h.sweeps] at hs ht
   exact hinv.apart i j s t id hs ht
 · rw [hlog] at hentry
   exact (List.mem_append.1 hentry).elim (hinv.lawful entry) (hlawful entry)
 · rw [sweptIds, hsame] at hid
   exact h.evolves.settled (hinv.settled id hid)
 · rw [sweptIds, hsame]
   exact hinv.once
 · rw [h.sweeps] at hs
   rw [sweptBy, hsame]
   exact hinv.events i s hs
 · rw [h.sweeps] at hi
   rw [sweptBy, hsame]
   exact hinv.fresh i hi

theorem tick_outside : Outside σ { σ with clock := σ.clock + 1 } :=
 ⟨rfl, Nat.le_succ _, Evolves.refl _ _, fun _ _ _ _ => rfl, ⟨[], (List.append_nil _).symm, rfl, by simp⟩,
  fun _ => id⟩

theorem rival_outside {changes : List (ℕ × RivalChange)}
  (h : (changes.all fun change => unlocked σ change.1) = true) :
  Outside σ (changes.foldl rivalWrite σ) := by
 obtain ⟨⟨entries, hwritten⟩, hothers⟩ := rivalWrites_written changes σ
 refine ⟨hwritten.sweeps, hwritten.clock.ge, hwritten.evolves,
  fun s hs id hid => hothers id fun hmem => ?_,
  ⟨entries, hwritten.log, swept_none fun entry hentry => ?_, fun entry hentry =>
   (hwritten.lawful entry hentry).1⟩,
  hwritten.replays⟩
 · obtain ⟨change, hchange, rfl⟩ := List.mem_map.1 hmem
   have hfree := List.all_eq_true.1 (List.all_eq_true.1 h change hchange) s hs
   simp [hid] at hfree
 · obtain ⟨-, id, before, after, rfl⟩ := hwritten.lawful entry hentry
   rfl

theorem create_outside (hinv : Inv rows₀ σ) {row : Invite} (h : σ.clock < row.expiresAt) :
  Outside σ { σ with rows := σ.rows ++ [row], log := σ.log ++ [.created row] } := by
 refine ⟨rfl, le_refl _, evolves_concat h, fun s hs id hid => ?_, ⟨[.created row], rfl, rfl, ?_⟩,
  fun rows₁ hrows => ?_⟩
 · obtain ⟨b, hb, hin⟩ := mem_locked hid
   obtain ⟨i, hi⟩ := List.mem_iff_getElem?.1 hs
   obtain ⟨w, hw, rfl⟩ := List.mem_map.1 hin
   have hrow := ((hinv.held i s b hi hb).rows w hw).1
   exact List.getElem?_append_left (List.getElem?_eq_some_iff.1 hrow).1
 · intro entry hentry
   rw [List.mem_singleton.1 hentry]
   trivial
 · rw [replay_concat hrows, replayEntry]

theorem Inv.launch (hinv : Inv rows₀ σ) (limit : ℕ) :
  Inv rows₀ { σ with sweeps := σ.sweeps ++ [⟨limit, 0, [], .ready⟩] } := by
 have hcases : ∀ {i : ℕ} {s : Sweep}, (σ.sweeps ++ [⟨limit, 0, [], .ready⟩])[i]? = some s →
   σ.sweeps[i]? = some s ∨ (i = σ.sweeps.length ∧ s = ⟨limit, 0, [], .ready⟩) :=
  fun h => getElem?_concat_cases h
 refine ⟨fun i s hs => ?_, fun i s b hs hb => ?_, fun i j s t id hs ht hne hid => ?_, hinv.recorded,
  hinv.lawful,
  hinv.settled, hinv.once, fun i s hs => ?_, fun i hi => ?_⟩
 · rcases hcases hs with hs | ⟨-, rfl⟩
   · exact hinv.sources i s hs
   · simp [Phase.sources]
 · rcases hcases hs with hs | ⟨-, rfl⟩
   · exact hinv.held i s b hs hb
   · cases hb
 · rcases hcases hs with hs | ⟨-, rfl⟩
   · rcases hcases ht with ht | ⟨-, rfl⟩
     · exact hinv.apart i j s t id hs ht hne hid
     · simp [Sweep.locked, Phase.batch?]
   · simp [Sweep.locked, Phase.batch?] at hid
 · rcases hcases hs with hs | ⟨rfl, rfl⟩
   · exact hinv.events i s hs
   · rw [hinv.fresh _ (le_refl _)]
     exact ⟨rfl, rfl⟩
 · refine hinv.fresh i ?_
   simp only [List.length_append, List.length_singleton] at hi
   omega

theorem guarded_iff {rows : List Invite} {source : InviteStatus} {id : ℕ} :
  guarded rows b source id = true ↔ OverdueIn source b.now rows id ∧ id ∉ b.ids := by
 simp only [guarded, OverdueIn, Bool.and_eq_true, Option.any_eq_true, beq_iff_eq, decide_eq_true_eq,
  Bool.not_eq_true', ← Bool.not_eq_true, List.contains_iff_mem]

theorem meet_cases (b : Batch) (rows : List Invite) (source : InviteStatus) (id : ℕ) :
  (b.meet rows source id = b ∧ ¬ (OverdueIn source b.now rows id ∧ id ∉ b.ids)) ∨
  ∃ row, rows[id]? = some row ∧ row.status = source ∧ row.expiresAt ≤ b.now ∧ id ∉ b.ids ∧
   b.meet rows source id = { b with written := b.written ++ [(id, row)] } := by
 unfold Batch.meet
 split
 · next hnone =>
   refine .inl ⟨rfl, fun h => ?_⟩
   obtain ⟨row, hrow, -⟩ := h.1
   rw [hnone] at hrow
   cases hrow
 · next row hrow =>
   split
   · next hguard =>
     obtain ⟨⟨found, hfound, hstatus, hdate⟩, hnew⟩ := guarded_iff.1 hguard
     obtain rfl := Option.some.inj (hrow.symm.trans hfound)
     exact .inr ⟨row, hrow, hstatus, hdate, hnew, rfl⟩
   · next hguard => exact .inl ⟨rfl, fun h => hguard (guarded_iff.2 h)⟩

theorem meet_held {clock : ℕ} {rows : List Invite} {source : InviteStatus} (h : Held clock rows b)
  (hsource : isOutstanding source = true) (id : ℕ) : Held clock rows (b.meet rows source id) := by
 rcases meet_cases b rows source id with ⟨heq, -⟩ | ⟨row, hrow, hstatus, -, hnew, heq⟩
 · rw [heq]
   exact h
 · rw [heq]
   refine ⟨h.now_le, ?_, fun w hw => ?_⟩
   · rw [Batch.ids, List.map_append]
     refine List.nodup_append.2 ⟨h.nodup, List.nodup_singleton _, fun a ha c hc hsame => ?_⟩
     have hid : c = id := by simpa using hc
     exact hnew (hid ▸ hsame ▸ ha)
   · rcases List.mem_append.1 hw with hold | hlast
     · exact h.rows w hold
     · rw [List.mem_singleton.1 hlast]
       exact ⟨hrow, hstatus ▸ hsource⟩

theorem mem_meet {rows : List Invite} {source : InviteStatus} {id other : ℕ}
  (h : other ∈ (b.meet rows source id).ids) : other ∈ b.ids ∨ other = id := by
 rcases meet_cases b rows source id with ⟨heq, -⟩ | ⟨row, -, -, -, -, heq⟩
 · rw [heq] at h
   exact .inl h
 · rw [heq, Batch.ids, List.map_append, List.mem_append] at h
   exact h.imp_right List.mem_singleton.1

theorem Advances.batch {limit : ℕ} {p p' : Phase} (h : Advances σ i limit p act p')
  (hheld : ∀ b, p.batch? = some b → Held σ.clock σ.rows b)
  (hsources : ∀ status ∈ p.sources, isOutstanding status = true) :
  (∀ status ∈ p'.sources, isOutstanding status = true) ∧ ∀ b', p'.batch? = some b' →
   Held σ.clock σ.rows b' ∧
    ∀ id ∈ b'.ids, (∃ b, p.batch? = some b ∧ id ∈ b.ids) ∨ unlockedFor σ i id = true := by
 cases h with
 | start =>
  refine ⟨fun status hstatus => List.contains_iff_mem.2 hstatus, fun b' hb' => ?_⟩
  obtain rfl := Option.some.inj hb'
  exact ⟨⟨le_refl _, List.nodup_nil, by simp⟩, by simp [Batch.ids]⟩
 | stop | failReading | failUpdating => exact ⟨by simp [Phase.sources], fun b' hb' => by cases hb'⟩
 | @read b source rest ids hread =>
  refine ⟨hsources, fun b' hb' => ?_⟩
  obtain rfl := Option.some.inj hb'
  have hold := hheld b rfl
  exact ⟨⟨hold.now_le, hold.nodup, hold.rows⟩, fun id hid => .inl ⟨b, rfl, hid⟩⟩
 | @meet b source rest id todo hunlocked =>
  refine ⟨hsources, fun b' hb' => ?_⟩
  obtain rfl := Option.some.inj hb'
  refine ⟨meet_held (hheld b rfl) (hsources source List.mem_cons_self) id, fun other hother => ?_⟩
  rcases mem_meet hother with hold | rfl
  · exact .inl ⟨b, rfl, hold⟩
  · exact .inr hunlocked
 | @finish b source rest =>
  refine ⟨fun status hstatus => hsources status (List.mem_cons_of_mem _ hstatus), fun b' hb' => ?_⟩
  obtain rfl := Option.some.inj hb'
  exact ⟨hheld b rfl, fun id hid => .inl ⟨b, rfl, hid⟩⟩

theorem not_locked_of_unlockedFor {j id : ℕ} {t : Sweep} (h : unlockedFor σ i id = true)
  (hj : j ≠ i) (ht : σ.sweeps[j]? = some t) : id ∉ t.locked := by
 have hmem : (t, j) ∈ σ.sweeps.zipIdx := List.mk_mem_zipIdx_iff_getElem?.2 ht
 have hfree := List.all_eq_true.1 h (t, j) hmem
 simpa [hj] using hfree

theorem Inv.advance (hinv : Inv rows₀ σ) (hs : σ.sweeps[i]? = some s) {phase : Phase}
  (h : Advances σ i s.limit s.phase act phase) : Inv rows₀ (setPhase σ i s phase) := by
 obtain ⟨hsources, hbatch⟩ := h.batch (fun b hb => hinv.held i s b hs hb) (hinv.sources i s hs)
 have hcases : ∀ {j : ℕ} {t : Sweep}, (σ.sweeps.set i { s with phase := phase })[j]? = some t →
   (j = i ∧ t = { s with phase := phase }) ∨ (j ≠ i ∧ σ.sweeps[j]? = some t) :=
  fun h => getElem?_set_cases h
 -- What the run holds after its step is apart from what the others hold.
 have hmine : ∀ {j : ℕ} {t : Sweep} {id : ℕ}, j ≠ i → σ.sweeps[j]? = some t →
   id ∈ ({ s with phase := phase } : Sweep).locked → id ∉ t.locked := by
  intro j t id hj ht hid
  obtain ⟨b', hb', hin⟩ := mem_locked hid
  rcases (hbatch b' hb').2 id hin with ⟨b, hb, hold⟩ | hunlocked
  · exact hinv.apart i j s t id hs ht (Ne.symm hj) (locked_eq hb ▸ hold)
  · exact not_locked_of_unlockedFor hunlocked hj ht
 refine ⟨fun j t ht => ?_, fun j t b ht hb => ?_, fun j k t u id ht hu hne hid => ?_, hinv.recorded,
  hinv.lawful,
  hinv.settled, hinv.once, fun j t ht => ?_, fun j hj => hinv.fresh j ?_⟩
 · rcases hcases ht with ⟨rfl, rfl⟩ | ⟨-, ht⟩
   · exact hsources
   · exact hinv.sources j t ht
 · rcases hcases ht with ⟨rfl, rfl⟩ | ⟨-, ht⟩
   · exact (hbatch b hb).1
   · exact hinv.held j t b ht hb
 · rcases hcases ht with ⟨rfl, rfl⟩ | ⟨hj, ht'⟩
   · rcases hcases hu with ⟨rfl, -⟩ | ⟨hk, hu'⟩
     · exact absurd rfl hne
     · exact hmine hk hu' hid
   · rcases hcases hu with ⟨rfl, rfl⟩ | ⟨-, hu'⟩
     · exact fun hthis => hmine hj ht' hthis hid
     · exact hinv.apart j k t u id ht' hu' hne hid
 · rcases hcases ht with ⟨rfl, rfl⟩ | ⟨-, ht⟩
   · exact hinv.events j s hs
   · exact hinv.events j t ht
 · simpa [setPhase, setSweep] using hj

/-- The table and the log after a commit: the rows of the batch are expired as
    its guards met them, the others stay. -/
structure Committed (σ σ' : State) (i : ℕ) (b : Batch) : Prop where
  clock : σ'.clock = σ.clock
  written : ∃ entries, Written (some i) σ { σ' with sweeps := σ.sweeps } entries
  others : ∀ id ∉ b.ids, σ'.rows[id]? = σ.rows[id]?
  moved : ∀ w ∈ b.written, σ'.rows[w.1]? = some (expiredRow w.2)
  swept : swept σ'.log = swept σ.log ++ b.written.map fun w => (i, w)

theorem commit_committed (h : Held σ.clock σ.rows b) : Committed σ (commitBatch σ i s b) i b := by
 obtain ⟨hwritten, hothers, hmoved⟩ := commitWrites_written i b.written σ h.nodup h.rows
 refine ⟨hwritten.clock, ⟨b.written.map fun w => .changed (some i) w.1 w.2 (expiredRow w.2), ?_⟩, hothers,
  hmoved, ?_⟩
 · have hsame : { commitBatch σ i s b with sweeps := σ.sweeps } = b.written.foldl (commitWrite i) σ := by
    rw [← hwritten.sweeps]
    rfl
   rw [hsame]
   exact hwritten
 · have hlog : (commitBatch σ i s b).log = (b.written.foldl (commitWrite i) σ).log := rfl
   rw [hlog, hwritten.log, swept_append, swept_commit]

theorem Committed.evolves (h : Committed σ σ' i b) : Evolves σ.clock σ.rows σ'.rows := by
 obtain ⟨entries, hwritten⟩ := h.written
 exact hwritten.evolves

theorem Inv.commit (hinv : Inv rows₀ σ) (hs : σ.sweeps[i]? = some s)
  (hphase : s.phase = .reading b []) :
  Inv rows₀ (commitBatch σ i s b) := by
 have hb : s.phase.batch? = some b := by rw [hphase]; rfl
 have hheld := hinv.held i s b hs hb
 have hcommitted : Committed σ (commitBatch σ i s b) i b := commit_committed hheld
 obtain ⟨entries, hwritten⟩ := hcommitted.written
 have hlt : i < σ.sweeps.length := (List.getElem?_eq_some_iff.1 hs).1
 have hsweeps : (commitBatch σ i s b).sweeps = σ.sweeps.set i
   { s with expired := s.expired + b.written.length
            events := s.events ++ b.written.map expiredEvent
            phase := if b.drained then .drained b.now else .ready } := by
  have hkept : (b.written.foldl (commitWrite i) σ).sweeps = σ.sweeps :=
   (commitWrites_written i b.written σ hheld.nodup hheld.rows).1.sweeps
  rw [commitBatch, setSweep, hkept]
 have hfree : (if b.drained then Phase.drained b.now else .ready).batch? = none ∧
   (if b.drained then Phase.drained b.now else .ready).sources = [] := by
  split <;> exact ⟨rfl, rfl⟩
 have hcases : ∀ {j : ℕ} {t : Sweep}, (commitBatch σ i s b).sweeps[j]? = some t →
   (j = i ∧ t = { s with expired := s.expired + b.written.length
                         events := s.events ++ b.written.map expiredEvent
                         phase := if b.drained then .drained b.now else .ready }) ∨
    (j ≠ i ∧ σ.sweeps[j]? = some t) := fun h => getElem?_set_cases (hsweeps ▸ h)
 refine ⟨fun j t ht => ?_, fun j t c ht hc => ?_, fun j k t u id ht hu hne hid => ?_,
  hwritten.replays _ hinv.recorded, fun entry hentry => ?_, fun id hid => ?_, ?_, fun j t ht => ?_,
   fun j hj => ?_⟩
 · rcases hcases ht with ⟨-, rfl⟩ | ⟨-, ht'⟩
   · simp [hfree.2]
   · exact hinv.sources j t ht'
 · rcases hcases ht with ⟨-, rfl⟩ | ⟨hj, ht'⟩
   · rw [hfree.1] at hc
     cases hc
   · refine (hinv.held j t c ht' hc).evolves hcommitted.clock.ge fun id hid =>
      hcommitted.others id fun hmine => ?_
     exact hinv.apart i j s t id hs ht' (Ne.symm hj) (locked_eq hb ▸ hmine) (locked_eq hc ▸ hid)
 · rcases hcases ht with ⟨rfl, rfl⟩ | ⟨-, ht'⟩
   · simp [Sweep.locked, hfree.1] at hid
   · rcases hcases hu with ⟨rfl, rfl⟩ | ⟨-, hu'⟩
     · simp [Sweep.locked, hfree.1]
     · exact hinv.apart j k t u id ht' hu' hne hid
 · have hlog : (commitBatch σ i s b).log = σ.log ++ entries := hwritten.log
   rw [hlog] at hentry
   exact (List.mem_append.1 hentry).elim (hinv.lawful entry) fun hin => (hwritten.lawful entry hin).1
 · rw [sweptIds, hcommitted.swept, List.map_append, List.mem_append] at hid
   rcases hid with hold | hnew
   · exact hcommitted.evolves.settled (hinv.settled id hold)
   · obtain ⟨change, hchange, rfl⟩ := List.mem_map.1 hnew
     obtain ⟨w, hw, rfl⟩ := List.mem_map.1 hchange
     exact ⟨_, hcommitted.moved w hw, rfl⟩
 · rw [sweptIds, hcommitted.swept, List.map_append, List.map_map]
   refine List.nodup_append.2 ⟨hinv.once, hheld.nodup, fun id hold other hnew hsame => ?_⟩
   -- What a run has expired is settled, and the batch holds outstanding rows.
   obtain ⟨w, hw, rfl⟩ := List.mem_map.1 hnew
   obtain ⟨row, hrow, hsettled⟩ := hinv.settled id hold
   obtain ⟨hmet, hopen⟩ := hheld.rows w hw
   rw [hsame] at hrow
   obtain rfl := Option.some.inj (hmet.symm.trans hrow)
   rw [hsettled] at hopen
   cases hopen
 · rcases hcases ht with ⟨rfl, rfl⟩ | ⟨hj, ht'⟩
   · obtain ⟨hevents, hcount⟩ := hinv.events j s hs
     have hby : sweptBy j (commitBatch σ j s b).log = sweptBy j σ.log ++ b.written := by
      rw [sweptBy, hcommitted.swept, List.filter_append, List.map_append, ← sweptBy.eq_1]
      simp [List.filter_map, Function.comp_def]
     rw [hby, List.map_append, ← hevents]
     exact ⟨rfl, by simp [hcount]⟩
   · have hby : sweptBy j (commitBatch σ i s b).log = sweptBy j σ.log := by
      rw [sweptBy, hcommitted.swept, List.filter_append, List.map_append, ← sweptBy.eq_1]
      simp [List.filter_map, Function.comp_def, Ne.symm hj]
     rw [hby]
     exact hinv.events j t ht'
 · have hold : σ.sweeps.length ≤ j := by simpa [hsweeps] using hj
   have hne : i ≠ j := by omega
   rw [sweptBy, hcommitted.swept, List.filter_append, List.map_append, ← sweptBy.eq_1, hinv.fresh j hold]
   simp [List.filter_map, Function.comp_def, hne]

theorem inv_initial (clock : ℕ) (rows : List Invite) : Inv rows (initial clock rows) := by
 constructor <;> simp [initial, replay, sweptIds, swept, sweptBy]

theorem step_cases {a : Step} (hinv : Inv rows₀ σ) (h : step σ a = some σ') :
  ((∀ i act, a ≠ .sweep i act) ∧ Outside σ σ') ∨
  (∃ limit, 1 ≤ limit ∧ a = .launch limit ∧
   σ' = { σ with sweeps := σ.sweeps ++ [⟨limit, 0, [], .ready⟩] }) ∨
  (∃ i s act phase, a = .sweep i act ∧ σ.sweeps[i]? = some s ∧ Advances σ i s.limit s.phase act phase ∧
   σ' = setPhase σ i s phase) ∨
  ∃ i s b, a = .sweep i .commit ∧ σ.sweeps[i]? = some s ∧ s.phase = .reading b [] ∧
   σ' = commitBatch σ i s b := by
 cases a with
 | tick =>
  obtain rfl := Option.some.inj h
  exact .inl ⟨by simp, tick_outside⟩
 | rival changes =>
  rw [step] at h
  split at h
  · next hfree =>
    obtain rfl := Option.some.inj h
    exact .inl ⟨by simp, rival_outside hfree⟩
  · cases h
 | create row =>
  rw [step] at h
  split at h
  · next hrow =>
    obtain rfl := Option.some.inj h
    simp only [Bool.and_eq_true, decide_eq_true_eq] at hrow
    exact .inl ⟨by simp, create_outside hinv hrow.2⟩
  · cases h
 | launch limit =>
  rw [step] at h
  split at h
  · next hlimit => exact .inr (.inl ⟨limit, hlimit, rfl, (Option.some.inj h).symm⟩)
  · cases h
 | sweep i act =>
  rw [step] at h
  split at h
  · cases h
  · next s hs =>
    rcases sweepStep_cases h with ⟨phase, hadv, rfl⟩ | ⟨b, rfl, hphase, rfl⟩
    · exact .inr (.inr (.inl ⟨i, s, act, phase, rfl, hs, hadv, rfl⟩))
    · exact .inr (.inr (.inr ⟨i, s, b, rfl, hs, hphase, rfl⟩))

theorem Inv.step {a : Step} (hinv : Inv rows₀ σ) (h : InviteSweep.step σ a = some σ') :
  Inv rows₀ σ' := by
 rcases step_cases hinv h with ⟨-, houtside⟩ | ⟨limit, -, -, rfl⟩ | ⟨i, s, act, phase, -, hs, hadv, rfl⟩ |
  ⟨i, s, b, -, hs, hphase, rfl⟩
 · exact hinv.outside houtside
 · exact hinv.launch limit
 · exact hinv.advance hs hadv
 · exact hinv.commit hs hphase

theorem run_concat {steps : List Step} {a : Step} {σ₀ : State} (h : run σ₀ (steps ++ [a]) = some σ') :
  ∃ σ, run σ₀ steps = some σ ∧ step σ a = some σ' := by
 rw [run, List.foldlM_append, ← run.eq_1] at h
 cases hσ : run σ₀ steps with
 | none => simp [hσ] at h
 | some σ => exact ⟨σ, rfl, by simpa [hσ] using h⟩

theorem inv_run {steps : List Step} {clock : ℕ} (h : run (initial clock rows₀) steps = some σ) :
  Inv rows₀ σ := by
 induction steps using List.reverseRecOn generalizing σ with
 | nil =>
  obtain rfl := Option.some.inj h
  exact inv_initial clock rows₀
 | append_singleton steps a ih =>
  obtain ⟨σ', hrun, hstep⟩ := run_concat h
  exact (ih hrun).step hstep

end Invariant

end BoardGamesEmpire.InviteSweep
