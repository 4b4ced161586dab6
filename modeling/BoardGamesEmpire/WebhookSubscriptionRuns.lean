import BoardGamesEmpire.WebhookSubscription

set_option autoImplicit false

/-!
# A webhook is disabled for the failures it has

The failure column is the number of terminal failures since the last reset. A
call that raised it to the threshold goes on to its disable write, so a reset
that lands between the two statements is what switches off a webhook that has
not failed again.
-/
namespace BoardGamesEmpire.WebhookSubscription
open JsText PhasedCalls

section Ledger

def tally (failures : ℕ) : Entry → ℕ
  | .created | .succeeded | .reactivated => 0
  | .failedTerminally => failures + 1
  | .autoDisabled _ => failures

def failuresSince (history : List Entry) : ℕ := history.foldl tally 0

@[simp] theorem failuresSince_concat (history : List Entry) (entry : Entry) :
  failuresSince (history ++ [entry]) = tally (failuresSince history) entry := by
 simp [failuresSince, List.foldl_append]

def autoDisablement : Entry → Option WebhookDisabledEvent
  | .autoDisabled event => some event
  | _ => none

theorem threshold_pos : ¬ webhookFailureThreshold ≤ 0 := by decide

def moves (history : List Entry) : List WebhookDisabledEvent := history.filterMap autoDisablement

@[simp] theorem moves_append (history entries : List Entry) :
  moves (history ++ entries) = moves history ++ entries.filterMap autoDisablement :=
 List.filterMap_append

def Earned (history : List Entry) : Prop :=
  ∀ before event rest, history = before ++ .autoDisabled event :: rest → webhookFailureThreshold ≤
   failuresSince before

theorem Earned.concat {history : List Entry} (h : Earned history) {entry : Entry}
  (hentry : ∀ event, entry = .autoDisabled event → webhookFailureThreshold ≤ failuresSince history) :
  Earned (history ++ [entry]) := by
 intro before event rest heq
 induction rest using List.reverseRecOn with
 | nil =>
  obtain ⟨rfl, hlast⟩ := List.append_inj' heq rfl
  exact hentry event (List.singleton_inj.1 hlast)
 | append_singleton rest last ih =>
  have hassoc : before ++ .autoDisabled event :: (rest ++ [last]) =
   (before ++ .autoDisabled event :: rest) ++ [last] := by
   simp
  exact h before event rest (List.append_inj' (heq.trans hassoc) rfl).1

theorem not_earned_concat {history : List Entry} {event : WebhookDisabledEvent}
  (hfew : failuresSince history < webhookFailureThreshold) :
  ¬ Earned (history ++ [.autoDisabled event]) := by
 intro hearned
 have := hearned history event [] rfl
 omega

end Ledger

section Calls

def announcing : Phase → Option WebhookDisabledEvent
  | .emitting event => some event
  | _ => none

def announcements (calls : List Phase) : List WebhookDisabledEvent := calls.filterMap announcing

def Disabling (phase : Phase) : Prop :=
  ∃ createdById consecutiveFailures lastError, phase = .disabling createdById consecutiveFailures lastError

def Phase.bookkeeping : Phase → Bool
  | .succeeding | .failing _ | .disabling _ _ _ | .emitting _ => true
  | _ => false

variable {calls : List Phase} {i : ℕ} {phase : Phase}

theorem announcements_set (phase' : Phase) (h : calls[i]? = some phase) :
  ((announcing phase).toList ++ announcements (calls.set i phase')).Perm
   ((announcing phase').toList ++ announcements calls) := by
 obtain ⟨hi, rfl⟩ := List.getElem?_eq_some_iff.1 h
 have hold : (announcements calls).Perm
   ((announcing calls[i]).toList ++ announcements (calls.eraseIdx i)) := by
  have hperm := (List.getElem_cons_eraseIdx_perm hi).symm.filterMap announcing
  refine hperm.trans (List.Perm.of_eq ?_)
  cases hphase : announcing calls[i] <;> simp [announcements, hphase]
 have hnew : (announcements (calls.set i phase')).Perm
   ((announcing phase').toList ++ announcements (calls.eraseIdx i)) := by
  have hperm := (List.set_perm_cons_eraseIdx hi phase').filterMap announcing
  refine hperm.trans (List.Perm.of_eq ?_)
  cases hphase : announcing phase' <;> simp [announcements, hphase]
 have hswap : ((announcing calls[i]).toList ++ ((announcing phase').toList ++ announcements
  (calls.eraseIdx i))).Perm
   ((announcing phase').toList ++ ((announcing calls[i]).toList ++ announcements (calls.eraseIdx i))) := by
  rw [← List.append_assoc, ← List.append_assoc]
  exact List.perm_append_comm.append_right _
 exact (hnew.append_left _).trans (hswap.trans (hold.symm.append_left _))

end Calls

section Records

variable {s s' : Sys State Phase} {shared : State} {i : ℕ} {phase phase' : Phase}

/-- What holds after any steps: the column counts the failures since the last
    reset, a removed subscription is not active, every move was or is being
    announced, and an active subscription past the threshold has a disable write
    in front of it. -/
structure Recorded (s : Sys State Phase) : Prop where
  counted : s.shared.row.consecutiveFailures = failuresSince s.shared.history
  buried : s.shared.row.deletedAt.isSome = true → s.shared.row.status ≠ .active
  announced : (moves s.shared.history).Perm (s.shared.events ++ announcements s.calls)
  tripped : s.shared.row.status = .active → webhookFailureThreshold ≤ s.shared.row.consecutiveFailures →
    ∃ (j : ℕ) (phase : Phase), s.calls[j]? = some phase ∧ Disabling phase

theorem Recorded.advances (h : Recorded s) (hcall : s.calls[i]? = some phase)
  {entries : List Entry} {published : List WebhookDisabledEvent}
  (hhistory : shared.history = s.shared.history ++ entries)
   (hevents : shared.events = s.shared.events ++ published)
  (hbalance : entries.filterMap autoDisablement ++ (announcing phase).toList
   = published ++ (announcing phase').toList)
  (hcounted : shared.row.consecutiveFailures = failuresSince shared.history)
  (hburied : shared.row.deletedAt.isSome = true → shared.row.status ≠ .active)
  (htripped : shared.row.status = .active → webhookFailureThreshold ≤ shared.row.consecutiveFailures →
   Disabling phase' ∨ (s.shared.row.status = .active ∧
    webhookFailureThreshold ≤ s.shared.row.consecutiveFailures ∧ ¬ Disabling phase)) :
  Recorded ⟨shared, s.calls.set i phase'⟩ := by
 have hi : i < s.calls.length := (List.getElem?_eq_some_iff.1 hcall).1
 refine ⟨hcounted, hburied, ?_, fun hactive hpast => ?_⟩
 · have hset := announcements_set phase' hcall
   have hgoal : (moves shared.history ++ (announcing phase).toList).Perm
     (shared.events ++ announcements (s.calls.set i phase') ++ (announcing phase).toList) := by
    rw [hhistory, hevents, moves_append, List.append_assoc, hbalance, List.append_assoc, List.append_assoc]
    have hright : (published ++ (announcements (s.calls.set i phase') ++ (announcing phase).toList)).Perm
      (published ++ ((announcing phase').toList ++ announcements s.calls)) :=
     (List.perm_append_comm.trans hset).append_left _
    have hmiddle : (announcements s.calls ++ (published ++ (announcing phase').toList)).Perm
      (published ++ ((announcing phase').toList ++ announcements s.calls)) := by
     rw [← List.append_assoc published]
     exact List.perm_append_comm
    refine (h.announced.append_right _).trans ?_
    rw [List.append_assoc]
    exact (hmiddle.trans hright.symm).append_left _
   exact (List.perm_append_right_iff _).1 hgoal
 · rcases htripped hactive hpast with hdisabling | ⟨hactive, hpast, hother⟩
   · exact ⟨i, phase', List.getElem?_set_self hi, hdisabling⟩
   · obtain ⟨j, waiting, hat, hdisabling⟩ := h.tripped hactive hpast
     have hne : i ≠ j := by
      rintro rfl
      obtain rfl := Option.some.inj (hcall.symm.trans hat)
      exact hother hdisabling
     exact ⟨j, waiting, (List.getElem?_set_ne hne).trans hat, hdisabling⟩

theorem Recorded.reads (h : Recorded s) (hcall : s.calls[i]? = some phase)
  (hphase : announcing phase = none) (hphase' : announcing phase' = none)
  (hother : ¬ Disabling phase) :
  Recorded ⟨s.shared, s.calls.set i phase'⟩ :=
 h.advances hcall (List.append_nil _).symm (List.append_nil _).symm (by rw [hphase, hphase']; rfl)
  h.counted h.buried
  fun hactive hpast => .inr ⟨hactive, hpast, hother⟩

theorem deliver_reads (job : Job) (row : Row) : announcing (deliver job row) = none := by
 unfold deliver
 split_ifs <;> rfl

theorem respond_reads (job : Job) (response : Except DeliveryError ℕ) :
  announcing (respond job response) = none := by
 have hfailed : ∀ error, announcing (onFailed job error) = none := by
  intro error
  unfold onFailed
  dsimp only
  split_ifs <;> rfl
 cases response with
 | error error => exact hfailed error
 | ok status =>
  unfold respond
  dsimp only
  split_ifs
  · exact hfailed _
  · rfl

theorem check_reads (operation : Operation) (actor : Actor) (admits : Bool) (row : Row) :
  announcing (check operation actor admits row) = none := by
 unfold check
 split
 · rfl
 · split_ifs <;> rfl

theorem Recorded.succeeds (h : Recorded s) (now : ℕ) (hcall : s.calls[i]? = some .succeeding) :
  Recorded ⟨onSuccess now s.shared, s.calls.set i .settled⟩ := by
 unfold onSuccess
 split_ifs with hgone
 · apply h.reads hcall rfl rfl
   rintro ⟨createdById, failures, lastError, heq⟩
   cases heq
 · refine h.advances hcall rfl (List.append_nil _).symm rfl ?_ h.buried ?_
   · rw [failuresSince_concat]
     rfl
   · intro hactive hpast
     exact absurd hpast threshold_pos

theorem Recorded.fails (h : Recorded s) (error : DeliveryError)
  (hcall : s.calls[i]? = some (.failing error)) :
  Recorded ⟨(recordTerminalFailure error s.shared).2,
   s.calls.set i (recordTerminalFailure error s.shared).1⟩ := by
 refine h.advances hcall rfl (List.append_nil _).symm ?_ ?_ h.buried ?_
 · unfold recordTerminalFailure
   dsimp only
   split_ifs <;> rfl
 · refine Eq.trans ?_ (failuresSince_concat _ _).symm
   exact congrArg (· + 1) h.counted
 · intro hactive hpast
   refine .inl ⟨s.shared.row.createdById, s.shared.row.consecutiveFailures + 1, toErrorCode error, ?_⟩
   exact if_pos hpast

theorem Recorded.disables (h : Recorded s) (event : WebhookDisabledEvent)
  (hcall : s.calls[i]? = some phase) (hphase : announcing phase = none) :
  Recorded ⟨(autoDisable event s.shared).2, s.calls.set i (autoDisable event s.shared).1⟩ := by
 unfold autoDisable
 split_ifs with hactive
 · refine h.advances hcall rfl (List.append_nil _).symm ?_ ?_ ?_ ?_
   · rw [hphase]
     rfl
   · exact h.counted.trans (failuresSince_concat s.shared.history (.autoDisabled event)).symm
   · exact fun _ heq => by cases heq
   · exact fun heq => by cases heq
 · refine h.advances hcall (List.append_nil _).symm (List.append_nil _).symm ?_ h.counted h.buried ?_
   · rw [hphase]
     rfl
   · exact fun heq => absurd heq hactive

theorem Recorded.emits (h : Recorded s) (event : WebhookDisabledEvent)
  (hcall : s.calls[i]? = some (.emitting event)) :
  Recorded ⟨{ s.shared with events := s.shared.events ++ [event] }, s.calls.set i .settled⟩ := by
 refine h.advances hcall (List.append_nil _).symm rfl rfl h.counted h.buried fun hactive hpast => ?_
 refine .inr ⟨hactive, hpast, ?_⟩
 rintro ⟨createdById, failures, lastError, heq⟩
 cases heq

theorem Recorded.writes (h : Recorded s) (operation : Operation) (actor : Actor) (answer : Answer)
  (hcall : s.calls[i]? = some (.writing operation actor)) :
  Recorded ⟨(writeScoped operation actor answer s.shared).2,
   s.calls.set i (writeScoped operation actor answer s.shared).1⟩ := by
 have hother : ¬ Disabling (.writing operation actor) := by
  rintro ⟨createdById, failures, lastError, heq⟩
  cases heq
 unfold writeScoped
 split_ifs with hmatch
 · have hlive : s.shared.row.deletedAt = none := by
    simp only [matchesScope, Bool.and_eq_true] at hmatch
    exact Option.isNone_iff_eq_none.1 hmatch.1.1
   cases operation with
   | disable =>
    exact h.advances hcall rfl (List.append_nil _).symm rfl
     (h.counted.trans (congrArg _ (List.append_nil _).symm))
     (fun _ heq => by cases heq) fun heq => by cases heq
   | reactivate =>
    refine h.advances hcall rfl (List.append_nil _).symm rfl
     (failuresSince_concat s.shared.history .reactivated).symm ?_ ?_
    · intro hgone
      change s.shared.row.deletedAt.isSome = true at hgone
      rw [hlive] at hgone
      cases hgone
    · exact fun _ hpast => absurd hpast threshold_pos
   | update url secret changesTypes =>
    exact h.advances hcall rfl (List.append_nil _).symm rfl
     (h.counted.trans (congrArg _ (List.append_nil _).symm))
     h.buried fun hactive hpast => .inr ⟨hactive, hpast, hother⟩
   | remove =>
    exact h.advances hcall rfl (List.append_nil _).symm rfl
     (h.counted.trans (congrArg _ (List.append_nil _).symm))
     (fun _ heq => by cases heq) fun heq => by cases heq
 · exact h.reads hcall rfl rfl hother

theorem Recorded.moves (h : Recorded s) {answer : Answer} {moved : Phase × State}
  (hcall : s.calls[i]? = some phase) (hmove : move answer phase s.shared = some moved) :
  Recorded ⟨moved.2, s.calls.set i moved.1⟩ := by
 cases phase with
 | delivering job =>
  cases hmove
  exact h.reads hcall rfl (deliver_reads _ _) (by rintro ⟨_, _, _, heq⟩; cases heq)
 | requesting job url secret =>
  cases hmove
  exact h.reads hcall rfl (respond_reads _ _) (by rintro ⟨_, _, _, heq⟩; cases heq)
 | succeeding =>
  cases hmove
  exact h.succeeds answer.now hcall
 | failing error =>
  cases hmove
  exact h.fails error hcall
 | disabling createdById failures lastError =>
  cases hmove
  exact h.disables _ hcall rfl
 | emitting event =>
  cases hmove
  exact h.emits event hcall
 | checking operation actor =>
  cases hmove
  exact h.reads hcall rfl (check_reads _ _ _ _) (by rintro ⟨_, _, _, heq⟩; cases heq)
 | authorizing operation actor =>
  cases hmove
  refine h.reads hcall rfl ?_ (by rintro ⟨_, _, _, heq⟩; cases heq)
  dsimp only
  split_ifs <;> rfl
 | writing operation actor =>
  cases hmove
  exact h.writes operation actor answer hcall
 | rechecking operation actor =>
  cases hmove
  exact h.reads hcall rfl rfl (by rintro ⟨_, _, _, heq⟩; cases heq)
 | answered refusal => cases hmove
 | settled => cases hmove

theorem Recorded.step {a : Action Request Answer Empty} (h : Recorded s)
  (hstep : PhasedCalls.step subscription s a = some s') : Recorded s' := by
 rcases step_cases hstep with ⟨request, rfl, rfl⟩ | ⟨i, answer, phase, moved, rfl, hcall, hmove,
  rfl⟩ | ⟨e, -⟩
 · refine ⟨h.counted, h.buried, h.announced.trans (List.Perm.of_eq ?_), fun hactive hpast => ?_⟩
   · have hquiet : announcing (start request s.shared) = none := by cases request <;> rfl
     simp [announcements, subscription, hquiet]
   · obtain ⟨j, phase, hat, hdisabling⟩ := h.tripped hactive hpast
     have hj := (List.getElem?_eq_some_iff.1 hat).1
     exact ⟨j, phase, (List.getElem?_append_left hj).trans hat, hdisabling⟩
 · exact h.moves hcall hmove
 · exact e.elim

structure Created (s : State) : Prop where
  status : s.row.status = .active
  failures : s.row.consecutiveFailures = 0
  live : s.row.deletedAt = none
  history : s.history = [.created]
  events : s.events = []

variable {initial : State} {allowed : Sys State Phase → Action Request Answer Empty → Prop}

theorem recorded_of_created (h : Created initial) : Recorded ⟨initial, []⟩ where
 counted := by
  rw [h.failures, h.history]
  rfl
 buried hgone := by
  rw [h.live] at hgone
  cases hgone
 announced := by
  rw [h.history, h.events]
  exact List.Perm.refl _
 tripped _ hpast := by
  rw [h.failures] at hpast
  exact absurd hpast threshold_pos

theorem recorded_of_reachable (hcreated : Created initial)
  (h : ReachableBy subscription allowed initial s) :
  Recorded s := by
 induction h with
 | start => exact recorded_of_created hcreated
 | step a hreach hallowed hstep ih => exact ih.step hstep

end Records

section Resets

variable {s s' : Sys State Phase} {i : ℕ} {initial : State}

def Resets (s : Sys State Phase) : Action Request Answer Empty → Prop
  | .advance i answer =>
    (s.calls[i]? = some .succeeding ∧ s.shared.row.status = .active) ∨
      ∃ actor, s.calls[i]? = some (.writing .reactivate actor) ∧
       matchesScope actor answer.admits s.shared.row = true
  | _ => False

def Undisturbed (s : Sys State Phase) (a : Action Request Answer Empty) : Prop :=
  Resets s a → ∀ (j : ℕ) phase, s.calls[j]? = some phase → ¬ Disabling phase

structure Armed (s : Sys State Phase) : Prop where
  earned : Earned s.shared.history
  loaded : ∀ (j : ℕ) phase, s.calls[j]? = some phase → Disabling phase → s.shared.row.status = .active →
    webhookFailureThreshold ≤ s.shared.row.consecutiveFailures

theorem Armed.passes {shared : State} {phase' : Phase} (h : Armed s) (hearned : Earned shared.history)
  (hother : ¬ Disabling phase')
  (hloaded : (∃ (j : ℕ) (phase : Phase), s.calls[j]? = some phase ∧ Disabling phase) →
   shared.row.status = .active →
   s.shared.row.status = .active ∧ s.shared.row.consecutiveFailures ≤ shared.row.consecutiveFailures) :
  Armed ⟨shared, s.calls.set i phase'⟩ := by
 refine ⟨hearned, fun j phase hat hdisabling hactive => ?_⟩
 rcases getElem?_set_cases hat with ⟨-, rfl⟩ | ⟨-, hat⟩
 · exact absurd hdisabling hother
 · obtain ⟨hbefore, hle⟩ := hloaded ⟨j, phase, hat, hdisabling⟩ hactive
   exact (h.loaded j phase hat hdisabling hbefore).trans hle

theorem Armed.reads {phase' : Phase} (h : Armed s) (hother : ¬ Disabling phase') :
  Armed ⟨s.shared, s.calls.set i phase'⟩ :=
 h.passes h.earned hother fun _ hactive => ⟨hactive, le_rfl⟩

theorem not_disabling_deliver (job : Job) (row : Row) : ¬ Disabling (deliver job row) := by
 rintro ⟨createdById, failures, lastError, heq⟩
 unfold deliver at heq
 split_ifs at heq

theorem not_disabling_respond (job : Job) (response : Except DeliveryError ℕ) :
  ¬ Disabling (respond job response) := by
 have hfailed : ∀ error, ¬ Disabling (onFailed job error) := by
  rintro error ⟨createdById, failures, lastError, heq⟩
  unfold onFailed at heq
  dsimp only at heq
  split_ifs at heq
 cases response with
 | error error => exact hfailed error
 | ok status =>
  unfold respond
  dsimp only
  split_ifs
  · exact hfailed _
  · rintro ⟨createdById, failures, lastError, heq⟩
    cases heq

theorem not_disabling_check (operation : Operation) (actor : Actor) (admits : Bool) (row : Row) :
  ¬ Disabling (check operation actor admits row) := by
 rintro ⟨createdById, failures, lastError, heq⟩
 unfold check at heq
 split at heq
 · cases heq
 · split_ifs at heq

theorem not_disabling_writeScoped (operation : Operation) (actor : Actor) (answer : Answer)
  (s : State) :
  ¬ Disabling (writeScoped operation actor answer s).1 := by
 rintro ⟨createdById, failures, lastError, heq⟩
 unfold writeScoped at heq
 split_ifs at heq

theorem Armed.succeeds (h : Armed s) (answer : Answer) (hcall : s.calls[i]? = some .succeeding)
  (hundisturbed : Undisturbed s (.advance i answer)) :
  Armed ⟨onSuccess answer.now s.shared, s.calls.set i .settled⟩ := by
 have hother : ¬ Disabling .settled := by
  rintro ⟨createdById, failures, lastError, heq⟩
  cases heq
 unfold onSuccess
 split_ifs with hgone
 · exact h.reads hother
 · refine h.passes (h.earned.concat fun event heq => by cases heq) hother ?_
   intro hwaiting hactive
   obtain ⟨j, phase, hat, hdisabling⟩ := hwaiting
   exact absurd hdisabling (hundisturbed (.inl ⟨hcall, hactive⟩) j phase hat)

theorem Armed.fails (h : Armed s) (error : DeliveryError) :
  Armed ⟨(recordTerminalFailure error s.shared).2,
   s.calls.set i (recordTerminalFailure error s.shared).1⟩ := by
 refine ⟨h.earned.concat (fun event heq => by cases heq), fun j phase hat hdisabling hactive => ?_⟩
 rcases getElem?_set_cases hat with ⟨-, rfl⟩ | ⟨-, hat⟩
 · obtain ⟨createdById, failures, lastError, heq⟩ := hdisabling
   unfold recordTerminalFailure at heq
   dsimp only at heq
   split_ifs at heq with hpast
   exact hpast
 · exact (h.loaded j phase hat hdisabling hactive).trans (Nat.le_succ _)

theorem Armed.disables (h : Armed s) (event : WebhookDisabledEvent) {phase : Phase}
  (hcall : s.calls[i]? = some phase) (hdisabling : Disabling phase)
  (hcounted : s.shared.row.consecutiveFailures = failuresSince s.shared.history) :
  Armed ⟨(autoDisable event s.shared).2, s.calls.set i (autoDisable event s.shared).1⟩ := by
 unfold autoDisable
 split_ifs with hactive
 · apply h.passes
   · refine h.earned.concat fun _ _ => ?_
     rw [← hcounted]
     exact h.loaded i phase hcall hdisabling hactive
   · rintro ⟨createdById, failures, lastError, heq⟩
     cases heq
   · exact fun _ heq => by cases heq
 · apply h.reads
   rintro ⟨createdById, failures, lastError, heq⟩
   cases heq

theorem Armed.writes (h : Armed s) (operation : Operation) (actor : Actor) (answer : Answer)
  (hcall : s.calls[i]? = some (.writing operation actor))
  (hundisturbed : Undisturbed s (.advance i answer)) :
  Armed ⟨(writeScoped operation actor answer s.shared).2,
   s.calls.set i (writeScoped operation actor answer s.shared).1⟩ := by
 have hother := not_disabling_writeScoped operation actor answer s.shared
 revert hother
 unfold writeScoped
 split_ifs with hmatch <;> intro hother
 · refine h.passes ?_ hother ?_
   · cases operation with
     | reactivate => exact h.earned.concat fun event heq => by cases heq
     | disable | update | remove => exact (List.append_nil s.shared.history).symm ▸ h.earned
   · intro hwaiting hactive
     obtain ⟨j, phase, hat, hdisabling⟩ := hwaiting
     cases operation with
     | reactivate => exact absurd hdisabling (hundisturbed (.inr ⟨actor, hcall, hmatch⟩) j phase hat)
     | update url secret changesTypes => exact ⟨hactive, le_rfl⟩
     | disable => cases hactive
     | remove => cases hactive
 · exact h.reads hother

theorem Armed.moves {phase : Phase} {answer : Answer} {moved : Phase × State} (h : Armed s)
  (hrecorded : Recorded s) (hundisturbed : Undisturbed s (.advance i answer))
  (hcall : s.calls[i]? = some phase) (hmove : move answer phase s.shared = some moved) :
  Armed ⟨moved.2, s.calls.set i moved.1⟩ := by
 cases phase with
 | delivering job =>
  cases hmove
  exact h.reads (not_disabling_deliver _ _)
 | requesting job url secret =>
  cases hmove
  exact h.reads (not_disabling_respond _ _)
 | succeeding =>
  cases hmove
  exact h.succeeds answer hcall hundisturbed
 | failing error =>
  cases hmove
  exact h.fails error
 | disabling createdById failures lastError =>
  cases hmove
  exact h.disables _ hcall ⟨_, _, _, rfl⟩ hrecorded.counted
 | emitting event =>
  cases hmove
  exact h.passes h.earned (by rintro ⟨_, _, _, heq⟩; cases heq) fun _ hactive => ⟨hactive, le_rfl⟩
 | checking operation actor =>
  cases hmove
  exact h.reads (not_disabling_check _ _ _ _)
 | authorizing operation actor =>
  cases hmove
  apply h.reads
  rintro ⟨createdById, failures, lastError, heq⟩
  dsimp only at heq
  split_ifs at heq
 | writing operation actor =>
  cases hmove
  exact h.writes operation actor answer hcall hundisturbed
 | rechecking operation actor =>
  cases hmove
  exact h.reads (by rintro ⟨_, _, _, heq⟩; cases heq)
 | answered refusal => cases hmove
 | settled => cases hmove

theorem Armed.step {a : Action Request Answer Empty} (h : Armed s) (hrecorded : Recorded s)
  (hundisturbed : Undisturbed s a) (hstep : PhasedCalls.step subscription s a = some s') :
  Armed s' := by
 rcases step_cases hstep with ⟨request, rfl, rfl⟩ | ⟨i, answer, phase, moved, rfl, hcall, hmove,
  rfl⟩ | ⟨e, -⟩
 · refine ⟨h.earned, fun j phase hat hdisabling hactive => ?_⟩
   rcases getElem?_concat_cases hat with hat | ⟨-, rfl⟩
   · exact h.loaded j phase hat hdisabling hactive
   · obtain ⟨createdById, failures, lastError, heq⟩ := hdisabling
     cases request <;> cases heq
 · exact h.moves hrecorded hundisturbed hcall hmove
 · exact e.elim

theorem armed_of_reachable (hcreated : Created initial)
  (h : ReachableBy subscription Undisturbed initial s) :
  Armed s := by
 induction h with
 | start =>
  refine ⟨fun before event rest heq => ?_, fun j phase hat => by cases hat⟩
  change initial.history = _ at heq
  rw [hcreated.history] at heq
  have hmem : Entry.autoDisabled event ∈ [Entry.created] := by
   rw [heq]
   exact List.mem_append_right _ List.mem_cons_self
  cases List.mem_singleton.1 hmem
 | step a hreach hundisturbed hstep ih =>
  exact ih.step (recorded_of_reachable hcreated hreach) hundisturbed hstep

end Resets

section Disablement

variable {s s' : Sys State Phase} {initial : State}

def Announced (s : Sys State Phase) : Prop :=
  (moves s.shared.history).Perm (s.shared.events ++ announcements s.calls)

/-- The subscription becomes active, if it was not, only by a reactivation of a
    live row. -/
def Revived (s : Sys State Phase) : Prop :=
  ∀ (a : Action Request Answer Empty) (s' : Sys State Phase), step subscription s a = some s' →
    s'.shared.row.status = .active → s.shared.row.status ≠ .active ∨ s.shared.row.deletedAt.isSome = true →
    s.shared.row.deletedAt = none ∧
      ∃ i answer actor, a = .advance i answer ∧ s.calls[i]? = some (.writing .reactivate actor)

def Tripped (s : Sys State Phase) : Prop :=
  (∀ phase ∈ s.calls, phase.bookkeeping = false) → s.shared.row.deletedAt = none →
   s.shared.row.status = .active →
    s.shared.row.consecutiveFailures < webhookFailureThreshold

theorem Recorded.tripped_at_rest (h : Recorded s) : Tripped s := by
 intro hrest hlive hactive
 by_contra hpast
 obtain ⟨j, phase, hat, createdById, failures, lastError, rfl⟩ := h.tripped hactive (by omega)
 cases hrest _ (List.mem_of_getElem? hat)

theorem status_of_move {answer : Answer} {phase : Phase} {s : State} {moved : Phase × State}
  (hmove : move answer phase s = some moved) (hactive : moved.2.row.status = .active)
  (hidle : s.row.status ≠ .active) :
  ∃ actor, phase = .writing .reactivate actor ∧ matchesScope actor answer.admits s.row = true := by
 cases phase with
 | succeeding =>
  cases hmove
  unfold onSuccess at hactive
  split_ifs at hactive
  · exact absurd hactive hidle
  · exact absurd hactive hidle
 | disabling createdById failures lastError =>
  cases hmove
  unfold autoDisable at hactive
  split_ifs at hactive
  exact absurd hactive hidle
 | writing operation actor =>
  cases hmove
  unfold writeScoped at hactive
  split_ifs at hactive with hmatch
  · cases operation with
    | reactivate => exact ⟨actor, rfl, hmatch⟩
    | update url secret changesTypes => exact absurd hactive hidle
    | disable => cases hactive
    | remove => cases hactive
  · exact absurd hactive hidle
 | answered refusal => cases hmove
 | settled => cases hmove
 | delivering job =>
  cases hmove
  exact absurd hactive hidle
 | requesting job url secret =>
  cases hmove
  exact absurd hactive hidle
 | failing error =>
  cases hmove
  exact absurd hactive hidle
 | emitting event =>
  cases hmove
  exact absurd hactive hidle
 | checking operation actor =>
  cases hmove
  exact absurd hactive hidle
 | authorizing operation actor =>
  cases hmove
  exact absurd hactive hidle
 | rechecking operation actor =>
  cases hmove
  exact absurd hactive hidle

theorem live_of_matchesScope {actor : Actor} {admits : Bool} {row : Row}
  (h : matchesScope actor admits row = true) :
  row.deletedAt = none := by
 simp only [matchesScope, Bool.and_eq_true] at h
 exact Option.isNone_iff_eq_none.1 h.1.1

theorem Recorded.revived (h : Recorded s) : Revived s := by
 intro a s' hstep hactive hwas
 have hidle : s.shared.row.status ≠ .active := by
  rcases hwas with hidle | hgone
  · exact hidle
  · exact h.buried hgone
 rcases step_cases hstep with ⟨request, rfl, rfl⟩ | ⟨i, answer, phase, moved, rfl, hcall, hmove,
  rfl⟩ | ⟨e, -⟩
 · exact absurd hactive hidle
 · obtain ⟨actor, rfl, hmatch⟩ := status_of_move hmove hactive hidle
   exact ⟨live_of_matchesScope hmatch, i, answer, actor, rfl, hcall⟩
 · exact e.elim

theorem Recorded.misfires (h : Recorded s) {a : Action Request Answer Empty} (hreset : Resets s a)
  (hstep : PhasedCalls.step subscription s a = some s') {j : ℕ} {phase : Phase}
  (hat : s.calls[j]? = some phase) (hdisabling : Disabling phase) :
  ∃ answer s'', PhasedCalls.step subscription s' (.advance j answer) = some s'' ∧
   ¬ Earned s''.shared.history := by
 obtain ⟨createdById, failures, lastError, rfl⟩ := hdisabling
 have hset : s'.shared.row.status = .active ∧ s'.shared.row.consecutiveFailures = 0 ∧
   s'.calls[j]? = some (.disabling createdById failures lastError) := by
  rcases step_cases hstep with ⟨request, rfl, rfl⟩ | ⟨i, answer, phase, moved, rfl, hcall, hmove,
   rfl⟩ | ⟨e, -⟩
  · exact hreset.elim
  · rcases hreset with ⟨hsucceeding, hactive⟩ | ⟨actor, hwriting, hmatch⟩
    · obtain rfl := Option.some.inj (hcall.symm.trans hsucceeding)
      cases hmove
      have hne : i ≠ j := by
       rintro rfl
       cases hcall.symm.trans hat
      have hlive : ¬ s.shared.row.deletedAt.isSome = true := fun hgone => h.buried hgone hactive
      unfold onSuccess
      rw [if_neg hlive]
      exact ⟨hactive, rfl, (List.getElem?_set_ne hne).trans hat⟩
    · obtain rfl := Option.some.inj (hcall.symm.trans hwriting)
      cases hmove
      have hne : i ≠ j := by
       rintro rfl
       cases hcall.symm.trans hat
      unfold writeScoped
      rw [if_pos hmatch]
      exact ⟨rfl, rfl, (List.getElem?_set_ne hne).trans hat⟩
  · exact e.elim
 obtain ⟨hactive, hzero, hat⟩ := hset
 have hcounted := (h.step hstep).counted
 refine ⟨⟨.ok 200, 0, true⟩, _, congrArg (Option.bind · _) hat, ?_⟩
 change ¬ Earned (autoDisable _ s'.shared).2.history
 unfold autoDisable
 rw [if_pos hactive]
 apply not_earned_concat
 rw [← hcounted, hzero]
 decide

/-- Where no reset lands between a failure increment and its disable write, a
    webhook is disabled only for the failures it has; a reset that lands there
    leaves a disable write that is wrong at once. The rest holds of every run. -/
theorem auto_disabled_for_its_failures (hcreated : Created initial) :
    (∀ s, ReachableBy subscription Undisturbed initial s → Earned s.shared.history) ∧
    (∀ s, Reachable subscription initial s → Announced s ∧ Revived s ∧ Tripped s) ∧
    ∀ s a s', Reachable subscription initial s → ¬ Undisturbed s a → step subscription s a = some s' →
      ∃ j answer s'', step subscription s' (.advance j answer) = some s'' ∧
       ¬ Earned s''.shared.history := by
 refine ⟨fun s hreach => (armed_of_reachable hcreated hreach).earned, fun s hreach => ?_,
  fun s a s' hreach hdisturbed hstep => ?_⟩
 · have hrecorded := recorded_of_reachable hcreated hreach
   exact ⟨hrecorded.announced, hrecorded.revived, hrecorded.tripped_at_rest⟩
 · unfold Undisturbed at hdisturbed
   push Not at hdisturbed
   obtain ⟨hreset, j, phase, hat, hdisabling⟩ := hdisturbed
   obtain ⟨answer, s'', hnext, hwrong⟩ := (recorded_of_reachable hcreated hreach).misfires hreset
    hstep hat hdisabling
   exact ⟨j, answer, s'', hnext, hwrong⟩

end Disablement

section Samples

def sampleRow : Row where
  id := ['w']
  url := "https://hooks".toList
  secret := []
  status := .active
  createdById := ['u']
  apiKeyId := none
  consecutiveFailures := 0
  lastDeliveryAt := none
  disabledAt := none
  deletedAt := none

def sampleState : State := ⟨sampleRow, [.created], []⟩

theorem created_sample : Created sampleState := ⟨rfl, rfl, rfl, rfl, rfl⟩

def proceed (i : ℕ) (response : Except DeliveryError ℕ) :
    Action Request Answer Empty := .advance i ⟨response, 7, true⟩

def refused (i : ℕ) : List (Action Request Answer Empty) :=
  [.begin (.deliver none), proceed i (.ok 500), proceed i (.ok 500), proceed i (.ok 500)]

def accepted (i : ℕ) : List (Action Request Answer Empty) :=
  [.begin (.deliver none), proceed i (.ok 204), proceed i (.ok 204), proceed i (.ok 204)]

def overtaken : List (Action Request Answer Empty) :=
  refused 0 ++ refused 1 ++ [.begin (.deliver none), proceed 2 (.ok 204),
   proceed 2 (.ok 204)] ++ refused 3 ++
    [proceed 2 (.ok 204), proceed 3 (.ok 500), proceed 3 (.ok 500)]

theorem auto_disabled_created :
    (∀ s, ReachableBy subscription Undisturbed sampleState s → Earned s.shared.history) ∧
    (∀ s, Reachable subscription sampleState s → Announced s ∧ Revived s ∧ Tripped s) ∧
    ∀ s a s', Reachable subscription sampleState s → ¬ Undisturbed s a → step subscription s a = some s' →
      ∃ j answer s'', step subscription s' (.advance j answer) = some s'' ∧ ¬ Earned s''.shared.history :=
 auto_disabled_for_its_failures created_sample

theorem auto_disabled_after_success :
    ¬ ∀ initial s, Created initial → Reachable subscription initial s → Earned s.shared.history := by
 intro hclaim
 let event := disabledEvent ['w'] ['u'] 3 .nonSuccessResponse 7
 let before : List Entry := [.created, .failedTerminally, .failedTerminally, .failedTerminally, .succeeded]
 have hrun : (run subscription ⟨sampleState, []⟩ overtaken).map (fun s => s.shared.history) =
   some (before ++ [.autoDisabled event]) := by decide +kernel
 obtain ⟨s, hs, hhistory⟩ := Option.map_eq_some_iff.1 hrun
 have hearned := hclaim sampleState s created_sample (reachable_of_run .start hs)
 exact absurd (hearned before event [] hhistory) (by decide)

end Samples

end BoardGamesEmpire.WebhookSubscription
