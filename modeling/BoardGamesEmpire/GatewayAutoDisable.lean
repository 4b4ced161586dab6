import BoardGamesEmpire.GatewayRegistry
import BoardGamesEmpire.PhasedCalls

set_option autoImplicit false

/-!
# Switching off a failing gateway

`reportSuccess` and `reportFailure` for one gateway: what one process counts
over the calls it makes in turn, and the conditional write and the event of
any number of processes. The window of a count is anchored at its first
failure.
-/
namespace BoardGamesEmpire.GatewayDriver
open JsText PhasedCalls

section Window

inductive Report where
  | success
  | failure (now : ℕ)
deriving DecidableEq

def Report.failedAt : Report → Option ℕ
  | .success => none
  | .failure now => some now

def trackAfter (existing : Option FailureTrack) (now : ℕ) : FailureTrack :=
  match existing with
  | some track =>
    if track.firstFailureAt + failureWindowMs < now then ⟨1, now, now⟩
    else ⟨track.consecutiveFailures + 1, track.firstFailureAt, now⟩
  | none => ⟨1, now, now⟩

def disables (existing : Option FailureTrack) (now : ℕ) : Bool :=
  decide (failureThreshold ≤ (trackAfter existing now).consecutiveFailures)

def tracked : List Report → Option FailureTrack
  | [] => none
  | .success :: _ => none
  | .failure now :: earlier => if disables (tracked earlier) now then none else some
   (trackAfter (tracked earlier) now)

def unconsumed : List Report → List ℕ
  | [] => []
  | .success :: _ => []
  | .failure now :: earlier => if disables (tracked earlier) now then [] else now :: unconsumed earlier

def Due (earlier : List ℕ) (now : ℕ) : Prop :=
  failureThreshold ≤ ((now :: earlier).filter fun time => now ≤ time + failureWindowMs).length

instance (earlier : List ℕ) (now : ℕ) : Decidable (Due earlier now) := by unfold Due; exact inferInstance

def InTime (reports : List Report) :
    Prop := (reports.filterMap Report.failedAt).Pairwise fun later earlier => earlier ≤ later

instance (reports : List Report) : Decidable (InTime reports) := by unfold InTime; exact inferInstance

def ExactWindow (reports : List Report) : Prop :=
  ∀ now earlier, .failure now :: earlier <:+ reports →
   (disables (tracked earlier) now = true ↔ Due (unconsumed earlier) now)

/-- A failure whose predecessor began a new count comes when the failure before
    that predecessor has left the window. -/
def CleanRestarts (reports : List Report) : Prop :=
  ∀ now earlier, .failure now :: earlier <:+ reports → ∀ last before rest,
   unconsumed earlier = last :: before :: rest →
    (∀ track, tracked earlier = some track → track.consecutiveFailures = 1) →
     before + failureWindowMs < now

inductive Counts : Option FailureTrack → List ℕ → Prop where
  | none : Counts none []
  | one (track : FailureTrack) (rest : List ℕ) (h : track.consecutiveFailures = 1) :
    Counts (some track) (track.firstFailureAt :: rest)
  | two (track : FailureTrack) (last : ℕ) (rest : List ℕ) (h : track.consecutiveFailures = 2) :
    Counts (some track) (last :: track.firstFailureAt :: rest)

theorem trackAfter_cases (existing : Option FailureTrack) (now : ℕ) :
  ((trackAfter existing now).consecutiveFailures = 1 ∧ (trackAfter existing now).firstFailureAt = now) ∨
  ∃ track, existing = some track ∧ now ≤ track.firstFailureAt + failureWindowMs ∧
   (trackAfter existing now).consecutiveFailures = track.consecutiveFailures + 1 ∧
   (trackAfter existing now).firstFailureAt = track.firstFailureAt := by
 unfold trackAfter
 cases existing with
 | none => exact .inl ⟨rfl, rfl⟩
 | some track =>
  dsimp only
  split
  · exact .inl ⟨rfl, rfl⟩
  · exact .inr ⟨track, rfl, by omega, rfl, rfl⟩

theorem counts_failure {existing : Option FailureTrack} {times : List ℕ} (h : Counts existing times)
  {now : ℕ} (hkept : disables existing now = false) :
  Counts (some (trackAfter existing now)) (now :: times) := by
 rcases trackAfter_cases existing now with ⟨hcount, hfirst⟩ | ⟨track, rfl, -, hcount, hfirst⟩
 · have hone := Counts.one (trackAfter existing now) times hcount
   rwa [hfirst] at hone
 · cases h with
   | one _ rest htrack =>
    have htwo := Counts.two (trackAfter (some track) now) now rest (by rw [hcount, htrack])
    rwa [hfirst] at htwo
   | two _ last rest htrack =>
    have hreached : disables (some track) now = true :=
     decide_eq_true (by rw [hcount, htrack]; exact Nat.le_refl 3)
    rw [hreached] at hkept
    cases hkept

theorem counts_reports (reports : List Report) : Counts (tracked reports) (unconsumed reports) := by
 induction reports with
 | nil => exact .none
 | cons report earlier ih =>
  cases report with
  | success => exact .none
  | failure now =>
   rw [tracked, unconsumed]
   cases hdisables : disables (tracked earlier) now with
   | true => exact .none
   | false => exact counts_failure ih hdisables

theorem disables_iff (existing : Option FailureTrack) (now : ℕ)
  (h : ∀ track, existing = some track → track.consecutiveFailures ≤ 2) :
  disables existing now = true ↔
   ∃ track, existing = some track ∧ track.consecutiveFailures = 2 ∧
    now ≤ track.firstFailureAt + failureWindowMs := by
 unfold disables
 rw [decide_eq_true_eq]
 constructor
 · intro hreached
   rcases trackAfter_cases existing now with ⟨hcount, -⟩ | ⟨track, rfl, hwindow, hcount, -⟩
   · rw [hcount] at hreached
     exact absurd hreached (by decide)
   · have hle := h track rfl
     rw [hcount] at hreached
     have hthree : (3 : ℕ) ≤ track.consecutiveFailures + 1 := hreached
     exact ⟨track, rfl, by omega, hwindow⟩
 · rintro ⟨track, rfl, htwo, hwindow⟩
   rw [trackAfter, if_neg (by omega)]
   change 3 ≤ track.consecutiveFailures + 1
   omega

theorem unconsumed_inTime {reports : List Report} (h : InTime reports) :
  (unconsumed reports).Sublist (reports.filterMap Report.failedAt) := by
 induction reports with
 | nil => exact List.Sublist.refl _
 | cons report earlier ih =>
  cases report with
  | success => exact List.nil_sublist _
  | failure now =>
   have hrest := ih (List.Pairwise.of_cons h)
   rw [unconsumed]
   split
   · exact List.nil_sublist _
   · exact hrest.cons_cons now

theorem due_iff {earlier : List ℕ} {now : ℕ}
  (h : (now :: earlier).Pairwise fun later earlier => earlier ≤ later) :
  Due earlier now ↔ ∃ last before rest, earlier = last :: before :: rest ∧
   now ≤ before + failureWindowMs := by
 unfold Due
 rw [List.filter_cons_of_pos (by simp)]
 cases earlier with
 | nil => simp [failureThreshold]
 | cons last rest =>
  cases rest with
  | nil =>
   have hshort := List.length_filter_le (fun time => decide (now ≤ time + failureWindowMs)) [last]
   refine iff_of_false (fun hdue => ?_) ?_
   · have hthree : (3 : ℕ) ≤ _ := hdue
     rw [List.length_cons] at hthree
     rw [List.length_singleton] at hshort
     omega
   · rintro ⟨_, _, _, heq, -⟩
     cases heq
  | cons before rest =>
   obtain ⟨-, hlast⟩ := List.pairwise_cons.1 h
   obtain ⟨hlast, hbefore⟩ := List.pairwise_cons.1 hlast
   obtain ⟨hbefore, -⟩ := List.pairwise_cons.1 hbefore
   constructor
   · intro hdue
     refine ⟨last, before, rest, rfl, ?_⟩
     by_contra hout
     -- all that came before `before` have left the window too
     have hnone : (before :: rest).filter (fun time => decide (now ≤ time + failureWindowMs)) = [] := by
      refine List.filter_eq_nil_iff.2 fun time htime => ?_
      rcases List.mem_cons.1 htime with rfl | hmem
      · simpa using hout
      · have hle := hbefore time hmem
        simp only [decide_eq_true_eq]
        omega
     have hshort := List.length_filter_le (fun time => decide (now ≤ time + failureWindowMs)) [last]
     have hthree : (3 : ℕ) ≤ _ := hdue
     rw [List.length_cons, show last :: before :: rest = [last] ++ (before :: rest) from rfl,
      List.filter_append, hnone,
      List.append_nil] at hthree
     rw [List.length_singleton] at hshort
     omega
   · rintro ⟨_, _, _, heq, hwindow⟩
     cases heq
     have hle := hlast before List.mem_cons_self
     rw [List.filter_cons_of_pos (by simp; omega), List.filter_cons_of_pos (by simpa using hwindow)]
     change 3 ≤ (_ :: _ :: _ :: _).length
     simp only [List.length_cons]
     omega

theorem exact_failure {now : ℕ} {earlier : List Report} (h : InTime (.failure now :: earlier)) :
  (disables (tracked earlier) now = true ↔ Due (unconsumed earlier) now) ↔
   ∀ last before rest, unconsumed earlier = last :: before :: rest →
    (∀ track, tracked earlier = some track → track.consecutiveFailures = 1) →
     before + failureWindowMs < now := by
 obtain ⟨hnow, hearlier⟩ :=
  List.pairwise_cons.1 (show (now :: earlier.filterMap Report.failedAt).Pairwise _ from h)
 have hsub := unconsumed_inTime (show InTime earlier from hearlier)
 have hsorted : (now :: unconsumed earlier).Pairwise fun later earlier => earlier ≤ later :=
  List.pairwise_cons.2 ⟨fun time htime => hnow time (hsub.subset htime), hearlier.sublist hsub⟩
 have hcounts := counts_reports earlier
 rw [due_iff hsorted, disables_iff _ _ ?_]
 · generalize tracked earlier = existing at hcounts ⊢
   generalize unconsumed earlier = times at hcounts ⊢
   cases hcounts with
   | none => simp
   | one track rest hone =>
    have hquiet : ¬ ∃ track', some track = some track' ∧ track'.consecutiveFailures = 2 ∧
      now ≤ track'.firstFailureAt + failureWindowMs := by
     rintro ⟨_, heq, htwo, -⟩
     cases heq
     omega
    rw [iff_false_left hquiet]
    constructor
    · intro hnever last before rest' heq _
      by_contra hwindow
      exact hnever ⟨last, before, rest', heq, by omega⟩
    · rintro hclean ⟨last, before, rest', heq, hwindow⟩
      have hout := hclean last before rest' heq fun _ htrack => by cases htrack; exact hone
      omega
   | two track last rest htwo =>
    refine iff_of_true ⟨?_, ?_⟩ fun _ _ _ _ hone => ?_
    · rintro ⟨_, heq, -, hwindow⟩
      cases heq
      exact ⟨last, track.firstFailureAt, rest, rfl, hwindow⟩
    · rintro ⟨_, _, _, heq, hwindow⟩
      cases heq
      exact ⟨track, rfl, htwo, hwindow⟩
    · have hcount := hone track rfl
      omega
 · intro track htrack
   rw [htrack] at hcounts
   generalize unconsumed earlier = times at hcounts
   cases hcounts with
   | one _ _ hone => omega
   | two _ _ _ htwo => omega

theorem inTime_suffix {reports earlier : List Report} (h : InTime reports)
  (hsuffix : earlier <:+ reports) : InTime earlier :=
 h.sublist (hsuffix.sublist.filterMap Report.failedAt)

theorem exactWindow_iff {reports : List Report} (h : InTime reports) :
  ExactWindow reports ↔ CleanRestarts reports :=
 forall_congr' fun _ => forall_congr' fun _ => forall_congr' fun hsuffix =>
  exact_failure (inTime_suffix h hsuffix)

end Window

section Processes

/-- What the processes share, and the tracks each keeps for itself. `disabled`
    counts the writes that switched the gateway off, `unanswered` those of them
    whose answer never came. -/
structure AutoDisableState where
  enabled : Bool
  tracks : ℕ → Option FailureTrack
  clock : ℕ
  disabled : ℕ
  unanswered : ℕ
  emitted : List GatewayDisabledEvent

structure FailureReport where
  process : ℕ
  reason : GatewayAutoDisableReason

inductive ReportPhase where
  | begun
  | writing (track : FailureTrack)
  | written (track : FailureTrack) (won : Bool)
  | publishing (track : FailureTrack)
  | settled

structure ReportCall where
  report : FailureReport
  phase : ReportPhase

inductive WriteAnswer where
  | ok
  | failed
  | lost
deriving DecidableEq

inductive ReportOutside where
  | success (process : ℕ)
  | setEnabled (enabled : Bool)
  | clock (now : ℕ)

/-- `updateMany` where the gateway is enabled. -/
def disableWrite (answered : Bool) (s : AutoDisableState) : AutoDisableState :=
  if s.enabled then
    { s with enabled := false, disabled := s.disabled + 1, unanswered := if answered then s.unanswered else s.unanswered + 1 }
  else s

def reportMove (gatewayId : ℕ) (answer : WriteAnswer) (call : ReportCall) (s : AutoDisableState) :
    Option (ReportCall × AutoDisableState) :=
  let process := call.report.process
  match call.phase with
  | .begun =>
    let track := trackAfter (s.tracks process) s.clock
    let phase := if failureThreshold ≤ track.consecutiveFailures then .writing track else .settled
    some (⟨call.report, phase⟩, { s with tracks := Function.update s.tracks process (some track) })
  | .writing track =>
    match answer with
    | .ok => some (⟨call.report, .written track s.enabled⟩, disableWrite true s)
    | .failed => some (⟨call.report, .settled⟩, s)
    | .lost => some (⟨call.report, .settled⟩, disableWrite false s)
  | .written track won =>
    some (⟨call.report, if won then .publishing track else .settled⟩,
      { s with tracks := Function.update s.tracks process none })
  -- a publish that fails is caught where it is made
  | .publishing track =>
    some (⟨call.report, .settled⟩,
     { s with emitted := s.emitted ++ [⟨gatewayId, call.report.reason, track⟩] })
  | .settled => none

/-- A success, in any process, or what another process's event makes of its
    track; an admin's switch; time. -/
def reportOutside (e : ReportOutside) (s : AutoDisableState) : Option AutoDisableState :=
  match e with
  | .success process => some { s with tracks := Function.update s.tracks process none }
  | .setEnabled enabled => some { s with enabled }
  | .clock now => if s.clock ≤ now then some { s with clock := now } else none

def reportProgram (gatewayId : ℕ) :
    Program FailureReport WriteAnswer ReportOutside AutoDisableState ReportCall where
  start report _ := ⟨report, .begun⟩
  move := reportMove gatewayId
  outside := reportOutside

def neverFailed (enabled : Bool) : AutoDisableState := ⟨enabled, fun _ => none, 0, 0, 0, []⟩

def ReportCall.owes (call : ReportCall) : Bool :=
  match call.phase with
  | .written _ won => won
  | .publishing _ => true
  | .begun | .writing _ | .settled => false

def EachNotified (s : Sys AutoDisableState ReportCall) : Prop :=
  s.shared.disabled = s.shared.emitted.length + s.shared.unanswered + s.calls.countP ReportCall.owes

theorem reportMove_owes {gatewayId : ℕ} {answer : WriteAnswer} {call : ReportCall}
  {s : AutoDisableState} {moved : ReportCall × AutoDisableState}
  (h : reportMove gatewayId answer call s = some moved) :
  moved.2.disabled + s.emitted.length + s.unanswered + (if call.owes then 1 else 0) =
   s.disabled + moved.2.emitted.length + moved.2.unanswered + if moved.1.owes then 1 else 0 := by
 obtain ⟨report, phase⟩ := call
 cases phase with
 | begun =>
  cases h
  dsimp only [ReportCall.owes]
  by_cases hreached : failureThreshold ≤ (trackAfter (s.tracks report.process) s.clock).consecutiveFailures
  · rw [if_pos hreached]
    rfl
  · rw [if_neg hreached]
    rfl
 | writing track =>
  cases answer with
  | ok =>
   cases h
   cases henabled : s.enabled with
   | true =>
    simp only [disableWrite, ReportCall.owes, henabled, if_true, Bool.false_eq_true, if_false]
    omega
   | false => simp [disableWrite, ReportCall.owes, henabled]
  | failed =>
   cases h
   rfl
  | lost =>
   cases h
   cases henabled : s.enabled with
   | true =>
    simp only [disableWrite, ReportCall.owes, henabled, if_true, Bool.false_eq_true, if_false]
    omega
   | false => simp [disableWrite, ReportCall.owes, henabled]
 | written track won =>
  cases h
  cases won <;> rfl
 | publishing track =>
  cases h
  simp [ReportCall.owes]
  omega
 | settled => cases h

theorem reportOutside_kept {e : ReportOutside} {s s' : AutoDisableState}
  (h : reportOutside e s = some s') :
  s'.disabled = s.disabled ∧ s'.emitted = s.emitted ∧ s'.unanswered = s.unanswered := by
 cases e with
 | success process =>
  cases h
  exact ⟨rfl, rfl, rfl⟩
 | setEnabled enabled =>
  cases h
  exact ⟨rfl, rfl, rfl⟩
 | clock now =>
  rw [reportOutside] at h
  split at h
  · cases h
    exact ⟨rfl, rfl, rfl⟩
  · cases h

theorem eachNotified_step {gatewayId : ℕ} {s s' : Sys AutoDisableState ReportCall}
  {a : PhasedCalls.Action FailureReport WriteAnswer ReportOutside}
  (hs : EachNotified s) (h : step (reportProgram gatewayId) s a = some s') : EachNotified s' := by
 unfold EachNotified at hs ⊢
 rcases step_cases h with ⟨report, -, rfl⟩ | ⟨i, answer, call, moved, -, hcall, hmove, rfl⟩
  | ⟨e, shared, -, houtside, rfl⟩
 · rw [hs, List.countP_append]
   rfl
 · obtain ⟨hi, hget⟩ := List.getElem?_eq_some_iff.1 hcall
   have howes := reportMove_owes hmove
   have hcounted : (if call.owes then 1 else 0) ≤ s.calls.countP ReportCall.owes := by
    split
    · next howed => exact List.countP_pos_iff.2 ⟨call, List.mem_of_getElem? hcall, howed⟩
    · exact Nat.zero_le _
   rw [List.countP_set hi, hget]
   dsimp only
   omega
 · obtain ⟨hdisabled, hemitted, hunanswered⟩ := reportOutside_kept houtside
   dsimp only
   rw [hdisabled, hemitted, hunanswered]
   exact hs

theorem eachNotified_reachable {gatewayId : ℕ} {enabled : Bool}
  {s : Sys AutoDisableState ReportCall}
  (h : Reachable (reportProgram gatewayId) (neverFailed enabled) s) : EachNotified s := by
 induction h with
 | start => rfl
 | step a _ _ hstep ih => exact eachNotified_step ih hstep

def movesAlone (existing : Option FailureTrack) (now : ℕ) : ℕ := if disables existing now then 4 else 1

/-- What a failure leaves where the gateway is enabled and nothing comes
    between its moves. -/
def reportedAlone (gatewayId : ℕ) (report : FailureReport) (s : AutoDisableState) : AutoDisableState :=
  let track := trackAfter (s.tracks report.process) s.clock
  if disables (s.tracks report.process) s.clock then
    { s with
      enabled := false
      disabled := s.disabled + 1
      tracks := Function.update s.tracks report.process none
      emitted := s.emitted ++ [⟨gatewayId, report.reason, track⟩] }
  else { s with tracks := Function.update s.tracks report.process (some track) }

theorem run_alone (gatewayId : ℕ) (report : FailureReport) {s : AutoDisableState}
  (calls : List ReportCall) (henabled : s.enabled = true) :
  run (reportProgram gatewayId) ⟨s, calls⟩
    (.begin report :: List.replicate (movesAlone (s.tracks report.process) s.clock)
     (.advance calls.length .ok)) =
   some ⟨reportedAlone gatewayId report s, calls ++ [⟨report, .settled⟩]⟩ := by
 have hbegun : ∀ moves, run (reportProgram gatewayId) ⟨s, calls⟩ (.begin report :: moves) =
   run (reportProgram gatewayId) ⟨s, calls ++ [⟨report, .begun⟩]⟩ moves := fun _ => rfl
 rw [hbegun]
 unfold movesAlone reportedAlone
 by_cases hdisables : disables (s.tracks report.process) s.clock = true
 · have hreached := of_decide_eq_true hdisables
   rw [if_pos hdisables, if_pos hdisables]
   simp only [List.replicate, run, step_last, reportProgram, reportMove, if_pos hreached,
    Option.map_some, Option.bind_some,
    disableWrite, henabled, if_true, Function.update_idem]
 · have hbelow : ¬ failureThreshold ≤ (trackAfter (s.tracks report.process) s.clock).consecutiveFailures :=
    fun hreached => hdisables (decide_eq_true hreached)
   rw [if_neg hdisables, if_neg hdisables]
   simp only [List.replicate, run, step_last, reportProgram, reportMove, if_neg hbelow,
    Option.map_some, Option.bind_some]

theorem reportedAlone_tracked (gatewayId : ℕ) (report : FailureReport) {s : AutoDisableState}
  {reports : List Report} (htracked : s.tracks report.process = tracked reports) :
  (reportedAlone gatewayId report s).tracks report.process = tracked (.failure s.clock :: reports) ∧
  ((reportedAlone gatewayId report s).enabled = false ↔ s.enabled = false ∨
   disables (tracked reports) s.clock = true) ∧
  (reportedAlone gatewayId report s).emitted.length =
   s.emitted.length + if disables (tracked reports) s.clock then 1 else 0 := by
 unfold reportedAlone
 rw [htracked, tracked]
 cases hdisables : disables (tracked reports) s.clock with
 | true => simp
 | false => simp

end Processes

section Streaks

/-- The count is exact over the window just where no failure finds it restarted
    too late; and over any number of processes a disable is notified once, by
    the call whose write switched the gateway off, unless that call never
    learns that it did. -/
theorem autoDisable_exact (gatewayId : ℕ) (enabled : Bool) :
    (∀ reports, InTime reports → (ExactWindow reports ↔ CleanRestarts reports)) ∧
    (∀ s, Reachable (reportProgram gatewayId) (neverFailed enabled) s →
      s.shared.disabled = s.shared.emitted.length + s.shared.unanswered + s.calls.countP ReportCall.owes) ∧
    ∀ (report : FailureReport) (s : AutoDisableState) (calls : List ReportCall) (reports : List Report), s.enabled = true →
      s.tracks report.process = tracked reports →
      ∃ moves s', run (reportProgram gatewayId) ⟨s, calls⟩
       (.begin report :: List.replicate moves (.advance calls.length .ok)) =
          some ⟨s', calls ++ [⟨report, .settled⟩]⟩ ∧
        s'.tracks report.process = tracked (.failure s.clock :: reports) ∧
        (s'.enabled = false ↔ disables (tracked reports) s.clock = true) := by
 refine ⟨fun reports => exactWindow_iff, fun s => eachNotified_reachable,
  fun report s calls reports henabled htracked => ?_⟩
 obtain ⟨htrack, hoff, -⟩ := reportedAlone_tracked gatewayId report htracked
 refine ⟨_, _, run_alone gatewayId report calls henabled, htrack, ?_⟩
 rw [hoff, henabled]
 simp

/-- Failures at 0, 4, 6 and 8 minutes: three lie in the last five, and the count is two. -/
theorem exactWindow_late : ¬ ∀ reports, InTime reports → ExactWindow reports := by
 intro hexact
 have hlate := (hexact [.failure 480000, .failure 360000, .failure 240000, .failure 0] (by decide)) 480000
  [.failure 360000, .failure 240000, .failure 0] (List.suffix_refl _)
 exact absurd (hlate.2 (by decide)) (by decide)

end Streaks

end BoardGamesEmpire.GatewayDriver
