import Mathlib.Data.List.Basic
import Mathlib.Tactic.Common

set_option autoImplicit false

/-!
# Async functions over shared memory

One thread runs many async functions, each from one wait to its next. The
rules reason about one function at a time: it may use what no step of another
function can undo while it waits.
-/
namespace BoardGamesEmpire.AsyncTasks

section Machine

/-- What an async function does next: settle, run on, wait for an answer from
    outside, wait for another function's result, or call one without waiting. -/
inductive Task (M A V : Type) where
  | settled (value : V)
  | sync (f : ℕ → M → M) (next : ℕ → M → Task M A V)
  | wait (next : A → Task M A V)
  | join (task : ℕ) (next : V → Task M A V)
  | spawn (body : Task M A V) (next : ℕ → Task M A V)

structure Sys (M A V : Type) where
  memory : M
  tasks : List (Task M A V)

inductive Action (R A E : Type) where
  | call (request : R)
  | answer (i : ℕ) (a : A)
  | resume (i : ℕ)
  | outside (e : E)

variable {M A V R E : Type}

/-- Runs task `i` to its next wait, and what it calls to theirs. -/
def runFrom (i : ℕ) : Task M A V → Sys M A V → Sys M A V
  | .sync f next, s => runFrom i (next i s.memory) { s with memory := f i s.memory }
  | .spawn body next, s => runFrom i (next s.tasks.length)
   (runFrom s.tasks.length body { s with tasks := s.tasks ++ [body] })
  | .settled value, s => { s with tasks := s.tasks.set i (.settled value) }
  | .wait next, s => { s with tasks := s.tasks.set i (.wait next) }
  | .join task next, s => { s with tasks := s.tasks.set i (.join task next) }

def Task.answered (a : A) : Task M A V → Option (Task M A V)
  | .wait next => some (next a)
  | .settled _ | .sync _ _ | .join _ _ | .spawn _ _ => none

def Task.value : Task M A V → Option V
  | .settled value => some value
  | .wait _ | .sync _ _ | .join _ _ | .spawn _ _ => none

def Task.joined (tasks : List (Task M A V)) : Task M A V → Option (Task M A V)
  | .join task next => (tasks[task]?.bind Task.value).map next
  | .settled _ | .sync _ _ | .wait _ | .spawn _ _ => none

/-- A call is made where `permitted` allows it. -/
def step (program : R → Task M A V) (permitted : R → M → Bool) (outside : E → M →
    Option M) (s : Sys M A V) :
    Action R A E → Option (Sys M A V)
  | .call request =>
    if permitted request s.memory then
      some (runFrom s.tasks.length (program request) { s with tasks := s.tasks ++ [program request] })
    else none
  | .answer i a => (s.tasks[i]?.bind (Task.answered a)).map fun task => runFrom i task s
  | .resume i => (s.tasks[i]?.bind (Task.joined s.tasks)).map fun task => runFrom i task s
  | .outside e => (outside e s.memory).map fun m => { s with memory := m }

def run (program : R → Task M A V) (permitted : R → M → Bool) (outside : E → M →
    Option M) (s : Sys M A V) :
    List (Action R A E) → Option (Sys M A V)
  | [] => some s
  | a :: rest => (step program permitted outside s a).bind fun s' => run program permitted outside s' rest

inductive Reachable (program : R → Task M A V) (permitted : R → M → Bool) (outside : E → M →
    Option M) (m : M) :
    Sys M A V → Prop where
  | start : Reachable program permitted outside m ⟨m, []⟩
  | step {s s' : Sys M A V} (a : Action R A E) (h : Reachable program permitted outside m s)
      (hstep : step program permitted outside s a = some s') : Reachable program permitted outside m s'

theorem reachable_of_run {program : R → Task M A V} {permitted : R → M → Bool}
  {outside : E → M → Option M} {m : M} {s s' : Sys M A V} {actions : List (Action R A E)}
  (hs : Reachable program permitted outside m s)
  (h : run program permitted outside s actions = some s') :
  Reachable program permitted outside m s' := by
 induction actions generalizing s with
 | nil =>
  cases h
  exact hs
 | cons a rest ih =>
  obtain ⟨mid, hmid, hrest⟩ := Option.bind_eq_some_iff.1 h
  exact ih (hs.step a hmid) hrest

end Machine

section Contract

/-- What holds at every wait, and what the steps of each task, and of the
    outside, do to the part `K` of the memory that matters. -/
structure Contract (K E : Type) where
  inv : K → Prop
  moves : ℕ → K → K → Prop
  outside : E → K → K → Prop
  /-- What is known of a task that was not called yet. -/
  unborn : ℕ → K → Prop

variable {M A V K E : Type} (π : M → K) (C : Contract K E)

/-- Only task `me` can undo it. -/
structure Stable (me : ℕ) (Ψ : K → Prop) : Prop where
  moves : ∀ j k k', j ≠ me → C.inv k → C.moves j k k' → Ψ k → Ψ k'
  outside : ∀ e k k', C.inv k → C.outside e k k' → Ψ k → Ψ k'

/-- Task `me` keeps to the contract from a state where `Ψ` holds. While it
    waits it knows only what is stable. -/
def Safe (me : ℕ) : Task M A V → (K → Prop) → Prop
  | .settled _, _ => True
  | .sync f next, Ψ => ∀ m, C.inv (π m) → Ψ (π m) → C.inv (π (f me m)) ∧ C.moves me (π m) (π (f me m)) ∧
      ∃ Φ : K → Prop, Φ (π (f me m)) ∧ Safe me (next me m) Φ
  | .wait next, Ψ => ∃ Φ : K → Prop, Stable C me Φ ∧ (∀ k, C.inv k → Ψ k → Φ k) ∧ ∀ a, Safe me (next a) Φ
  | .join _ next, Ψ => ∃ Φ : K → Prop, Stable C me Φ ∧ (∀ k, C.inv k → Ψ k → Φ k) ∧
   ∀ value, Safe me (next value) Φ
  | .spawn body next, Ψ => (∀ t, Safe t body fun k => C.unborn t k ∧ Ψ k) ∧
      ∃ Φ : K → Prop, Stable C me Φ ∧ (∀ k, C.inv k → Ψ k → Φ k) ∧ ∀ t, Safe me (next t) Φ

variable {π C}

theorem Safe.mono {me : ℕ} {task : Task M A V} {Ψ Φ : K → Prop} (h : Safe π C me task Φ)
  (hsub : ∀ k, C.inv k → Ψ k → Φ k) : Safe π C me task Ψ := by
 induction task generalizing me Ψ Φ with
 | settled value => trivial
 | sync f next _ => exact fun m hinv hm => h m hinv (hsub _ hinv hm)
 | wait next _ =>
  obtain ⟨Θ, hstable, hΘ, hnext⟩ := h
  exact ⟨Θ, hstable, fun k hk hΨ => hΘ k hk (hsub k hk hΨ), hnext⟩
 | join task next _ =>
  obtain ⟨Θ, hstable, hΘ, hnext⟩ := h
  exact ⟨Θ, hstable, fun k hk hΨ => hΘ k hk (hsub k hk hΨ), hnext⟩
 | spawn body next ihbody _ =>
  obtain ⟨hbody, Θ, hstable, hΘ, hnext⟩ := h
  exact ⟨fun t => ihbody (hbody t) fun k hk hΨ => ⟨hΨ.1, hsub k hk hΨ.2⟩, Θ, hstable,
   fun k hk hΨ => hΘ k hk (hsub k hk hΨ), hnext⟩

/-- The task at `i` keeps to the contract from where it stands. -/
def Held (π : M → K) (C : Contract K E) (tasks : List (Task M A V)) (k : K) (i : ℕ) : Prop :=
  ∀ task, tasks[i]? = some task → ∃ Ψ : K → Prop, Stable C i Ψ ∧ Ψ k ∧ Safe π C i task Ψ

/-- What a run of task `i` to its next wait leaves behind. -/
structure Ran (π : M → K) (C : Contract K E) (i : ℕ) (s s' : Sys M A V) : Prop where
  inv : C.inv (π s'.memory)
  longer : s.tasks.length ≤ s'.tasks.length
  self : Held π C s'.tasks (π s'.memory) i
  called : ∀ j, s.tasks.length ≤ j → Held π C s'.tasks (π s'.memory) j
  others : ∀ j, j ≠ i → j < s.tasks.length → s'.tasks[j]? = s.tasks[j]?
  kept : ∀ j (Φ : K → Prop), j ≠ i → j < s.tasks.length ∨ s'.tasks.length ≤ j → Stable C j Φ →
   Φ (π s.memory) →
    Φ (π s'.memory)

theorem held_set {tasks : List (Task M A V)} {k : K} {i : ℕ} {task : Task M A V} {Ψ : K → Prop}
  (hstable : Stable C i Ψ)
  (hk : Ψ k) (hsafe : Safe π C i task Ψ) : Held π C (tasks.set i task) k i := by
 intro task' htask
 by_cases hi : i < tasks.length
 · rw [List.getElem?_set_self hi] at htask
   obtain rfl := Option.some.inj htask
   exact ⟨Ψ, hstable, hk, hsafe⟩
 · rw [List.getElem?_eq_none (by rw [List.length_set]; omega)] at htask
   cases htask

theorem ran_stop {s : Sys M A V} {i : ℕ} {task : Task M A V} {Ψ : K → Prop}
  (hinv : C.inv (π s.memory)) (hstable : Stable C i Ψ) (hk : Ψ (π s.memory))
  (hsafe : Safe π C i task Ψ) :
  Ran π C i s { s with tasks := s.tasks.set i task } where
 inv := hinv
 longer := by simp
 self := held_set hstable hk hsafe
 called j hj task' htask := by
  rw [List.getElem?_eq_none (by rw [List.length_set]; exact hj)] at htask
  cases htask
 others j hne _ := List.getElem?_set_ne (Ne.symm hne)
 kept _ _ _ _ _ h := h

theorem stable_true (me : ℕ) :
  Stable C me fun _ => True := ⟨fun _ _ _ _ _ _ _ => trivial, fun _ _ _ _ _ _ => trivial⟩

theorem runFrom_safe (hborn : ∀ t, Stable C t (C.unborn t)) (task : Task M A V) :
  ∀ (i : ℕ) (Ψ : K → Prop) (s : Sys M A V), i < s.tasks.length → C.inv (π s.memory) → Ψ (π s.memory) →
   (∀ t, s.tasks.length ≤ t → C.unborn t (π s.memory)) → Safe π C i task Ψ →
    Ran π C i s (runFrom i task s) := by
 induction task with
 | settled value => exact fun i Ψ s _ hinv _ _ _ => ran_stop hinv (stable_true i) trivial trivial
 | wait next _ =>
  intro i Ψ s _ hinv hk _ hsafe
  obtain ⟨Φ, hstable, hΦ, hnext⟩ := hsafe
  exact ran_stop hinv hstable (hΦ _ hinv hk) ⟨Φ, hstable, fun _ _ h => h, hnext⟩
 | join task next _ =>
  intro i Ψ s _ hinv hk _ hsafe
  obtain ⟨Φ, hstable, hΦ, hnext⟩ := hsafe
  exact ran_stop hinv hstable (hΦ _ hinv hk) ⟨Φ, hstable, fun _ _ h => h, hnext⟩
 | sync f next ih =>
  intro i Ψ s hi hinv hk hunborn hsafe
  obtain ⟨hinv', hmoves, Φ, hk', hnext⟩ := hsafe s.memory hinv hk
  have hkeep : ∀ j (Θ : K → Prop), j ≠ i → Stable C j Θ → Θ (π s.memory) → Θ (π (f i s.memory)) :=
   fun j Θ hne hΘ h => hΘ.moves i _ _ (Ne.symm hne) hinv hmoves h
  have hran := ih i s.memory i Φ { s with memory := f i s.memory } hi hinv' hk'
   (fun t ht => hkeep t _ (by have hlen : s.tasks.length ≤ t := ht; omega) (hborn t) (hunborn t ht)) hnext
  exact ⟨hran.inv, hran.longer, hran.self, hran.called, hran.others,
   fun j Θ hne hj hΘ h => hran.kept j Θ hne hj hΘ (hkeep j Θ hne hΘ h)⟩
 | spawn body next ihbody ihnext =>
  intro i Ψ s hi hinv hk hunborn hsafe
  obtain ⟨hbody, Φ, hstable, hΦ, hnext⟩ := hsafe
  have hlen : s.tasks.length < (s.tasks ++ [body]).length := by simp
  -- the callee runs first, to its first wait
  have hcallee := ihbody s.tasks.length _ { s with tasks := s.tasks ++ [body] } hlen hinv
   ⟨hunborn _ (Nat.le_refl _), hk⟩ (fun t ht => hunborn t (by simp at ht; omega)) (hbody _)
  have hlonger := hcallee.longer
  simp only [List.length_append, List.length_singleton] at hlonger
  have hunborn' :
   ∀ t, (runFrom s.tasks.length body { s with tasks := s.tasks ++ [body] }).tasks.length ≤ t →
    C.unborn t (π (runFrom s.tasks.length body { s with tasks := s.tasks ++ [body] }).memory) :=
   fun t ht => hcallee.kept t _ (by omega) (.inr ht) (hborn t) (hunborn t (by omega))
  have hmine := hcallee.kept i Φ (by omega) (.inl (by simp; omega)) hstable (hΦ _ hinv hk)
  have hran := ihnext s.tasks.length i Φ _ (by omega) hcallee.inv hmine hunborn' (hnext _)
  have hlonger' := hran.longer
  refine ⟨hran.inv, by rw [runFrom]; omega, hran.self, fun j hj => ?_, fun j hne hj => ?_, fun j Θ hne hj hΘ h => ?_⟩
  · rw [runFrom]
    by_cases hold : j < (runFrom s.tasks.length body { s with tasks := s.tasks ++ [body] }).tasks.length
    · intro task htask
      rw [hran.others j (by omega) hold] at htask
      have hheld : Held π C (runFrom s.tasks.length body { s with tasks := s.tasks ++ [body] }).tasks
        (π (runFrom s.tasks.length body { s with tasks := s.tasks ++ [body] }).memory) j := by
       rcases Nat.eq_or_lt_of_le hj with rfl | hlt
       · exact hcallee.self
       · exact hcallee.called j (by simp; omega)
      obtain ⟨Θ, hΘ, hk', hsafe'⟩ := hheld task htask
      exact ⟨Θ, hΘ, hran.kept j Θ (by omega) (.inl hold) hΘ hk', hsafe'⟩
    · exact hran.called j (by omega)
  · rw [runFrom, hran.others j hne (by omega), hcallee.others j (by omega) (by simp; omega)]
    exact List.getElem?_append_left hj
  · rw [runFrom] at hj ⊢
    have hcallee' := hcallee.kept j Θ (by omega) (by simp; omega) hΘ h
    exact hran.kept j Θ hne (by omega) hΘ hcallee'

end Contract

section Runs

variable {M A V R E K : Type} {π : M → K} {C : Contract K E} {program : R → Task M A V}
  {permitted : R → M → Bool}
  {outside : E → M → Option M} {start : M}

structure Sound (π : M → K) (C : Contract K E) (program : R → Task M A V) (permitted : R → M → Bool)
    (outside : E → M → Option M) : Prop where
  unborn : ∀ t, Stable C t (C.unborn t)
  safe : ∀ request m t, permitted request m = true → C.inv (π m) →
    ∃ Ψ : K → Prop, (C.unborn t (π m) → Ψ (π m)) ∧ Safe π C t (program request) Ψ
  outside : ∀ e m m', outside e m = some m' → C.inv (π m) → C.inv (π m') ∧ C.outside e (π m) (π m')

structure Meets (π : M → K) (C : Contract K E) (s : Sys M A V) : Prop where
  inv : C.inv (π s.memory)
  held : ∀ i, Held π C s.tasks (π s.memory) i
  unborn : ∀ t, s.tasks.length ≤ t → C.unborn t (π s.memory)

theorem Ran.meets {i : ℕ} {s s' : Sys M A V} (h : Ran π C i s s')
  (hborn : ∀ t, Stable C t (C.unborn t)) (hheld : ∀ j, j ≠ i → Held π C s.tasks (π s.memory) j)
  (hunborn : ∀ t, s.tasks.length ≤ t → C.unborn t (π s.memory)) (hi : i < s.tasks.length) :
  Meets π C s' where
 inv := h.inv
 held j task htask := by
  by_cases hself : j = i
  · subst hself
    exact h.self task htask
  · by_cases hj : j < s.tasks.length
    · rw [h.others j hself hj] at htask
      obtain ⟨Ψ, hstable, hk, hsafe⟩ := hheld j hself task htask
      exact ⟨Ψ, hstable, h.kept j Ψ hself (.inl hj) hstable hk, hsafe⟩
    · exact h.called j (by omega) task htask
 unborn t ht := by
  have hlonger := h.longer
  exact h.kept t _ (by omega) (.inr ht) (hborn t) (hunborn t (by omega))

theorem held_append {tasks : List (Task M A V)} {k : K} {body : Task M A V} {j : ℕ}
  (hne : j ≠ tasks.length) (h : Held π C tasks k j) : Held π C (tasks ++ [body]) k j := by
 intro task htask
 by_cases hj : j < tasks.length
 · rw [List.getElem?_append_left hj] at htask
   exact h task htask
 · rw [List.getElem?_eq_none (by simp; omega)] at htask
   cases htask

theorem step_meets (hsound : Sound π C program permitted outside) {s s' : Sys M A V}
  {a : Action R A E} (h : Meets π C s) (hstep : step program permitted outside s a = some s') :
  Meets π C s' := by
 cases a with
 | call request =>
  rw [step] at hstep
  split at hstep
  · next hpermitted =>
    cases hstep
    obtain ⟨Ψ, hk, hsafe⟩ := hsound.safe request s.memory s.tasks.length hpermitted h.inv
    refine (runFrom_safe hsound.unborn (program request) s.tasks.length Ψ
     { s with tasks := s.tasks ++ [program request] } (by simp) h.inv (hk (h.unborn _ (Nat.le_refl _)))
     (fun t ht => h.unborn t
      (by simp at ht; omega)) hsafe).meets hsound.unborn (fun j hne => ?_) (fun t ht => ?_)
     (by simp)
    · exact held_append hne (h.held j)
    · exact h.unborn t (by simp at ht; omega)
  · cases hstep
 | answer i a =>
  obtain ⟨task, htask, rfl⟩ := Option.map_eq_some_iff.1 hstep
  obtain ⟨waiting, hwaiting, hanswer⟩ := Option.bind_eq_some_iff.1 htask
  have hi := (List.getElem?_eq_some_iff.1 hwaiting).1
  obtain ⟨Ψ, hstable, hk, hsafe⟩ := h.held i waiting hwaiting
  have hnext : Safe π C i task Ψ := by
   cases waiting with
   | wait next =>
    obtain rfl := Option.some.inj hanswer
    obtain ⟨Φ, -, hΦ, hnext⟩ := hsafe
    exact (hnext a).mono hΦ
   | settled value => cases hanswer
   | sync f next => cases hanswer
   | join t next => cases hanswer
   | spawn body next => cases hanswer
  exact (runFrom_safe hsound.unborn task i Ψ s hi h.inv hk h.unborn hnext).meets hsound.unborn
   (fun j _ => h.held j) h.unborn hi
 | resume i =>
  obtain ⟨task, htask, rfl⟩ := Option.map_eq_some_iff.1 hstep
  obtain ⟨waiting, hwaiting, hjoin⟩ := Option.bind_eq_some_iff.1 htask
  have hi := (List.getElem?_eq_some_iff.1 hwaiting).1
  obtain ⟨Ψ, hstable, hk, hsafe⟩ := h.held i waiting hwaiting
  have hnext : Safe π C i task Ψ := by
   cases waiting with
   | join t next =>
    obtain ⟨value, -, rfl⟩ := Option.map_eq_some_iff.1 hjoin
    obtain ⟨Φ, -, hΦ, hnext⟩ := hsafe
    exact (hnext value).mono hΦ
   | settled value => cases hjoin
   | sync f next => cases hjoin
   | wait next => cases hjoin
   | spawn body next => cases hjoin
  exact (runFrom_safe hsound.unborn task i Ψ s hi h.inv hk h.unborn hnext).meets hsound.unborn
   (fun j _ => h.held j) h.unborn hi
 | outside e =>
  obtain ⟨m, hm, rfl⟩ := Option.map_eq_some_iff.1 hstep
  obtain ⟨hinv, hmove⟩ := hsound.outside e s.memory m hm h.inv
  refine ⟨hinv, fun i task htask => ?_, fun t ht => ?_⟩
  · obtain ⟨Ψ, hstable, hk, hsafe⟩ := h.held i task htask
    exact ⟨Ψ, hstable, hstable.outside e _ _ h.inv hmove hk, hsafe⟩
  · exact (hsound.unborn t).outside e _ _ h.inv hmove (h.unborn t ht)

theorem reachable_meets (hsound : Sound π C program permitted outside) (hinv : C.inv (π start))
  (hunborn : ∀ t, C.unborn t (π start)) {s : Sys M A V}
  (h : Reachable program permitted outside start s) :
  Meets π C s := by
 induction h with
 | start => exact ⟨hinv, fun i task htask => by simp at htask, fun t _ => hunborn t⟩
 | step a _ hstep ih => exact step_meets hsound ih hstep

end Runs

section Rules

variable {M A V K E : Type} {π : M → K} {C : Contract K E} {me : ℕ} {Ψ : K → Prop}

theorem safe_wait {next : A → Task M A V} (hstable : Stable C me Ψ)
  (hnext : ∀ a, Safe π C me (next a) Ψ) :
  Safe π C me (.wait next) Ψ := ⟨Ψ, hstable, fun _ _ h => h, hnext⟩

theorem safe_join {task : ℕ} {next : V → Task M A V} (hstable : Stable C me Ψ)
  (hnext : ∀ value, Safe π C me (next value) Ψ) :
  Safe π C me (.join task next) Ψ := ⟨Ψ, hstable, fun _ _ h => h, hnext⟩

theorem safe_spawn {body : Task M A V} {next : ℕ → Task M A V} (hstable : Stable C me Ψ)
  (hbody : ∀ t, Safe π C t body (C.unborn t)) (hnext : ∀ t, Safe π C me (next t) Ψ) :
   Safe π C me (.spawn body next) Ψ :=
 ⟨fun t => (hbody t).mono fun _ _ h => h.1, Ψ, hstable, fun _ _ h => h, hnext⟩

theorem safe_quiet {f : ℕ → M → M} {next : ℕ → M → Task M A V} (hquiet : ∀ m, π (f me m) = π m)
  (hrefl : ∀ k, C.inv k → C.moves me k k) (hnext : ∀ m, Ψ (π m) → Safe π C me (next me m) Ψ) :
  Safe π C me (.sync f next) Ψ := by
 intro m hinv hm
 rw [hquiet m]
 exact ⟨hinv, hrefl _ hinv, Ψ, hm, hnext m hm⟩

end Rules

end BoardGamesEmpire.AsyncTasks
