import BoardGamesEmpire.ReadCommitted

set_option autoImplicit false

/-!
# A rely-guarantee rule for interleaved transactions

A protocol says, for every commit, what it did to the store (`Effect`) and what
its locks had to cover (`Guarantee`). A program is safe when, whatever the
others commit without breaking its locks, its own commits keep the protocol.
Programs that are safe one by one are safe together.
-/
namespace BoardGamesEmpire.ReadCommittedProtocol
open ReadCommitted

section Compatible

variable {K A : Type}

def Compatible (held other : List (Lock K A)) : Prop := ∀ a ∈ held, ∀ b ∈ other, ¬ a.Conflicts b

theorem Compatible.symm {held other : List (Lock K A)} (h : Compatible held other) :
  Compatible other held :=
 fun a ha b hb hconf => h b hb a ha ⟨hconf.1.symm, hconf.2.symm⟩

theorem compatible_nil (held : List (Lock K A)) : Compatible [] held := fun _ h => by simp at h

end Compatible

section Protocol

variable {K : Type} [DecidableEq K] {Row : K → Type} {A E : Type}

structure Protocol (Row : K → Type) (A E : Type) where
  inv : Shared Row E → Prop
  effect : Shared Row E → E → AList Row → Prop
  guarantee : List (Lock K A) → AList Row → AList Row → Prop
  outside : K → Bool

def LogLocked (held : List (Lock K A)) (log : List (Write Row)) : Prop :=
  ∀ w ∈ log, (⟨.row w.key, true⟩ : Lock K A) ∈ held

/-- One step of the surroundings, seen by a process that holds `held`. -/
inductive Rely (P : Protocol Row A E) (held : List (Lock K A)) (σ : Shared Row E) :
    Shared Row E → Prop where
  | tick : Rely P held σ σ.tick
  | commit (other : List (Lock K A)) (event : E) (db : AList Row) (hfree : Compatible held other)
      (hrows : ∀ k, db.lookup k ≠ σ.db.lookup k → (⟨.row k, true⟩ : Lock K A) ∈ other)
      (hguar : P.guarantee other σ.db db) (heffect : P.effect σ event db) :
      Rely P held σ (σ.commit event db)
  | outside (w : Write Row) (hkey : P.outside w.key = true)
      (hfree : Compatible held [⟨.row w.key, true⟩]) :
      Rely P held σ { σ.tick with db := applyWrite σ.db w }

inductive Later (P : Protocol Row A E) (held : List (Lock K A)) (σ : Shared Row E) :
    Shared Row E → Prop where
  | refl : Later P held σ σ
  | step {σ' σ'' : Shared Row E} (h : Later P held σ σ') (hinv : P.inv σ') (hinv' : P.inv σ'')
      (hrely : Rely P held σ' σ'') : Later P held σ σ''

/-- Safe to run on from here, holding `held` and with `log` buffered. -/
def Safe (P : Protocol Row A E) :
    Code Row A E → List (Lock K A) → List (Write Row) → Shared Row E → Prop
  | .halt, _, _, _ => True
  | .start recover body, held, log, σ => ∀ σ', Later P held σ σ' → P.inv σ' →
      Safe P body held log σ'.tick ∧ Safe P recover [] [] σ'.tick
  | .stmt locks writes next, held, log, σ => ∀ σ', Later P held σ σ' → P.inv σ' →
      LogLocked held log → P.inv σ'.tick →
      Safe P (next σ'.clock (view σ' log))
        (held ++ (locks (view σ' log) ++ writeLocks (writes σ'.clock (view σ' log))))
        (log ++ writes σ'.clock (view σ' log)) σ'.tick
  | .commit event next, held, log, σ => ∀ σ', Later P held σ σ' → P.inv σ' → LogLocked held log →
      P.guarantee held σ'.db (applyLog σ'.db log) ∧ P.effect σ' event (applyLog σ'.db log) ∧
      Safe P next [] [] (σ'.commit event (applyLog σ'.db log))
  | .rollback next, held, _, σ => ∀ σ', Later P held σ σ' → P.inv σ' → Safe P next [] [] σ'.tick

theorem Later.trans {P : Protocol Row A E} {held : List (Lock K A)} {σ σ' σ'' : Shared Row E}
  (h : Later P held σ σ') (h' : Later P held σ' σ'') : Later P held σ σ'' := by
 induction h' with
 | refl => exact h
 | step _ hinv hinv' hrely ih => exact ih.step hinv hinv' hrely

theorem Safe.later {P : Protocol Row A E} {code : Code Row A E} {held : List (Lock K A)}
  {log : List (Write Row)} {σ σ' : Shared Row E} (h : Safe P code held log σ)
  (hlater : Later P held σ σ') : Safe P code held log σ' := by
 cases code with
 | halt => trivial
 | start recover body => exact fun τ hτ => h τ (hlater.trans hτ)
 | stmt locks writes next => exact fun τ hτ => h τ (hlater.trans hτ)
 | commit event next => exact fun τ hτ => h τ (hlater.trans hτ)
 | rollback next => exact fun τ hτ => h τ (hlater.trans hτ)

def Stable (P : Protocol Row A E) (held : List (Lock K A)) (φ : Shared Row E → Prop) : Prop :=
  ∀ σ σ', φ σ → P.inv σ → P.inv σ' → Rely P held σ σ' → φ σ'

theorem Stable.later {P : Protocol Row A E} {held : List (Lock K A)} {φ : Shared Row E → Prop}
  (hφ : Stable P held φ) {σ σ' : Shared Row E} (hlater : Later P held σ σ') (h : φ σ) : φ σ' := by
 induction hlater with
 | refl => exact h
 | step _ hinv hinv' hrely ih => exact hφ _ _ ih hinv hinv' hrely

theorem Stable.and {P : Protocol Row A E} {held : List (Lock K A)} {φ ψ : Shared Row E → Prop}
  (hφ : Stable P held φ) (hψ : Stable P held ψ) : Stable P held fun σ => φ σ ∧ ψ σ :=
 fun σ σ' h hinv hinv' hrely =>
  ⟨hφ σ σ' h.1 hinv hinv' hrely, hψ σ σ' h.2 hinv hinv' hrely⟩

theorem Rely.row {P : Protocol Row A E} {held : List (Lock K A)} {σ σ' : Shared Row E}
  (h : Rely P held σ σ') {k : K} {exclusive : Bool}
  (hk : (⟨.row k, exclusive⟩ : Lock K A) ∈ held) : σ'.db.lookup k = σ.db.lookup k := by
 cases h with
 | tick => rfl
 | commit other event db hfree hrows hguar heffect =>
  by_contra hne
  exact hfree _ hk _ (hrows k hne) ⟨rfl, .inr rfl⟩
 | outside w hkey hfree =>
  have hne : k ≠ w.key := by
   rintro rfl
   exact hfree _ hk _ (List.mem_singleton.2 rfl) ⟨rfl, .inr rfl⟩
  exact lookup_applyWrite_ne _ hne

theorem Rely.view {P : Protocol Row A E} {held : List (Lock K A)} {log : List (Write Row)}
  {σ σ' : Shared Row E} (h : Rely P held σ σ') (hlog : LogLocked held log) (k : K) :
  (σ'.db.lookup k = σ.db.lookup k ∧
   (ReadCommitted.view σ' log).lookup k = (ReadCommitted.view σ log).lookup k) ∨
  ((ReadCommitted.view σ' log).lookup k = σ'.db.lookup k ∧
   (ReadCommitted.view σ log).lookup k = σ.db.lookup k) := by
 by_cases hmem : ∃ w ∈ log, w.key = k
 · obtain ⟨w, hw, rfl⟩ := hmem
   exact .inl ⟨h.row (hlog w hw), lookup_applyLog_of_mem _ _ ⟨w, hw, rfl⟩⟩
 · have hnot : ∀ w ∈ log, w.key ≠ k := fun w hw heq => hmem ⟨w, hw, heq⟩
   exact .inr ⟨lookup_applyLog_of_notMem _ hnot, lookup_applyLog_of_notMem _ hnot⟩

theorem Rely.of_nil {P : Protocol Row A E} {held : List (Lock K A)} {σ σ' : Shared Row E}
  (h : Rely P held σ σ') : Rely P [] σ σ' := by
 cases h with
 | tick => exact .tick
 | commit other event db _ hrows hguar heffect =>
  exact .commit other event db (compatible_nil _) hrows hguar heffect
 | outside w hkey _ => exact .outside w hkey (compatible_nil _)

section Rules

variable {P : Protocol Row A E} {held : List (Lock K A)} {log : List (Write Row)} {σ : Shared Row E}
  {φ : Shared Row E → Prop}

theorem Stable.weaken (hφ : Stable P [] φ) (held : List (Lock K A)) : Stable P held φ :=
 fun σ σ' h hinv hinv' hrely => hφ σ σ' h hinv hinv' hrely.of_nil

theorem stable_const (P : Protocol Row A E) (held : List (Lock K A)) (p : Prop) :
  Stable P held fun _ => p :=
 fun _ _ h _ _ _ => h

theorem safe_stmt {locks : AList Row → List (Lock K A)} {writes : ℕ → AList Row → List (Write Row)}
  {next : ℕ → AList Row → Code Row A E} (hφ : LogLocked held log → Stable P held φ) (h : φ σ)
  (hnext : ∀ σ', P.inv σ' → P.inv σ'.tick → LogLocked held log → φ σ' →
   Safe P (next σ'.clock (view σ' log))
    (held ++ (locks (view σ' log) ++ writeLocks (writes σ'.clock (view σ' log))))
    (log ++ writes σ'.clock (view σ' log)) σ'.tick) :
  Safe P (.stmt locks writes next) held log σ :=
 fun σ' hlater hinv hlocked htick =>
  hnext σ' hinv htick hlocked ((hφ hlocked).later hlater h)

theorem safe_commit {event : E} {next : Code Row A E} (hφ : LogLocked held log → Stable P held φ)
  (h : φ σ) (hnext : ∀ σ', P.inv σ' → LogLocked held log → φ σ' →
   P.guarantee held σ'.db (applyLog σ'.db log) ∧ P.effect σ' event (applyLog σ'.db log) ∧
   Safe P next [] [] (σ'.commit event (applyLog σ'.db log))) :
  Safe P (.commit event next) held log σ :=
 fun σ' hlater hinv hlocked => hnext σ' hinv hlocked ((hφ hlocked).later hlater h)

theorem safe_rollback {next : Code Row A E} (hφ : Stable P held φ) (h : φ σ)
  (hnext : ∀ σ', P.inv σ' → φ σ' → Safe P next [] [] σ'.tick) :
  Safe P (.rollback next) held log σ :=
 fun σ' hlater hinv => hnext σ' hinv (hφ.later hlater h)

theorem safe_start {recover body : Code Row A E} (hφ : Stable P held φ) (h : φ σ)
  (hnext : ∀ σ', P.inv σ' → φ σ' → Safe P body held log σ'.tick ∧ Safe P recover [] [] σ'.tick) :
  Safe P (.start recover body) held log σ :=
 fun σ' hlater hinv => hnext σ' hinv (hφ.later hlater h)

end Rules

end Protocol

section Soundness

variable {K : Type} [DecidableEq K] {Row : K → Type} {A E R : Type}

structure Sound (P : Protocol Row A E) (program : R → Code Row A E) : Prop where
  safe : ∀ request σ, P.inv σ → Safe P (program request) [] [] σ
  tick : ∀ σ, P.inv σ → P.inv σ.tick
  commit : ∀ σ event db, P.inv σ → P.effect σ event db → P.inv (σ.commit event db)
  outside : ∀ σ w, P.inv σ → P.outside w.key = true →
    P.inv { σ.tick with db := applyWrite σ.db w }

/-- A process in good standing: safe now, safe if rolled back, and holding what it wrote. -/
structure Standing (P : Protocol Row A E) (σ : Shared Row E) (p : Proc Row A E) : Prop where
  code : Safe P p.code p.held p.log σ
  recover : Safe P p.recover [] [] σ
  locked : LogLocked p.held p.log

structure WellRun (P : Protocol Row A E) (s : Sys Row A E) : Prop where
  inv : P.inv s.shared
  standing : ∀ (i : ℕ) (p : Proc Row A E), s.procs[i]? = some p → Standing P s.shared p
  compatible : ∀ (i j : ℕ) (p q : Proc Row A E), s.procs[i]? = some p → s.procs[j]? = some q → i ≠ j →
    Compatible p.held q.held

theorem Standing.rely {P : Protocol Row A E} {σ σ' : Shared Row E} {p : Proc Row A E}
  (h : Standing P σ p) (hinv : P.inv σ) (hinv' : P.inv σ') (hrely : Rely P p.held σ σ') :
  Standing P σ' p :=
 ⟨h.code.later (.step .refl hinv hinv' hrely),
  h.recover.later (.step .refl hinv hinv' hrely.of_nil), h.locked⟩

theorem Standing.idle {P : Protocol Row A E} {σ : Shared Row E} {code : Code Row A E}
  (h : Safe P code [] [] σ) : Standing P σ ⟨code, [], [], .halt⟩ :=
 ⟨h, trivial, fun _ hw => by simp at hw⟩

theorem WellRun.move {P : Protocol Row A E} {s : Sys Row A E} (h : WellRun P s) {i : ℕ}
  {p' : Proc Row A E} {σ' : Shared Row E} (hinv : P.inv σ')
  (hrely : ∀ (j : ℕ) (q : Proc Row A E), j ≠ i → s.procs[j]? = some q → Rely P q.held s.shared σ')
  (hp : Standing P σ' p')
  (hfree : ∀ (j : ℕ) (q : Proc Row A E), i ≠ j → s.procs[j]? = some q → Compatible p'.held q.held) :
  WellRun P ⟨σ', s.procs.set i p'⟩ := by
 refine ⟨hinv, ?_, ?_⟩
 · intro j q hq
   rcases getElem?_set_cases hq with ⟨rfl, rfl⟩ | ⟨hji, hq⟩
   · exact hp
   · exact (h.standing j q hq).rely h.inv hinv (hrely j q hji hq)
 · intro j k q r hq hr hjk
   rcases getElem?_set_cases hq with ⟨rfl, rfl⟩ | ⟨hji, hq'⟩
   · rcases getElem?_set_cases hr with ⟨rfl, rfl⟩ | ⟨-, hr'⟩
     · exact absurd rfl hjk
     · exact hfree k r hjk hr'
   · rcases getElem?_set_cases hr with ⟨rfl, rfl⟩ | ⟨-, hr'⟩
     · exact (hfree j q (Ne.symm hji) hq').symm
     · exact h.compatible j k q r hq' hr' hjk

variable [DecidableEq A]

theorem granted_compatible {procs : List (Proc Row A E)} {i j : ℕ} {wanted : List (Lock K A)}
  {q : Proc Row A E} (h : granted procs i wanted = true) (hq : procs[j]? = some q) (hne : i ≠ j) :
  Compatible wanted q.held := by
 simp only [granted, List.all_eq_true] at h
 have hmem : (q, j) ∈ procs.zipIdx := List.mem_zipIdx_iff_getElem?.2 hq
 have hall := h (q, j) hmem
 simp only [Bool.or_eq_true, beq_iff_eq, List.all_eq_true, decide_eq_true_eq] at hall
 intro a ha b hb
 exact (hall.resolve_left (Ne.symm hne)) a ha b hb

inductive Moves (P : Protocol Row A E) (σ : Shared Row E) : Shared Row E → Prop where
  | tick : Moves P σ σ.tick
  | commit (event : E) (db : AList Row) (h : P.effect σ event db) : Moves P σ (σ.commit event db)
  | outside (w : Write Row) (h : P.outside w.key = true) :
      Moves P σ { σ.tick with db := applyWrite σ.db w }

section Step

variable {P : Protocol Row A E} {program : R → Code Row A E} {s s' : Sys Row A E}

theorem advance_wellRun (hsound : Sound P program) (h : WellRun P s) {i : ℕ} {p : Proc Row A E}
  (hi : s.procs[i]? = some p) (hstep : advance s i p = some s') :
  WellRun P s' ∧ Moves P s.shared s'.shared := by
 obtain ⟨hcode, hrecover, hlocked⟩ := h.standing i p hi
 have htick := hsound.tick _ h.inv
 unfold advance at hstep
 cases hc : p.code with
 | halt => simp [hc] at hstep
 | start recover body =>
  simp only [hc, Option.some.injEq] at hstep
  subst hstep
  rw [hc] at hcode
  obtain ⟨hbody, hrec⟩ := hcode _ .refl h.inv
  refine ⟨h.move htick (fun _ _ _ _ => .tick) ⟨hbody, hrec, hlocked⟩ ?_, .tick⟩
  exact fun j q hij hq => h.compatible i j p q hi hq hij
 | stmt locks writes next =>
  simp only [hc] at hstep
  split at hstep
  swap
  · cases hstep
  rename_i hgranted
  cases hstep
  rw [hc] at hcode
  have hnext := hcode _ .refl h.inv hlocked htick
  refine ⟨h.move htick (fun _ _ _ _ => .tick) ⟨hnext, ?_, ?_⟩ ?_, .tick⟩
  · exact hrecover.later (.step .refl h.inv htick .tick)
  · intro w hw
    rcases List.mem_append.1 hw with hw | hw
    · exact List.mem_append_left _ (hlocked w hw)
    · refine List.mem_append_right _ (List.mem_append_right _ ?_)
      exact List.mem_map.2 ⟨w, hw, rfl⟩
  · intro j q hij hq a ha
    rcases List.mem_append.1 ha with ha | ha
    · exact h.compatible i j p q hi hq hij a ha
    · exact granted_compatible hgranted hq hij a ha
 | commit event next =>
  simp only [hc, Option.some.injEq] at hstep
  subst hstep
  rw [hc] at hcode
  obtain ⟨hguar, heffect, hnext⟩ := hcode _ .refl h.inv hlocked
  have hrows : ∀ k, (applyLog s.shared.db p.log).lookup k ≠ s.shared.db.lookup k →
    (⟨.row k, true⟩ : Lock K A) ∈ p.held := by
   intro k hne
   by_contra hnot
   apply hne
   apply lookup_applyLog_of_notMem
   rintro w hw rfl
   exact hnot (hlocked w hw)
  refine ⟨h.move (hsound.commit _ _ _ h.inv heffect) ?_ (.idle hnext) ?_, .commit _ _ heffect⟩
  · intro j q hji hq
    exact .commit p.held event _ (h.compatible j i q p hq hi hji) hrows hguar heffect
  · exact fun _ _ _ _ => compatible_nil _
 | rollback next =>
  simp only [hc, Option.some.injEq] at hstep
  subst hstep
  rw [hc] at hcode
  refine ⟨h.move htick (fun _ _ _ _ => .tick) (.idle (hcode _ .refl h.inv)) ?_, .tick⟩
  exact fun _ _ _ _ => compatible_nil _

theorem step_wellRun (hsound : Sound P program) (h : WellRun P s) {a : Action Row R}
  (hstep : step program P.outside s a = some s') : WellRun P s' ∧ Moves P s.shared s'.shared := by
 have htick := hsound.tick _ h.inv
 cases a with
 | advance i =>
  obtain ⟨p, hi, hadv⟩ := Option.bind_eq_some_iff.1 hstep
  exact advance_wellRun hsound h hi hadv
 | deadlock i =>
  obtain ⟨p, hi, rfl⟩ := Option.map_eq_some_iff.1 hstep
  have hrec := (h.standing i p hi).recover.later (.step .refl h.inv htick .tick)
  exact ⟨h.move htick (fun _ _ _ _ => .tick) (.idle hrec) fun _ _ _ _ => compatible_nil _, .tick⟩
 | crash i =>
  obtain ⟨p, hi, rfl⟩ := Option.map_eq_some_iff.1 hstep
  exact ⟨h.move htick (fun _ _ _ _ => .tick) (.idle trivial) fun _ _ _ _ => compatible_nil _, .tick⟩
 | outside w =>
  simp only [step] at hstep
  split at hstep
  swap
  · cases hstep
  rename_i hfree
  simp only [Bool.and_eq_true] at hfree
  cases hstep
  have hinv := hsound.outside _ w h.inv hfree.1
  refine ⟨⟨hinv, ?_, h.compatible⟩, .outside w hfree.1⟩
  intro i p hi
  have hlen : s.procs.length ≠ i := by
   have hlt : i < s.procs.length := (List.getElem?_eq_some_iff.1 hi).1
   omega
  exact (h.standing i p hi).rely h.inv hinv
   (.outside w hfree.1 (granted_compatible hfree.2 hi hlen).symm)
 | spawn request =>
  cases hstep
  have hnew := hsound.safe request _ htick
  refine ⟨⟨htick, ?_, ?_⟩, .tick⟩
  · intro i p hi
    rcases getElem?_concat_cases hi with hi | ⟨-, rfl⟩
    · exact (h.standing i p hi).rely h.inv htick .tick
    · exact .idle hnew
  · intro i j p q hi hj hij
    rcases getElem?_concat_cases hi with hi | ⟨-, rfl⟩
    · rcases getElem?_concat_cases hj with hj | ⟨-, rfl⟩
      · exact h.compatible i j p q hi hj hij
      · exact (compatible_nil _).symm
    · exact compatible_nil _

theorem reachable_wellRun (hsound : Sound P program) {db : AList Row} (hinit : P.inv ⟨db, 0, []⟩)
  (h : Reachable program P.outside db s) : WellRun P s := by
 induction h with
 | start => exact ⟨hinit, fun i p hi => by simp [initial] at hi, fun i j p q hi => by
   simp [initial] at hi⟩
 | step a _ hstep ih => exact (step_wellRun hsound ih hstep).1

theorem reachable_induction (hsound : Sound P program) {db : AList Row}
  (hinit : P.inv ⟨db, 0, []⟩) (motive : Shared Row E → Prop) (hstart : motive ⟨db, 0, []⟩)
  (hmoves : ∀ σ σ', P.inv σ → motive σ → Moves P σ σ' → motive σ')
  (h : Reachable program P.outside db s) : motive s.shared := by
 induction h with
 | start => exact hstart
 | step a hreach hstep ih =>
  have hwell := reachable_wellRun hsound hinit hreach
  exact hmoves _ _ hwell.inv ih (step_wellRun hsound hwell hstep).2

end Step

end Soundness

section Pairs

def KeptBy {α : Type} (moves : α → α → α → α → Prop) (rel : α → α → Prop) : Prop :=
  ∀ db v db' v', rel db v → moves db v db' v' → rel db' v'

theorem KeptBy.and {α : Type} {moves : α → α → α → α → Prop} {rel rel' : α → α → Prop}
  (h : KeptBy moves rel) (h' : KeptBy moves rel') :
  KeptBy moves fun db v => rel db v ∧ rel' db v :=
 fun db v db' v' hrel hmoves => ⟨h db v db' v' hrel.1 hmoves, h' db v db' v' hrel.2 hmoves⟩

end Pairs

end BoardGamesEmpire.ReadCommittedProtocol
