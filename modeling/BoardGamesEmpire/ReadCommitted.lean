import Mathlib
import BoardGamesEmpire.PhasedCalls

set_option autoImplicit false

/-!
# Interleaved transactions under READ COMMITTED

A small operational model of a row store with row locks and named advisory
locks. A program is a sequence of statements. Each statement sees the committed
rows with the transaction's own writes over them, waits for the locks it takes,
and buffers its writes; the writes reach the store when the transaction
commits. A statement that waits runs on the state it wakes up in.
-/
namespace BoardGamesEmpire.ReadCommitted

inductive Lockable (K A : Type) where
  | row (key : K)
  | advisory (name : A)
deriving DecidableEq

structure Lock (K A : Type) where
  target : Lockable K A
  exclusive : Bool
deriving DecidableEq

def Lock.Conflicts {K A : Type} (a b : Lock K A) : Prop :=
  a.target = b.target ∧ (a.exclusive = true ∨ b.exclusive = true)

instance {K A : Type} [DecidableEq K] [DecidableEq A] (a b : Lock K A) :
    Decidable (a.Conflicts b) := inferInstanceAs (Decidable (_ ∧ _))

/-- A buffered write of one row; `none` deletes it. -/
structure Write {K : Type} (Row : K → Type) where
  key : K
  value : Option (Row key)

section Store

variable {K : Type} [DecidableEq K] {Row : K → Type}

def applyWrite (db : AList Row) (w : Write Row) : AList Row :=
  match w.value with
  | some row => db.insert w.key row
  | none => db.erase w.key

def applyLog (db : AList Row) (log : List (Write Row)) : AList Row := log.foldl applyWrite db

@[simp] theorem applyLog_nil (db : AList Row) : applyLog db [] = db := rfl

theorem applyLog_append (db : AList Row) (log more : List (Write Row)) :
  applyLog db (log ++ more) = applyLog (applyLog db log) more := List.foldl_append

@[simp] theorem lookup_applyWrite_self (db : AList Row) (k : K) (value : Option (Row k)) :
  (applyWrite db ⟨k, value⟩).lookup k = value := by
 cases value with
 | none => exact AList.lookup_erase k db
 | some row => exact AList.lookup_insert db

variable {k : K}

theorem lookup_applyWrite_ne (db : AList Row) {w : Write Row} (h : k ≠ w.key) :
  (applyWrite db w).lookup k = db.lookup k := by
 unfold applyWrite
 split
 · exact AList.lookup_insert_ne h
 · exact AList.lookup_erase_ne h

variable {log : List (Write Row)}

theorem lookup_applyLog_of_notMem (db : AList Row)
  (h : ∀ w ∈ log, w.key ≠ k) : (applyLog db log).lookup k = db.lookup k := by
 induction log generalizing db with
 | nil => rfl
 | cons w log ih =>
  change (applyLog (applyWrite db w) log).lookup k = _
  rw [ih _ fun v hv => h v (List.mem_cons_of_mem _ hv)]
  exact lookup_applyWrite_ne db (Ne.symm (h w List.mem_cons_self))

theorem lookup_applyLog_of_mem (db db' : AList Row)
  (h : ∃ w ∈ log, w.key = k) : (applyLog db log).lookup k = (applyLog db' log).lookup k := by
 induction log generalizing db db' with
 | nil => simp at h
 | cons w log ih =>
  change (applyLog (applyWrite db w) log).lookup k = (applyLog (applyWrite db' w) log).lookup k
  by_cases hlater : ∃ v ∈ log, v.key = k
  · exact ih _ _ hlater
  · have hnot : ∀ v ∈ log, v.key ≠ k := fun v hv heq => hlater ⟨v, hv, heq⟩
    obtain ⟨v, hv, hkey⟩ := h
    obtain rfl : v = w := (List.mem_cons.1 hv).resolve_right fun hv => hlater ⟨v, hv, hkey⟩
    subst hkey
    rw [lookup_applyLog_of_notMem _ hnot, lookup_applyLog_of_notMem _ hnot,
     lookup_applyWrite_self, lookup_applyWrite_self]

theorem lookup_applyLog_eq (db : AList Row) {value : Option (Row k)}
  (hmem : ∃ w ∈ log, w.key = k) (hagree : ∀ w ∈ log, w.key = k → w = ⟨k, value⟩) :
  (applyLog db log).lookup k = value := by
 induction log generalizing db with
 | nil => simp at hmem
 | cons w log ih =>
  change (applyLog (applyWrite db w) log).lookup k = value
  by_cases hlater : ∃ v ∈ log, v.key = k
  · exact ih _ hlater fun v hv => hagree v (List.mem_cons_of_mem _ hv)
  · obtain ⟨v, hv, hkey⟩ := hmem
    obtain rfl : v = w := (List.mem_cons.1 hv).resolve_right fun hv => hlater ⟨v, hv, hkey⟩
    rw [lookup_applyLog_of_notMem _ fun u hu heq => hlater ⟨u, hu, heq⟩,
     hagree v List.mem_cons_self hkey]
    exact lookup_applyWrite_self db k value

theorem lookup_applyLog_erased (db : AList Row)
  (herase : ∀ w ∈ log, w.value = none) (h : ∃ w ∈ log, w.key = k) :
  (applyLog db log).lookup k = none := by
 refine lookup_applyLog_eq db h fun w hw hkey => ?_
 obtain ⟨key, value⟩ := w
 obtain rfl : value = none := herase _ hw
 obtain rfl : key = k := hkey
 rfl

end Store

section Machine

variable {K : Type} {Row : K → Type} {A E : Type}

/-- A program over the store. `start` keeps where a deadlock victim resumes;
    statements get the clock, which no other statement sees again. -/
inductive Code (Row : K → Type) (A E : Type) where
  | halt
  | start (recover body : Code Row A E)
  | stmt (locks : AList Row → List (Lock K A)) (writes : ℕ → AList Row → List (Write Row))
      (next : ℕ → AList Row → Code Row A E)
  | commit (event : E) (next : Code Row A E)
  | rollback (next : Code Row A E)

def Code.query (next : ℕ → AList Row → Code Row A E) : Code Row A E :=
  .stmt (fun _ => []) (fun _ _ => []) next

/-- A locking read: `FOR SHARE`, `FOR UPDATE` or an advisory lock. -/
def Code.lock (locks : AList Row → List (Lock K A)) (next : ℕ → AList Row → Code Row A E) :
    Code Row A E :=
  .stmt locks (fun _ _ => []) next

/-- A write, which holds the rows it writes; `next` sees the rows it ran on. -/
def Code.execute (writes : ℕ → AList Row → List (Write Row)) (next : ℕ → AList Row → Code Row A E) :
    Code Row A E :=
  .stmt (fun _ => []) writes next

structure Proc (Row : K → Type) (A E : Type) where
  code : Code Row A E
  held : List (Lock K A)
  log : List (Write Row)
  recover : Code Row A E

structure Entry (Row : K → Type) (E : Type) where
  event : E
  time : ℕ
  before : AList Row
  after : AList Row

structure Shared (Row : K → Type) (E : Type) where
  db : AList Row
  clock : ℕ
  ledger : List (Entry Row E)

structure Sys (Row : K → Type) (A E : Type) where
  shared : Shared Row E
  procs : List (Proc Row A E)

def Shared.tick (σ : Shared Row E) : Shared Row E := { σ with clock := σ.clock + 1 }

def Shared.commit (σ : Shared Row E) (event : E) (db : AList Row) : Shared Row E :=
  ⟨db, σ.clock + 1, σ.ledger ++ [⟨event, σ.clock, σ.db, db⟩]⟩

/-- Requests start programs; a waiting or running program may be chosen as a
    deadlock victim or die; other services write the rows they own. -/
inductive Action (Row : K → Type) (R : Type) where
  | spawn (request : R)
  | advance (i : ℕ)
  | deadlock (i : ℕ)
  | crash (i : ℕ)
  | outside (w : Write Row)

def writeLocks (ws : List (Write Row)) : List (Lock K A) :=
  ws.map fun w => ⟨.row w.key, true⟩

variable [DecidableEq K] [DecidableEq A]

/-- No process but `i` stands in the way of the wanted locks. -/
def granted (procs : List (Proc Row A E)) (i : ℕ) (wanted : List (Lock K A)) : Bool :=
  procs.zipIdx.all fun (q, j) => j == i || wanted.all fun l => q.held.all fun l' => ¬ l.Conflicts l'

def view (σ : Shared Row E) (log : List (Write Row)) : AList Row := applyLog σ.db log

def advance (s : Sys Row A E) (i : ℕ) (p : Proc Row A E) : Option (Sys Row A E) :=
  match p.code with
  | .halt => none
  | .start recover body =>
    some ⟨s.shared.tick, s.procs.set i { p with code := body, recover := recover }⟩
  | .stmt locks writes next =>
    let v := view s.shared p.log
    let ws := writes s.shared.clock v
    let wanted := locks v ++ writeLocks ws
    if granted s.procs i wanted then
      some ⟨s.shared.tick, s.procs.set i { p with
        code := next s.shared.clock v, held := p.held ++ wanted, log := p.log ++ ws }⟩
    else none
  | .commit event next =>
    some ⟨s.shared.commit event (applyLog s.shared.db p.log), s.procs.set i ⟨next, [], [], .halt⟩⟩
  | .rollback next => some ⟨s.shared.tick, s.procs.set i ⟨next, [], [], .halt⟩⟩

variable {R : Type}

def step (program : R → Code Row A E) (outside : K → Bool) (s : Sys Row A E) :
    Action Row R → Option (Sys Row A E)
  | .spawn request => some ⟨s.shared.tick, s.procs ++ [⟨program request, [], [], .halt⟩]⟩
  | .advance i => s.procs[i]?.bind (advance s i)
  | .deadlock i =>
    s.procs[i]?.map fun p => ⟨s.shared.tick, s.procs.set i ⟨p.recover, [], [], .halt⟩⟩
  | .crash i => s.procs[i]?.map fun _ => ⟨s.shared.tick, s.procs.set i ⟨.halt, [], [], .halt⟩⟩
  | .outside w =>
    if outside w.key && granted s.procs s.procs.length [⟨.row w.key, true⟩] then
      some ⟨{ s.shared.tick with db := applyWrite s.shared.db w }, s.procs⟩
    else none

def run (program : R → Code Row A E) (outside : K → Bool) (s : Sys Row A E) :
    List (Action Row R) → Option (Sys Row A E)
  | [] => some s
  | a :: rest => (step program outside s a).bind fun s' => run program outside s' rest

def initial (db : AList Row) : Sys Row A E := ⟨⟨db, 0, []⟩, []⟩

inductive Reachable (program : R → Code Row A E) (outside : K → Bool) (db : AList Row) :
    Sys Row A E → Prop where
  | start : Reachable program outside db (initial db)
  | step {s s' : Sys Row A E} (a : Action Row R) (h : Reachable program outside db s)
      (hstep : step program outside s a = some s') : Reachable program outside db s'

def spawned : Action Row R → List R
  | .spawn request => [request]
  | .advance _ | .deadlock _ | .crash _ | .outside _ => []

inductive Traced (program : R → Code Row A E) (outside : K → Bool) (db : AList Row) :
    List R → Sys Row A E → Prop where
  | start : Traced program outside db [] (initial db)
  | step {requests : List R} {s s' : Sys Row A E} (a : Action Row R)
      (h : Traced program outside db requests s) (hstep : step program outside s a = some s') :
      Traced program outside db (requests ++ spawned a) s'

variable {program : R → Code Row A E} {outside : K → Bool}

variable {db : AList Row}

theorem traced_of_run {requests : List R} {s s' : Sys Row A E} {actions : List (Action Row R)}
  (hs : Traced program outside db requests s) (h : run program outside s actions = some s') :
  Traced program outside db (requests ++ actions.flatMap spawned) s' := by
 induction actions generalizing s requests with
 | nil =>
  cases h
  simpa using hs
 | cons a rest ih =>
  simp only [run] at h
  obtain ⟨mid, hmid, hrest⟩ := Option.bind_eq_some_iff.1 h
  rw [List.flatMap_cons, ← List.append_assoc]
  exact ih (hs.step a hmid) hrest

variable {s : Sys Row A E}

theorem Traced.reachable {requests : List R} (h : Traced program outside db requests s) :
  Reachable program outside db s := by
 induction h with
 | start => exact .start
 | step a _ hstep ih => exact ih.step a hstep

theorem reachable_of_run
  {actions : List (Action Row R)} (h : run program outside (initial db) actions = some s) :
  Reachable program outside db s := (traced_of_run .start h).reachable

theorem Reachable.run {s s' : Sys Row A E}
  {actions : List (Action Row R)} (hs : Reachable program outside db s)
  (h : ReadCommitted.run program outside s actions = some s') : Reachable program outside db s' := by
 induction actions generalizing s with
 | nil =>
  cases h
  exact hs
 | cons a rest ih =>
  obtain ⟨mid, hmid, hrest⟩ := Option.bind_eq_some_iff.1 h
  exact ih (hs.step a hmid) hrest

/-- The system once process `i` died and time went by. -/
def Sys.idle (s : Sys Row A E) (i n : ℕ) : Sys Row A E :=
  ⟨{ s.shared with clock := s.shared.clock + (n + 1) }, s.procs.set i ⟨.halt, [], [], .halt⟩⟩

theorem Reachable.idle
  (hs : Reachable program outside db s) {i : ℕ} (hi : i < s.procs.length) (n : ℕ) :
  Reachable program outside db (s.idle i n) := by
 induction n with
 | zero => exact hs.step (.crash i) (by simp [ReadCommitted.step, Sys.idle, hi, Shared.tick])
 | succ n ih =>
  exact ih.step (.crash i) (by simp [ReadCommitted.step, Sys.idle, hi, Shared.tick, Nat.add_assoc])

end Machine

section Events

variable {K : Type} [DecidableEq K] {Row : K → Type} {A E R : Type} [DecidableEq A]

def AllEvents (P : E → Prop) : Code Row A E → Prop
  | .halt => True
  | .start recover body => AllEvents P recover ∧ AllEvents P body
  | .stmt _ _ next => ∀ clock v, AllEvents P (next clock v)
  | .commit event next => P event ∧ AllEvents P next
  | .rollback next => AllEvents P next

omit [DecidableEq K] [DecidableEq A] in
theorem allEvents_stmt {P : E → Prop} {locks : AList Row → List (Lock K A)}
  {writes : ℕ → AList Row → List (Write Row)} {next : ℕ → AList Row → Code Row A E}
  (h : ∀ clock v, AllEvents P (next clock v)) : AllEvents P (.stmt locks writes next) := h

omit [DecidableEq K] [DecidableEq A] in
theorem allEvents_true (code : Code Row A E) : AllEvents (fun _ => True) code := by
 induction code with
 | halt => trivial
 | start recover body ihr ihb => exact ⟨ihr, ihb⟩
 | stmt locks writes next ih => exact fun clock v => ih clock v
 | commit event next ih => exact ⟨trivial, ih⟩
 | rollback next ih => exact ih

theorem advance_shared {s s' : Sys Row A E} {i : ℕ} {p : Proc Row A E} (h : advance s i p = some s') :
  (s'.shared.ledger = s.shared.ledger ∧ s'.shared.db = s.shared.db) ∨
  ∃ event next, p.code = .commit event next ∧
   s'.shared = s.shared.commit event (applyLog s.shared.db p.log) := by
 unfold advance at h
 cases hcode : p.code with
 | halt => simp [hcode] at h
 | start recover body =>
  simp only [hcode, Option.some.injEq] at h
  subst h
  exact .inl ⟨rfl, rfl⟩
 | stmt locks writes next =>
  simp only [hcode] at h
  split at h
  · cases h
    exact .inl ⟨rfl, rfl⟩
  · cases h
 | commit event next =>
  simp only [hcode, Option.some.injEq] at h
  subst h
  exact .inr ⟨event, next, rfl, rfl⟩
 | rollback next =>
  simp only [hcode, Option.some.injEq] at h
  subst h
  exact .inl ⟨rfl, rfl⟩

theorem advance_events {s s' : Sys Row A E} {i : ℕ} {p : Proc Row A E} (h : advance s i p = some s') :
  ∃ p', s'.procs = s.procs.set i p' ∧ ∀ P : E → Prop, AllEvents P p.code ∧ AllEvents P p.recover →
   AllEvents P p'.code ∧ AllEvents P p'.recover := by
 unfold advance at h
 cases hc : p.code with
 | halt => simp [hc] at h
 | start recover body =>
  simp only [hc, Option.some.injEq] at h
  subst h
  exact ⟨_, rfl, fun P hP => hP.1.symm⟩
 | stmt locks writes next =>
  simp only [hc] at h
  split at h
  · cases h
    exact ⟨_, rfl, fun P hP => ⟨hP.1 _ _, hP.2⟩⟩
  · cases h
 | commit event next =>
  simp only [hc, Option.some.injEq] at h
  subst h
  exact ⟨_, rfl, fun P hP => ⟨hP.1.2, trivial⟩⟩
 | rollback next =>
  simp only [hc, Option.some.injEq] at h
  subst h
  exact ⟨_, rfl, fun P hP => ⟨hP.1, trivial⟩⟩

structure Faithful (P : R → E → Prop) (requests : List R) (procs : List (Proc Row A E)) : Prop where
  length : procs.length = requests.length
  events : ∀ (i : ℕ) p request, procs[i]? = some p → requests[i]? = some request →
    AllEvents (P request) p.code ∧ AllEvents (P request) p.recover

omit [DecidableEq K] [DecidableEq A] in
theorem Faithful.set {P : R → E → Prop} {requests : List R} {procs : List (Proc Row A E)}
  (h : Faithful P requests procs) {i : ℕ} (p' : Proc Row A E)
  (hp' : ∀ request, requests[i]? = some request →
   AllEvents (P request) p'.code ∧ AllEvents (P request) p'.recover) :
  Faithful P requests (procs.set i p') := by
 refine ⟨by simpa using h.length, fun j q request hq hrequest => ?_⟩
 rcases getElem?_set_cases hq with ⟨rfl, rfl⟩ | ⟨-, hq⟩
 · exact hp' request hrequest
 · exact h.events j q request hq hrequest

omit [DecidableEq K] [DecidableEq A] in
theorem Faithful.append {P : R → E → Prop} {requests : List R} {procs : List (Proc Row A E)}
  (h : Faithful P requests procs) {p : Proc Row A E} {request : R}
  (hcode : AllEvents (P request) p.code) (hrecover : AllEvents (P request) p.recover) :
  Faithful P (requests ++ [request]) (procs ++ [p]) := by
 refine ⟨by simp [h.length], fun i q request' hq hrequest => ?_⟩
 rcases getElem?_concat_cases hq with hq | ⟨hi, rfl⟩
 · rcases getElem?_concat_cases hrequest with hrequest | ⟨hi, rfl⟩
   · exact h.events i q request' hq hrequest
   · have hlt := (List.getElem?_eq_some_iff.1 hq).1
     have hlength := h.length
     omega
 · rcases getElem?_concat_cases hrequest with hrequest | ⟨-, rfl⟩
   · have hlt := (List.getElem?_eq_some_iff.1 hrequest).1
     have hlength := h.length
     omega
   · exact ⟨hcode, hrecover⟩

theorem Traced.faithful {program : R → Code Row A E} {outside : K → Bool} {db : AList Row}
  {requests : List R} {s : Sys Row A E} {P : R → E → Prop}
  (hprogram : ∀ request, AllEvents (P request) (program request))
  (h : Traced program outside db requests s) : Faithful P requests s.procs := by
 induction h with
 | start => exact ⟨rfl, fun i p request hp => by simp [initial] at hp⟩
 | @step requests s s' a _ hstep ih =>
  cases a with
  | spawn request =>
   cases hstep
   exact ih.append (hprogram request) trivial
  | advance i =>
   obtain ⟨p, hi, hadvance⟩ := Option.bind_eq_some_iff.1 hstep
   obtain ⟨p', hprocs, hevents⟩ := advance_events hadvance
   rw [hprocs, spawned, List.append_nil]
   exact ih.set p' fun request hrequest => hevents _ (ih.events i p request hi hrequest)
  | deadlock i =>
   obtain ⟨p, hi, rfl⟩ := Option.map_eq_some_iff.1 hstep
   rw [spawned, List.append_nil]
   exact ih.set _ fun request hrequest => ⟨(ih.events i p request hi hrequest).2, trivial⟩
  | crash i =>
   obtain ⟨p, hi, rfl⟩ := Option.map_eq_some_iff.1 hstep
   rw [spawned, List.append_nil]
   exact ih.set _ fun _ _ => ⟨trivial, trivial⟩
  | outside w =>
   simp only [ReadCommitted.step] at hstep
   split at hstep
   · cases hstep
     rw [spawned, List.append_nil]
     exact ih
   · cases hstep

end Events

end BoardGamesEmpire.ReadCommitted
