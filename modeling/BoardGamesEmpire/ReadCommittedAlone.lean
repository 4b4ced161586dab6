import BoardGamesEmpire.ReadCommitted

set_option autoImplicit false

/-!
# A program by itself

What a program leaves behind when no other one holds a lock, as a function of
the store it starts on, and that the interleaving machine gets there.
-/
namespace BoardGamesEmpire.ReadCommitted

section Alone

variable {K : Type} [DecidableEq K] {Row : K → Type} {A E : Type}

/-- The committed rows after the program, run from a store, a log of its own
    writes and a clock. -/
def alone : Code Row A E → AList Row → List (Write Row) → ℕ → AList Row
  | .halt, db, _, _ => db
  | .start _ body, db, log, clock => alone body db log (clock + 1)
  | .stmt _ writes next, db, log, clock =>
    alone (next clock (applyLog db log)) db (log ++ writes clock (applyLog db log)) (clock + 1)
  | .commit _ next, db, log, clock => alone next (applyLog db log) [] (clock + 1)
  | .rollback next, db, _, clock => alone next db [] (clock + 1)

@[simp] theorem alone_halt (db : AList Row) (log : List (Write Row)) (clock : ℕ) :
  alone (.halt : Code Row A E) db log clock = db := rfl

@[simp] theorem alone_start (recover body : Code Row A E) (db : AList Row) (log : List (Write Row))
  (clock : ℕ) : alone (.start recover body) db log clock = alone body db log (clock + 1) := rfl

@[simp] theorem alone_commit (event : E) (next : Code Row A E) (db : AList Row)
  (log : List (Write Row)) (clock : ℕ) :
  alone (.commit event next) db log clock = alone next (applyLog db log) [] (clock + 1) := rfl

@[simp] theorem alone_rollback (next : Code Row A E) (db : AList Row) (log : List (Write Row))
  (clock : ℕ) : alone (.rollback next) db log clock = alone next db [] (clock + 1) := rfl

@[simp] theorem alone_query (next : ℕ → AList Row → Code Row A E) (db : AList Row)
  (log : List (Write Row)) (clock : ℕ) :
  alone (.query next) db log clock = alone (next clock (applyLog db log)) db log (clock + 1) := by
 simp [Code.query, alone]

@[simp] theorem alone_lock (locks : AList Row → List (Lock K A))
  (next : ℕ → AList Row → Code Row A E) (db : AList Row) (log : List (Write Row)) (clock : ℕ) :
  alone (.lock locks next) db log clock = alone (next clock (applyLog db log)) db log (clock + 1) := by
 simp [Code.lock, alone]

@[simp] theorem alone_execute (writes : ℕ → AList Row → List (Write Row))
  (next : ℕ → AList Row → Code Row A E) (db : AList Row) (log : List (Write Row)) (clock : ℕ) :
  alone (.execute writes next) db log clock =
   alone (next clock (applyLog db log)) db (log ++ writes clock (applyLog db log)) (clock + 1) := rfl

end Alone

section Machine

variable {K : Type} [DecidableEq K] {Row : K → Type} {A E R : Type} [DecidableEq A]

/-- No process but `i` holds a lock. -/
def Undisturbed (s : Sys Row A E) (i : ℕ) : Prop :=
  ∀ (j : ℕ) (q : Proc Row A E), j ≠ i → s.procs[j]? = some q → q.held = []

theorem granted_undisturbed {s : Sys Row A E} {i : ℕ} (h : Undisturbed s i)
  (wanted : List (Lock K A)) :
  granted s.procs i wanted = true := by
 unfold granted
 rw [List.all_eq_true]
 rintro ⟨q, j⟩ hmem
 have hq : s.procs[j]? = some q := List.mem_zipIdx_iff_getElem?.1 hmem
 by_cases hj : j = i
 · simp [hj]
 · simp [h j q hj hq]

omit [DecidableEq K] [DecidableEq A] in
theorem Undisturbed.set {s : Sys Row A E} {i : ℕ} (h : Undisturbed s i) (shared : Shared Row E)
  (p : Proc Row A E) : Undisturbed ⟨shared, s.procs.set i p⟩ i := by
 intro j q hj hq
 rcases getElem?_set_cases hq with ⟨hi, -⟩ | ⟨-, hold⟩
 · exact absurd hi hj
 · exact h j q hj hold

theorem run_alone (program : R → Code Row A E) (outside : K → Bool) (code : Code Row A E) {i : ℕ} :
  ∀ (s : Sys Row A E) (p : Proc Row A E), s.procs[i]? = some p → p.code = code → Undisturbed s i →
   ∃ n s', run program outside s (List.replicate n (.advance i)) = some s' ∧
    s'.shared.db = alone code s.shared.db p.log s.shared.clock := by
 have hadvance : ∀ (s s' : Sys Row A E) (p : Proc Row A E), s.procs[i]? = some p →
   advance s i p = some s' → ∀ n, run program outside s (List.replicate (n + 1) (.advance i)) =
    run program outside s' (List.replicate n (.advance i)) := by
  intro s s' p hp hs' n
  simp [List.replicate_succ, run, step, hp, hs']
 have hset : ∀ (s : Sys Row A E) (p q : Proc Row A E), s.procs[i]? = some p →
   (s.procs.set i q)[i]? = some q := by
  intro s p q hp
  exact List.getElem?_set_self (List.getElem?_eq_some_iff.1 hp).1
 induction code with
 | halt =>
  intro s p hp hcode h
  exact ⟨0, s, rfl, rfl⟩
 | start recover body _ ih =>
  intro s p hp hcode h
  have hs : advance s i p = some ⟨s.shared.tick, s.procs.set i { p with code := body, recover }⟩ := by
   simp [advance, hcode]
  obtain ⟨n, s', hrun, hdb⟩ := ih ⟨s.shared.tick, s.procs.set i { p with code := body, recover }⟩
   { p with code := body, recover } (hset s p _ hp) rfl (h.set _ _)
  exact ⟨n + 1, s', (hadvance s _ p hp hs n).trans hrun, hdb⟩
 | stmt locks writes next ih =>
  intro s p hp hcode h
  have hs := granted_undisturbed h
   (locks (view s.shared p.log) ++ writeLocks (writes s.shared.clock (view s.shared p.log)))
  obtain ⟨n, s', hrun, hdb⟩ := ih s.shared.clock (view s.shared p.log) _ _ (hset s p _ hp) rfl
   (h.set s.shared.tick { p with
    code := next s.shared.clock (view s.shared p.log)
    held := p.held ++ (locks (view s.shared p.log) ++
     writeLocks (writes s.shared.clock (view s.shared p.log)))
    log := p.log ++ writes s.shared.clock (view s.shared p.log) })
  refine ⟨n + 1, s', (hadvance s _ p hp ?_ n).trans hrun, hdb⟩
  simp [advance, hcode, hs]
 | commit event next ih =>
  intro s p hp hcode h
  have hs : advance s i p = some ⟨s.shared.commit event (applyLog s.shared.db p.log),
    s.procs.set i ⟨next, [], [], .halt⟩⟩ := by
   simp [advance, hcode]
  obtain ⟨n, s', hrun, hdb⟩ := ih ⟨s.shared.commit event (applyLog s.shared.db p.log),
   s.procs.set i ⟨next, [], [], .halt⟩⟩ ⟨next, [], [], .halt⟩ (hset s p _ hp) rfl (h.set _ _)
  exact ⟨n + 1, s', (hadvance s _ p hp hs n).trans hrun, hdb⟩
 | rollback next ih =>
  intro s p hp hcode h
  have hs : advance s i p = some ⟨s.shared.tick, s.procs.set i ⟨next, [], [], .halt⟩⟩ := by
   simp [advance, hcode]
  obtain ⟨n, s', hrun, hdb⟩ := ih ⟨s.shared.tick, s.procs.set i ⟨next, [], [], .halt⟩⟩
   ⟨next, [], [], .halt⟩ (hset s p _ hp) rfl (h.set _ _)
  exact ⟨n + 1, s', (hadvance s _ p hp hs n).trans hrun, hdb⟩

end Machine

end BoardGamesEmpire.ReadCommitted
