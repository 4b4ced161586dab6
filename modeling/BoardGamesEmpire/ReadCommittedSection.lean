import BoardGamesEmpire.ReadCommittedProtocol

set_option autoImplicit false

/-!
# Reasoning under locks

A transaction that holds certain locks keeps what it knows of the store for as
long as nobody may undo it without one of them. The rules below carry such
knowledge from statement to statement, and a discipline says which locks a
change of a row has to hold.
-/
namespace BoardGamesEmpire.ReadCommittedProtocol
open ReadCommitted

section Knowledge

variable {K : Type} [DecidableEq K] {Row : K → Type} {A E : Type} {P : Protocol Row A E}
  {known held : List (Lock K A)} {Φ Ψ : Shared Row E → Prop} {log : List (Write Row)}

def Keeps (P : Protocol Row A E) (known : List (Lock K A)) (Φ : Shared Row E → Prop) : Prop :=
  ∀ held, known ⊆ held → Stable P held Φ

/-- Safe for every holder of the locks that knows `Φ`. -/
def SafeOn (P : Protocol Row A E) (known : List (Lock K A)) (Φ : Shared Row E → Prop) (code : Code Row A E)
    (log : List (Write Row)) : Prop :=
  ∀ held σ, known ⊆ held → Φ σ → Safe P code held log σ

theorem keeps_const (P : Protocol Row A E) (known : List (Lock K A)) (p : Prop) :
  Keeps P known fun _ => p :=
 fun held _ => stable_const P held p

theorem Keeps.and (hΦ : Keeps P known Φ) (hΨ : Keeps P known Ψ) :
  Keeps P known fun σ => Φ σ ∧ Ψ σ :=
 fun held hknown => (hΦ held hknown).and (hΨ held hknown)

theorem Keeps.weaken {more : List (Lock K A)} (hΦ : Keeps P known Φ) (hsub : known ⊆ more) :
  Keeps P more Φ :=
 fun held hmore => hΦ held (List.Subset.trans hsub hmore)

theorem Rely.clock {σ σ' : Shared Row E} (h : Rely P held σ σ') : σ.clock ≤ σ'.clock := by
 cases h with
 | tick => exact Nat.le_succ _
 | commit other event db hfree hrows hguar heffect => exact Nat.le_succ _
 | outside w hkey hfree => exact Nat.le_succ _

theorem keeps_clock (P : Protocol Row A E) (known : List (Lock K A)) (since : ℕ) :
  Keeps P known fun σ => since ≤ σ.clock :=
 fun _ _ _ _ h _ _ hrely => h.trans hrely.clock

section Rules

variable {locks : AList Row → List (Lock K A)} {writes : ℕ → AList Row → List (Write Row)}
  {next : ℕ → AList Row → Code Row A E}

theorem safeOn_halt : SafeOn P known Φ .halt log := fun _ _ _ _ => trivial

variable {code : Code Row A E}

theorem SafeOn.mono (h : SafeOn P known Ψ code log) (himp : ∀ σ, Φ σ → Ψ σ) :
  SafeOn P known Φ code log :=
 fun held σ hknown hΦ => h held σ hknown (himp _ hΦ)

theorem SafeOn.more {more : List (Lock K A)} (h : SafeOn P known Φ code log)
  (hsub : known ⊆ more) : SafeOn P more Φ code log :=
 fun held σ hmore => h held σ (List.Subset.trans hsub hmore)

theorem safeOn_stmt (hkeeps : Keeps P known Φ)
  (hnext : ∀ σ, P.inv σ → Φ σ → Φ σ.tick → ∃ Ψ : Shared Row E → Prop, Ψ σ.tick ∧
   SafeOn P (known ++ (locks (view σ log) ++ writeLocks (writes σ.clock (view σ log)))) Ψ
    (next σ.clock (view σ log)) (log ++ writes σ.clock (view σ log))) :
  SafeOn P known Φ (.stmt locks writes next) log := by
 intro held σ hknown hΦ
 refine safe_stmt (fun _ => hkeeps held hknown) hΦ ?_
 intro σ' hinv hinv' _ hφ
 obtain ⟨Ψ, hΨ, hsafe⟩ := hnext σ' hinv hφ (hkeeps held hknown σ' σ'.tick hφ hinv hinv' .tick)
 refine hsafe _ σ'.tick ?_ hΨ
 exact List.append_subset.2 ⟨fun _ hl => List.mem_append_left _ (hknown hl), List.subset_append_right _ _⟩

theorem safeOn_keep (hkeeps : Keeps P known Φ)
  (hnext : ∀ σ, P.inv σ → Φ σ →
   SafeOn P (known ++ (locks (view σ log) ++ writeLocks (writes σ.clock (view σ log)))) Φ
    (next σ.clock (view σ log)) (log ++ writes σ.clock (view σ log))) :
  SafeOn P known Φ (.stmt locks writes next) log :=
 safeOn_stmt hkeeps fun σ hinv hΦ hΦ' => ⟨Φ, hΦ', hnext σ hinv hΦ⟩

theorem safeOn_query (hkeeps : Keeps P known Φ)
  (hnext : ∀ σ, P.inv σ → Φ σ → SafeOn P known Φ (next σ.clock (view σ log)) log) :
  SafeOn P known Φ (.query next) log := by
 intro held σ hknown hΦ
 refine safe_stmt (fun _ => hkeeps held hknown) hΦ ?_
 intro σ' hinv hinv' _ hφ
 rw [List.append_nil]
 refine hnext σ' hinv hφ _ σ'.tick ?_ (hkeeps held hknown σ' σ'.tick hφ hinv hinv' .tick)
 exact fun _ hl => List.mem_append_left _ (hknown hl)

theorem safeOn_rollback (hkeeps : Keeps P known Φ)
  (hnext : SafeOn P [] (fun _ => True) code []) : SafeOn P known Φ (.rollback code) log := by
 intro held σ hknown hΦ
 refine safe_rollback (hkeeps held hknown) hΦ ?_
 intro σ' _ _
 exact hnext [] σ'.tick (List.nil_subset _) trivial

theorem safeOn_refused (hkeeps : Keeps P known Φ) : SafeOn P known Φ (.rollback .halt) log :=
 safeOn_rollback hkeeps safeOn_halt

theorem safeOn_commit {event : E} (hkeeps : Keeps P known Φ)
  (hcommit : ∀ held σ, known ⊆ held → LogLocked held log → P.inv σ → Φ σ →
   P.guarantee held σ.db (applyLog σ.db log) ∧ P.effect σ event (applyLog σ.db log))
  (hnext : SafeOn P [] (fun _ => True) code []) : SafeOn P known Φ (.commit event code) log := by
 intro held σ hknown hΦ
 refine safe_commit (fun _ => hkeeps held hknown) hΦ ?_
 intro σ' hinv hlocked hφ
 obtain ⟨hguar, heffect⟩ := hcommit held σ' hknown hlocked hinv hφ
 exact ⟨hguar, heffect, hnext [] _ (List.nil_subset _) trivial⟩

theorem safe_of_safeOn (h : SafeOn P [] (fun _ => True) code []) (σ : Shared Row E) :
  Safe P code [] [] σ :=
 h [] σ (List.nil_subset _) trivial

end Rules

end Knowledge

section Rows

variable {K : Type} [DecidableEq K] {Row : K → Type} {A E : Type}

def Agree (S : K → Prop) (db db' : AList Row) : Prop := ∀ k, S k → db'.lookup k = db.lookup k

theorem Agree.refl (S : K → Prop) (db : AList Row) : Agree S db db := fun _ _ => rfl

variable {S : K → Prop}

theorem Agree.trans {db db' db'' : AList Row} (h : Agree S db db') (h' : Agree S db' db'') :
  Agree S db db'' :=
 fun k hk => (h' k hk).trans (h k hk)

theorem Agree.symm {db db' : AList Row} (h : Agree S db db') : Agree S db' db :=
 fun k hk => (h k hk).symm

theorem Agree.applyLog {db db' : AList Row} (h : Agree S db db') (log : List (Write Row)) :
  Agree S (applyLog db log) (applyLog db' log) := by
 intro k hk
 by_cases hmem : ∃ w ∈ log, w.key = k
 · exact lookup_applyLog_of_mem db' db hmem
 · have hnot : ∀ w ∈ log, w.key ≠ k := fun w hw heq => hmem ⟨w, hw, heq⟩
   rw [lookup_applyLog_of_notMem db' hnot, lookup_applyLog_of_notMem db hnot]
   exact h k hk

theorem agree_applyLog (db : AList Row) {log : List (Write Row)} (h : ∀ w ∈ log, ¬ S w.key) :
  Agree S db (applyLog db log) := by
 intro k hk
 apply lookup_applyLog_of_notMem
 rintro w hw rfl
 exact h w hw hk

def Covers (held : List (Lock K A)) (l : Lock K A) : Prop :=
  ∃ l' ∈ held, l'.target = l.target ∧ (l.exclusive = true → l'.exclusive = true)

omit [DecidableEq K] in
theorem covers_of_mem {held : List (Lock K A)} {l : Lock K A} (h : l ∈ held) : Covers held l :=
 ⟨l, h, rfl, id⟩

structure Discipline (Row : K → Type) (A : Type) where
  requires : AList Row → (k : K) → Option (Row k) → Option (Row k) → List (Lock K A)

def Discipline.Respected (D : Discipline Row A) (held : List (Lock K A)) (db db' : AList Row) : Prop :=
  ∀ k, db'.lookup k ≠ db.lookup k → ∀ l ∈ D.requires db k (db.lookup k) (db'.lookup k), Covers held l

variable {P : Protocol Row A E} {D : Discipline Row A}

theorem Rely.change {held : List (Lock K A)}
  (hguar : ∀ other db db', P.guarantee other db db' → D.Respected other db db')
  {σ σ' : Shared Row E} (h : Rely P held σ σ') (k : K) (hk : P.outside k = false) :
  σ'.db.lookup k = σ.db.lookup k ∨
   ∀ l ∈ D.requires σ.db k (σ.db.lookup k) (σ'.db.lookup k), ∀ mine ∈ held, ¬ mine.Conflicts l := by
 cases h with
 | tick => exact .inl rfl
 | outside w hkey hfree =>
  left
  apply lookup_applyWrite_ne
  rintro rfl
  rw [hkey] at hk
  cases hk
 | commit other event db hfree hrows hguarantee heffect =>
  by_cases hsame : db.lookup k = σ.db.lookup k
  · exact .inl hsame
  · right
    intro l hl mine hmine hconflict
    obtain ⟨l', hl', htarget, hmode⟩ := hguar _ _ _ hguarantee k hsame l hl
    exact hfree mine hmine l' hl' ⟨hconflict.1.trans htarget.symm, hconflict.2.imp_right hmode⟩

theorem keeps_row (P : Protocol Row A E) {known : List (Lock K A)} {k : K} {exclusive : Bool}
  (h : (⟨.row k, exclusive⟩ : Lock K A) ∈ known) (row : Option (Row k)) :
  Keeps P known fun σ => σ.db.lookup k = row := by
 intro held hknown σ σ' hrow _ _ hrely
 rw [hrely.row (hknown h)]
 exact hrow

theorem keeps_unseen (P : Protocol Row A E) {known : List (Lock K A)} {k : K} {exclusive : Bool}
  (h : (⟨.row k, exclusive⟩ : Lock K A) ∈ known) :
  Keeps P known fun σ => σ.db.lookup k = none ∧ ∀ entry ∈ σ.ledger, entry.after.lookup k = none := by
 intro held hknown σ σ' hunseen _ _ hrely
 have hnone := (hrely.row (hknown h)).trans hunseen.1
 refine ⟨hnone, fun entry hentry => ?_⟩
 cases hrely with
 | tick => exact hunseen.2 entry hentry
 | outside w hkey hfree => exact hunseen.2 entry hentry
 | commit other event db hfree hrows hguar heffect =>
  rcases List.mem_append.1 hentry with hold | hnew
  · exact hunseen.2 entry hold
  · rw [List.mem_singleton.1 hnew]
    exact hnone

theorem keeps_agree (hguar : ∀ other db db', P.guarantee other db db' → D.Respected other db db')
  {known : List (Lock K A)} (hout : ∀ k, S k → P.outside k = false)
  (hreq : ∀ k, S k → ∀ db old new, new ≠ old →
   ∃ l ∈ D.requires db k old new, ∃ mine ∈ known, mine.Conflicts l)
  (db : AList Row) : Keeps P known fun σ => Agree S db σ.db := by
 intro held hknown σ σ' hagree _ _ hrely k hk
 rcases hrely.change hguar k (hout k hk) with hsame | hfree
 · exact hsame.trans (hagree k hk)
 · by_contra hne
   have hchanged : σ'.db.lookup k ≠ σ.db.lookup k := fun heq => hne (heq.trans (hagree k hk))
   obtain ⟨l, hl, mine, hmine, hconflict⟩ := hreq k hk σ.db _ _ hchanged
   exact hfree l hl mine (hknown hmine) hconflict

end Rows

section Updates

variable {K : Type} [DecidableEq K] {Row : K → Type} {A E : Type}

/-- What a statement over many rows does to one: nothing, a new value, or a
    deletion. -/
abbrev RowChange (Row : K → Type) := (k : K) → Row k → Option (Option (Row k))

def rowWrites (change : RowChange Row) (v : AList Row) (k : K) : List (Write Row) :=
  match (v.lookup k).bind (change k) with
  | some value => [⟨k, value⟩]
  | none => []

/-- `UPDATE` or `DELETE` of the rows a snapshot selected: each is waited for,
    judged again, and written. -/
def Code.eachRow (change : RowChange Row) : List K → Code Row A E → Code Row A E
  | [], next => next
  | k :: keys, next => .execute (fun _ v => rowWrites change v k) fun _ _ => Code.eachRow change keys next

def matching (change : RowChange Row) (v : AList Row) : List K :=
  v.keys.filter fun k => ((v.lookup k).bind (change k)).isSome

def Code.updateMany (change : RowChange Row) (next : Code Row A E) : Code Row A E :=
  .query fun _ v => Code.eachRow change (matching change v) next

theorem mem_rowWrites {change : RowChange Row} {v : AList Row} {k : K} {w : Write Row}
  (h : w ∈ rowWrites change v k) : w.key = k := by
 unfold rowWrites at h
 cases hchange : (v.lookup k).bind (change k) with
 | none => simp [hchange] at h
 | some value =>
  rw [hchange] at h
  rw [List.mem_singleton.1 h]

theorem lookup_rowWrites_self (change : RowChange Row) (v db : AList Row) (k : K) :
  (applyLog db (rowWrites change v k)).lookup k = ((v.lookup k).bind (change k)).getD (db.lookup k) := by
 unfold rowWrites
 cases hchange : (v.lookup k).bind (change k) with
 | none => rfl
 | some value => exact lookup_applyWrite_self db k value

theorem mem_matching {change : RowChange Row} {v : AList Row} {k : K} :
  k ∈ matching change v ↔ ∃ row value, v.lookup k = some row ∧ change k row = some value := by
 unfold matching
 rw [List.mem_filter, Option.isSome_iff_exists]
 constructor
 · rintro ⟨-, value, hvalue⟩
   obtain ⟨row, hrow, hchange⟩ := Option.bind_eq_some_iff.1 hvalue
   exact ⟨row, value, hrow, hchange⟩
 · rintro ⟨row, value, hrow, hchange⟩
   refine ⟨?_, value, Option.bind_eq_some_iff.2 ⟨row, hrow, hchange⟩⟩
   apply AList.lookup_isSome.1
   rw [hrow]
   rfl

def applied (change : RowChange Row) (k : K) (row : Option (Row k)) : Option (Row k) :=
  row.bind fun row => (change k row).getD (some row)

theorem lookup_rowWrites (change : RowChange Row) (v db : AList Row) (k : K)
  (h : db.lookup k = v.lookup k) :
  (applyLog db (rowWrites change v k)).lookup k = applied change k (v.lookup k) := by
 rw [lookup_rowWrites_self, h, applied]
 cases v.lookup k with
 | none => rfl
 | some row => rfl

section EachRow

variable {P : Protocol Row A E} {change : RowChange Row} {next : Code Row A E} {known : List (Lock K A)}
  {log : List (Write Row)}

/-- One row after another: `Ψ todo written` is what is known while the rows in
    `todo` are ahead. -/
theorem safeOn_eachRow {Φ : Shared Row E → Prop} {keys : List K}
  (Ψ : List K → List (Write Row) → Shared Row E → Prop)
  (hstart : ∀ σ, Φ σ →
   Ψ keys [] σ) (hkeeps : ∀ todo written, Keeps P (known ++ writeLocks written) (Ψ todo written))
  (hstep : ∀ k todo written σ, P.inv σ → Ψ (k :: todo) written σ → Ψ (k :: todo) written σ.tick →
   Ψ todo (written ++ rowWrites change (view σ (log ++ written)) k) σ.tick)
  (hnext : ∀ written, SafeOn P (known ++ writeLocks written) (Ψ [] written) next (log ++ written)) :
  SafeOn P known Φ (Code.eachRow change keys next) log := by
 have hall : ∀ (todo : List K) (written : List (Write Row)),
   SafeOn P (known ++ writeLocks written) (Ψ todo written) (Code.eachRow change todo next)
    (log ++ written) := by
  intro todo
  induction todo with
  | nil => exact hnext
  | cons k todo ih =>
   intro written
   refine safeOn_stmt (hkeeps _ _) fun σ hinv hΨ hΨ' => ⟨_, hstep k todo written σ hinv hΨ hΨ', ?_⟩
   have hmore := ih (written ++ rowWrites change (view σ (log ++ written)) k)
   rw [← List.append_assoc log] at hmore
   refine hmore.more ?_
   rw [writeLocks, List.map_append, ← writeLocks, ← writeLocks, List.nil_append, List.append_assoc]
   exact fun _ hl => hl
 have hnil := (hall keys []).mono hstart
 rw [writeLocks, List.map_nil, List.append_nil, List.append_nil] at hnil
 exact hnil

theorem safeOn_eachRow_allowed {Φ : Shared Row E → Prop} {allowed : Write Row → Prop} {keys : List K}
  (hwrite : ∀ k ∈ keys, ∀ row value, change k row = some value → allowed ⟨k, value⟩)
   (hkeeps : Keeps P known Φ)
  (hnext : ∀ written, (∀ w ∈ written, allowed w) →
   SafeOn P (known ++ writeLocks written) Φ next (log ++ written)) :
  SafeOn P known Φ (Code.eachRow change keys next) log := by
 refine safeOn_eachRow (fun todo written σ => Φ σ ∧ todo ⊆ keys ∧ ∀ w ∈ written, allowed w) ?_ ?_ ?_ ?_
 · exact fun σ hΦ => ⟨hΦ, fun _ h => h, fun _ hw => absurd hw List.not_mem_nil⟩
 · intro todo written
   exact (hkeeps.weaken (List.subset_append_left _ _)).and (keeps_const _ _ _)
 · intro k todo written σ _ hΦ hΦ'
   refine ⟨hΦ'.1, fun _ h => hΦ.2.1 (List.mem_cons_of_mem _ h), fun w hw => ?_⟩
   rcases List.mem_append.1 hw with hw | hw
   · exact hΦ.2.2 w hw
   · unfold rowWrites at hw
     cases hchange : ((view σ (log ++ written)).lookup k).bind (change k) with
     | none => simp [hchange] at hw
     | some value =>
      rw [hchange] at hw
      obtain ⟨row, -, hrow⟩ := Option.bind_eq_some_iff.1 hchange
      rw [List.mem_singleton.1 hw]
      exact hwrite k (hΦ.2.1 List.mem_cons_self) row value hrow
 · intro written held σ hknown hΦ
   exact hnext written hΦ.2.2 held σ hknown hΦ.1

theorem safeOn_updateMany {Φ : Shared Row E → Prop} {S : K → Prop} {db : AList Row}
  (htouches : ∀ k row value, change k row = some value → S k)
  (hsettles : ∀ k row row', change k row = some (some row') → change k row' = none)
  (hkeeps : Keeps P known Φ) (hfrozen : ∀ σ, Φ σ → Agree S db σ.db)
  (hnext : ∀ written, (∀ w ∈ written, S w.key) →
   (∀ k, S k → (applyLog db (log ++ written)).lookup k = applied change k ((applyLog db log).lookup k)) →
   SafeOn P (known ++ writeLocks written) Φ next (log ++ written)) :
  SafeOn P known Φ (Code.updateMany change next) log := by
 refine safeOn_query hkeeps fun σ _ hΦ => ?_
 let old : (k : K) → Option (Row k) := fun k => (applyLog db log).lookup k
 -- a row behind is as the statement leaves it; one ahead may be, if its key comes twice
 let done : List K → List (Write Row) → Prop := fun todo written =>
  (∀ w ∈ written, S w.key) ∧ ∀ k, S k →
   ((applyLog db (log ++ written)).lookup k = old k ∧ k ∈ todo) ∨
   (applyLog db (log ++ written)).lookup k = applied change k (old k)
 refine safeOn_eachRow (fun todo written σ' => Φ σ' ∧ done todo written) ?_ ?_ ?_ ?_
 · refine fun σ' hΦ' => ⟨hΦ', fun _ hw => absurd hw List.not_mem_nil, fun k hk => ?_⟩
   rw [List.append_nil]
   by_cases hmatch : k ∈ matching change (view σ log)
   · exact .inl ⟨rfl, hmatch⟩
   · right
     have hview : (view σ log).lookup k = old k := (hfrozen σ hΦ).applyLog log k hk
     change old k = applied change k (old k)
     cases hold : old k with
     | none => rfl
     | some row =>
      cases hchange : change k row with
      | none => simp [applied, hchange]
      | some value => exact absurd (mem_matching.2 ⟨row, value, hview.trans hold, hchange⟩) hmatch
 · intro todo written
   exact (hkeeps.weaken (List.subset_append_left _ _)).and (keeps_const _ _ _)
 · intro k todo written σ' _ hΦ' hΦt
   refine ⟨hΦt.1, fun w hw => ?_, fun k' hk' => ?_⟩
   · rcases List.mem_append.1 hw with hw | hw
     · exact hΦ'.2.1 w hw
     · have hkey := mem_rowWrites hw
       unfold rowWrites at hw
       cases hchange : ((view σ' (log ++ written)).lookup k).bind (change k) with
       | none => simp [hchange] at hw
       | some value =>
        obtain ⟨row, -, hrow⟩ := Option.bind_eq_some_iff.1 hchange
        rw [hkey]
        exact htouches k row value hrow
   · rw [← List.append_assoc, applyLog_append]
     by_cases hkk : k' = k
     · subst hkk
       have hview := ((hfrozen σ' hΦ'.1).applyLog (log ++ written) k' hk').symm
       rw [lookup_rowWrites change (view σ' (log ++ written)) _ k' hview, view, ← hview]
       right
       rcases hΦ'.2.2 k' hk' with ⟨hold, -⟩ | happlied
       · rw [hold]
       · rw [happlied]
         cases hold : old k' with
         | none => rfl
         | some row =>
          cases hchange : change k' row with
          | none => simp [applied, hchange]
          | some value =>
           cases value with
           | none => simp [applied, hchange]
           | some row' => simp [applied, hchange, hsettles k' row row' hchange]
     · rw [lookup_applyLog_of_notMem _ fun w hw heq => hkk (heq.symm.trans (mem_rowWrites hw))]
       rcases hΦ'.2.2 k' hk' with ⟨hold, hmem⟩ | happlied
       · exact .inl ⟨hold, (List.mem_cons.1 hmem).resolve_left hkk⟩
       · exact .inr happlied
 · intro written held σ' hknown hΦ'
   refine hnext written hΦ'.2.1 (fun k hk => ?_) held σ' hknown hΦ'.1
   rcases hΦ'.2.2 k hk with ⟨-, hmem⟩ | happlied
   · exact absurd hmem List.not_mem_nil
   · exact happlied

end EachRow

end Updates

section SingleRows

variable {K : Type} [DecidableEq K] {Row : K → Type} {A E : Type}

def Code.writeRow (k : K) (allowed : AList Row → Row k → Bool) (value : Row k → Option (Row k))
    (next : Row k → Code Row A E) : Code Row A E :=
  .execute
    (fun _ v => (((v.lookup k).filter (allowed v)).map fun row => (⟨k, value row⟩ : Write Row)).toList)
    fun _ v => (((v.lookup k).filter (allowed v)).map next).getD (.rollback .halt)

def Code.updateRow (k : K) (allowed : AList Row → Row k → Bool) (data : Row k → Row k)
    (next : Row k → Code Row A E) : Code Row A E :=
  Code.writeRow k allowed (fun row => some (data row)) fun row => next (data row)

def Code.deleteRow (k : K) (allowed : AList Row → Row k → Bool) (next : Row k → Code Row A E) :
    Code Row A E :=
  Code.writeRow k allowed (fun _ => none) next

def Code.insertRow (key : ℕ → K) (row : (clock : ℕ) → Row (key clock)) (next : ℕ → Code Row A E) :
    Code Row A E :=
  .execute
    (fun clock v => if (v.lookup (key clock)).isNone then [⟨key clock, some (row clock)⟩] else [])
    fun clock v => if (v.lookup (key clock)).isNone then next clock else .rollback .halt

variable {P : Protocol Row A E} {known : List (Lock K A)} {Φ : Shared Row E → Prop}
  {log : List (Write Row)}

theorem safeOn_writeRow {k : K} {allowed : AList Row → Row k → Bool} {value : Row k → Option (Row k)}
  {next : Row k → Code Row A E} (hkeeps : Keeps P known Φ)
  (hnext : ∀ σ, P.inv σ → Φ σ → Φ σ.tick → ∀ row, (view σ log).lookup k = some row →
   allowed (view σ log) row = true → ∃ Ψ : Shared Row E → Prop, Ψ σ.tick ∧
    SafeOn P (known ++ [⟨.row k, true⟩]) Ψ (next row) (log ++ [⟨k, value row⟩])) :
  SafeOn P known Φ (Code.writeRow k allowed value next) log := by
 refine safeOn_stmt hkeeps fun σ hinv hΦ hΦ' => ?_
 have hrefused : ∀ held log, SafeOn P held (fun _ => True) (.rollback .halt : Code Row A E) log :=
  fun held _ => safeOn_refused (keeps_const P held True)
 cases hrow : (view σ log).lookup k with
 | none =>
  rw [Option.filter_none]
  exact ⟨fun _ => True, trivial, hrefused _ _⟩
 | some row =>
  by_cases hallowed : allowed (view σ log) row = true
  · rw [Option.filter_some_pos hallowed]
    exact hnext σ hinv hΦ hΦ' row hrow hallowed
  · rw [Option.filter_some_neg (by simpa using hallowed)]
    exact ⟨fun _ => True, trivial, hrefused _ _⟩

theorem safeOn_insertRow {key : ℕ → K} {row : (clock : ℕ) → Row (key clock)} {next : ℕ → Code Row A E}
  (hkeeps : Keeps P known Φ)
  (hnext : ∀ σ, P.inv σ → Φ σ → Φ σ.tick → (view σ log).lookup (key σ.clock) = none →
   ∃ Ψ : Shared Row E → Prop, Ψ σ.tick ∧
    SafeOn P (known ++ [⟨.row (key σ.clock), true⟩]) Ψ (next σ.clock)
     (log ++ [⟨key σ.clock, some (row σ.clock)⟩])) :
  SafeOn P known Φ (Code.insertRow key row next) log := by
 refine safeOn_stmt hkeeps fun σ hinv hΦ hΦ' => ?_
 cases hrow : (view σ log).lookup (key σ.clock) with
 | none => exact hnext σ hinv hΦ hΦ' hrow
 | some old => exact ⟨fun _ => True, trivial, safeOn_refused (keeps_const _ _ True)⟩

end SingleRows

section Selection

variable {K : Type} [DecidableEq K] {Row : K → Type}

def select {α : Type} (f : (k : K) → Row k → Option α) (v : AList Row) : List α :=
  v.entries.filterMap fun entry => f entry.1 entry.2

theorem mem_select {α : Type} {f : (k : K) → Row k → Option α} {v : AList Row} {a : α} :
  a ∈ select f v ↔ ∃ k row, v.lookup k = some row ∧ f k row = some a := by
 rw [select, List.mem_filterMap]
 constructor
 · rintro ⟨⟨k, row⟩, hmem, hf⟩
   exact ⟨k, row, AList.mem_lookup_iff.2 hmem, hf⟩
 · rintro ⟨k, row, hrow, hf⟩
   exact ⟨⟨k, row⟩, AList.mem_lookup_iff.1 hrow, hf⟩

end Selection

section Confinement

variable {K : Type} [DecidableEq K] {Row : K → Type} {A E : Type}

/-- A program that, whatever it reads, writes only what `allowed` lets it and
    commits only what `committing` lets it. -/
def Confined (allowed : Write Row → Prop) (committing : E → Prop) : Code Row A E → Prop
  | .halt => True
  | .start recover body => Confined allowed committing recover ∧ Confined allowed committing body
  | .stmt _ writes next => ∀ clock v, (∀ w ∈ writes clock v, allowed w) ∧
   Confined allowed committing (next clock v)
  | .commit event next => committing event ∧ Confined allowed committing next
  | .rollback next => Confined allowed committing next

section Constructs

variable {allowed : Write Row → Prop} {committing : E → Prop}

omit [DecidableEq K] in
theorem confined_lock {locks : AList Row → List (Lock K A)} {next : ℕ → AList Row → Code Row A E}
  (h : ∀ clock v, Confined allowed committing (next clock v)) :
  Confined allowed committing (.lock locks next) :=
 fun clock v => ⟨fun _ hw => absurd hw List.not_mem_nil, h clock v⟩

omit [DecidableEq K] in
theorem confined_query {next : ℕ → AList Row → Code Row A E}
  (h : ∀ clock v, Confined allowed committing (next clock v)) :
  Confined allowed committing (.query next) :=
 confined_lock h

omit [DecidableEq K] in
theorem confined_found {α : Type} (found : Option α) {next : α → Code Row A E}
  (h : ∀ a, Confined allowed committing (next a)) :
  Confined allowed committing ((found.map next).getD (.rollback .halt)) := by
 cases found with
 | none => trivial
 | some a => exact h a

omit [DecidableEq K] in
theorem confined_ite {p : Prop} [Decidable p] {code code' : Code Row A E}
  (h : Confined allowed committing code) (h' : Confined allowed committing code') :
  Confined allowed committing (if p then code else code') := by
 by_cases hp : p
 · rw [if_pos hp]
   exact h
 · rw [if_neg hp]
   exact h'

theorem confined_writeRow {k : K} {may : AList Row → Row k → Bool} {value : Row k → Option (Row k)}
  {next : Row k → Code Row A E} (hwrite : ∀ row, allowed ⟨k, value row⟩)
  (hnext : ∀ row, Confined allowed committing (next row)) :
  Confined allowed committing (Code.writeRow k may value next) := by
 intro clock v
 refine ⟨fun w hw => ?_, confined_found _ hnext⟩
 obtain ⟨row, -, rfl⟩ := Option.map_eq_some_iff.1 (Option.mem_toList.1 hw)
 exact hwrite row

theorem confined_insertRow {key : ℕ → K} {row : (clock : ℕ) → Row (key clock)}
  {next : ℕ → Code Row A E} (hwrite : ∀ clock, allowed ⟨key clock, some (row clock)⟩)
  (hnext : ∀ clock, Confined allowed committing (next clock)) :
  Confined allowed committing (Code.insertRow key row next) := by
 intro clock v
 refine ⟨fun w hw => ?_, confined_ite (hnext clock) trivial⟩
 dsimp only at hw
 by_cases hnone : (v.lookup (key clock)).isNone = true
 · rw [if_pos hnone] at hw
   rw [List.mem_singleton.1 hw]
   exact hwrite clock
 · rw [if_neg hnone] at hw
   exact absurd hw List.not_mem_nil

theorem confined_eachRow {change : RowChange Row} {keys : List K} {next : Code Row A E}
  (hwrite : ∀ k ∈ keys, ∀ row value, change k row = some value → allowed ⟨k, value⟩)
  (hnext : Confined allowed committing next) :
  Confined allowed committing (Code.eachRow change keys next) := by
 induction keys with
 | nil => exact hnext
 | cons k keys ih =>
  intro clock v
  refine ⟨fun w hw => ?_, ih fun k' hk' => hwrite k' (List.mem_cons_of_mem _ hk')⟩
  dsimp only [rowWrites] at hw
  cases hchange : (v.lookup k).bind (change k) with
  | none => simp [hchange] at hw
  | some value =>
   rw [hchange] at hw
   obtain ⟨row, -, hrow⟩ := Option.bind_eq_some_iff.1 hchange
   rw [List.mem_singleton.1 hw]
   exact hwrite k List.mem_cons_self row value hrow

end Constructs

theorem safe_of_confined {P : Protocol Row A E} {allowed : Write Row → Prop} {committing : E → Prop}
  (hcommit : ∀ σ held log event, P.inv σ → LogLocked held log → (∀ w ∈ log, allowed w) → committing event →
   P.guarantee held σ.db (applyLog σ.db log) ∧ P.effect σ event (applyLog σ.db log))
  (code : Code Row A E) : ∀ held log σ, Confined allowed committing code → (∀ w ∈ log, allowed w) →
   Safe P code held log σ := by
 have hnil : ∀ w ∈ ([] : List (Write Row)), allowed w := fun w hw => absurd hw List.not_mem_nil
 induction code with
 | halt => exact fun _ _ _ _ _ => trivial
 | start recover body ihr ihb =>
  intro held log σ h hlog σ' _ _
  exact ⟨ihb _ _ _ h.2 hlog, ihr _ _ _ h.1 hnil⟩
 | stmt locks writes next ih =>
  intro held log σ h hlog σ' _ _ _ _
  obtain ⟨hwrites, hnext⟩ := h σ'.clock (view σ' log)
  exact ih _ _ _ _ _ hnext fun w hw => (List.mem_append.1 hw).elim (hlog w) (hwrites w)
 | commit event next ih =>
  intro held log σ h hlog σ' _ hinv hlocked
  obtain ⟨hguar, heffect⟩ := hcommit σ' held log event hinv hlocked hlog h.1
  exact ⟨hguar, heffect, ih _ _ _ h.2 hnil⟩
 | rollback next ih =>
  intro held log σ h hlog σ' _ _
  exact ih _ _ _ h hnil

end Confinement

end BoardGamesEmpire.ReadCommittedProtocol
