import BoardGamesEmpire.ReadCommittedSection

set_option autoImplicit false

/-!
# Programs judged write by write

A relation between the row a statement finds and the row it leaves, under the
locks taken so far, carries over from the single writes to what the whole
transaction commits: the rows it wrote were locked since, and those it did not
write are as they are.
-/
namespace BoardGamesEmpire.ReadCommittedProtocol
open ReadCommitted

section Relabel

variable {K : Type} {Row : K → Type} {A E E' : Type}

def relabel (f : E → E') : Code Row A E → Code Row A E'
  | .halt => .halt
  | .start recover body => .start (relabel f recover) (relabel f body)
  | .stmt locks writes next => .stmt locks writes fun clock v => relabel f (next clock v)
  | .commit event next => .commit (f event) (relabel f next)
  | .rollback next => .rollback (relabel f next)

end Relabel

section Stepwise

variable {K : Type} [DecidableEq K] {Row : K → Type} {A E : Type}

abbrev RowRelation (Row : K → Type) (A : Type) := List (Lock K A) → (k : K) → Option (Row k) →
    Option (Row k) → Prop

omit [DecidableEq K] in
theorem covers_more {held more : List (Lock K A)} {l : Lock K A} (h : Covers held l)
  (hsub : held ⊆ more) :
  Covers more l := by
 obtain ⟨l', hl', htarget, hmode⟩ := h
 exact ⟨l', hsub hl', htarget, hmode⟩

/-- Every write relates the row it finds to the row it leaves, and every commit
    is one of `committing`. -/
def Stepwise (R : RowRelation Row A) (committing : E → Prop) : List (Lock K A) → Code Row A E → Prop
  | _, .halt => True
  | known, .start recover body => Stepwise R committing known body ∧ Stepwise R committing [] recover
  | known, .stmt locks writes next => ∀ clock v,
      (∀ w ∈ writes clock v, R (known ++ (locks v ++ writeLocks (writes clock v))) w.key
       (v.lookup w.key) w.value) ∧
        Stepwise R committing (known ++ (locks v ++ writeLocks (writes clock v))) (next clock v)
  | _, .commit event next => committing event ∧ Stepwise R committing [] next
  | _, .rollback next => Stepwise R committing [] next

structure Composes (R : RowRelation Row A) : Prop where
  refl : ∀ known k row, R known k row row
  trans : ∀ known k a b c, R known k a b → R known k b c → R known k a c
  mono : ∀ known more k a b, known ⊆ more → R known k a b → R more k a b

variable {R : RowRelation Row A} {committing : E → Prop} {known : List (Lock K A)}

theorem lookup_applyLog_last (db : AList Row) {ws : List (Write Row)} {k : K}
  (h : ∃ w ∈ ws, w.key = k) : (⟨k, (applyLog db ws).lookup k⟩ : Write Row) ∈ ws := by
 induction ws generalizing db with
 | nil => simp at h
 | cons w ws ih =>
  change (⟨k, (applyLog (applyWrite db w) ws).lookup k⟩ : Write Row) ∈ w :: ws
  by_cases hlater : ∃ w' ∈ ws, w'.key = k
  · exact List.mem_cons_of_mem _ (ih _ hlater)
  · obtain ⟨w', hw', rfl⟩ := h
    obtain rfl : w' = w := (List.mem_cons.1 hw').resolve_right fun hmem => hlater ⟨w', hmem, rfl⟩
    rw [lookup_applyLog_of_notMem _ fun u hu heq => hlater ⟨u, hu, heq⟩, lookup_applyWrite_self]
    exact List.mem_cons_self

def Based (R : RowRelation Row A) (held : List (Lock K A)) (log : List (Write Row))
    (σ : Shared Row E) : Prop :=
  ∀ k, R held k (σ.db.lookup k) ((view σ log).lookup k)

theorem stable_based (hR : Composes R) (P : Protocol Row A E) {held : List (Lock K A)}
  {log : List (Write Row)} (hlocked : LogLocked held log) : Stable P held (Based R held log) := by
 intro σ σ' hbased _ _ hrely k
 rcases hrely.view hlocked k with ⟨hdb, hview⟩ | ⟨hview, -⟩
 · rw [hdb, hview]
   exact hbased k
 · rw [hview]
   exact hR.refl held k _

theorem Based.writes (hR : Composes R) {held more : List (Lock K A)} {log ws : List (Write Row)}
  {σ : Shared Row E} (h : Based R held log σ) (hsub : held ⊆ more)
  (hws : ∀ w ∈ ws, R more w.key ((view σ log).lookup w.key) w.value) :
  Based R more (log ++ ws) σ := by
 intro k
 have hold := hR.mono held more k _ _ hsub (h k)
 rw [view, applyLog_append]
 by_cases hmem : ∃ w ∈ ws, w.key = k
 · exact hR.trans more k _ _ _ hold (hws _ (lookup_applyLog_last (applyLog σ.db log) hmem))
 · rw [lookup_applyLog_of_notMem _ fun w hw heq => hmem ⟨w, hw, heq⟩]
   exact hold

theorem safe_of_stepwise (hR : Composes R) {P : Protocol Row A E}
  (hcommit : ∀ σ held log event, P.inv σ → LogLocked held log →
   (∀ k, R held k (σ.db.lookup k) ((applyLog σ.db log).lookup k)) → committing event →
    P.guarantee held σ.db (applyLog σ.db log) ∧ P.effect σ event (applyLog σ.db log))
  (code : Code Row A E) : ∀ known held log σ, Stepwise R committing known code → known ⊆ held →
   (LogLocked held log → Based R held log σ) → Safe P code held log σ := by
 have hnil : ∀ σ : Shared Row E, Based R ([] : List (Lock K A)) ([] : List (Write Row)) σ :=
  fun σ k => hR.refl [] k _
 induction code with
 | halt => exact fun _ _ _ _ _ _ _ => trivial
 | start recover body ihr ihb =>
  intro known held log σ h hknown hbased σ' hlater _
  refine ⟨ihb known held log _ h.1 hknown fun hlocked => ?_,
   ihr [] [] [] _ h.2 (fun _ hl => hl) fun _ => hnil _⟩
  exact fun k => (stable_based hR P hlocked).later hlater (hbased hlocked) k
 | stmt locks writes next ih =>
  intro known held log σ h hknown hbased σ' hlater _ hlocked _
  have hbased' := (stable_based hR P hlocked).later hlater (hbased hlocked)
  obtain ⟨hwrites, hnext⟩ := h σ'.clock (view σ' log)
  have hsub := List.append_subset.2 ⟨fun _ hl => List.mem_append_left _ (hknown hl),
   List.subset_append_right held (locks (view σ' log) ++ writeLocks (writes σ'.clock (view σ' log)))⟩
  refine ih _ _ _ _ _ _ hnext hsub fun _ => ?_
  refine hbased'.writes hR (List.subset_append_left _ _) fun w hw => ?_
  exact hR.mono _ _ _ _ _ hsub (hwrites w hw)
 | commit event next ih =>
  intro known held log σ h _ hbased σ' hlater hinv hlocked
  have hbased' := (stable_based hR P hlocked).later hlater (hbased hlocked)
  obtain ⟨hguar, heffect⟩ := hcommit σ' held log event hinv hlocked hbased' h.1
  exact ⟨hguar, heffect, ih [] [] [] _ h.2 (fun _ hl => hl) fun _ => hnil _⟩
 | rollback next ih =>
  intro known held log σ h _ _ σ' _ _
  exact ih [] [] [] _ h (fun _ hl => hl) fun _ => hnil _

section Constructs

theorem stepwise_commit {event : E} (h : committing event) :
  Stepwise R committing known (.commit event .halt : Code Row A E) := ⟨h, trivial⟩

variable {code : Code Row A E}

theorem Stepwise.more (hR : Composes R) : ∀ {known more : List (Lock K A)},
  Stepwise R committing known code → known ⊆ more → Stepwise R committing more code := by
 induction code with
 | halt => exact fun _ _ => trivial
 | start recover body _ ihb => exact fun h hsub => ⟨ihb h.1 hsub, h.2⟩
 | stmt locks writes next ih =>
  intro known more h hsub clock v
  have hmore := List.append_subset.2 ⟨fun _ hl => List.mem_append_left _ (hsub hl),
   List.subset_append_right more (locks v ++ writeLocks (writes clock v))⟩
  exact ⟨fun w hw => hR.mono _ _ _ _ _ hmore ((h clock v).1 w hw), ih _ _ (h clock v).2 hmore⟩
 | commit event next _ => exact fun h _ => h
 | rollback next _ => exact fun h _ => h

theorem stepwise_lock (hR : Composes R) {locks : AList Row → List (Lock K A)}
  {next : ℕ → AList Row → Code Row A E}
  (h : ∀ clock v, Stepwise R committing (known ++ locks v) (next clock v)) :
  Stepwise R committing known (.lock locks next) := by
 intro clock v
 refine ⟨fun w hw => absurd hw List.not_mem_nil, (h clock v).more hR ?_⟩
 exact fun _ hl => (List.append_nil (locks v)).symm ▸ hl

theorem stepwise_query (hR : Composes R) {next : ℕ → AList Row → Code Row A E}
  (h : ∀ clock v, Stepwise R committing known (next clock v)) :
  Stepwise R committing known (.query next) :=
 fun clock v => ⟨fun _ hw => absurd hw List.not_mem_nil, (h clock v).more hR (List.subset_append_left _ _)⟩

theorem stepwise_found {α : Type} {found : Option α} {next : α → Code Row A E}
  (h : ∀ a, found = some a → Stepwise R committing known (next a)) :
  Stepwise R committing known ((found.map next).getD (.rollback .halt)) := by
 cases found with
 | none => trivial
 | some a => exact h a rfl

theorem stepwise_ite {p : Prop} [Decidable p] {code code' : Code Row A E}
  (h : p → Stepwise R committing known code) (h' : ¬ p → Stepwise R committing known code') :
  Stepwise R committing known (if p then code else code') := by
 by_cases hp : p
 · rw [if_pos hp]
   exact h hp
 · rw [if_neg hp]
   exact h' hp

theorem stepwise_check {p : Prop} [Decidable p] (h : p → Stepwise R committing known code) :
  Stepwise R committing known (if p then code else .rollback .halt) :=
 stepwise_ite h fun _ => trivial

theorem stepwise_unless {p : Prop} [Decidable p] (h : ¬ p → Stepwise R committing known code) :
  Stepwise R committing known (if p then .rollback .halt else code) :=
 stepwise_ite (fun _ => trivial) h

theorem stepwise_writeRow {k : K} {may : AList Row → Row k → Bool} {value : Row k → Option (Row k)}
  {next : Row k → Code Row A E}
  (hwrite : ∀ v row, may v row = true → R (known ++ [⟨.row k, true⟩]) k (some row) (value row))
  (hnext : ∀ row, Stepwise R committing (known ++ [⟨.row k, true⟩]) (next row)) :
  Stepwise R committing known (Code.writeRow k may value next) := by
 intro clock v
 dsimp only
 cases hfound : (v.lookup k).filter (may v) with
 | none => exact ⟨fun w hw => absurd hw List.not_mem_nil, trivial⟩
 | some row =>
  obtain ⟨hrow, hmay⟩ := Option.filter_eq_some_iff.1 hfound
  refine ⟨fun w hw => ?_, hnext row⟩
  obtain rfl := Option.some.inj (Option.mem_toList.1 hw)
  rw [hrow]
  exact hwrite v row hmay

theorem stepwise_insertRow {key : ℕ → K} {row : (clock : ℕ) → Row (key clock)}
  {next : ℕ → Code Row A E}
  (hwrite : ∀ clock, R (known ++ [⟨.row (key clock), true⟩]) (key clock) none (some (row clock)))
  (hnext : ∀ clock, Stepwise R committing (known ++ [⟨.row (key clock), true⟩]) (next clock)) :
  Stepwise R committing known (Code.insertRow key row next) := by
 intro clock v
 dsimp only
 by_cases hnone : (v.lookup (key clock)).isNone = true
 · rw [if_pos hnone, if_pos hnone]
   refine ⟨fun w hw => ?_, hnext clock⟩
   rw [List.mem_singleton.1 hw, Option.isNone_iff_eq_none.1 hnone]
   exact hwrite clock
 · rw [if_neg hnone, if_neg hnone]
   exact ⟨fun w hw => absurd hw List.not_mem_nil, trivial⟩

theorem stepwise_rowWrites {change : RowChange Row} {k : K} {v : AList Row}
  (hwrite : ∀ row value, change k row = some value → R known k (some row) value) :
  ∀ w ∈ rowWrites change v k, R known w.key (v.lookup w.key) w.value := by
 intro w hw
 unfold rowWrites at hw
 cases hchange : (v.lookup k).bind (change k) with
 | none => simp [hchange] at hw
 | some value =>
  rw [hchange] at hw
  obtain ⟨row, hrow, hvalue⟩ := Option.bind_eq_some_iff.1 hchange
  rw [List.mem_singleton.1 hw, hrow]
  exact hwrite row value hvalue

theorem stepwise_eachRow (hR : Composes R) {change : RowChange Row} {keys : List K}
  {next : Code Row A E}
  (hwrite : ∀ k ∈ keys, ∀ row value, change k row = some value → R known k (some row) value)
  (hnext : Stepwise R committing known next) :
  Stepwise R committing known (Code.eachRow change keys next) := by
 induction keys with
 | nil => exact hnext
 | cons k keys ih =>
  intro clock v
  refine ⟨stepwise_rowWrites fun row value hchange => ?_,
   (ih fun k' hk' => ?_).more hR (List.subset_append_left _ _)⟩
  · exact hR.mono _ _ _ _ _ (List.subset_append_left _ _) (hwrite k List.mem_cons_self row value hchange)
  · exact hwrite k' (List.mem_cons_of_mem _ hk')

theorem stepwise_updateMany (hR : Composes R) {change : RowChange Row} {next : Code Row A E}
  (hwrite : ∀ k row value, change k row = some value → R known k (some row) value)
  (hnext : Stepwise R committing known next) :
  Stepwise R committing known (Code.updateMany change next) :=
 stepwise_query hR fun _ _ => stepwise_eachRow hR (fun k _ => hwrite k) hnext

end Constructs

end Stepwise

section Selection

variable {K : Type} [DecidableEq K] {Row : K → Type} {α : Type} {f : (k : K) → Row k → Option α}

omit [DecidableEq K] in
theorem nodup_select (hf : ∀ k row k' row' a, f k row = some a → f k' row' = some a → k = k')
  (v : AList Row) :
  (select f v).Nodup := by
 have hkeys := List.nodupKeys_iff_pairwise.1 v.nodupKeys
 refine List.pairwise_filterMap.2 (hkeys.imp fun hne a ha a' ha' heq => ?_)
 subst heq
 exact hne (hf _ _ _ _ a ha ha')

omit [DecidableEq K] in
theorem perm_select (hf : ∀ k row k' row' a, f k row = some a → f k' row' = some a → k = k')
  {v v' : AList Row} (h : ∀ a, a ∈ select f v ↔ a ∈ select f v') :
  (select f v).Perm (select f v') :=
 (List.perm_ext_iff_of_nodup (nodup_select hf v) (nodup_select hf v')).2 h

end Selection

end BoardGamesEmpire.ReadCommittedProtocol
