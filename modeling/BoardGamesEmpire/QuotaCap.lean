import BoardGamesEmpire.QuotaConsume

set_option autoImplicit false

/-!
# Hard quotas hold under every interleaving

What one statement keeps, what a run keeps, and from it the three facts about
consuming: a commit never carries a governed target over its hard limit, a
consume refuses exactly when a hard limit would be exceeded, and the advisory
locks, taken in ascending order, admit no cycle of waits.
-/
namespace BoardGamesEmpire.Quota

variable {sha1 : String → List UInt8} {table : QuotaTable}

theorem set_txs_cases {s : State} {i j : ℕ} {tx tx' : Tx} (h : (s.set i tx).txs j = some tx') :
  (j = i ∧ tx' = tx) ∨ (j ≠ i ∧ s.txs j = some tx') := by
 unfold State.set at h
 simp only [Function.update_apply] at h
 split at h
 · next hj => exact .inl ⟨hj, (Option.some.inj h).symm⟩
 · next hj => exact .inr ⟨hj, h⟩

section Steps

variable {s : State} {i : ℕ} {tx tx' : Tx}

theorem applicable_nil (h : tx.targets = []) : tx.applicable table = [] := by
 simp [Tx.applicable, QuotaTable.applicable, h]

variable {usage : Usage}

theorem ok_unconstrained (hnone : tx.applicable table = []) (hheld : tx.held = [])
  (hlowers : Lowers tx.delta) : tx.Ok sha1 table usage (.returned unconstrained) := by
 refine .returned _ ?_ hlowers fun _ a ha => ?_
 · rw [hheld, Tx.lockKeys, hnone]
   rfl
 · rw [hnone] at ha
   exact absurd ha List.not_mem_nil

theorem consume_ok (hheld : tx.held = []) (hlowers : Lowers tx.delta) :
  tx.Ok sha1 table usage tx.consume := by
 unfold Tx.consume
 split_ifs with hamount husage htargets
 · exact .threw _ hheld hlowers
 · exact .threw _ hheld hlowers
 · exact ok_unconstrained (applicable_nil (List.isEmpty_iff.1 htargets)) hheld hlowers
 · exact .loading hheld hlowers

theorem loaded_ok {rows : List QuotaRow}
  (hrows : rows.Perm (table.findMany tx.resource tx.targets)) (hheld : tx.held = [])
  (hlowers : Lowers tx.delta) : tx.Ok sha1 table usage (tx.loaded sha1 tx.targets rows) := by
 have happlicable : loadApplicable rows tx.targets = tx.applicable table := loadApplicable_loaded hrows
 unfold Tx.loaded
 rw [happlicable]
 split
 · next hnone => exact ok_unconstrained (List.isEmpty_iff.1 hnone) hheld hlowers
 · refine .locking _ ?_ hlowers
   rw [hheld]
   rfl

theorem measured_set {usages : List (Option ℤ)} {index : ℕ} {a : Applicable}
  (hmeasured : tx.Measured table usage usages) (ha : (tx.applicable table)[index]? = some a) :
  tx.Measured table usage
   (usages.set index (some (usage tx.resource a.target + tx.delta tx.resource a.target))) := by
 intro other b figure hb hfigure
 by_cases hsame : other = index
 · subst hsame
   have hlt : other < usages.length := by
    simpa using (List.getElem?_eq_some_iff.1 hfigure).1
   rw [List.getElem?_set_self hlt] at hfigure
   have hvalue := Option.some.inj (Option.some.inj hfigure)
   rw [ha] at hb
   rw [← Option.some.inj hb, ← hvalue]
 · rw [List.getElem?_set_ne (Ne.symm hsame)] at hfigure
   exact hmeasured other b figure hb hfigure

theorem mem_constraintsOf {applicable : List Applicable} {usages : List ℤ} {amount : ℤ}
  {index : ℕ} {a : Applicable} {figure : ℤ} (ha : applicable[index]? = some a)
  (hfigure : usages[index]? = some figure) :
  a.constraint figure amount ∈ constraintsOf applicable usages amount := by
 apply List.mem_of_getElem? (i := index)
 simp [constraintsOf, List.getElem?_zipWith, ha, hfigure]

theorem evaluate_room {usages : List ℤ} {result : QuotaCheckResult}
  (hlength : usages.length = (tx.applicable table).length)
  (hmeasured : tx.Measured table usage (usages.map some))
  (hresult : result = evaluate tx.resource (tx.applicable table) usages tx.amount)
  (hallowed : result.allowed = true) : tx.Room table usage tx.amount := by
 intro a ha hhard
 obtain ⟨index, hindex⟩ := List.getElem?_of_mem ha
 have hlt : index < usages.length := by
  rw [hlength]
  exact (List.getElem?_eq_some_iff.1 hindex).1
 have hfigure : usages[index]? = some usages[index] := List.getElem?_eq_getElem hlt
 subst hresult
 have hnone := verdict_allowed_iff.1 hallowed _ (mem_constraintsOf hindex hfigure)
 simp only [QuotaConstraint.hardViolation, Applicable.constraint, hhard, Bool.not_false,
  Bool.and_true, decide_eq_false_iff_not, not_lt] at hnone
 have := hmeasured index a usages[index] hindex (by simp [hfigure])
 omega

theorem Tx.Ok.lower {usage change : Usage} {phase : Phase} (hok : tx.Ok sha1 table usage phase)
  (hchange : Lowers change) :
  ({ tx with delta := tx.delta + change } : Tx).Ok sha1 table usage phase := by
 have hsunk : ∀ resource target, (tx.delta + change) resource target ≤ tx.delta resource target := by
  intro resource target
  have := hchange resource target
  simp only [Pi.add_apply]
  omega
 have hkept : ∀ {extra : ℤ}, tx.Room table usage extra →
   ({ tx with delta := tx.delta + change } : Tx).Room table usage extra := by
  intro extra hroom a ha hhard
  have := hroom a ha hhard
  have := hsunk tx.resource a.target
  dsimp only
  omega
 cases hok with
 | opened hheld hlowers => exact .opened hheld (hlowers.add hchange)
 | threw error hheld hlowers => exact .threw error hheld (hlowers.add hchange)
 | ended hheld hlowers => exact .ended hheld (hlowers.add hchange)
 | loading hheld hlowers => exact .loading hheld (hlowers.add hchange)
 | locking keys hheld hlowers => exact .locking keys hheld (hlowers.add hchange)
 | measuring usages hheld hlowers hlength hmeasured =>
  refine .measuring usages hheld (hlowers.add hchange) hlength fun index a figure ha hfigure => ?_
  have := hmeasured index a figure ha hfigure
  have := hsunk tx.resource a.target
  dsimp only
  omega
 | returned result hheld hlowers hroom =>
  exact .returned result hheld (hlowers.add hchange) fun hallowed => hkept (hroom hallowed)
 | written result hheld hroom hunnamed =>
  refine .written result hheld (hkept hroom) fun resource target hout => ?_
  exact (hsunk resource target).trans (hunnamed resource target hout)

theorem TxStep.ok (hok : tx.Ok sha1 table s.usage tx.phase) (hstep : TxStep sha1 table s i tx tx') :
  tx'.Ok sha1 table s.usage tx'.phase := by
 cases hstep with
 | consume hphase =>
  rw [hphase] at hok
  cases hok with
  | opened hheld hlowers => exact consume_ok hheld hlowers
 | load targets rows hphase hrows =>
  rw [hphase] at hok
  cases hok with
  | loading hheld hlowers => exact loaded_ok hrows hheld hlowers
 | lock applicable key keys hphase hfree =>
  rw [hphase] at hok
  cases hok with
  | locking _ hheld hlowers =>
   refine .locking keys ?_ hlowers
   rw [List.append_assoc]
   exact hheld
 | locked applicable hphase =>
  rw [hphase] at hok
  cases hok with
  | locking _ hheld hlowers =>
   refine .measuring _ ?_ hlowers (List.length_map _) fun index a figure ha hfigure => ?_
   · rw [List.append_nil] at hheld
     exact hheld
   · have ha' : (tx.applicable table)[index]? = some a := ha
     rw [List.getElem?_map, ha'] at hfigure
     cases hfigure
 | measure applicable usages index a hphase ha hnew =>
  rw [hphase] at hok
  cases hok with
  | measuring _ hheld hlowers hlength hmeasured =>
   refine .measuring _ hheld hlowers ?_ (measured_set hmeasured ha)
   rw [List.length_set]
   exact hlength
 | evaluate applicable usages hphase =>
  rw [hphase] at hok
  cases hok with
  | measuring _ hheld hlowers hlength hmeasured =>
   rw [List.length_map] at hlength
   exact .returned _ hheld hlowers (evaluate_room hlength hmeasured rfl)
 | write result change hphase hallowed hchange =>
  rw [hphase] at hok
  cases hok with
  | returned _ hheld hlowers hroom =>
   refine .written result hheld (fun a ha hhard => ?_) fun resource target hout => ?_
   · have htarget := (mem_applicable.1 ha).1
     have hadded := hchange.named a.target htarget
     have hleft := hroom hallowed a ha hhard
     simp only [Pi.add_apply]
     omega
   · have hadded := hchange.unnamed resource target hout
     have hbefore := hlowers resource target
     simp only [Pi.add_apply]
     omega
 | lower change hphase hchange => exact hok.lower hchange

theorem TxStep.held (hstep : TxStep sha1 table s i tx tx') :
  tx'.held = tx.held ∨ ∃ key, tx'.held = tx.held ++ [key] ∧ s.Free i key := by
 cases hstep with
 | lock applicable key keys hphase hfree => exact .inr ⟨key, rfl, hfree⟩
 | consume | load | locked | measure | evaluate | write | lower => exact .inl rfl

end Steps

section Invariant

variable (sha1 table)

structure Inv (s : State) : Prop where
  ok : ∀ (i : ℕ) (tx : Tx), s.txs i = some tx → tx.Ok sha1 table s.usage tx.phase
  exclusive : ∀ (i j : ℕ) (tx tx' : Tx), s.txs i = some tx → s.txs j = some tx' → i ≠ j →
    ∀ key ∈ tx.held, key ∉ tx'.held

variable {sha1 table} {s s' : State} {i : ℕ} {tx tx' : Tx}

theorem Inv.set (hinv : Inv sha1 table s) (hok : tx'.Ok sha1 table s.usage tx'.phase)
  (hfree : ∀ key ∈ tx'.held, s.Free i key) : Inv sha1 table (s.set i tx') := by
 constructor
 · intro j other hother
   obtain ⟨rfl, rfl⟩ | ⟨-, hother⟩ := set_txs_cases hother
   · exact hok
   · exact hinv.ok j other hother
 · intro j k one other hone hother hne key hkey hheld
   obtain ⟨rfl, rfl⟩ | ⟨hj, hone'⟩ := set_txs_cases hone
   · obtain ⟨rfl, rfl⟩ | ⟨hk, hother⟩ := set_txs_cases hother
     · exact hne rfl
     · exact hfree key hkey k other hother hk hheld
   · obtain ⟨rfl, rfl⟩ | ⟨hk, hother⟩ := set_txs_cases hother
     · exact hfree key hheld j one hone' hj hkey
     · exact hinv.exclusive j k one other hone' hother hne key hkey hheld

theorem Inv.held_free (hinv : Inv sha1 table s) (htx : s.txs i = some tx) :
  ∀ key ∈ tx.held, s.Free i key := by
 intro key hkey j other hother hj hheld
 exact hinv.exclusive j i other tx hother htx hj key hheld hkey

theorem Inv.sunk (hinv : Inv sha1 table s) {usage : Usage}
  (hsunk : ∀ i tx, s.txs i = some tx → @Tx.Sunk sha1 table tx s.usage usage) :
  Inv sha1 table { s with usage } :=
 ⟨fun i tx htx => (hinv.ok i tx htx).mono (hsunk i tx htx), hinv.exclusive⟩

theorem end_ok (usage : Usage) : tx.end.Ok sha1 table usage tx.end.phase :=
 .ended rfl fun _ _ => le_rfl

theorem Inv.commit_sunk (hinv : Inv sha1 table s) (htx : s.txs i = some tx) {j : ℕ} {other : Tx}
  (hother : s.txs j = some other) (hj : j ≠ i) :
  @Tx.Sunk sha1 table other s.usage (s.view tx) := by
 intro a ha hkey
 obtain ⟨htarget, hgoverning, henforced⟩ := mem_applicable.1 ha
 by_contra hrises
 have hraised : 0 < tx.delta other.resource a.target := by
  unfold State.view at hrises
  omega
 obtain ⟨-, hheld, -⟩ := (hinv.ok i tx htx).raised hgoverning henforced hraised
 exact hinv.held_free htx _ hheld j other hother hj hkey

theorem Inv.commit (hinv : Inv sha1 table s) (htx : s.txs i = some tx) :
  Inv sha1 table ({ s with usage := s.view tx }.set i tx.end) := by
 constructor
 · intro j other hother
   obtain ⟨rfl, rfl⟩ | ⟨hj, hother⟩ := set_txs_cases hother
   · exact end_ok _
   · exact (hinv.ok j other hother).mono (hinv.commit_sunk htx hother hj)
 · intro j k one other hone hother hne key hkey hheld
   obtain ⟨rfl, rfl⟩ | ⟨hj, hone⟩ := set_txs_cases hone
   · exact absurd hkey List.not_mem_nil
   · obtain ⟨rfl, rfl⟩ | ⟨hk, hother⟩ := set_txs_cases hother
     · exact absurd hheld List.not_mem_nil
     · exact hinv.exclusive j k one other hone hother hne key hkey hheld

theorem Step.inv (hinv : Inv sha1 table s) (hstep : Step sha1 table s s') : Inv sha1 table s' := by
 cases hstep with
 | begin i resource amount ctx hnew =>
  exact hinv.set (.opened rfl fun _ _ => le_rfl) fun key hkey => absurd hkey List.not_mem_nil
 | tx i tx tx' htx hstep =>
  refine hinv.set (hstep.ok (hinv.ok i tx htx)) fun key hkey => ?_
  obtain hsame | ⟨taken, hheld, hfree⟩ := hstep.held
  · exact hinv.held_free htx key (hsame ▸ hkey)
  · rw [hheld, List.mem_append, List.mem_singleton] at hkey
    obtain hkey | rfl := hkey
    · exact hinv.held_free htx key hkey
    · exact hfree
 | commit i tx htx => exact hinv.commit htx
 | rollback i tx htx => exact hinv.set (end_ok _) fun key hkey => absurd hkey List.not_mem_nil
 | lapse change hchange =>
  refine hinv.sunk fun i tx htx a ha hkey => ?_
  have := hchange tx.resource a.target
  simp only [Pi.add_apply]
  omega

theorem Run.inv {trace : List State} (hrun : Run sha1 table trace) :
  ∀ s past, trace = s :: past → Inv sha1 table s := by
 induction hrun with
 | start usage =>
  rintro s past ⟨⟩
  exact ⟨fun i tx htx => by simp at htx, fun i j tx tx' htx => by simp at htx⟩
 | step hrun hstep ih =>
  rintro s past ⟨⟩
  exact hstep.inv (ih _ _ rfl)

end Invariant

section Seen

variable (sha1)

/-- A state of the run in which transaction `i` held the target's lock and saw
    this usage on it. -/
def SeenAt (trace : List State) (i : ℕ) (resource : QuotaResource) (target : ResolvedTarget)
    (figure : ℤ) : Prop :=
  ∃ s ∈ trace, ∃ tx, s.txs i = some tx ∧ advisoryLockKey sha1 resource target ∈ tx.held ∧
    s.view tx resource target = figure

variable (table)

def Tx.SeenAll (trace : List State) (i : ℕ) (tx : Tx) (usages : List (Option ℤ)) : Prop :=
  ∀ (index : ℕ) (a : Applicable) (figure : ℤ), (tx.applicable table)[index]? = some a →
    usages[index]? = some (some figure) → SeenAt sha1 trace i tx.resource a.target figure

structure Tx.Seen (trace : List State) (i : ℕ) (tx : Tx) : Prop where
  measuring : ∀ applicable usages, tx.phase = .measuring applicable usages →
    tx.SeenAll sha1 table trace i usages
  returned : ∀ result, tx.phase = .returned result → ∃ usages : List ℤ,
    usages.length = (tx.applicable table).length ∧
    result = evaluate tx.resource (tx.applicable table) usages tx.amount ∧
    tx.SeenAll sha1 table trace i (usages.map some)

variable {sha1 table} {s : State} {trace : List State} {i : ℕ} {tx tx' : Tx}

theorem SeenAt.later {resource : QuotaResource} {target : ResolvedTarget} {figure : ℤ}
  (h : SeenAt sha1 trace i resource target figure) (s : State) :
  SeenAt sha1 (s :: trace) i resource target figure := by
 obtain ⟨old, hold, rest⟩ := h
 exact ⟨old, List.mem_cons_of_mem _ hold, rest⟩

theorem Tx.Seen.later (h : tx.Seen sha1 table trace i) (s : State) :
  tx.Seen sha1 table (s :: trace) i := by
 constructor
 · intro applicable usages hphase index a figure ha hfigure
   exact (h.measuring applicable usages hphase index a figure ha hfigure).later s
 · intro result hphase
   obtain ⟨usages, hlength, hresult, hseen⟩ := h.returned result hphase
   exact ⟨usages, hlength, hresult, fun index a figure ha hfigure =>
    (hseen index a figure ha hfigure).later s⟩

theorem seen_of_phase (hmeasuring : ∀ applicable usages, tx.phase ≠ .measuring applicable usages)
  (hreturned : ∀ result, tx.phase ≠ .returned result) : tx.Seen sha1 table trace i :=
 ⟨fun applicable usages h => absurd h (hmeasuring applicable usages),
  fun result h => absurd h (hreturned result)⟩

theorem seen_unconstrained (hphase : tx.phase = .returned unconstrained)
  (hnone : tx.applicable table = []) : tx.Seen sha1 table trace i := by
 constructor
 · intro applicable usages h
   rw [hphase] at h
   cases h
 · intro result h
   rw [hphase] at h
   cases h
   refine ⟨[], by rw [hnone]; rfl, by rw [hnone]; rfl, fun index a figure ha => ?_⟩
   rw [hnone] at ha
   simp at ha

theorem TxStep.seen (hs : s ∈ trace) (htx : s.txs i = some tx)
  (hok : tx.Ok sha1 table s.usage tx.phase) (hseen : tx.Seen sha1 table trace i)
  (hstep : TxStep sha1 table s i tx tx') : tx'.Seen sha1 table trace i := by
 cases hstep with
 | consume hphase =>
  by_cases hunconstrained : tx.consume = .returned unconstrained
  · refine seen_unconstrained hunconstrained ?_
    unfold Tx.consume at hunconstrained
    split_ifs at hunconstrained with hamount husage htargets
    exact @applicable_nil table tx (List.isEmpty_iff.1 htargets)
  · refine seen_of_phase (fun applicable usages h => ?_) fun result h => ?_
    · simp only [Tx.consume] at h
      split_ifs at h
    · apply hunconstrained
      simp only [Tx.consume] at h ⊢
      split_ifs at h ⊢
      rfl
 | load targets rows hphase hrows =>
  rw [hphase] at hok
  cases hok with
  | loading hheld hlowers =>
   have happlicable : loadApplicable rows tx.targets = tx.applicable table := loadApplicable_loaded hrows
   by_cases hnone : (tx.applicable table).isEmpty = true
   · refine seen_unconstrained ?_ (List.isEmpty_iff.1 hnone)
     simp only [Tx.loaded, happlicable, hnone, if_true]
   · refine seen_of_phase (fun applicable usages h => ?_) fun result h => ?_
     all_goals
      simp only [Tx.loaded, happlicable, hnone] at h
      cases h
 | lock | write => exact seen_of_phase (by simp) (by simp)
 | locked applicable hphase =>
  rw [hphase] at hok
  cases hok with
  | locking _ hheld hlowers =>
   refine ⟨fun _ usages h index a figure ha hfigure => ?_, by simp⟩
   cases h
   have ha' : (tx.applicable table)[index]? = some a := ha
   rw [List.getElem?_map, ha'] at hfigure
   cases hfigure
 | measure applicable usages index a hphase ha hnew =>
  have hbefore := hseen.measuring applicable usages hphase
  rw [hphase] at hok
  cases hok with
  | measuring _ hheld hlowers hlength hmeasured =>
   refine ⟨fun _ usages' h other b figure hb hfigure => ?_, by simp⟩
   cases h
   by_cases hsame : other = index
   · subst hsame
     have hlt : other < usages.length := (List.getElem?_eq_some_iff.1 hnew).1
     rw [List.getElem?_set_self hlt] at hfigure
     have hvalue := Option.some.inj (Option.some.inj hfigure)
     have hb' : (tx.applicable table)[other]? = some b := hb
     obtain rfl : a = b := Option.some.inj (ha.symm.trans hb')
     have hkey : advisoryLockKey sha1 tx.resource a.target ∈ tx.held := by
      rw [hheld]
      exact lockKey_mem (List.mem_of_getElem? ha)
     exact ⟨s, hs, tx, htx, hkey, hvalue⟩
   · rw [List.getElem?_set_ne (Ne.symm hsame)] at hfigure
     exact hbefore other b figure hb hfigure
 | evaluate applicable usages hphase =>
  have hbefore := hseen.measuring applicable _ hphase
  rw [hphase] at hok
  cases hok with
  | measuring _ hheld hlowers hlength hmeasured =>
   refine ⟨by simp, fun result h => ?_⟩
   cases h
   rw [List.length_map] at hlength
   exact ⟨usages, hlength, rfl, hbefore⟩
 | lower change hphase hchange => exact ⟨hseen.measuring, hseen.returned⟩

theorem Run.seen (hrun : Run sha1 table trace) :
  ∀ s past, trace = s :: past → ∀ i tx, s.txs i = some tx → tx.Seen sha1 table trace i := by
 induction hrun with
 | start usage =>
  rintro s past ⟨⟩ i tx htx
  simp at htx
 | @step s s' past hrun hstep ih =>
  rintro _ _ ⟨⟩ i tx htx
  have hseen := ih s past rfl
  have hinv := hrun.inv s past rfl
  have hold : ∀ {j : ℕ} {other : Tx}, s.txs j = some other → other.Seen sha1 table (s' :: s :: past) j :=
   fun hother => (hseen _ _ hother).later s'
  cases hstep with
  | begin k resource amount ctx hnew =>
   obtain ⟨rfl, rfl⟩ | ⟨-, hother⟩ := set_txs_cases htx
   · exact seen_of_phase (by simp) (by simp)
   · exact hold hother
  | tx k before after hbefore hstep =>
   obtain ⟨rfl, rfl⟩ | ⟨-, hother⟩ := set_txs_cases htx
   · exact (hstep.seen List.mem_cons_self hbefore (hinv.ok i before hbefore)
      (hseen i before hbefore)).later _
   · exact hold hother
  | commit k before hbefore =>
   obtain ⟨rfl, rfl⟩ | ⟨-, hother⟩ := set_txs_cases htx
   · exact seen_of_phase (by simp [Tx.end]) (by simp [Tx.end])
   · exact hold hother
  | rollback k before hbefore =>
   obtain ⟨rfl, rfl⟩ | ⟨-, hother⟩ := set_txs_cases htx
   · exact seen_of_phase (by simp [Tx.end]) (by simp [Tx.end])
   · exact hold hother
  | lapse change hchange => exact hold htx

end Seen

section Results

variable {s : State} {past : List State}

theorem exists_figures {applicable : List Applicable} {usages : List ℤ}
  (hlength : usages.length = applicable.length) (hnodup : (applicable.map (·.target)).Nodup) :
  ∃ measured : ResolvedTarget → ℤ, usages = applicable.map fun a => measured a.target := by
 induction applicable generalizing usages with
 | nil => exact ⟨fun _ => 0, List.length_eq_zero_iff.1 hlength⟩
 | cons a applicable ih =>
  cases usages with
  | nil => simp at hlength
  | cons figure usages =>
   rw [List.map_cons, List.nodup_cons] at hnodup
   obtain ⟨measured, hmeasured⟩ := ih (Nat.succ.inj hlength) hnodup.2
   refine ⟨Function.update measured a.target figure, ?_⟩
   rw [List.map_cons, Function.update_self, hmeasured]
   congr 1
   apply List.map_congr_left
   intro b hb
   rw [Function.update_of_ne]
   intro heq
   exact hnodup.1 (heq ▸ List.mem_map_of_mem hb)

theorem applicable_nodup (tx : Tx) : ((tx.applicable table).map (·.target)).Nodup := by
 have htargets : tx.targets.Nodup :=
  (resolveTargets_nodup (applicableScopes_nodup tx.resource) tx.ctx).of_map
 have hsub : ((tx.applicable table).map (·.target)).Sublist tx.targets := by
  unfold Tx.applicable QuotaTable.applicable
  induction tx.targets with
  | nil => simp
  | cons target targets ih =>
   rw [List.filterMap_cons]
   split
   · exact ih.cons target
   · next a ha =>
     obtain ⟨row, -, rfl⟩ := Option.map_eq_some_iff.1 ha
     exact ih.cons_cons target
 exact htargets.sublist hsub

variable (table) in
structure HardExceeded (tx : Tx) (measured : ResolvedTarget → ℤ) (target : ResolvedTarget)
    (row : QuotaRow) : Prop where
  named : target ∈ tx.targets
  governing : table.governing tx.resource target = some row
  enforced : row.enforced = true
  hard : row.softOverage = false
  exceeded : row.limit < measured target + tx.amount

variable (sha1 table) in
structure Decided (trace : List State) (i : ℕ) (tx : Tx) (result : QuotaCheckResult)
    (measured : ResolvedTarget → ℤ) : Prop where
  seen : ∀ target ∈ tx.targets, ∀ row, table.governing tx.resource target = some row →
    row.enforced = true → SeenAt sha1 trace i tx.resource target (measured target)
  refused_iff : result.allowed = false ↔ ∃ target row, HardExceeded table tx measured target row
  reported : result.allowed = false → ∃ target row, HardExceeded table tx measured target row ∧
    result.scope = some target.scope ∧ result.limit = some row.limit ∧
    result.currentUsage = some (measured target) ∧ result.softOverage = false

theorem hardViolation_iff {a : Applicable} {figure amount : ℤ} :
  (a.constraint figure amount).hardViolation = true ↔
   a.row.softOverage = false ∧ a.row.limit < figure + amount := by
 simp [QuotaConstraint.hardViolation, Applicable.constraint, and_comm]

theorem mem_constraints_hard {tx : Tx} {measured : ResolvedTarget → ℤ} {a : Applicable}
  (ha : a ∈ tx.applicable table)
  (hhard : (a.constraint (measured a.target) tx.amount).hardViolation = true) :
  HardExceeded table tx measured a.target a.row := by
 obtain ⟨htarget, hgoverning, henforced⟩ := mem_applicable.1 ha
 obtain ⟨hsoft, hexceeded⟩ := hardViolation_iff.1 hhard
 exact ⟨htarget, hgoverning, henforced, hsoft, hexceeded⟩

theorem constraintsOf_figures (applicable : List Applicable) (measured : ResolvedTarget → ℤ)
  (amount : ℤ) :
  constraintsOf applicable (applicable.map fun a => measured a.target) amount =
   applicable.map fun a => a.constraint (measured a.target) amount := by
 unfold constraintsOf
 rw [List.zipWith_map_right, List.zipWith_self]

theorem evaluate_reports {tx : Tx} {measured : ResolvedTarget → ℤ} {result : QuotaCheckResult}
  (hresult : result = evaluate tx.resource (tx.applicable table)
   ((tx.applicable table).map fun a => measured a.target) tx.amount)
  (hrefused : result.allowed = false) :
  ∃ target row, HardExceeded table tx measured target row ∧
   result.scope = some target.scope ∧ result.limit = some row.limit ∧
   result.currentUsage = some (measured target) ∧ result.softOverage = false := by
 subst hresult
 obtain ⟨c, hc, hhard, hscope, husage, hlimit, hsoft⟩ := verdict_refused hrefused
 rw [constraintsOf_figures] at hc
 obtain ⟨a, ha, rfl⟩ := List.mem_map.1 hc
 exact ⟨a.target, a.row, mem_constraints_hard ha hhard, hscope, hlimit, husage,
  hsoft.trans (hardViolation_iff.1 hhard).1⟩

theorem evaluate_refuses {tx : Tx} {measured : ResolvedTarget → ℤ} {target : ResolvedTarget}
  {row : QuotaRow} (h : HardExceeded table tx measured target row) :
  (evaluate tx.resource (tx.applicable table)
   ((tx.applicable table).map fun a => measured a.target) tx.amount).allowed = false := by
 have hmem : ⟨target, row⟩ ∈ tx.applicable table :=
  mem_applicable.2 ⟨h.named, h.governing, h.enforced⟩
 have hconstraint : (⟨target, row⟩ : Applicable).constraint (measured target) tx.amount ∈
   constraintsOf (tx.applicable table) ((tx.applicable table).map fun a => measured a.target)
    tx.amount := by
  rw [constraintsOf_figures]
  exact List.mem_map.2 ⟨_, hmem, rfl⟩
 by_contra hallowed
 have hnone := verdict_allowed_iff.1 ((Bool.not_eq_false _).mp hallowed) _ hconstraint
 rw [hardViolation_iff.2 ⟨h.hard, h.exceeded⟩] at hnone
 cases hnone

theorem Tx.Seen.decided {trace : List State} {i : ℕ} {tx : Tx} {result : QuotaCheckResult}
  (hseen : tx.Seen sha1 table trace i) (hphase : tx.phase = .returned result) :
  ∃ measured, Decided sha1 table trace i tx result measured := by
 obtain ⟨usages, hlength, hresult, hfigures⟩ := hseen.returned result hphase
 obtain ⟨measured, rfl⟩ := exists_figures hlength (applicable_nodup tx)
 refine ⟨measured, ?_, ⟨fun h => ?_, fun ⟨target, row, h⟩ => ?_⟩, evaluate_reports hresult⟩
 · intro target htarget row hgoverning henforced
   have hmem : ⟨target, row⟩ ∈ tx.applicable table :=
    mem_applicable.2 ⟨htarget, hgoverning, henforced⟩
   obtain ⟨index, hindex⟩ := List.getElem?_of_mem hmem
   exact hfigures index ⟨target, row⟩ (measured target) hindex (by simp [hindex])
 · obtain ⟨target, row, hexceeded, -⟩ := evaluate_reports hresult h
   exact ⟨target, row, hexceeded⟩
 · rw [hresult]
   exact evaluate_refuses h

theorem Step.within_limit {s s' : State} (hinv : Inv sha1 table s) (hstep : Step sha1 table s s')
  {resource : QuotaResource} {target : ResolvedTarget} {row : QuotaRow}
  (hgoverning : table.governing resource target = some row) (henforced : row.enforced = true)
  (hhard : row.softOverage = false) (hwithin : s.usage resource target ≤ row.limit) :
  s'.usage resource target ≤ row.limit := by
 cases hstep with
 | begin | tx | rollback => exact hwithin
 | commit i tx htx =>
  change s.usage resource target + tx.delta resource target ≤ row.limit
  rcases lt_or_ge 0 (tx.delta resource target) with hraised | hlowered
  · exact ((hinv.ok i tx htx).raised hgoverning henforced hraised).2.2 hhard
  · omega
 | lapse change hchange =>
  have := hchange resource target
  change s.usage resource target + change resource target ≤ row.limit
  omega

def Tx.wanted (tx : Tx) : WithTop ℤ :=
  match tx.phase with
  | .locking _ (key :: _) => key
  | _ => ⊤

theorem Tx.Ok.held_lt_wanted {usage : Usage} {tx : Tx} (hok : tx.Ok sha1 table usage tx.phase)
  {key : ℤ} (hkey : key ∈ tx.held) : (key : WithTop ℤ) < tx.wanted := by
 unfold Tx.wanted
 split
 · next applicable next keys hphase =>
   rw [hphase] at hok
   cases hok with
   | locking _ hheld hlowers =>
    have hsorted : (tx.held ++ next :: keys).Pairwise (· < ·) := by
     rw [hheld]
     exact lockKeys_sorted sha1 _ _
    exact WithTop.coe_lt_coe.2
     ((List.pairwise_append.1 hsorted).2.2 key hkey next List.mem_cons_self)
 · exact WithTop.coe_lt_top key

theorem Inv.no_wait_cycle {s : State} (hinv : Inv sha1 table s) (i : ℕ) :
  ¬ Relation.TransGen (WaitsFor s) i i := by
 have hup : ∀ i j, WaitsFor s i j →
   (s.txs i).elim ⊤ Tx.wanted < (s.txs j).elim ⊤ Tx.wanted := by
  rintro i j ⟨-, tx, tx', applicable, key, keys, htx, htx', hphase, hkey⟩
  have hwanted : tx.wanted = key := by simp [Tx.wanted, hphase]
  simp only [htx, htx', Option.elim_some, hwanted]
  exact (hinv.ok j tx' htx').held_lt_wanted hkey
 intro hcycle
 have hlt := hcycle.lift _ hup
 rw [Relation.transGen_eq_self] at hlt
 exact lt_irrefl _ hlt

/-- Hard quotas cannot be overshot, whatever the interleaving. -/
theorem consume_guards_hard_quotas (hrun : Run sha1 table (s :: past)) :
    (∀ s', Step sha1 table s s' → ∀ resource target row,
      table.governing resource target = some row → row.enforced = true → row.softOverage = false →
        s.usage resource target ≤ row.limit → s'.usage resource target ≤ row.limit) ∧
    (∀ i tx result, s.txs i = some tx → tx.phase = .returned result →
      ∃ measured, Decided sha1 table (s :: past) i tx result measured) ∧
    ∀ i, ¬ Relation.TransGen (WaitsFor s) i i := by
 have hinv := hrun.inv s past rfl
 refine ⟨?_, ?_, hinv.no_wait_cycle⟩
 · intro s' hstep resource target row hgoverning henforced hhard hwithin
   exact hstep.within_limit hinv hgoverning henforced hhard hwithin
 · intro i tx result htx hphase
   exact (hrun.seen s past rfl i tx htx).decided hphase

end Results

section Sample

def sampleTable : QuotaTable :=
  { rows := [⟨.household_member_count, .Household, DEFAULT_SCOPE_ID, 1, false, true⟩]
    unique := by simp }

def sampleSha1 (text : String) : List UInt8 :=
  if text = "quota:household_member_count:Household:h1" then
    [133, 12, 36, 62, 117, 110, 56, 59, 61, 55, 19, 101, 172, 136, 48, 88, 150, 44, 0, 188]
  else []

def sampleTx (phase : Phase) (held : List ℤ) : Tx :=
  { resource := .household_member_count, amount := 1, ctx := ⟨none, some "h1", none⟩, phase, held,
    delta := 0 }

def sampleState (phase : Phase) (held : List ℤ) : State :=
  { usage := fun _ _ => 1, txs := Function.update (fun _ => none) 0 (some (sampleTx phase held)) }

def sampleApplicable : List Applicable :=
  [⟨⟨.Household, "h1"⟩, ⟨.household_member_count, .Household, DEFAULT_SCOPE_ID, 1, false, true⟩⟩]

def sampleKey : ℤ := -8859666516267878341

def sampleResult : QuotaCheckResult := evaluate .household_member_count sampleApplicable [1] 1

theorem sampleStep {phase phase' : Phase} {held held' : List ℤ}
  (h : TxStep sampleSha1 sampleTable (sampleState phase held) 0 (sampleTx phase held)
   (sampleTx phase' held')) :
  Step sampleSha1 sampleTable (sampleState phase held) (sampleState phase' held') := by
 have heq : sampleState phase' held' = (sampleState phase held).set 0 (sampleTx phase' held') := by
  simp [sampleState, State.set]
 rw [heq]
 exact .tx 0 _ _ (by simp [sampleState]) h

theorem sampleRun : ∃ past, Run sampleSha1 sampleTable
  (sampleState (.returned sampleResult) [sampleKey] :: past) := by
 have hfree : (sampleState (.locking sampleApplicable [sampleKey]) []).Free 0 sampleKey := by
  intro j tx htx hj
  simp [sampleState, hj] at htx
 have hopened : Run sampleSha1 sampleTable
   [sampleState .opened [], { usage := fun _ _ => 1, txs := fun _ => none }] :=
  .step (.start fun _ _ => 1) (.begin 0 .household_member_count 1 ⟨none, some "h1", none⟩ rfl)
 have hconsume : Step sampleSha1 sampleTable (sampleState .opened [])
   (sampleState (.loading [⟨.Household, "h1"⟩]) []) :=
  sampleStep (.consume (sampleTx .opened []) rfl)
 have hload : Step sampleSha1 sampleTable (sampleState (.loading [⟨.Household, "h1"⟩]) [])
   (sampleState (.locking sampleApplicable [sampleKey]) []) :=
  sampleStep (.load (sampleTx (.loading [⟨.Household, "h1"⟩]) []) _ _ rfl (List.Perm.refl _))
 have hlock : Step sampleSha1 sampleTable (sampleState (.locking sampleApplicable [sampleKey]) [])
   (sampleState (.locking sampleApplicable []) [sampleKey]) :=
  sampleStep (.lock (sampleTx (.locking sampleApplicable [sampleKey]) []) _ _ _ rfl hfree)
 have hlocked : Step sampleSha1 sampleTable (sampleState (.locking sampleApplicable []) [sampleKey])
   (sampleState (.measuring sampleApplicable [none]) [sampleKey]) :=
  sampleStep (.locked (sampleTx (.locking sampleApplicable []) [sampleKey]) _ rfl)
 have hmeasure : Step sampleSha1 sampleTable
   (sampleState (.measuring sampleApplicable [none]) [sampleKey])
   (sampleState (.measuring sampleApplicable [some 1]) [sampleKey]) :=
  sampleStep
   (.measure (sampleTx (.measuring sampleApplicable [none]) [sampleKey]) _ _ 0 _ rfl rfl rfl)
 have hevaluate : Step sampleSha1 sampleTable
   (sampleState (.measuring sampleApplicable [some 1]) [sampleKey])
   (sampleState (.returned sampleResult) [sampleKey]) :=
  sampleStep (.evaluate (sampleTx (.measuring sampleApplicable [some 1]) [sampleKey]) _ [1] rfl)
 exact ⟨_, .step (.step (.step (.step (.step (.step hopened hconsume) hload) hlock) hlocked) hmeasure)
  hevaluate⟩

/-- The full household refuses one more, and reports its row. -/
theorem consume_guards_full_household : ∃ past,
    Run sampleSha1 sampleTable (sampleState (.returned sampleResult) [sampleKey] :: past) ∧
    sampleResult.allowed = false ∧
    ∃ measured, Decided sampleSha1 sampleTable
      (sampleState (.returned sampleResult) [sampleKey] :: past) 0
      (sampleTx (.returned sampleResult) [sampleKey]) sampleResult measured := by
 obtain ⟨past, hrun⟩ := sampleRun
 refine ⟨past, hrun, by decide +kernel, ?_⟩
 exact (consume_guards_hard_quotas hrun).2.1 0 _ sampleResult (by simp [sampleState]) rfl

end Sample

end BoardGamesEmpire.Quota
