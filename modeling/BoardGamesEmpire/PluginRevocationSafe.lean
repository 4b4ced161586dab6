import BoardGamesEmpire.PluginProtocol
import BoardGamesEmpire.PluginRevocation

set_option autoImplicit false

/-!
# Accounts that hold under every interleaving

The ledger's account of the deleted rows as a protocol, and what a transaction
knows of its own account while it runs: its reports cover what its view has lost
against the store, unless somebody else took a found row meanwhile.
-/
namespace BoardGamesEmpire.PluginRevocation
open JsText Manifest ReadCommitted ReadCommittedProtocol PluginStore PluginEscalation PluginActivation
  PluginUpdateProgram PluginGrantProgram PluginProtocol

def Unused (σ : RevocationState) (key : GrantKey) (id : ℕ) : Prop := ∀ e ∈ σ.ledger, ¬ Deletes e key id

/-- Deleted rows stay deleted, so that no row is deleted twice, and an account is
    exact just when nobody disturbed it. -/
structure Accounted (σ : RevocationState) : Prop where
  timed : ∀ e ∈ σ.ledger, e.time < σ.clock
  born : ∀ key id, Lives σ.db key id → id = 0 ∨ id < σ.clock
  buried : ∀ e ∈ σ.ledger, ∀ key id, Deletes e key id → ¬ Lives σ.db key id ∧ (id = 0 ∨ id < σ.clock)
  once : σ.ledger.Pairwise fun e e' => ∀ key id, Deletes e key id → ¬ Deletes e' key id
  exact : ∀ before e rest, σ.ledger = before ++ e :: rest →
    (ReportsExactly e.before e.after e.event.reported ↔ Undisturbed before e.event.findings)

structure AccountedEffect (σ : RevocationState) (event : Report) (db : Db) : Prop where
  renewed : ∀ key id, Lives db key id → Lives σ.db key id ∨ Unused σ key id ∧ id < σ.clock
  exact : ReportsExactly σ.db db event.reported ↔ Undisturbed σ.ledger event.findings

def UnderPlugin (held : List PluginLock) (before after : Db) : Prop :=
  ∀ key id, Lives after key id → Lives before key id ∨ HoldsPlugin held

abbrev protocol : Protocol Row UnitRef Report := ⟨Accounted, AccountedEffect, UnderPlugin, outside⟩

section Invariant

variable {σ σ' : RevocationState}

theorem Accounted.tick (h : Accounted σ) : Accounted σ.tick where
 timed := fun e he => Nat.lt_succ_of_lt (h.timed e he)
 born := fun key id hlives => (h.born key id hlives).imp_right Nat.lt_succ_of_lt
 buried := fun e he key id hdel =>
  ⟨(h.buried e he key id hdel).1, (h.buried e he key id hdel).2.imp_right Nat.lt_succ_of_lt⟩
 once := h.once
 exact := h.exact

theorem Accounted.outside (h : Accounted σ) {w : PluginWrite}
  (hw : PluginStore.outside w.key = true) :
  Accounted { σ.tick with db := applyWrite σ.db w } := by
 have hsame : ∀ key id, Lives (applyWrite σ.db w) key id ↔ Lives σ.db key id :=
  fun key id => lives_congr (lookup_outside σ.db hw rfl)
 refine ⟨h.tick.timed, fun key id hlives => ?_, fun e he key id hdel => ?_, h.once, h.exact⟩
 · exact h.tick.born key id ((hsame key id).1 hlives)
 · obtain ⟨hgone, hid⟩ := h.tick.buried e he key id hdel
   exact ⟨fun hlives => hgone ((hsame key id).1 hlives), hid⟩

theorem Accounted.commit (h : Accounted σ) {event : Report} {db : Db}
  (heffect : AccountedEffect σ event db) :
  Accounted (σ.commit event db) := by
 have hborn : ∀ key id, Lives db key id → id = 0 ∨ id < σ.clock + 1 := by
  intro key id hlives
  rcases heffect.renewed key id hlives with hold | ⟨-, hlt⟩
  · exact (h.born key id hold).imp_right Nat.lt_succ_of_lt
  · exact .inr (Nat.lt_succ_of_lt hlt)
 refine ⟨?_, hborn, ?_, ?_, ?_⟩
 · intro e he
   rcases List.mem_append.1 he with he | he
   · exact Nat.lt_succ_of_lt (h.timed e he)
   · rw [List.mem_singleton.1 he]
     exact Nat.lt_succ_self _
 · intro e he key id hdel
   rcases List.mem_append.1 he with he | he
   · obtain ⟨hgone, hid⟩ := h.buried e he key id hdel
     refine ⟨fun hlives => ?_, hid.imp_right Nat.lt_succ_of_lt⟩
     rcases heffect.renewed key id hlives with hold | ⟨hunused, -⟩
     · exact hgone hold
     · exact hunused e he hdel
   · rw [List.mem_singleton.1 he] at hdel
     exact ⟨hdel.2, (h.born key id hdel.1).imp_right Nat.lt_succ_of_lt⟩
 · refine List.pairwise_append.2 ⟨h.once, List.pairwise_singleton _ _, ?_⟩
   intro e he e' he' key id hdel hdel'
   rw [List.mem_singleton.1 he'] at hdel'
   exact (h.buried e he key id hdel).1 hdel'.1
 · intro before e rest hsplit
   rcases List.eq_nil_or_concat rest with rfl | ⟨rest, last, rfl⟩
   · obtain ⟨rfl, heq⟩ := List.append_inj' hsplit rfl
     obtain rfl := List.singleton_inj.1 heq
     exact heffect.exact
   · rw [List.concat_eq_append, ← List.cons_append, ← List.append_assoc] at hsplit
     exact h.exact before e rest (List.append_inj' hsplit rfl).1

theorem accounted_initial {db : Db} (h : ∀ key row, grant? db key = some row → row.id = 0) :
  Accounted ⟨db, 0, []⟩ where
 timed := fun e he => absurd he List.not_mem_nil
 born := fun key id hlives => by
  obtain ⟨row, hrow, hid⟩ := hlives
  exact .inl (hid ▸ h key row hrow)
 buried := fun e he => absurd he List.not_mem_nil
 once := .nil
 exact := fun before e rest hsplit => by simp at hsplit

end Invariant

section Surroundings

variable {held : List PluginLock} {log : List PluginWrite} {σ σ' : RevocationState} {key : GrantKey}
  {id : ℕ}

theorem rely_clock (h : Rely protocol held σ σ') : σ.clock < σ'.clock := by
 cases h <;> exact Nat.lt_succ_self _

theorem rely_ledger (h : Rely protocol held σ σ') {e : Entry Row Report} (he : e ∈ σ'.ledger) :
  e ∈ σ.ledger ∨ e.time = σ.clock ∧ e.before = σ.db ∧ e.after = σ'.db := by
 cases h with
 | tick => exact .inl he
 | outside w hkey hfree => exact .inl he
 | commit other event db hfree hrows hguar heffect =>
  rcases List.mem_append.1 he with he | he
  · exact .inl he
  · rw [List.mem_singleton.1 he]
    exact .inr ⟨rfl, rfl, rfl⟩

theorem rely_sublist (h : Rely protocol held σ σ') : σ.ledger ⊆ σ'.ledger := by
 cases h with
 | tick | outside w hkey hfree => exact fun _ he => he
 | commit other event db hfree hrows hguar heffect => exact List.subset_append_left _ _

theorem rely_lives (h : Rely protocol held σ σ') (hlives : Lives σ.db key id) :
  Lives σ'.db key id ∨ ∃ e ∈ σ'.ledger, e.time = σ.clock ∧ Deletes e key id := by
 cases h with
 | tick => exact .inl hlives
 | outside w hkey hfree => exact .inl ((lives_congr (lookup_outside σ.db hkey rfl)).2 hlives)
 | commit other event db hfree hrows hguar heffect =>
  by_cases hafter : Lives db key id
  · exact .inl hafter
  · exact .inr ⟨_, List.mem_append_right _ (List.mem_singleton.2 rfl), rfl, hlives, hafter⟩

theorem rely_exclusive (hlock : pluginLock true ∈ held) (h : Rely protocol held σ σ')
  (hlives : Lives σ'.db key id) : Lives σ.db key id := by
 cases h with
 | tick => exact hlives
 | outside w hkey hfree => exact (lives_congr (lookup_outside σ.db hkey rfl)).1 hlives
 | commit other event db hfree hrows hguar heffect =>
  rcases hguar key id hlives with hold | ⟨exclusive, hother⟩
  · exact hold
  · exact absurd ⟨rfl, .inl rfl⟩ (hfree _ hlock _ hother)

theorem rely_lost (hlog : LogLocked held log) (h : Rely protocol held σ σ') :
  Lost σ'.db (view σ' log) key id ↔ Lost σ.db (view σ log) key id := by
 rcases h.view hlog (.grant key) with ⟨hdb, hview⟩ | ⟨hview, hview'⟩
 · exact lost_congr hdb hview
 · have hafter : Lost σ'.db (view σ' log) key id ↔ Lost σ'.db σ'.db key id := lost_congr rfl hview
   have hbefore : Lost σ.db (view σ log) key id ↔ Lost σ.db σ.db key id := lost_congr rfl hview'
   exact ⟨fun hlost => absurd (hafter.1 hlost) not_lost_self,
    fun hlost => absurd (hbefore.1 hlost) not_lost_self⟩

theorem rely_lives_view (hlog : LogLocked held log) (h : Rely protocol held σ σ')
  (hlives : Lives (view σ log) key id) :
  Lives (view σ' log) key id ∨ ∃ e ∈ σ'.ledger, e.time = σ.clock ∧ Deletes e key id := by
 rcases h.view hlog (.grant key) with ⟨-, hview⟩ | ⟨hview, hview'⟩
 · exact .inl ((lives_congr hview).2 hlives)
 · exact (rely_lives h ((lives_congr hview').1 hlives)).imp_left (lives_congr hview).2

end Surroundings

structure InFlight (held : List PluginLock) (log : List PluginWrite) (findings : List Finding)
    (reported : List (GrantKey × PluginGrant)) (σ : RevocationState) : Prop where
  settled : Undisturbed σ.ledger findings → ReportsExactly σ.db (view σ log) reported
  swept : ∀ f ∈ findings, ∀ found ∈ f.rows, ∀ e ∈ σ.ledger, f.foundAt ≤ e.time → e.time < f.settledAt →
    Deletes e found.1 found.2.id → identity found ∈ reported.map identity
  closed : ∀ f ∈ findings, f.settledAt ≤ σ.clock
  renewed : ∀ key id, Lives (view σ log) key id →
    Lives σ.db key id ∨ Unused σ key id ∧ id < σ.clock ∧ HoldsPlugin held
  begun : 0 < σ.clock

section InFlight

variable {held : List PluginLock} {log : List PluginWrite} {findings : List Finding}
  {reported : List (GrantKey × PluginGrant)} {σ σ' : RevocationState}

theorem InFlight.start (held : List PluginLock) (h : 0 < σ.clock) : InFlight held [] [] [] σ where
 settled := fun _ => reportsExactly_nil
 swept := fun _ hf => absurd hf List.not_mem_nil
 closed := fun _ hf => absurd hf List.not_mem_nil
 renewed := fun _ _ hlives => .inl hlives
 begun := h

theorem InFlight.more (h : InFlight held log findings reported σ) (more : List PluginLock) :
  InFlight (held ++ more) log findings reported σ where
 settled := h.settled
 swept := h.swept
 closed := h.closed
 renewed := fun key id hlives => (h.renewed key id hlives).imp_right fun hnew =>
  ⟨hnew.1, hnew.2.1, hnew.2.2.imp fun _ hplugin => List.mem_append_left _ hplugin⟩
 begun := h.begun

theorem InFlight.tick (h : InFlight held log findings reported σ) :
  InFlight held log findings reported σ.tick where
 settled := h.settled
 swept := h.swept
 closed := fun f hf => Nat.le_succ_of_le (h.closed f hf)
 renewed := fun key id hlives => (h.renewed key id hlives).imp_right fun hnew =>
  ⟨hnew.1, Nat.lt_succ_of_lt hnew.2.1, hnew.2.2⟩
 begun := Nat.succ_pos _

theorem stable_inFlight (hlog : LogLocked held log) :
  Stable protocol held (InFlight held log findings reported) := by
 intro σ σ' h _ _ hrely
 have hclock := rely_clock hrely
 refine ⟨fun hund => ?_, ?_, ?_, ?_, ?_⟩
 · have hexact := h.settled fun f hf found hfound e he => hund f hf found hfound e (rely_sublist hrely he)
   exact ⟨hexact.1, fun key id => (hexact.2 key id).trans (rely_lost hlog hrely).symm⟩
 · intro f hf found hfound e he hfrom hto hdel
   rcases rely_ledger hrely he with he | ⟨htime, -⟩
   · exact h.swept f hf found hfound e he hfrom hto hdel
   · have hclosed := h.closed f hf
     omega
 · exact fun f hf => (h.closed f hf).trans hclock.le
 · intro key id hlives
   rcases hrely.view hlog (.grant key) with ⟨hdb, hview⟩ | ⟨hview, -⟩
   · rcases h.renewed key id ((lives_congr hview).1 hlives) with hold | ⟨hunused, hlt, hplugin⟩
     · exact .inl ((lives_congr hdb).2 hold)
     · refine .inr ⟨fun e he hdel => ?_, hlt.trans hclock, hplugin⟩
       rcases rely_ledger hrely he with he | ⟨-, hbefore, hafter⟩
       · exact hunused e he hdel
       · unfold Deletes at hdel
         rw [hbefore, hafter] at hdel
         exact hdel.2 ((lives_congr hdb).2 hdel.1)
   · exact .inl ((lives_congr hview).1 hlives)
 · exact h.begun.trans hclock

theorem InFlight.effect (h : InFlight held log findings reported σ) (hinv : Accounted σ)
  {event : Report} (hfindings : event.findings = findings) (hreported : event.reported = reported) :
  UnderPlugin held σ.db (applyLog σ.db log) ∧ AccountedEffect σ event (applyLog σ.db log) := by
 subst hfindings hreported
 refine ⟨fun key id hlives => ?_, fun key id hlives => ?_, fun hexact => ?_, h.settled⟩
 · exact (h.renewed key id hlives).imp_right fun hnew => hnew.2.2
 · exact (h.renewed key id hlives).imp_right fun hnew => ⟨hnew.1, hnew.2.1⟩
 · intro f hf found hfound e he hfrom hto hdel
   have hmem := h.swept f hf found hfound e he hfrom hto hdel
   exact (hinv.buried e he _ _ hdel).1 ((hexact.2 _ _).1 hmem).1

end InFlight

end BoardGamesEmpire.PluginRevocation
