import BoardGamesEmpire.PluginUninstall

set_option autoImplicit false

/-!
# The plugin row orders the cut

Every row of a plugin but the plugin row itself is written under a lock of the
plugin row. A holder of its exclusive lock therefore has the plugin to itself, and
a holder of its shared lock keeps it alive.
-/
namespace BoardGamesEmpire.PluginUninstall
open JsText Manifest ReadCommitted ReadCommittedProtocol PluginStore PluginEscalation PluginActivation
  PluginUpdateProgram PluginGrantProgram PluginSystem

section Effects

structure UninstalledEffect (before after : Db) (purgeData : Bool) (affectedUnits : List UnitRef) :
    Prop where
  alive : Alive before
  tombstone : Tombstoned after
  bare : Bare after
  rows : ∀ unit, unit? after unit = if purgeData then none else unit? before unit
  nodup : affectedUnits.Nodup
  affected : ∀ unit, unit ∈ affectedUnits ↔ ∃ row, unit? before unit = some row ∧ row.enabled = true

structure InstalledEffect (before after : Db) : Prop where
  dead : ¬ Alive before
  alive : Alive after
  rows : ∀ unit, retainedAt after unit = retainedAt before unit

structure UnitEffect (before after : Db) : Prop where
  frame : ∀ k, (∀ unit, k ≠ .unit unit) → after.lookup k = before.lookup k
  rows : Alive before ∨ ∀ unit, unit? after unit = unit? before unit

def Effect (before after : Db) : Outcome → Prop
  | .uninstalled purgeData affectedUnits => UninstalledEffect before after purgeData affectedUnits
  | .service (.installed _) => InstalledEffect before after
  | .service _ => UnitEffect before after

variable {db db' : Db}

theorem not_alive_of_tombstoned (h : Tombstoned db) : ¬ Alive db := by
 obtain ⟨row, hrow, hdead⟩ := h
 rintro ⟨row', hrow', halive⟩
 rw [hrow] at hrow'
 cases hrow'
 exact hdead halive

theorem alive_congr (h : plugin? db' = plugin? db) : Alive db' ↔ Alive db := by
 unfold Alive
 rw [h]

theorem tombstoned_congr (h : plugin? db' = plugin? db) : Tombstoned db' ↔ Tombstoned db := by
 unfold Tombstoned
 rw [h]

theorem UnitEffect.plugin (h : UnitEffect db db') : plugin? db' = plugin? db :=
 h.frame .plugin fun _ heq => by cases heq

theorem Bare.congr (h : Bare db) (hplugin : plugin? db' = plugin? db)
  (hgrants : ∀ key, grant? db' key = grant? db key)
  (hcatalog : ∀ slug, declared? db' slug = declared? db slug) :
  Bare db' where
 staged := fun row hrow => h.staged row (hplugin.symm.trans hrow)
 grants := fun key => (hgrants key).trans (h.grants key)
 catalog := fun slug => (hcatalog slug).trans (h.catalog slug)

theorem effect_other {event : Outcome} (h : Effect db db' event)
  (huninstalled : ∀ purgeData affectedUnits, event ≠ .uninstalled purgeData affectedUnits)
  (hinstalled : ∀ validated, event ≠ .service (.installed validated)) : UnitEffect db db' := by
 cases event with
 | uninstalled purgeData affectedUnits => exact absurd rfl (huninstalled purgeData affectedUnits)
 | service event =>
  cases event with
  | installed validated => exact absurd rfl (hinstalled validated)
  | staged _ | rejected _ | activated _ | uninstalled | pluginUpdated | decided _ | revoked | unitUpdated _
  | unchanged => exact h

end Effects

section History

structure Follows (ledger : List (Entry Row Outcome)) (db : Db) : Prop where
  cut : ∀ before e rest, ledger = before ++ e :: rest → Uninstalls e → (∀ x ∈ rest, ¬ Installs x) →
    Tombstoned db ∧ ∀ unit, unit? db unit = unit? e.after unit
  living : ∀ before e rest, ledger = before ++ e :: rest → Installs e →
   (∀ x ∈ rest, ¬ Uninstalls x) → Alive db

structure Recorded (σ : LifecycleState) : Prop where
  effects : ∀ e ∈ σ.ledger, Effect e.before e.after e.event
  bare : Tombstoned σ.db → Bare σ.db
  follows : Follows σ.ledger σ.db
  history : ∀ before e rest, σ.ledger = before ++ e :: rest → Follows before e.before

variable {db db' : Db} {ledger : List (Entry Row Outcome)} {e : Entry Row Outcome}

theorem Uninstalls.effect (h : Uninstalls e) (heffect : Effect e.before e.after e.event) :
  ∃ purgeData affectedUnits, UninstalledEffect e.before e.after purgeData affectedUnits := by
 obtain ⟨purgeData, affectedUnits, heq⟩ := h
 rw [heq] at heffect
 exact ⟨purgeData, affectedUnits, heffect⟩

theorem Installs.effect (h : Installs e) (heffect : Effect e.before e.after e.event) :
  InstalledEffect e.before e.after := by
 obtain ⟨validated, heq⟩ := h
 rw [heq] at heffect
 exact heffect

theorem unitEffect_of (huninstalls : ¬ Uninstalls e) (hinstalls : ¬ Installs e)
  (heffect : Effect e.before e.after e.event) : UnitEffect e.before e.after :=
 effect_other heffect (fun _ _ heq => huninstalls ⟨_, _, heq⟩) fun _ heq => hinstalls ⟨_, heq⟩

theorem split_concat {before rest : List (Entry Row Outcome)} {e last : Entry Row Outcome}
  (h : ledger ++ [last] = before ++ e :: rest) :
  (before = ledger ∧ e = last ∧ rest = []) ∨ ∃ rest', rest = rest' ++ [last] ∧
   ledger = before ++ e :: rest' := by
 rcases List.eq_nil_or_concat rest with rfl | ⟨rest', last', rfl⟩
 · obtain ⟨rfl, heq⟩ := List.append_inj' h rfl
   exact .inl ⟨rfl, (List.singleton_inj.1 heq).symm, rfl⟩
 · rw [List.concat_eq_append, ← List.cons_append, ← List.append_assoc] at h
   obtain ⟨hledger, heq⟩ := List.append_inj' h rfl
   rw [List.concat_eq_append, List.singleton_inj.1 heq]
   exact .inr ⟨rest', rfl, hledger⟩

theorem Follows.commit (h : Follows ledger db) (last : Entry Row Outcome)
  (hbefore : last.before = db) (heffect : Effect last.before last.after last.event) :
  Follows (ledger ++ [last]) last.after where
 cut before e rest hsplit he hrest := by
  rcases split_concat hsplit with ⟨-, rfl, rfl⟩ | ⟨rest', rfl, hledger⟩
  · obtain ⟨_, _, hcut⟩ := he.effect heffect
    exact ⟨hcut.tombstone, fun _ => rfl⟩
  · have hold := h.cut before e rest' hledger he fun x hx => hrest x (List.mem_append_left _ hx)
    have hlast : ¬ Installs last := hrest last (List.mem_append_right _ List.mem_cons_self)
    rw [← hbefore] at hold
    by_cases huninstalls : Uninstalls last
    · obtain ⟨_, _, hcut⟩ := huninstalls.effect heffect
      exact absurd hcut.alive (not_alive_of_tombstoned hold.1)
    · have hunit := unitEffect_of huninstalls hlast heffect
      have hrows := hunit.rows.resolve_left (not_alive_of_tombstoned hold.1)
      exact ⟨(tombstoned_congr hunit.plugin).2 hold.1, fun unit => (hrows unit).trans (hold.2 unit)⟩
 living before e rest hsplit he hrest := by
  rcases split_concat hsplit with ⟨-, rfl, rfl⟩ | ⟨rest', rfl, hledger⟩
  · exact (he.effect heffect).alive
  · have hold := h.living before e rest' hledger he fun x hx => hrest x (List.mem_append_left _ hx)
    have hlast : ¬ Uninstalls last := hrest last (List.mem_append_right _ List.mem_cons_self)
    rw [← hbefore] at hold
    by_cases hinstalls : Installs last
    · exact (hinstalls.effect heffect).alive
    · exact (alive_congr (unitEffect_of hlast hinstalls heffect).plugin).2 hold

def Same (db db' : Db) : Prop := ∀ k, outside k = false → db'.lookup k = db.lookup k

theorem Same.refl (db : Db) : Same db db := fun _ _ => rfl

theorem Same.plugin (h : Same db db') : plugin? db' = plugin? db := h .plugin rfl

theorem Same.unit (h : Same db db') (unit : UnitRef) :
  unit? db' unit = unit? db unit := h (.unit unit) rfl

theorem Same.bare (h : Same db db') (hbare : Bare db) : Bare db' :=
 hbare.congr h.plugin (fun key => h (.grant key) rfl) fun slug => h (.declared slug) rfl

theorem Follows.same (h : Follows ledger db) (hsame : Same db db') : Follows ledger db' where
 cut before e rest hsplit he hrest := by
  obtain ⟨htombstone, hrows⟩ := h.cut before e rest hsplit he hrest
  exact ⟨(tombstoned_congr hsame.plugin).2 htombstone, fun unit => (hsame.unit unit).trans (hrows unit)⟩
 living before e rest hsplit he hrest :=
  (alive_congr hsame.plugin).2 (h.living before e rest hsplit he hrest)

variable {σ σ' : LifecycleState}

theorem Recorded.tick (h : Recorded σ) :
  Recorded σ.tick := ⟨h.effects, h.bare, h.follows, h.history⟩

theorem Recorded.outside (h : Recorded σ) {w : PluginWrite} (hw : PluginStore.outside w.key = true) :
  Recorded { σ.tick with db := applyWrite σ.db w } := by
 have hsame : Same σ.db (applyWrite σ.db w) := fun k hk => lookup_outside σ.db hw hk
 exact ⟨h.effects, fun hdead => hsame.bare (h.bare ((tombstoned_congr hsame.plugin).1 hdead)),
  h.follows.same hsame, h.history⟩

theorem Recorded.commit (h : Recorded σ) {event : Outcome} {db : Db}
  (heffect : Effect σ.db db event) :
  Recorded (σ.commit event db) where
 effects e he := by
  rcases List.mem_append.1 he with he | he
  · exact h.effects e he
  · rw [List.mem_singleton.1 he]
    exact heffect
 bare hdead := by
  by_cases huninstalled : ∃ purgeData affectedUnits, event = .uninstalled purgeData affectedUnits
  · obtain ⟨purgeData, affectedUnits, rfl⟩ := huninstalled
    exact heffect.bare
  · by_cases hinstalled : ∃ validated, event = .service (.installed validated)
    · obtain ⟨validated, rfl⟩ := hinstalled
      exact absurd heffect.alive (not_alive_of_tombstoned hdead)
    · have hunit :=
       effect_other heffect (fun _ _ heq => huninstalled ⟨_, _, heq⟩) fun _ heq => hinstalled ⟨_, heq⟩
      refine (h.bare ((tombstoned_congr hunit.plugin).1 hdead)).congr hunit.plugin ?_ ?_
      · exact fun key => hunit.frame _ fun _ heq => by cases heq
      · exact fun slug => hunit.frame _ fun _ heq => by cases heq
 follows := h.follows.commit ⟨event, σ.clock, σ.db, db⟩ rfl heffect
 history before e rest hsplit := by
  rcases split_concat hsplit with ⟨rfl, rfl, -⟩ | ⟨rest', -, hledger⟩
  · exact h.follows
  · exact h.history before e rest' hledger

theorem recorded_initial (h : Tombstoned db → Bare db) : Recorded ⟨db, 0, []⟩ where
 effects := fun _ he => absurd he List.not_mem_nil
 bare := h
 follows := ⟨fun before _ _ hsplit => by simp at hsplit, fun before _ _ hsplit => by simp at hsplit⟩
 history := fun before _ _ hsplit => by simp at hsplit

theorem Recorded.cleanCut (h : Recorded σ) : CleanCut σ.ledger σ.db := by
 have hmem : ∀ {before : List (Entry Row Outcome)} {e : Entry Row Outcome} {rest : List (Entry Row Outcome)},
   σ.ledger = before ++ e :: rest → e ∈ σ.ledger := by
  intro before e rest hsplit
  rw [hsplit]
  exact List.mem_append_right _ List.mem_cons_self
 refine ⟨?_, ?_, ?_, h.bare, ?_, ?_, ?_, ?_, ?_, ?_⟩
 · intro e he purgeData affectedUnits heq
   have heffect := h.effects e he
   rw [heq] at heffect
   exact ⟨heffect.nodup, heffect.affected⟩
 · intro e he hdead unit
   have heffect := h.effects e he
   by_cases huninstalls : Uninstalls e
   · obtain ⟨_, _, hcut⟩ := huninstalls.effect heffect
     exact absurd hcut.alive (not_alive_of_tombstoned hdead)
   · by_cases hinstalls : Installs e
     · exact (hinstalls.effect heffect).rows unit
     · have hunit := unitEffect_of huninstalls hinstalls heffect
       rw [retainedAt, retainedAt, hunit.rows.resolve_left (not_alive_of_tombstoned hdead) unit]
 · intro before e rest affectedUnits hsplit heq hrest unit
   have heffect := h.effects e (hmem hsplit)
   rw [heq] at heffect
   rw [(h.follows.cut before e rest hsplit ⟨_, _, heq⟩ hrest).2 unit]
   exact heffect.rows unit
 · intro e he
   refine ⟨fun hcut => ?_, fun huninstalls => ?_⟩
   · obtain ⟨halive, hdead⟩ := hcut
     by_contra huninstalls
     have heffect := h.effects e he
     by_cases hinstalls : Installs e
     · exact not_alive_of_tombstoned hdead (hinstalls.effect heffect).alive
     · have hplugin := (unitEffect_of huninstalls hinstalls heffect).plugin
       exact not_alive_of_tombstoned hdead ((alive_congr hplugin).2 halive)
   · obtain ⟨_, _, hcut⟩ := huninstalls.effect (h.effects e he)
     exact ⟨hcut.alive, hcut.tombstone⟩
 · intro e he
   refine ⟨fun hrevived => ?_, fun hinstalls => ?_⟩
   · obtain ⟨hdead, halive⟩ := hrevived
     by_contra hinstalls
     have heffect := h.effects e he
     by_cases huninstalls : Uninstalls e
     · obtain ⟨_, _, hcut⟩ := huninstalls.effect heffect
       exact hdead hcut.alive
     · have hplugin := (unitEffect_of huninstalls hinstalls heffect).plugin
       exact hdead ((alive_congr hplugin).1 halive)
   · have hrevived := hinstalls.effect (h.effects e he)
     exact ⟨hrevived.dead, hrevived.alive⟩
 · exact fun e he huninstalls hinstalls => (unitEffect_of huninstalls hinstalls (h.effects e he)).plugin
 · intro before e between e' rest hsplit he he'
   by_contra hnone
   push Not at hnone
   obtain ⟨_, _, hcut⟩ := he'.effect (h.effects e' (hmem hsplit))
   have hfollows := (h.history _ e' rest hsplit).cut before e between rfl he hnone
   exact not_alive_of_tombstoned hfollows.1 hcut.alive
 · intro before e between e' rest hsplit he he'
   by_contra hnone
   push Not at hnone
   have hrevived := he'.effect (h.effects e' (hmem hsplit))
   exact hrevived.dead ((h.history _ e' rest hsplit).living before e between rfl he hnone)
 · intro before e between e' rest affectedUnits hsplit heq he' hnone unit
   have hcut := h.effects e (by
    rw [hsplit]
    simp)
   rw [heq] at hcut
   have hrevived := he'.effect (h.effects e' (hmem hsplit))
   have hfollows := (h.history _ e' rest hsplit).cut before e between rfl ⟨_, _, heq⟩ hnone
   rw [hrevived.rows, retainedAt, retainedAt, hfollows.2 unit]
   exact congrArg (Option.map retained) (hcut.rows unit)

end History

end BoardGamesEmpire.PluginUninstall
