import BoardGamesEmpire.PluginConfig

set_option autoImplicit false

/-!
# Snapshots converge

Every commit owes its plugin a refresh that reads what it committed. Where no
older read is applied over a newer one, and nothing living is applied to an
evicted plugin, the newest read is what the snapshot shows once no refresh is
owed.
-/
namespace BoardGamesEmpire.PluginConfig
open JsText PluginStore PhasedCalls

section Condition

/-- No step applies an older read over a newer one of the same plugin, and no
    refresh brings back the snapshot of a quarantined plugin. -/
def Timely (s : Sys State Phase) : Action Request Unit Bool → Prop
  | .advance i _ => ∀ slug row revision after, s.calls[i]? = some (.refreshed slug row revision after) →
    (∀ newest, (slug, newest) ∈ s.shared.applied → newest ≤ revision) ∧
      (slug ∈ s.shared.quarantined → content row = none)
  | .outside fails => ∀ plugin rest, s.shared.loader = .preparing plugin rest → fails = false →
    ∀ newest, (plugin.slug, newest) ∈ s.shared.applied → newest ≤ plugin.revision
  | .begin _ => True

def AtRest (s : Sys State Phase) : Prop :=
  (∀ phase ∈ s.calls, phase = .settled ∨ ∃ slug change, phase = .committing slug change) ∧
    (s.shared.loader = .pending ∨ s.shared.loader = .finished)

end Condition

section Readings

def Reading (s : State) (slug : Text) (row : Option PluginRow) (revision : ℕ) : Prop :=
  revision ≤ s.revision slug ∧ (revision = s.revision slug → content row = content (s.row slug))

structure Waiting (s : State) (plugin : ReadPlugin) : Prop where
  living : plugin.row.uninstalledAt = none
  reading : Reading s plugin.slug (some plugin.row) plugin.revision
  kept : plugin.slug ∉ s.quarantined

def Loader.held : Loader → List ReadPlugin
  | .looping plugins => plugins
  | .preparing plugin rest | .primed plugin rest | .recovering plugin rest => plugin :: rest
  | .quarantining _ rest => rest
  | .pending | .finished => []

inductive Owes (s : State) (slug : Text) : Phase → Prop where
  | published : Owes s slug (.published slug)
  | refreshing (after : Option ℕ) : Owes s slug (.refreshing slug after)
  | refreshed (row : Option PluginRow) (after : Option ℕ) :
      Owes s slug (.refreshed slug row (s.revision slug) after)

structure Kept (s : Sys State Phase) : Prop where
  known : ∀ slug revision, (slug, revision) ∈ s.shared.applied → revision ≤ s.shared.revision slug
  fresh : ∀ slug, slug ∉ s.shared.quarantined → (slug, s.shared.revision slug) ∈ s.shared.applied →
    s.shared.snapshots.lookup slug = content (s.shared.row slug)
  evicted : ∀ slug ∈ s.shared.quarantined, s.shared.snapshots.lookup slug = none
  reads : ∀ (i : ℕ) slug row revision after, s.calls[i]? = some (.refreshed slug row revision after) →
    Reading s.shared slug row revision
  owed : ∀ slug, s.shared.revision slug ≠ 0 → (slug, s.shared.revision slug) ∈ s.shared.applied ∨
    ∃ (i : ℕ) (phase : Phase), s.calls[i]? = some phase ∧ Owes s.shared slug phase
  loaded : ∀ slug ∈ s.shared.loaded, ∃ revision, (slug, revision) ∈ s.shared.applied
  waiting : ∀ plugin ∈ s.shared.loader.held, Waiting s.shared plugin
  distinct : (s.shared.loader.held.map ReadPlugin.slug).Nodup
  primed : ∀ plugin rest, s.shared.loader = .primed plugin rest →
   (plugin.slug, plugin.revision) ∈ s.shared.applied
  pending : s.shared.loader = .pending → s.shared.quarantined = []

theorem lookup_applyRefresh_self (slug : Text) (row : Option PluginRow)
  (snapshots : LiveMap Text ConfigValue) :
  (applyRefresh slug row snapshots).lookup slug = content row := by
 cases row with
 | none => exact LiveMap.lookup_delete_self _ _
 | some row =>
  unfold applyRefresh content
  by_cases hgone : row.uninstalledAt.isSome = true
  · simp only [if_pos hgone]
    exact LiveMap.lookup_delete_self _ _
  · simp only [if_neg hgone]
    exact LiveMap.lookup_set_self _ _ _

theorem lookup_applyRefresh_ne {slug other : Text} (row : Option PluginRow)
  (snapshots : LiveMap Text ConfigValue) (hne : other ≠ slug) :
  (applyRefresh slug row snapshots).lookup other = snapshots.lookup other := by
 cases row with
 | none => exact LiveMap.lookup_delete_ne _ hne
 | some row =>
  unfold applyRefresh
  by_cases hgone : row.uninstalledAt.isSome = true
  · simp only [if_pos hgone]
    exact LiveMap.lookup_delete_ne _ hne
  · simp only [if_neg hgone]
    exact LiveMap.lookup_set_ne _ _ hne

end Readings

section Commits

variable {s : Sys State Phase} {slug : Text} {row : PluginRow}

def committed (s : State) (slug : Text) (row : PluginRow) : State :=
  { s with rows := s.rows.insert slug row, commits := s.commits ++ [slug] }

theorem revision_committed_self (s : State) (slug : Text) (row : PluginRow) :
  (committed s slug row).revision slug = s.revision slug + 1 := by
 simp [committed, State.revision]

theorem revision_committed_ne (s : State) {slug other : Text} (row : PluginRow) (hne : other ≠ slug) :
  (committed s slug row).revision other = s.revision other := by
 simp [committed, State.revision, List.count_append, Ne.symm hne]

theorem row_committed_ne (s : State) {slug other : Text} (row : PluginRow) (hne : other ≠ slug) :
  (committed s slug row).row other = s.row other := AList.lookup_insert_ne hne

theorem revision_le_committed (s : State) (slug other : Text) (row : PluginRow) :
  s.revision other ≤ (committed s slug row).revision other := by
 by_cases hne : other = slug
 · subst hne
   rw [revision_committed_self]
   omega
 · rw [revision_committed_ne s row hne]

theorem Reading.committed {s : State} {other : Text} {read : Option PluginRow} {revision : ℕ}
  (h : Reading s other read revision) (slug : Text) (row : PluginRow) :
  Reading (committed s slug row) other read revision := by
 refine ⟨h.1.trans (revision_le_committed s slug other row), fun heq => ?_⟩
 by_cases hne : other = slug
 · subst hne
   have hle := h.1
   rw [revision_committed_self] at heq
   omega
 · rw [revision_committed_ne s row hne] at heq
   rw [row_committed_ne s row hne]
   exact h.2 heq

theorem Owes.committed {s : State} {other : Text} {phase : Phase} (h : Owes s other phase)
  {slug : Text} (row : PluginRow) (hne : other ≠ slug) :
  Owes (committed s slug row) other phase := by
 have hsame := revision_committed_ne s row hne
 cases h with
 | published => exact .published
 | refreshing after => exact .refreshing after
 | refreshed read after =>
  rw [← hsame]
  exact .refreshed read after

theorem Kept.commits (h : Kept s) {i : ℕ} {change : Change}
  (hcall : s.calls[i]? = some (.committing slug change)) :
  Kept ⟨committed s.shared slug row, s.calls.set i (.published slug)⟩ := by
 have hi : i < s.calls.length := (List.getElem?_eq_some_iff.1 hcall).1
 have hold : ∀ (j : ℕ) phase, (∀ other, phase ≠ .published other) →
   (s.calls.set i (.published slug))[j]? = some phase → s.calls[j]? = some phase := by
  intro j phase hphase hat
  rcases getElem?_set_cases hat with ⟨-, heq⟩ | ⟨-, hat⟩
  · exact absurd heq (hphase slug)
  · exact hat
 refine ⟨fun other revision hmem => ?_, fun other hkept hmem => ?_, h.evicted,
  fun j other read revision after hat => ?_, fun other hsome => ?_, h.loaded, fun plugin hmem => ?_,
   h.distinct,
  h.primed, h.pending⟩
 · exact (h.known other revision hmem).trans (revision_le_committed s.shared slug other row)
 · by_cases hne : other = slug
   · subst hne
     have hle := h.known _ _ hmem
     rw [revision_committed_self] at hle
     omega
   · rw [revision_committed_ne s.shared row hne] at hmem
     rw [row_committed_ne s.shared row hne]
     exact h.fresh other hkept hmem
 · exact (h.reads j other read revision after (hold j _ (by simp) hat)).committed slug row
 · by_cases hne : other = slug
   · subst hne
     exact .inr ⟨i, _, List.getElem?_set_self hi, .published⟩
   · rw [revision_committed_ne s.shared row hne] at hsome ⊢
     refine (h.owed other hsome).imp_right fun howes => ?_
     obtain ⟨j, phase, hat, howes⟩ := howes
     have hji : i ≠ j := by
      rintro rfl
      obtain rfl := Option.some.inj (hcall.symm.trans hat)
      cases howes
     exact ⟨j, phase, (List.getElem?_set_ne hji).trans hat, howes.committed row hne⟩
 · obtain ⟨hliving, hreading, hkept⟩ := h.waiting plugin hmem
   exact ⟨hliving, hreading.committed slug row, hkept⟩

end Commits

section Refreshes

variable {s : Sys State Phase} {i : ℕ} {slug : Text}

theorem Kept.passes (h : Kept s) {phase phase' : Phase} (hcall : s.calls[i]? = some phase)
  (howes : ∀ other, Owes s.shared other phase → Owes s.shared other phase')
  (hreads : ∀ other row revision after, phase' = .refreshed other row revision after →
   Reading s.shared other row revision) : Kept ⟨s.shared, s.calls.set i phase'⟩ := by
 have hi : i < s.calls.length := (List.getElem?_eq_some_iff.1 hcall).1
 refine ⟨h.known, h.fresh, h.evicted, fun j other row revision after hat => ?_,
  fun other hsome => ?_, h.loaded,
  h.waiting, h.distinct, h.primed, h.pending⟩
 · rcases getElem?_set_cases hat with ⟨-, heq⟩ | ⟨-, hat⟩
   · exact hreads other row revision after heq.symm
   · exact h.reads j other row revision after hat
 · refine (h.owed other hsome).imp_right fun hdebt => ?_
   obtain ⟨j, debtor, hat, hdebt⟩ := hdebt
   by_cases hji : i = j
   · subst hji
     obtain rfl := Option.some.inj (hcall.symm.trans hat)
     exact ⟨i, phase', List.getElem?_set_self hi, howes other hdebt⟩
   · exact ⟨j, debtor, (List.getElem?_set_ne hji).trans hat, hdebt⟩

theorem Kept.applies (h : Kept s) {row : Option PluginRow} {revision : ℕ} {after : Option ℕ}
  (hcall : s.calls[i]? = some (.refreshed slug row revision after))
  (hnewest : ∀ newest, (slug, newest) ∈ s.shared.applied → newest ≤ revision)
  (hevicted : slug ∈ s.shared.quarantined → content row = none) :
  Kept ⟨{ s.shared with
    snapshots := applyRefresh slug row s.shared.snapshots
    applied := s.shared.applied ++ [(slug, revision)] }, s.calls.set i (resume after)⟩ := by
 have hreading := h.reads i slug row revision after hcall
 have hresume : ∀ other read revision later, resume after ≠ .refreshed other read revision later := by
  intro other read revision later heq
  cases after <;> cases heq
 refine ⟨fun other n hmem => ?_, fun other hkept hmem => ?_, fun other hmem => ?_,
  fun j other read n later hat => ?_, fun other hsome => ?_, fun other hmem => ?_, ?_, h.distinct,
  fun plugin rest hloader => ?_, h.pending⟩
 · rcases List.mem_append.1 hmem with hmem | hmem
   · exact h.known other n hmem
   · obtain ⟨rfl, rfl⟩ := Prod.mk.inj (List.mem_singleton.1 hmem)
     exact hreading.1
 · by_cases hne : other = slug
   · subst hne
     refine (lookup_applyRefresh_self other row _).trans (hreading.2 ?_)
     have hle := hreading.1
     rcases List.mem_append.1 hmem with hmem | hmem
     · have := hnewest _ hmem
       exact Nat.le_antisymm hle this
     · exact (Prod.mk.inj (List.mem_singleton.1 hmem)).2.symm
   · refine (lookup_applyRefresh_ne row _ hne).trans (h.fresh other hkept ?_)
     rcases List.mem_append.1 hmem with hmem | hmem
     · exact hmem
     · exact absurd (Prod.mk.inj (List.mem_singleton.1 hmem)).1 hne
 · by_cases hne : other = slug
   · subst hne
     exact (lookup_applyRefresh_self other row _).trans (hevicted hmem)
   · exact (lookup_applyRefresh_ne row _ hne).trans (h.evicted other hmem)
 · rcases getElem?_set_cases hat with ⟨-, heq⟩ | ⟨-, hat⟩
   · exact absurd heq.symm (hresume other read n later)
   · exact h.reads j other read n later hat
 · rcases h.owed other hsome with hmem | ⟨j, phase, hat, hdebt⟩
   · exact .inl (List.mem_append_left _ hmem)
   · by_cases hji : i = j
     · subst hji
       obtain rfl := Option.some.inj (hcall.symm.trans hat)
       cases hdebt with
       | refreshed read later => exact .inl (List.mem_append_right _ List.mem_cons_self)
     · refine .inr ⟨j, phase, (List.getElem?_set_ne hji).trans hat, ?_⟩
       cases hdebt with
       | published => exact .published
       | refreshing later => exact .refreshing later
       | refreshed read later => exact .refreshed read later
 · obtain ⟨n, hn⟩ := h.loaded other hmem
   exact ⟨n, List.mem_append_left _ hn⟩
 · intro plugin hmem
   obtain ⟨hliving, hread, hkept⟩ := h.waiting plugin hmem
   exact ⟨hliving, hread, hkept⟩
 · exact List.mem_append_left _ (h.primed plugin rest hloader)

end Refreshes

section BootPass

variable {s : Sys State Phase} {shared : State}

theorem Reading.congr {s s' : State} {slug : Text} {row : Option PluginRow} {revision : ℕ}
  (h : Reading s slug row revision) (hcommits : s'.commits = s.commits)
  (hcontent : ∀ slug, content (s'.row slug) = content (s.row slug)) :
  Reading s' slug row revision := by
 have hrevision : s'.revision slug = s.revision slug := congrArg (List.count slug) hcommits
 refine ⟨hrevision ▸ h.1, fun heq => ?_⟩
 rw [hcontent slug]
 exact h.2 (heq.trans hrevision)

theorem Owes.congr {s s' : State} {slug : Text} {phase : Phase} (h : Owes s slug phase)
  (hcommits : s'.commits = s.commits) : Owes s' slug phase := by
 have hrevision : s'.revision slug = s.revision slug := congrArg (List.count slug) hcommits
 cases h with
 | published => exact .published
 | refreshing after => exact .refreshing after
 | refreshed row after =>
  rw [← hrevision]
  exact .refreshed row after

theorem row_updateRow (slug : Text) (f : PluginRow → PluginRow)
  (hf : ∀ row, content (some (f row)) = content (some row)) (s : State) (other : Text) :
  content ((updateRow slug f s).row other) = content (s.row other) := by
 unfold updateRow
 cases hrow : s.row slug with
 | none => rfl
 | some row =>
  by_cases hne : other = slug
  · subst hne
    have hnew : ({ s with rows := s.rows.insert other (f row) } : State).row other = some (f row) :=
     AList.lookup_insert _
    change content (({ s with rows := s.rows.insert other (f row) } : State).row other) = _
    rw [hnew, hf, hrow]
  · exact congrArg content (AList.lookup_insert_ne hne)

theorem updateRow_rest (slug : Text) (f : PluginRow → PluginRow) (s : State) :
  (updateRow slug f s).snapshots = s.snapshots ∧ (updateRow slug f s).loader = s.loader ∧
   (updateRow slug f s).loaded = s.loaded ∧ (updateRow slug f s).quarantined = s.quarantined ∧
   (updateRow slug f s).commits = s.commits ∧ (updateRow slug f s).applied = s.applied := by
 unfold updateRow
 split
 · exact ⟨rfl, rfl, rfl, rfl, rfl, rfl⟩
 · exact ⟨rfl, rfl, rfl, rfl, rfl, rfl⟩

theorem Kept.relabels (h : Kept s) (hsnapshots : shared.snapshots = s.shared.snapshots)
  (hquarantined : shared.quarantined = s.shared.quarantined)
  (hcommits : shared.commits = s.shared.commits) (happlied : shared.applied = s.shared.applied)
  (hcontent : ∀ slug, content (shared.row slug) = content (s.shared.row slug))
  (hheld : shared.loader.held.Sublist s.shared.loader.held)
  (hloaded : ∀ slug ∈ shared.loaded, ∃ revision, (slug, revision) ∈ s.shared.applied)
  (hprimed : ∀ plugin rest, shared.loader ≠ .primed plugin rest)
  (hpending : shared.loader ≠ .pending) :
  Kept ⟨shared, s.calls⟩ := by
 have hrevision : ∀ slug, shared.revision slug = s.shared.revision slug :=
  fun slug => congrArg (List.count slug) hcommits
 refine ⟨fun slug revision hmem => ?_, fun slug hkept hmem => ?_, fun slug hmem => ?_,
  fun i slug row revision after hat => ?_, fun slug hsome => ?_, fun slug hmem => ?_,
   fun plugin hmem => ?_,
  h.distinct.sublist (hheld.map _), fun plugin rest heq => absurd heq (hprimed plugin rest),
  fun heq => absurd heq hpending⟩
 · rw [hrevision]
   exact h.known slug revision (happlied ▸ hmem)
 · rw [hsnapshots, hcontent slug]
   dsimp only at hmem hkept
   rw [hrevision, happlied] at hmem
   rw [hquarantined] at hkept
   exact h.fresh slug hkept hmem
 · rw [hsnapshots]
   exact h.evicted slug (hquarantined ▸ hmem)
 · exact (h.reads i slug row revision after hat).congr hcommits hcontent
 · dsimp only at hsome ⊢
   rw [hrevision] at hsome ⊢
   rw [happlied]
   refine (h.owed slug hsome).imp_right fun hdebt => ?_
   obtain ⟨i, phase, hat, howes⟩ := hdebt
   exact ⟨i, phase, hat, howes.congr hcommits⟩
 · dsimp only
   rw [happlied]
   exact hloaded slug hmem
 · obtain ⟨hliving, hreading, hkept⟩ := h.waiting plugin (hheld.subset hmem)
   exact ⟨hliving, hreading.congr hcommits hcontent, by rw [hquarantined]; exact hkept⟩

theorem mem_enabledPlugins {s : State} {plugin : ReadPlugin} (h : plugin ∈ enabledPlugins s) :
  s.row plugin.slug = some plugin.row ∧ plugin.row.uninstalledAt = none ∧
   plugin.revision = s.revision plugin.slug := by
 obtain ⟨⟨slug, row⟩, hmem, hread⟩ := List.mem_filterMap.1 h
 dsimp only at hread
 split at hread
 · rename_i hguard
   cases hread
   obtain ⟨-, hliving⟩ := (Bool.and_eq_true _ _).mp hguard
   exact ⟨AList.mem_lookup_iff.2 hmem, Option.isNone_iff_eq_none.1 hliving, rfl⟩
 · cases hread

theorem enabledPlugins_distinct (s : State) : ((enabledPlugins s).map ReadPlugin.slug).Nodup := by
 have hsub : ((enabledPlugins s).map ReadPlugin.slug).Sublist s.rows.keys := by
  rw [enabledPlugins, List.map_filterMap]
  change List.Sublist _ (s.rows.entries.map Sigma.fst)
  induction s.rows.entries with
  | nil => exact List.Sublist.refl _
  | cons entry rest ih =>
   by_cases hguard : (entry.2.enabled && entry.2.uninstalledAt.isNone) = true
   · rw [List.filterMap_cons_some (by simp only [if_pos hguard]; rfl), List.map_cons]
     exact ih.cons_cons _
   · rw [List.filterMap_cons_none (by simp only [if_neg hguard]; rfl), List.map_cons]
     exact ih.cons _
 exact (AList.keys_nodup s.rows).sublist hsub

theorem Kept.reads_rows (h : Kept s) (hloader : s.shared.loader = .pending) :
  Kept ⟨{ s.shared with loader := .looping (enabledPlugins s.shared) }, s.calls⟩ := by
 refine ⟨h.known, h.fresh, h.evicted, h.reads, fun slug hsome => ?_, h.loaded, fun plugin hmem => ?_,
  enabledPlugins_distinct _, fun plugin rest heq => ?_, fun heq => ?_⟩
 · refine (h.owed slug hsome).imp_right fun hdebt => ?_
   obtain ⟨i, phase, hat, howes⟩ := hdebt
   exact ⟨i, phase, hat, howes.congr rfl⟩
 · obtain ⟨hrow, hliving, hrevision⟩ := mem_enabledPlugins hmem
   refine ⟨hliving, ⟨hrevision.le, fun _ => congrArg content hrow.symm⟩, ?_⟩
   change plugin.slug ∉ s.shared.quarantined
   rw [h.pending hloader]
   exact List.not_mem_nil
 · cases heq
 · cases heq

theorem Kept.primes (h : Kept s) {plugin : ReadPlugin} {rest : List ReadPlugin}
  (hloader : s.shared.loader = .preparing plugin rest)
  (hnewest : ∀ newest, (plugin.slug, newest) ∈ s.shared.applied → newest ≤ plugin.revision) :
  Kept ⟨{ s.shared with
   snapshots := prime plugin.slug plugin.row.config s.shared.snapshots
   applied := s.shared.applied ++ [(plugin.slug, plugin.revision)]
   loader := .primed plugin rest }, s.calls⟩ := by
 have hheld : s.shared.loader.held = plugin :: rest := by rw [hloader, Loader.held]
 obtain ⟨hliving, hreading, hkept⟩ := h.waiting plugin (by rw [hheld]; exact List.mem_cons_self)
 have hcontent : content (some plugin.row) = some (normalize plugin.row.config) := by
  simp [content, hliving]
 refine ⟨fun slug n hmem => ?_, fun slug hother hmem => ?_, fun slug hmem => ?_, h.reads,
  fun slug hsome => ?_,
  fun slug hmem => ?_, fun other hmem => ?_, ?_, fun other others heq => ?_, fun heq => ?_⟩
 · rcases List.mem_append.1 hmem with hmem | hmem
   · exact h.known slug n hmem
   · obtain ⟨rfl, rfl⟩ := Prod.mk.inj (List.mem_singleton.1 hmem)
     exact hreading.1
 · by_cases hne : slug = plugin.slug
   · subst hne
     refine ((LiveMap.lookup_set_self _ _ _).trans hcontent.symm).trans (hreading.2 ?_)
     rcases List.mem_append.1 hmem with hmem | hmem
     · exact Nat.le_antisymm hreading.1 (hnewest _ hmem)
     · exact (Prod.mk.inj (List.mem_singleton.1 hmem)).2.symm
   · refine (LiveMap.lookup_set_ne _ _ hne).trans (h.fresh slug hother ?_)
     rcases List.mem_append.1 hmem with hmem | hmem
     · exact hmem
     · exact absurd (Prod.mk.inj (List.mem_singleton.1 hmem)).1 hne
 · have hne : slug ≠ plugin.slug := fun heq => hkept (heq ▸ hmem)
   exact (LiveMap.lookup_set_ne _ _ hne).trans (h.evicted slug hmem)
 · rcases h.owed slug hsome with hmem | ⟨i, phase, hat, howes⟩
   · exact .inl (List.mem_append_left _ hmem)
   · exact .inr ⟨i, phase, hat, howes.congr rfl⟩
 · obtain ⟨n, hn⟩ := h.loaded slug hmem
   exact ⟨n, List.mem_append_left _ hn⟩
 · obtain ⟨hliving, hreading, hkept⟩ := h.waiting other (by rw [hheld]; exact hmem)
   exact ⟨hliving, hreading, hkept⟩
 · have hdistinct := h.distinct
   rwa [hheld] at hdistinct
 · cases heq
   exact List.mem_append_right _ List.mem_cons_self
 · cases heq

theorem Kept.quarantines (h : Kept s) {plugin : ReadPlugin} {rest : List ReadPlugin}
  (hheld : s.shared.loader.held = plugin :: rest) :
  Kept ⟨quarantine plugin rest s.shared, s.calls⟩ := by
 have hdistinct := h.distinct
 rw [hheld, List.map_cons, List.nodup_cons] at hdistinct
 refine ⟨h.known, fun slug hkept hmem => ?_, fun slug hmem => ?_, h.reads, fun slug hsome => ?_, h.loaded,
  fun other hmem => ?_, hdistinct.2, fun other others heq => ?_, fun heq => ?_⟩
 · have hne : slug ≠ plugin.slug := fun heq => hkept (List.mem_append_right _ (List.mem_singleton.2 heq))
   refine (LiveMap.lookup_delete_ne _ hne).trans (h.fresh slug (fun hmem => hkept ?_) hmem)
   exact List.mem_append_left _ hmem
 · by_cases hne : slug = plugin.slug
   · rw [hne]
     exact LiveMap.lookup_delete_self _ _
   · refine (LiveMap.lookup_delete_ne _ hne).trans (h.evicted slug ?_)
     rcases List.mem_append.1 hmem with hmem | hmem
     · exact hmem
     · exact absurd (List.mem_singleton.1 hmem) hne
 · refine (h.owed slug hsome).imp_right fun hdebt => ?_
   obtain ⟨i, phase, hat, howes⟩ := hdebt
   exact ⟨i, phase, hat, howes.congr rfl⟩
 · obtain ⟨hliving, hreading, hkept⟩ := h.waiting other (by rw [hheld]; exact List.mem_cons_of_mem _ hmem)
   refine ⟨hliving, hreading, fun hin => ?_⟩
   rcases List.mem_append.1 hin with hin | hin
   · exact hkept hin
   · exact hdistinct.1 (List.mem_map.2 ⟨other, hmem, List.mem_singleton.1 hin⟩)
 · cases heq
 · cases heq

theorem Kept.loads (h : Kept s) {fails : Bool} (hstep : loaderStep fails s.shared = some shared)
  (htimely : Timely s (.outside fails)) : Kept ⟨shared, s.calls⟩ := by
 unfold loaderStep at hstep
 cases hloader : s.shared.loader with
 | pending =>
  simp only [hloader] at hstep
  cases hstep
  exact h.reads_rows hloader
 | looping plugins =>
  have hheld : s.shared.loader.held = plugins := by rw [hloader, Loader.held]
  cases plugins with
  | nil =>
   simp only [hloader] at hstep
   cases hstep
   exact h.relabels rfl rfl rfl rfl (fun _ => rfl) (List.nil_sublist _) h.loaded (by simp) (by simp)
  | cons plugin rest =>
   simp only [hloader] at hstep
   split at hstep
   · cases hstep
     exact h.relabels rfl rfl rfl rfl (fun _ =>
      rfl) (by rw [hheld]; exact List.sublist_cons_self _ _) h.loaded
      (by simp) (by simp)
   · cases hstep
     exact h.relabels rfl rfl rfl rfl (fun _ => rfl) (by rw [hheld]; exact List.Sublist.refl _) h.loaded
      (by simp) (by simp)
 | preparing plugin rest =>
  have hheld : s.shared.loader.held = plugin :: rest := by rw [hloader, Loader.held]
  simp only [hloader] at hstep
  split at hstep
  · cases hstep
    exact h.quarantines hheld
  · rename_i hok
    cases hstep
    exact h.primes hloader (htimely plugin rest hloader (Bool.eq_false_iff.2 hok))
 | primed plugin rest =>
  have hheld : s.shared.loader.held = plugin :: rest := by rw [hloader, Loader.held]
  simp only [hloader] at hstep
  split at hstep
  · cases hstep
    exact h.quarantines hheld
  · cases hstep
    refine h.relabels rfl rfl rfl rfl (fun _ => rfl) ?_ (fun slug hmem => ?_) ?_ ?_
    · rw [hheld]
      dsimp only
      split
      · exact List.Sublist.refl _
      · exact List.sublist_cons_self _ _
    · rcases List.mem_append.1 hmem with hmem | hmem
      · exact h.loaded slug hmem
      · rw [List.mem_singleton.1 hmem]
        exact ⟨_, h.primed plugin rest hloader⟩
    · intro other others
      dsimp only
      split
      · exact fun heq => by cases heq
      · exact fun heq => by cases heq
    · dsimp only
      split
      · exact fun heq => by cases heq
      · exact fun heq => by cases heq
 | recovering plugin rest =>
  have hheld : s.shared.loader.held = plugin :: rest := by rw [hloader, Loader.held]
  simp only [hloader] at hstep
  split at hstep
  · cases hstep
    exact h.quarantines hheld
  · cases hstep
    obtain ⟨hsnapshots, hkeep, hloaded, hquarantined, hcommits, happlied⟩ := updateRow_rest plugin.slug
     (fun row => { row with
      loadFailed := !plugin.row.loadFailed && row.loadFailed
      restartRequired := !plugin.row.restartRequired && row.restartRequired })
     { s.shared with loader := .looping rest }
    refine h.relabels hsnapshots hquarantined hcommits happlied ?_ ?_ ?_ ?_ ?_
    · intro slug
      exact row_updateRow plugin.slug (fun row => { row with
       loadFailed := !plugin.row.loadFailed && row.loadFailed
       restartRequired := !plugin.row.restartRequired && row.restartRequired }) (fun _ => rfl)
       { s.shared with loader := .looping rest } slug
    · rw [hkeep, hheld]
      exact List.sublist_cons_self _ _
    · rw [hloaded]
      exact h.loaded
    · simp [hkeep]
    · simp [hkeep]
 | quarantining plugin rest =>
  have hheld : s.shared.loader.held = rest := by rw [hloader, Loader.held]
  simp only [hloader] at hstep
  split at hstep
  · cases hstep
    exact h.relabels rfl rfl rfl rfl (fun _ => rfl) (by rw [hheld]; exact List.Sublist.refl _) h.loaded
     (by simp) (by simp)
  · cases hstep
    obtain ⟨hsnapshots, hkeep, hloaded, hquarantined, hcommits, happlied⟩ := updateRow_rest plugin.slug
     (fun row => { row with enabled := false, loadFailed := true })
      { s.shared with loader := .looping rest }
    refine h.relabels hsnapshots hquarantined hcommits happlied ?_ ?_ ?_ ?_ ?_
    · intro slug
      exact row_updateRow plugin.slug (fun row => { row with enabled := false, loadFailed := true })
       (fun _ => rfl) { s.shared with loader := .looping rest } slug
    · rw [hkeep, hheld]
      exact List.Sublist.refl _
    · rw [hloaded]
      exact h.loaded
    · simp [hkeep]
    · simp [hkeep]
 | finished =>
  simp only [hloader] at hstep
  cases hstep

end BootPass

section Runs

variable {s s' : Sys State Phase} {initial : State}

structure Booting (s : State) : Prop where
  snapshots : ∀ slug, s.snapshots.lookup slug = none
  loader : s.loader = .pending
  loaded : s.loaded = []
  quarantined : s.quarantined = []
  commits : s.commits = []
  applied : s.applied = []

theorem Kept.booting (h : Booting initial) : Kept ⟨initial, []⟩ where
 known slug revision hmem := by
  rw [h.applied] at hmem
  cases hmem
 fresh slug hkept hmem := by
  rw [h.applied] at hmem
  cases hmem
 evicted slug hmem := h.snapshots slug
 reads i slug row revision after hat := by cases hat
 owed slug hsome := by
  refine absurd ?_ hsome
  change initial.commits.count slug = 0
  rw [h.commits, List.count_nil]
 loaded slug hmem := by
  rw [h.loaded] at hmem
  cases hmem
 waiting plugin hmem := by
  rw [h.loader] at hmem
  cases hmem
 distinct := by
  rw [h.loader]
  exact List.nodup_nil
 primed plugin rest heq := by
  rw [h.loader] at heq
  cases heq
 pending _ := h.quarantined

theorem Kept.begins (h : Kept s) (request : Request) :
  Kept ⟨s.shared, s.calls ++ [start request s.shared]⟩ := by
 refine ⟨h.known, h.fresh, h.evicted, fun i slug row revision after hat => ?_, fun slug hsome => ?_,
  h.loaded,
  h.waiting, h.distinct, h.primed, h.pending⟩
 · rcases getElem?_concat_cases hat with hat | ⟨-, heq⟩
   · exact h.reads i slug row revision after hat
   · cases request <;> cases heq
 · refine (h.owed slug hsome).imp_right fun hdebt => ?_
   obtain ⟨i, phase, hat, howes⟩ := hdebt
   have hi := (List.getElem?_eq_some_iff.1 hat).1
   exact ⟨i, phase, (List.getElem?_append_left hi).trans hat, howes⟩

theorem Kept.moves (h : Kept s) {i : ℕ} {phase : Phase} {moved : Phase × State}
  (hcall : s.calls[i]? = some phase) (hmove : move () phase s.shared = some moved)
  (htimely : Timely s (.advance i ())) :
  Kept ⟨moved.2, s.calls.set i moved.1⟩ := by
 cases phase with
 | committing slug change =>
  cases hmove
  unfold commit
  split
  · exact h.commits hcall
  · apply h.passes hcall
    · intro other howes
      cases howes
    · intro other row revision after heq
      cases heq
 | published slug =>
  cases hmove
  apply h.passes hcall
  · intro other howes
    cases howes with
    | published => exact .refreshing none
  · intro other row revision after heq
    cases heq
 | iterating position =>
  simp only [move] at hmove
  split at hmove
  · cases hmove
    apply h.passes hcall
    · intro other howes
      cases howes
    · intro other row revision after heq
      cases heq
  · cases hmove
    apply h.passes hcall
    · intro other howes
      cases howes
    · intro other row revision after heq
      cases heq
 | refreshing slug after =>
  cases hmove
  apply h.passes hcall
  · intro other howes
    cases howes with
    | refreshing after => exact .refreshed _ after
  · intro other row revision later heq
    cases heq
    exact ⟨le_rfl, fun _ => rfl⟩
 | refreshed slug row revision after =>
  cases hmove
  obtain ⟨hnewest, hevicted⟩ := htimely slug row revision after hcall
  exact h.applies hcall hnewest hevicted
 | settled => cases hmove

theorem Kept.step {a : Action Request Unit Bool} (h : Kept s) (htimely : Timely s a)
  (hstep : PhasedCalls.step snapshotting s a = some s') : Kept s' := by
 rcases step_cases hstep with ⟨request, rfl, rfl⟩ | ⟨i, answer, phase, moved, rfl, hcall, hmove, rfl⟩ |
  ⟨fails, shared, rfl, hshared, rfl⟩
 · exact h.begins request
 · exact h.moves hcall hmove htimely
 · exact h.loads hshared htimely

theorem kept_of_reachable (hinitial : Booting initial)
  (h : ReachableBy snapshotting Timely initial s) : Kept s := by
 induction h with
 | start => exact Kept.booting hinitial
 | step a hreach htimely hstep ih => exact ih.step htimely hstep

theorem Kept.settled (h : Kept s) (hrest : AtRest s) {slug : Text}
  (hloaded : slug ∈ s.shared.loaded) :
  (slug, s.shared.revision slug) ∈ s.shared.applied := by
 by_cases hzero : s.shared.revision slug = 0
 · obtain ⟨revision, hmem⟩ := h.loaded slug hloaded
   have hle := h.known slug revision hmem
   have heq : revision = s.shared.revision slug := by omega
   exact heq ▸ hmem
 · rcases h.owed slug hzero with hmem | ⟨i, phase, hat, howes⟩
   · exact hmem
   · rcases hrest.1 phase (List.mem_of_getElem? hat) with rfl | ⟨other, change, rfl⟩ <;> cases howes

def Converged (s : State) : Prop :=
  (∀ slug ∈ s.loaded, slug ∉ s.quarantined →
   snapshotFor s slug = (content (s.row slug)).getD emptyConfig) ∧
    ∀ slug ∈ s.quarantined, s.snapshots.lookup slug = none

/-- Where every applied read is in time, the snapshots at rest show the rows. -/
theorem snapshots_converge (hinitial : Booting initial)
    (hreach : ReachableBy snapshotting Timely initial s) (hrest : AtRest s) :
    Converged s.shared := by
 have hkept := kept_of_reachable hinitial hreach
 refine ⟨fun slug hloaded hquarantined => ?_, hkept.evicted⟩
 have hfresh := hkept.fresh slug hquarantined (hkept.settled hrest hloaded)
 exact congrArg (Option.getD · emptyConfig) hfresh

end Runs

section Samples

def sampleSlug : Text := ['a']

def sampleConfig (c : Char) : ConfigValue := .object [c]

def sampleRow : PluginRow := ⟨sampleConfig '0', true, false, false, none⟩

def sampleState : State where
  rows := (∅ : AList fun _ : Text => PluginRow).insert sampleSlug sampleRow
  snapshots := ⟨[]⟩
  loader := .pending
  loaded := []
  quarantined := []
  commits := []
  applied := []

theorem booting_sample : Booting sampleState := ⟨fun _ => rfl, rfl, rfl, rfl, rfl, rfl⟩

structure Outcome where
  loaded : List Text
  quarantined : List Text
  snapshot : Option ConfigValue
  row : Option ConfigValue
  atRest : Bool
deriving DecidableEq

def outcome (s : Sys State Phase) : Outcome where
  loaded := s.shared.loaded
  quarantined := s.shared.quarantined
  snapshot := s.shared.snapshots.lookup sampleSlug
  row := content (s.shared.row sampleSlug)
  atRest := s.calls.all (· == .settled) && s.shared.loader == .finished

theorem atRest_of_outcome {s : Sys State Phase} (h : (outcome s).atRest = true) : AtRest s := by
 obtain ⟨hcalls, hloader⟩ := (Bool.and_eq_true _ _).mp h
 refine ⟨fun phase hmem => .inl ?_, .inr (by simpa using hloader)⟩
 simpa using List.all_eq_true.1 hcalls phase hmem

/-- `Timely`, as a check. -/
def timely (s : Sys State Phase) : Action Request Unit Bool → Bool
  | .advance i _ =>
    match s.calls[i]? with
    | some (.refreshed slug row revision _) =>
      s.shared.applied.all (fun write => write.1 != slug || write.2 ≤ revision) &&
        (!s.shared.quarantined.contains slug || content row == none)
    | _ => true
  | .outside fails =>
    match s.shared.loader with
    | .preparing plugin _ => fails || s.shared.applied.all fun write =>
     write.1 != plugin.slug || write.2 ≤ plugin.revision
    | _ => true
  | .begin _ => true

theorem newest_le_of_all {applied : List (Text × ℕ)} {slug : Text} {revision : ℕ}
  (h : (applied.all fun write => write.1 != slug || write.2 ≤ revision) = true) (newest : ℕ)
  (hmem : (slug, newest) ∈ applied) : newest ≤ revision := by
 have hwrite := List.all_eq_true.1 h _ hmem
 simpa using hwrite

theorem timely_allows (s : Sys State Phase) (a : Action Request Unit Bool) (h : timely s a = true) :
  Timely s a := by
 cases a with
 | begin request => trivial
 | advance i answer =>
  intro slug row revision after hcall
  simp only [timely, hcall, Bool.and_eq_true] at h
  refine ⟨newest_le_of_all h.1, fun hmem => ?_⟩
  simpa [hmem] using h.2
 | outside fails =>
  intro plugin rest hloader hok
  simp only [timely, hloader, hok, Bool.false_or] at h
  exact newest_le_of_all h

def proceed (i : ℕ) : Action Request Unit Bool := .advance i ()

def boot : List (Action Request Unit Bool) := List.replicate 5 (.outside false)

def inTurn : List (Action Request Unit Bool) :=
  boot ++
    [.begin (.commit sampleSlug (.configWrite (sampleConfig '1'))), proceed 0, proceed 0, proceed 0,
     proceed 0,
      .begin .interval, proceed 1, .begin (.commit sampleSlug (.configWrite (sampleConfig '2'))),
       proceed 2, proceed 2,
      proceed 1, proceed 2, proceed 2, proceed 1, proceed 1]

theorem snapshots_converge_inTurn :
    ∃ s, outcome s = ⟨[sampleSlug], [], some (sampleConfig '2'), some (sampleConfig '2'), true⟩ ∧
      Converged s.shared := by
 have hrun : (runChecked snapshotting timely ⟨sampleState, []⟩ inTurn).map outcome =
   some ⟨[sampleSlug], [], some (sampleConfig '2'), some (sampleConfig '2'), true⟩ := by decide +kernel
 obtain ⟨s, hs, houtcome⟩ := Option.map_eq_some_iff.1 hrun
 exact ⟨s, houtcome, snapshots_converge booting_sample (reachable_of_runChecked timely_allows .start hs)
  (atRest_of_outcome (by rw [houtcome]))⟩

def overtaken : List (Action Request Unit Bool) :=
  boot ++
    [.begin (.commit sampleSlug (.configWrite (sampleConfig '1'))), proceed 0, proceed 0, proceed 0,
      .begin (.commit sampleSlug (.configWrite (sampleConfig '2'))), proceed 1, proceed 1,
       proceed 1, proceed 1,
      proceed 0]

theorem snapshot_stale_overtaken :
    ¬ ∀ initial s, Booting initial → Reachable snapshotting initial s → AtRest s → Converged s.shared := by
 intro hclaim
 have hrun : (run snapshotting ⟨sampleState, []⟩ overtaken).map outcome =
   some ⟨[sampleSlug], [], some (sampleConfig '1'), some (sampleConfig '2'), true⟩ := by decide +kernel
 obtain ⟨s, hs, houtcome⟩ := Option.map_eq_some_iff.1 hrun
 have hconverged := hclaim sampleState s booting_sample (reachable_of_run .start hs)
  (atRest_of_outcome (by rw [houtcome]))
 have hloaded : s.shared.loaded = [sampleSlug] := congrArg Outcome.loaded houtcome
 have hquarantined : s.shared.quarantined = [] := congrArg Outcome.quarantined houtcome
 have hsnapshot : s.shared.snapshots.lookup sampleSlug = some (sampleConfig '1') := congrArg
  Outcome.snapshot houtcome
 have hrow : content (s.shared.row sampleSlug) = some (sampleConfig '2') := congrArg Outcome.row houtcome
 have hshown := hconverged.1 sampleSlug (by simp [hloaded]) (by simp [hquarantined])
 rw [snapshotFor, hsnapshot, hrow] at hshown
 exact absurd hshown (by decide)

end Samples

end BoardGamesEmpire.PluginConfig
