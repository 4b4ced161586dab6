import BoardGamesEmpire.PluginRevocationSafe

set_option autoImplicit false

/-!
# Statements and the account

A statement that keeps the ids of the decisions it writes leaves the account
alone, and so does a transaction made of such statements. A deletion of the found
rows adds them to the report.
-/
namespace BoardGamesEmpire.PluginRevocation
open JsText Manifest ReadCommitted ReadCommittedProtocol PluginStore PluginEscalation PluginActivation
  PluginUpdateProgram PluginGrantProgram PluginProtocol

section Keeping

/-- A decision is written under the plugin row's lock, with the id of the row in
    view or a fresh one. -/
def KeepsId (known : List PluginLock) (clock : ℕ) (v : Db) (w : PluginWrite) : Prop :=
  ∀ (key : GrantKey) (value : Option PluginGrant), w = ⟨.grant key, value⟩ → HoldsPlugin known ∧
    ∃ row, value = some row ∧ row.id = ((grant? v key).map (·.id)).getD clock

theorem keepsId_other {known : List PluginLock} {clock : ℕ} {v : Db} {w : PluginWrite}
  (h : ∀ key, w.key ≠ .grant key) : KeepsId known clock v w :=
 fun key _ heq => absurd (congrArg Write.key heq) (h key)

variable {known : List PluginLock} {clock : ℕ} {v : Db} {ws : List PluginWrite} {key : GrantKey} {id : ℕ}

theorem lives_of_kept (h : ∀ w ∈ ws, KeepsId known clock v w) (hlives : Lives v key id) :
  Lives (applyLog v ws) key id := by
 obtain ⟨row, hrow, hid⟩ := hlives
 by_cases hmem : ∃ w ∈ ws, w.key = .grant key
 · obtain ⟨-, written, hwritten, hkept⟩ := h _ (lookup_applyLog_last v hmem) key _ rfl
   rw [hrow] at hkept
   exact ⟨written, hwritten, hkept.trans hid⟩
 · refine ⟨row, ?_, hid⟩
   rw [grant?, lookup_applyLog_of_notMem v fun w hw heq => hmem ⟨w, hw, heq⟩]
   exact hrow

theorem kept_of_lives (h : ∀ w ∈ ws, KeepsId known clock v w)
  (hlives : Lives (applyLog v ws) key id) :
  Lives v key id ∨ id = clock ∧ grant? v key = none ∧ HoldsPlugin known := by
 obtain ⟨row, hrow, hid⟩ := hlives
 by_cases hmem : ∃ w ∈ ws, w.key = .grant key
 · obtain ⟨hplugin, written, hwritten, hkept⟩ := h _ (lookup_applyLog_last v hmem) key _ rfl
   have hrow' : grant? (applyLog v ws) key = some written := hwritten
   rw [hrow] at hrow'
   cases hrow'
   cases hold : grant? v key with
   | none =>
    rw [hold] at hkept
    exact .inr ⟨hid.symm.trans hkept, rfl, hplugin⟩
   | some old =>
    rw [hold] at hkept
    exact .inl ⟨old, hold, hkept.symm.trans hid⟩
 · rw [grant?, lookup_applyLog_of_notMem v fun w hw heq => hmem ⟨w, hw, heq⟩] at hrow
   exact .inl ⟨row, hrow, hid⟩

end Keeping

section Statements

variable {held : List PluginLock} {log ws : List PluginWrite} {findings : List Finding}
  {reported rows : List (GrantKey × PluginGrant)} {σ : RevocationState} {foundAt : ℕ}

theorem InFlight.write (h : InFlight held log findings reported σ) (hinv : Accounted σ)
  (more : List PluginLock) (hws : ∀ w ∈ ws, KeepsId (held ++ more) σ.clock (view σ log) w) :
  InFlight (held ++ more) (log ++ ws) findings reported σ.tick := by
 have hview : view σ.tick (log ++ ws) = applyLog (view σ log) ws := applyLog_append _ _ _
 refine ⟨fun hund => ?_, h.tick.swept, h.tick.closed, fun key id hlives => ?_, h.tick.begun⟩
 · obtain ⟨hnodup, hexact⟩ := h.settled hund
   refine ⟨hnodup, fun key id => (hexact key id).trans ?_⟩
   rw [hview]
   constructor
   · rintro ⟨hdb, hnot⟩
     refine ⟨hdb, fun hlives => ?_⟩
     rcases kept_of_lives hws hlives with hold | ⟨rfl, -⟩
     · exact hnot hold
     · have hborn := hinv.born key σ.clock hdb
       have hbegun := h.begun
       omega
   · exact fun hlost => ⟨hlost.1, fun hlives => hlost.2 (lives_of_kept hws hlives)⟩
 · rw [hview] at hlives
   rcases kept_of_lives hws hlives with hold | ⟨rfl, -, hplugin⟩
   · exact (h.more more).tick.renewed key id hold
   · refine .inr ⟨fun e he hdel => ?_, Nat.lt_succ_self _, hplugin⟩
     have hid := (hinv.buried e he key σ.clock hdel).2
     have hbegun := h.begun
     omega

def Watched (foundAt : ℕ) (rows : List (GrantKey × PluginGrant)) (log : List PluginWrite)
    (σ : RevocationState) : Prop :=
  foundAt ≤ σ.clock ∧ ∀ found ∈ rows, Lives (view σ log) found.1 found.2.id ∨
    ∃ e ∈ σ.ledger, foundAt ≤ e.time ∧ Deletes e found.1 found.2.id

theorem stable_watched (hlog : LogLocked held log) :
  Stable protocol held (Watched foundAt rows log) := by
 intro σ σ' hwatched _ _ hrely
 obtain ⟨hle, h⟩ := hwatched
 refine ⟨hle.trans (rely_clock hrely).le, fun found hfound => ?_⟩
 rcases h found hfound with hlives | ⟨e, he, hfrom, hdel⟩
 · rcases rely_lives_view hlog hrely hlives with hlives' | ⟨e, he, htime, hdel⟩
   · exact .inl hlives'
   · exact .inr ⟨e, he, by omega, hdel⟩
 · exact .inr ⟨e, rely_sublist hrely he, hfrom, hdel⟩

theorem watched_found (h : ∀ found ∈ rows, found ∈ grantRows (view σ log)) :
  Watched σ.clock rows log σ.tick :=
 ⟨Nat.le_succ _, fun found hfound => .inl (lives_of_mem (h found hfound))⟩

theorem Watched.lives (h : Watched foundAt rows log σ) (hinv : Accounted σ) {f : Finding}
  {found : GrantKey × PluginGrant} (hfound : found ∈ rows) (hrows : found ∈ f.rows)
  (hfrom : f.foundAt = foundAt) (hto : f.settledAt = σ.clock) (hund : Undisturbed σ.ledger [f]) :
  Lives (view σ log) found.1 found.2.id := by
 rcases h.2 found hfound with hlives | ⟨e, he, htime, hdel⟩
 · exact hlives
 · have hlt := hinv.timed e he
   exact absurd hdel (hund f List.mem_cons_self found hrows e he (by omega) (by omega))

theorem undisturbed_append {ledger : List (Entry Row Report)} {f : Finding} :
  Undisturbed ledger (findings ++ [f]) ↔ Undisturbed ledger findings ∧ Undisturbed ledger [f] := by
 unfold Undisturbed
 rw [List.forall_mem_append]

theorem InFlight.delete (h : InFlight held log findings reported σ) (hinv : Accounted σ)
  (more : List PluginLock)
  (hsub : ∀ key id, Lives (view σ log) key id → Lives σ.db key id) (hwatched : Watched foundAt rows log σ)
  (hnodup : (rows.map identity).Nodup) {p : GrantKey → PluginGrant → Bool}
  (hp : ∀ key row, grant? (view σ log) key = some row →
   (p key row = true ↔ (key, row.id) ∈ rows.map identity)) :
  InFlight (held ++ more) (log ++ deleteGrants p (view σ log)) (findings ++ [⟨rows, foundAt, σ.clock⟩])
   (reported ++ rows) σ.tick := by
 have hview : view σ.tick (log ++ deleteGrants p (view σ log)) = applyLog (view σ log)
  (deleteGrants p (view σ log)) :=
  applyLog_append _ _ _
 refine ⟨fun hund => ?_, ?_, ?_, fun key id hlives => ?_, Nat.succ_pos _⟩
 · obtain ⟨hold, hnew⟩ := undisturbed_append.1 hund
   rw [hview]
   refine (h.settled hold).delete hsub hnodup (fun found hfound => ?_) hp
   exact hwatched.lives hinv hfound hfound rfl rfl hnew
 · intro f hf found hfound e he hfrom hto hdel
   rw [List.map_append]
   rcases List.mem_append.1 hf with hf | hf
   · exact List.mem_append_left _ (h.swept f hf found hfound e he hfrom hto hdel)
   · rw [List.mem_singleton.1 hf] at hfound
     exact List.mem_append_right _ (List.mem_map_of_mem hfound)
 · intro f hf
   rcases List.mem_append.1 hf with hf | hf
   · exact h.tick.closed f hf
   · rw [List.mem_singleton.1 hf]
     exact Nat.le_succ _
 · rw [hview] at hlives
   obtain ⟨row, hrow, hid, -⟩ := lives_deleteGrants.1 hlives
   exact .inl (hsub key id ⟨row, hrow, hid⟩)

end Statements

section Orderly

variable {E : Type}

/-- Every statement keeps the ids, and the commit is one of `committing`; `resume`
    is what may run after the transaction. -/
def Orderly (resume : Code Row UnitRef E → Prop) (committing : E → Prop) :
    List PluginLock → Code Row UnitRef E → Prop
  | _, .halt => True
  | known, .start recover body => Orderly resume committing known body ∧ resume recover
  | known, .stmt locks writes next => ∀ clock v,
      (∀ w ∈ writes clock v, KeepsId (known ++ locks v) clock v w) ∧
        Orderly resume committing (known ++ locks v) (next clock v)
  | _, .commit event next => committing event ∧ resume next
  | _, .rollback next => resume next

variable {resume : Code Row UnitRef E → Prop} {committing : E → Prop} {known : List PluginLock}

theorem orderly_lock {locks : Db → List PluginLock} {next : ℕ → Db → Code Row UnitRef E}
  (h : ∀ clock v, Orderly resume committing (known ++ locks v) (next clock v)) :
  Orderly resume committing known (.lock locks next) :=
 fun clock v => ⟨fun _ hw => absurd hw List.not_mem_nil, h clock v⟩

theorem orderly_query {next : ℕ → Db → Code Row UnitRef E}
  (h : ∀ clock v, Orderly resume committing known (next clock v)) :
  Orderly resume committing known (.query next) := by
 intro clock v
 refine ⟨fun _ hw => absurd hw List.not_mem_nil, ?_⟩
 rw [List.append_nil]
 exact h clock v

theorem orderly_execute {writes : ℕ → Db → List PluginWrite} {next : ℕ → Db → Code Row UnitRef E}
  (hwrites : ∀ clock v, ∀ w ∈ writes clock v, KeepsId known clock v w)
  (h : ∀ clock v, Orderly resume committing known (next clock v)) :
  Orderly resume committing known (.execute writes next) := by
 intro clock v
 rw [List.append_nil]
 exact ⟨hwrites clock v, h clock v⟩

theorem orderly_relabel {E' : Type} {f : E → E'} {resume : Code Row UnitRef E' → Prop}
  {committing : E' → Prop} {code : Code Row UnitRef E}
  (h : Orderly (fun code => resume (relabel f code)) (fun event => committing (f event)) known code) :
  Orderly resume committing known (relabel f code) := by
 induction code generalizing known with
 | halt => trivial
 | start recover body _ ih => exact ⟨ih h.1, h.2⟩
 | stmt locks writes next ih => exact fun clock v => ⟨(h clock v).1, ih clock v (h clock v).2⟩
 | commit event next _ => exact h
 | rollback next _ => exact h

def Resumable (code : ReportingProgram) : Prop :=
  ∀ σ : RevocationState, 0 < σ.clock → Safe protocol code [] [] σ

theorem stable_begun (held : List PluginLock) : Stable protocol held fun σ => 0 < σ.clock :=
 fun _ _ h _ _ hrely => h.trans (rely_clock hrely)

theorem resumable_halt : Resumable .halt := fun _ _ => trivial

theorem safe_of_orderly {findings : List Finding} {reported : List (GrantKey × PluginGrant)}
  {committing : Report → Prop}
  (hcommitting : ∀ event, committing event → event.findings = findings ∧ event.reported = reported)
  {code : ReportingProgram} {known held : List PluginLock} {log : List PluginWrite}
  {σ : RevocationState} (h : Orderly Resumable committing known code) (hknown : known ⊆ held)
  (hflight : LogLocked held log → InFlight held log findings reported σ) (hbegun : 0 < σ.clock) :
  Safe protocol code held log σ := by
 induction code generalizing known held log σ with
 | halt => trivial
 | start recover body _ ih =>
  intro σ' hlater _
  have hbegun' := (stable_begun held).later hlater hbegun
  refine ⟨ih h.1 hknown (fun hlog => ?_) (Nat.succ_pos _), h.2 _ (Nat.succ_pos _)⟩
  exact ((stable_inFlight hlog).later hlater (hflight hlog)).tick
 | stmt locks writes next ih =>
  intro σ' hlater hinv hlog _
  obtain ⟨hwrites, hnext⟩ := h σ'.clock (view σ' log)
  have hflight' := (stable_inFlight hlog).later hlater (hflight hlog)
  have hmore : known ++ locks (view σ' log) ⊆
    held ++ (locks (view σ' log) ++ writeLocks (writes σ'.clock (view σ' log))) := by
   apply List.append_subset.2
   exact ⟨fun l hl => List.mem_append_left _ (hknown hl), fun l hl =>
    List.mem_append_right _ (List.mem_append_left _ hl)⟩
  refine ih _ _ hnext hmore (fun _ => ?_) (Nat.succ_pos _)
  refine hflight'.write hinv _ fun w hw key value heq => ?_
  obtain ⟨⟨exclusive, hplugin⟩, hrow⟩ := hwrites w hw key value heq
  exact ⟨⟨exclusive, hmore hplugin⟩, hrow⟩
 | commit event next _ =>
  intro σ' hlater hinv hlog
  obtain ⟨hfindings, hreported⟩ := hcommitting event h.1
  have hflight' := (stable_inFlight hlog).later hlater (hflight hlog)
  obtain ⟨hguar, heffect⟩ := hflight'.effect hinv hfindings hreported
  exact ⟨hguar, heffect, h.2 _ (Nat.succ_pos _)⟩
 | rollback next _ =>
  intro σ' hlater _
  exact h _ (Nat.succ_pos _)

def Silent (event : Report) : Prop := event.findings = [] ∧ event.reported = []

theorem resumable_of_orderly {code : ReportingProgram} (h : Orderly Resumable Silent [] code) :
  Resumable code :=
 fun _ hbegun => safe_of_orderly (fun _ hevent => hevent) h (List.nil_subset _)
  (fun _ => .start [] hbegun) hbegun

end Orderly

section Parts

variable {resume : Program → Prop} {committing : Event → Prop} {known : List PluginLock} {next : Program}

theorem keepsId_updateUnits {p : UnitRef → UnitRow → Bool} {f : UnitRow → UnitRow} {clock : ℕ}
  {v v' : Db} :
  ∀ w ∈ updateUnits p f v, KeepsId known clock v' w := by
 intro w hw
 obtain ⟨entry, -, rfl⟩ := List.mem_map.1 hw
 exact keepsId_other fun key heq => by cases heq

theorem orderly_updateFound {found : List (UnitRef × UnitRow)} {f : UnitRow → UnitRow}
  (h : Orderly resume committing known next) :
  Orderly resume committing known (updateFound found f next) := by
 unfold updateFound
 split_ifs
 · exact h
 · exact orderly_execute (fun _ _ => keepsId_updateUnits) fun _ _ => h

theorem orderly_suspendPass {a : Activation} {axis : PluginConsentScope}
  {next : List SuspensionCandidate → Program}
  (h : ∀ units, Orderly resume committing known (next units)) :
  Orderly resume committing known (suspendPass a axis next) := by
 unfold suspendPass
 split_ifs
 · exact h []
 · apply orderly_query
   intro _ v
   dsimp only
   split_ifs
   · exact h []
   · apply orderly_query
     intro _ v
     split_ifs
     · exact h []
     · apply orderly_execute
       · exact fun _ _ => keepsId_updateUnits
       · intro _ v
         split_ifs
         · exact h _
         · exact orderly_query fun _ _ => h _

theorem orderly_reconcileHouseholdDormancy {host : Host} {manifest : PluginManifest}
  {initiatedAt : ℕ} (h : Orderly resume committing known next) :
  Orderly resume committing known (reconcileHouseholdDormancy host manifest initiatedAt next) := by
 unfold reconcileHouseholdDormancy
 apply orderly_query
 intro _ v
 cases manifest.scope with
 | server => exact orderly_updateFound h
 | household => exact orderly_updateFound (orderly_updateFound h)

variable {unit : UnitRef}

theorem orderly_lockUnitScope (h : ∀ known, Orderly resume committing known next) :
  Orderly resume committing known (lockUnitScope unit next) :=
 orderly_lock fun _ _ => h _

theorem orderly_lockUnit {next : Option UnitRow → Program}
  (h : ∀ known found, Orderly resume committing known (next found)) :
  Orderly resume committing known (lockUnit unit next) :=
 orderly_lock fun _ _ => h _ _

theorem orderly_updateUnit {found : UnitRow} {guard : UnitRow → Bool}
  {f : UnitRow → UnitRow} (h : Orderly resume committing known next) :
  Orderly resume committing known (updateUnit unit found guard f next) := by
 refine orderly_execute (fun _ v w hw => ?_) fun _ _ => h
 apply keepsId_other
 intro key heq
 split at hw
 · split at hw
   · rw [List.mem_singleton.1 hw] at heq
     cases heq
   · cases hw
 · cases hw

theorem orderly_readOutstanding {checks : List NormalizedPermissionRequest}
  {next : List Text → Program}
  (h : ∀ outstanding, Orderly resume committing known (next outstanding)) :
  Orderly resume committing known (readOutstanding unit checks next) :=
 orderly_query fun _ _ => orderly_query fun _ _ => h _

theorem orderly_suspendUnit {validated : PluginManifestValidationResult}
  {deniedSlug : Text} {initiatedAt : ℕ} (h : ∀ known, Orderly resume committing known next) :
  Orderly resume committing known (suspendUnit validated unit deniedSlug initiatedAt next) := by
 refine orderly_lockUnitScope fun _ => orderly_lockUnit fun _ found => ?_
 cases found with
 | none => exact h _
 | some row =>
  dsimp only
  split_ifs
  · exact h _
  · apply orderly_readOutstanding
    intro outstanding
    split_ifs
    · exact orderly_updateUnit (h _)
    · exact h _

end Parts

end BoardGamesEmpire.PluginRevocation
