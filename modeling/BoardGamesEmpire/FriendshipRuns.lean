import BoardGamesEmpire.FriendshipService

set_option autoImplicit false

/-!
# What friendship rows go through

One row for every pair, whatever overlaps. The block and the answers keep their
rules as long as the row a call writes still passes the check the call made.
-/
namespace BoardGamesEmpire.FriendshipService
open JsText JsonText

section Rows

variable {rows : List Friendship} {row next : Friendship} {a b : Text} {id : ℕ}

theorem pairKey_comm (a b : Text) : pairKey a b = pairKey b a := by
 unfold pairKey
 by_cases hab : textLe a b = true
 · by_cases hba : textLe b a = true
   · rw [textLe_antisymm hab hba]
   · rw [if_pos hab, if_neg hba]
 · have hba : textLe b a = true := by
    have htotal := textLe_total a b
    simpa [hab] using htotal
   rw [if_neg hab, if_pos hba]

theorem findById_some (h : findById rows id = some row) : row ∈ rows ∧ row.id = id := by
 refine ⟨List.mem_of_find?_eq_some h, ?_⟩
 have hid := List.find?_some h
 exact beq_iff_eq.1 hid

theorem findBetween_some (h : findBetween rows a b = some row) :
  row ∈ rows ∧ row.pairKey = pairKey a b := by
 refine ⟨List.mem_of_find?_eq_some h, ?_⟩
 have hkey := List.find?_some h
 exact beq_iff_eq.1 hkey

theorem findBetween_none (h : findBetween rows a b = none) :
  pairKey a b ∉ rows.map (·.pairKey) := by
 intro hmem
 obtain ⟨row, hrow, hkey⟩ := List.mem_map.1 hmem
 have hnot := List.find?_eq_none.1 h row hrow
 exact hnot (beq_iff_eq.2 hkey)

theorem mem_replaceRow (h : row ∈ replaceRow rows next) :
  row = next ∨ (row ∈ rows ∧ row.id ≠ next.id) := by
 obtain ⟨old, hold, heq⟩ := List.mem_map.1 h
 by_cases hid : old.id = next.id
 · rw [if_pos hid] at heq
   exact .inl heq.symm
 · rw [if_neg hid] at heq
   subst heq
   exact .inr ⟨hold, hid⟩

theorem map_replaceRow {α : Type} (f : Friendship → α)
  (h : ∀ row ∈ rows, row.id = next.id → f row = f next) :
  (replaceRow rows next).map f = rows.map f := by
 rw [replaceRow, List.map_map]
 apply List.map_congr_left
 intro row hrow
 by_cases hid : row.id = next.id
 · simp [hid, h row hrow hid]
 · simp [hid]

theorem eq_of_id {row' : Friendship} (hids : (rows.map (·.id)).Nodup) (hrow : row ∈ rows)
  (hrow' : row' ∈ rows) (h : row.id = row'.id) : row = row' :=
 List.inj_on_of_nodup_map hids hrow hrow' h

end Rows

section Steps

variable {directory : Directory} {s s' : System}

inductive Written (s : System) (call : Call) : List Friendship → WriteRecord → Prop where
  | created (addresseeId : Text) (message : Option Text) (row : Friendship)
      (hrequest : call.request = .create addresseeId message)
      (hnone : findBetween s.rows call.userId addresseeId = none)
      (hrow : row = ⟨s.clock, call.userId, addresseeId, pairKey call.userId addresseeId, .pending,
       message, none⟩) :
      Written s call (s.rows ++ [row]) ⟨call.userId, .create addresseeId message, none, some row⟩
  | reactivated (addresseeId : Text) (message : Option Text) (row : Friendship)
      (hrequest : call.request = .create addresseeId message)
      (hfound : findBetween s.rows call.userId addresseeId = some row) (hopen : repurposable row = true) :
      Written s call
       (replaceRow s.rows (FriendshipService.reactivated call.userId addresseeId message row))
        ⟨call.userId, .create addresseeId message, some row,
          some (FriendshipService.reactivated call.userId addresseeId message row)⟩
  | responded (id : ℕ) (status : RespondableFriendshipStatus) (seen row : Friendship)
      (hrequest : call.request = .respond id status) (hseen : call.phase = .rowRead seen)
      (hfound : findById s.rows id = some row) :
      Written s call (replaceRow s.rows (FriendshipService.responded call.userId status seen s.clock row))
        ⟨call.userId, .respond id status, some row,
          some (FriendshipService.responded call.userId status seen s.clock row)⟩
  | removed (id : ℕ) (seen row : Friendship) (hrequest : call.request = .remove id)
      (hseen : call.phase = .rowRead seen) (hfound : findById s.rows id = some row) :
      Written s call (s.rows.filter (·.id ≠ id)) ⟨call.userId, .remove id, some row, none⟩

theorem outcome_cases (call : Call)
  (hphase : call.phase = .pairRead ∨ ∃ seen, call.phase = .rowRead seen) :
  ((outcome s call.userId call.request call.phase).rows = s.rows ∧
   (outcome s call.userId call.request call.phase).record = none) ∨
  ∃ before after, (outcome s call.userId call.request call.phase).record = some (before, after) ∧
   Written s call (outcome s call.userId call.request call.phase).rows
    ⟨call.userId, call.request, before, after⟩ := by
 rcases hphase with hphase | ⟨seen, hphase⟩
 · rw [hphase]
   cases hrequest : call.request with
   | respond id status => exact .inl ⟨rfl, rfl⟩
   | remove id => exact .inl ⟨rfl, rfl⟩
   | create addresseeId message =>
    rw [outcome, writeCreate]
    cases hfound : findBetween s.rows call.userId addresseeId with
    | none => exact .inr ⟨_, _, rfl, .created addresseeId message _ hrequest hfound rfl⟩
    | some row =>
     by_cases hopen : repurposable row = true
     · dsimp only
       rw [if_pos hopen]
       exact .inr ⟨_, _, rfl, .reactivated addresseeId message row hrequest hfound hopen⟩
     · dsimp only
       rw [if_neg hopen]
       exact .inl ⟨rfl, rfl⟩
 · rw [hphase]
   cases hrequest : call.request with
   | create addresseeId message => exact .inl ⟨rfl, rfl⟩
   | respond id status =>
    rw [outcome, writeRespond]
    cases hfound : findById s.rows id with
    | none => exact .inl ⟨rfl, rfl⟩
    | some row =>
     by_cases hmay : participates call.userId row = true
     · dsimp only
       rw [if_pos hmay]
       exact .inr ⟨_, _, rfl, .responded id status seen row hrequest hphase hfound⟩
     · dsimp only
       rw [if_neg hmay]
       exact .inl ⟨rfl, rfl⟩
   | remove id =>
    rw [outcome, writeRemove]
    cases hfound : findById s.rows id with
    | none => exact .inl ⟨rfl, rfl⟩
    | some row =>
     by_cases hmay : participates call.userId row = true
     · dsimp only
       rw [if_pos hmay]
       exact .inr ⟨_, _, rfl, .removed id seen row hrequest hphase hfound⟩
     · dsimp only
       rw [if_neg hmay]
       exact .inl ⟨rfl, rfl⟩

theorem step_cases {a : Action} (h : step directory s a = some s') :
  s'.clock = s.clock + 1 ∧
  ((s'.rows = s.rows ∧ s'.history = s.history) ∨
   ∃ i call w, a = .advance i ∧ s.calls[i]? = some call ∧ Written s call s'.rows w ∧
    s'.history = s.history ++ [w]) := by
 cases a with
 | begin userId request =>
  cases h
  exact ⟨rfl, .inl ⟨rfl, rfl⟩⟩
 | advance i =>
  obtain ⟨call, hcall, hadvance⟩ := Option.bind_eq_some_iff.1 h
  have hwrites : (call.phase = .pairRead ∨ ∃ seen, call.phase = .rowRead seen) →
    s' = { setPhase s i call (.answered (outcome s call.userId call.request call.phase).refusal) with
     rows := (outcome s call.userId call.request call.phase).rows
     history := s.history ++ ((outcome s call.userId call.request call.phase).record.map fun r =>
      (⟨call.userId, call.request, r.1, r.2⟩ : WriteRecord)).toList } := by
   intro hphase
   rcases hphase with hphase | ⟨seen, hphase⟩
   · simp only [advance, hphase, Option.some.injEq] at hadvance
     rw [hphase]
     exact hadvance.symm
   · simp only [advance, hphase, Option.some.injEq] at hadvance
     rw [hphase]
     exact hadvance.symm
  have hwrote : (call.phase = .pairRead ∨ ∃ seen, call.phase = .rowRead seen) → s'.clock = s.clock + 1 ∧
    ((s'.rows = s.rows ∧ s'.history = s.history) ∨
     ∃ j call' w, Action.advance i = .advance j ∧ s.calls[j]? = some call' ∧ Written s call' s'.rows w ∧
      s'.history = s.history ++ [w]) := by
   intro hphase
   have heq := hwrites hphase
   rcases outcome_cases (s := s) call hphase with ⟨hrows, hnone⟩ | ⟨before, after, hsome, hwritten⟩
   · subst heq
     refine ⟨rfl, .inl ⟨hrows, ?_⟩⟩
     simp [hnone]
   · subst heq
     refine ⟨rfl, .inr ⟨i, call, _, rfl, hcall, hwritten, ?_⟩⟩
     simp [hsome]
  cases hphase : call.phase with
  | begun =>
   simp only [advance, hphase, Option.some.injEq] at hadvance
   subst hadvance
   exact ⟨rfl, .inl ⟨rfl, rfl⟩⟩
  | addresseeRead =>
   simp only [advance, hphase, Option.some.injEq] at hadvance
   subst hadvance
   exact ⟨rfl, .inl ⟨rfl, rfl⟩⟩
  | pairRead => exact hwrote (.inl hphase)
  | rowRead seen => exact hwrote (.inr ⟨seen, hphase⟩)
  | answered refusal => simp [advance, hphase] at hadvance

/-- The row a call loaded: it is the one the request names, and the caller is
    one of its two users. -/
structure Loaded (rows : List Friendship) (call : Call) (seen : Friendship) : Prop where
  found : seen ∈ rows
  names : call.request = .remove seen.id ∨ ∃ status, call.request = .respond seen.id status
  own : participates call.userId seen = true

theorem firstRead_loaded {userId : Text} {request : Request} {seen : Friendship}
  (h : firstRead directory s userId request = .rowRead seen) :
  Loaded s.rows ⟨userId, request, .rowRead seen⟩ seen := by
 cases request with
 | create addresseeId message =>
  exfalso
  simp only [firstRead] at h
  split at h
  · cases h
  · split at h
    · cases h
    · split at h <;> cases h
 | respond id status =>
  simp only [firstRead] at h
  cases hfound : (findById s.rows id).filter (participates userId) with
  | none => simp [hfound] at h
  | some row =>
   simp only [hfound] at h
   obtain ⟨hrow, hown⟩ := Option.filter_eq_some_iff.1 hfound
   obtain ⟨hmem, rfl⟩ := findById_some hrow
   cases hrefusal : respondRefusal userId status row with
   | some reason => simp [hrefusal] at h
   | none =>
    simp only [hrefusal, Phase.rowRead.injEq] at h
    subst h
    exact ⟨hmem, .inr ⟨status, rfl⟩, hown⟩
 | remove id =>
  simp only [firstRead] at h
  cases hfound : (findById s.rows id).filter (participates userId) with
  | none => simp [hfound] at h
  | some row =>
   simp only [hfound] at h
   obtain ⟨hrow, hown⟩ := Option.filter_eq_some_iff.1 hfound
   obtain ⟨hmem, rfl⟩ := findById_some hrow
   cases hrefusal : removeRefusal userId row with
   | some reason => simp [hrefusal] at h
   | none =>
    simp only [hrefusal, Phase.rowRead.injEq] at h
    subst h
    exact ⟨hmem, .inl rfl, hown⟩

theorem secondRead_not_row {userId : Text} {request : Request} {seen : Friendship} :
  secondRead s userId request ≠ .rowRead seen := by
 cases request with
 | create addresseeId message =>
  simp only [secondRead]
  split <;> exact nofun
 | respond id status => exact nofun
 | remove id => exact nofun

theorem mem_setPhase {i : ℕ} {call call' : Call} {phase : Phase}
  (h : call' ∈ (setPhase s i call phase).calls) :
  call' ∈ s.calls ∨ call' = { call with phase } :=
 (List.mem_or_eq_of_mem_set h)

theorem step_seen {a : Action} (h : step directory s a = some s') {call : Call}
  (hcall : call ∈ s'.calls) {seen : Friendship} (hseen : call.phase = .rowRead seen) :
  call ∈ s.calls ∨ Loaded s.rows call seen := by
 cases a with
 | begin userId request =>
  cases h
  rcases List.mem_append.1 hcall with hold | hnew
  · exact .inl hold
  · rw [List.mem_singleton.1 hnew] at hseen
    cases hseen
 | advance i =>
  obtain ⟨old, hold, hadvance⟩ := Option.bind_eq_some_iff.1 h
  cases hphase : old.phase with
  | begun =>
   simp only [advance, hphase, Option.some.injEq] at hadvance
   subst hadvance
   rcases mem_setPhase hcall with hmem | rfl
   · exact .inl hmem
   · have hloaded := firstRead_loaded hseen
     exact .inr ⟨hloaded.found, hloaded.names, hloaded.own⟩
  | addresseeRead =>
   simp only [advance, hphase, Option.some.injEq] at hadvance
   subst hadvance
   rcases mem_setPhase hcall with hmem | rfl
   · exact .inl hmem
   · exact absurd hseen secondRead_not_row
  | pairRead | rowRead _ =>
   simp only [advance, hphase, Option.some.injEq] at hadvance
   subst hadvance
   rcases mem_setPhase hcall with hmem | rfl
   · exact .inl hmem
   · cases hseen
  | answered refusal => simp [advance, hphase] at hadvance

end Steps

section OneRow

variable {directory : Directory} {allowed : System → Action → Prop} {s s' : System}

/-- The table: one row a key, one key a pair, and every loaded row still the
    pair it was. -/
structure Tidy (s : System) : Prop where
  keys : (s.rows.map (·.pairKey)).Nodup
  ids : (s.rows.map (·.id)).Nodup
  key : ∀ row ∈ s.rows, row.pairKey = pairKey row.requesterId row.addresseeId
  past : ∀ row ∈ s.rows, row.id < s.clock
  seen : ∀ call ∈ s.calls, ∀ seen, call.phase = .rowRead seen → seen.id < s.clock ∧
    participates call.userId seen = true ∧ seen.pairKey = pairKey seen.requesterId seen.addresseeId ∧
    (call.request = .remove seen.id ∨ ∃ status, call.request = .respond seen.id status) ∧
    ∀ row ∈ s.rows, row.id = seen.id → row.pairKey = seen.pairKey

theorem pairKey_turned {userId : Text} {seen : Friendship} (h : participates userId seen = true) :
  pairKey userId (if seen.addresseeId = userId then seen.requesterId else seen.addresseeId) =
   pairKey seen.requesterId seen.addresseeId := by
 by_cases haddressee : seen.addresseeId = userId
 · rw [if_pos haddressee, ← haddressee, pairKey_comm]
 · rw [if_neg haddressee]
   simp only [participates, Bool.or_eq_true, beq_iff_eq] at h
   rw [h.resolve_right haddressee]

theorem responded_id (userId : Text) (status : RespondableFriendshipStatus) (seen row : Friendship)
  (now : ℕ) :
  (responded userId status seen now row).id = row.id := by
 cases status <;> rfl

theorem responded_pairKey (userId : Text) (status : RespondableFriendshipStatus)
  (seen row : Friendship) (now : ℕ) :
  (responded userId status seen now row).pairKey = row.pairKey := by
 cases status <;> rfl

theorem Tidy.replace (h : Tidy s) {row : Friendship} (next : Friendship) (hrow : row ∈ s.rows)
  (hid : next.id = row.id) (hkey : next.pairKey = row.pairKey)
  (hpair : next.pairKey = pairKey next.requesterId next.addresseeId) :
  ((replaceRow s.rows next).map (·.pairKey)).Nodup ∧ ((replaceRow s.rows next).map (·.id)).Nodup ∧
   (∀ r ∈ replaceRow s.rows next, r.pairKey = pairKey r.requesterId r.addresseeId) ∧
   (∀ r ∈ replaceRow s.rows next, ∃ old ∈ s.rows, old.id = r.id ∧ old.pairKey = r.pairKey) := by
 have hsame : ∀ r ∈ s.rows, r.id = next.id → r = row := fun r hr heq =>
  eq_of_id h.ids hr hrow (heq.trans hid)
 refine ⟨?_, ?_, ?_, ?_⟩
 · rw [map_replaceRow]
   · exact h.keys
   · intro r hr heq
     rw [hsame r hr heq, hkey]
 · rw [map_replaceRow]
   · exact h.ids
   · exact fun r hr heq => heq
 · intro r hr
   rcases mem_replaceRow hr with rfl | ⟨hold, -⟩
   · exact hpair
   · exact h.key r hold
 · intro r hr
   rcases mem_replaceRow hr with rfl | ⟨hold, -⟩
   · exact ⟨row, hrow, hid.symm, hkey.symm⟩
   · exact ⟨r, hold, rfl, rfl⟩

theorem Tidy.written (h : Tidy s) {call : Call} {rows : List Friendship} {w : WriteRecord}
  (hcall : call ∈ s.calls) (hw : Written s call rows w) :
  (rows.map (·.pairKey)).Nodup ∧ (rows.map (·.id)).Nodup ∧
   (∀ r ∈ rows, r.pairKey = pairKey r.requesterId r.addresseeId) ∧
   (∀ r ∈ rows, r.id = s.clock ∨ ∃ old ∈ s.rows, old.id = r.id ∧ old.pairKey = r.pairKey) := by
 cases hw with
 | created addresseeId message row hrequest hnone hrow =>
  subst hrow
  refine ⟨?_, ?_, ?_, ?_⟩
  · rw [List.map_append, List.map_singleton, List.nodup_append]
    refine ⟨h.keys, List.nodup_singleton _, ?_⟩
    intro key hkey other hother
    rw [List.mem_singleton.1 hother]
    rintro rfl
    exact findBetween_none hnone hkey
  · rw [List.map_append, List.map_singleton, List.nodup_append]
    refine ⟨h.ids, List.nodup_singleton _, ?_⟩
    intro id hid other hother
    obtain ⟨r, hr, rfl⟩ := List.mem_map.1 hid
    have hlt := h.past r hr
    rw [List.mem_singleton.1 hother]
    dsimp only
    omega
  · intro r hr
    rcases List.mem_append.1 hr with hr | hr
    · exact h.key r hr
    · rw [List.mem_singleton.1 hr]
  · intro r hr
    rcases List.mem_append.1 hr with hr | hr
    · exact .inr ⟨r, hr, rfl, rfl⟩
    · rw [List.mem_singleton.1 hr]
      exact .inl rfl
 | reactivated addresseeId message row hrequest hfound hopen =>
  obtain ⟨hrow, hkey⟩ := findBetween_some hfound
  obtain ⟨hkeys, hids, hpair, hold⟩ := h.replace (reactivated call.userId addresseeId message row)
   hrow rfl rfl hkey
  exact ⟨hkeys, hids, hpair, fun r hr => .inr (hold r hr)⟩
 | responded id status seen row hrequest hseen hfound =>
  obtain ⟨hrow, hid⟩ := findById_some hfound
  obtain ⟨-, hown, hseenKey, hnames, hsame⟩ := h.seen call hcall seen hseen
  have hseenId : row.id = seen.id := by
   rw [hrequest] at hnames
   rcases hnames with hnames | ⟨status', hnames⟩
   · cases hnames
   · cases hnames
     exact hid
  have hpair : (responded call.userId status seen s.clock row).pairKey =
    pairKey (responded call.userId status seen s.clock row).requesterId
     (responded call.userId status seen s.clock row).addresseeId := by
   rw [responded_pairKey]
   cases status with
   | blocked =>
    change row.pairKey = pairKey call.userId
     (if seen.addresseeId = call.userId then seen.requesterId else seen.addresseeId)
    rw [pairKey_turned hown, ← hseenKey]
    exact hsame row hrow hseenId
   | accepted => exact h.key row hrow
   | declined => exact h.key row hrow
   | withdrawn => exact h.key row hrow
  obtain ⟨hkeys, hids, hpairs, hold⟩ :=
   h.replace _ hrow (responded_id _ _ _ _ _) (responded_pairKey _ _ _ _ _) hpair
  exact ⟨hkeys, hids, hpairs, fun r hr => .inr (hold r hr)⟩
 | removed id seen row hrequest hseen hfound =>
  have hsub : (s.rows.filter (·.id ≠ id)).Sublist s.rows := List.filter_sublist
  refine ⟨h.keys.sublist (hsub.map _), h.ids.sublist (hsub.map _), ?_, ?_⟩
  · exact fun r hr => h.key r (hsub.subset hr)
  · exact fun r hr => .inr ⟨r, hsub.subset hr, rfl, rfl⟩

theorem Tidy.step (h : Tidy s) {a : Action} (hstep : step directory s a = some s') : Tidy s' := by
 obtain ⟨hclock, hcases⟩ := step_cases hstep
 have hrows : (s'.rows.map (·.pairKey)).Nodup ∧ (s'.rows.map (·.id)).Nodup ∧
   (∀ r ∈ s'.rows, r.pairKey = pairKey r.requesterId r.addresseeId) ∧
   (∀ r ∈ s'.rows, r.id = s.clock ∨ ∃ old ∈ s.rows, old.id = r.id ∧ old.pairKey = r.pairKey) := by
  rcases hcases with ⟨hrows, -⟩ | ⟨i, call, w, -, hcall, hwritten, -⟩
  · rw [hrows]
    exact ⟨h.keys, h.ids, h.key, fun r hr => .inr ⟨r, hr, rfl, rfl⟩⟩
  · exact h.written (List.mem_of_getElem? hcall) hwritten
 obtain ⟨hkeys, hids, hpair, hold⟩ := hrows
 refine ⟨hkeys, hids, hpair, ?_, ?_⟩
 · intro row hrow
   rw [hclock]
   rcases hold row hrow with heq | ⟨old, hmem, hid, -⟩
   · omega
   · have hlt := h.past old hmem
     omega
 · intro call hcall seen hseen
   have hloaded : seen.id < s.clock ∧ participates call.userId seen = true ∧
     seen.pairKey = pairKey seen.requesterId seen.addresseeId ∧
     (call.request = .remove seen.id ∨ ∃ status, call.request = .respond seen.id status) ∧
     ∀ row ∈ s.rows, row.id = seen.id → row.pairKey = seen.pairKey := by
    rcases step_seen hstep hcall hseen with hmem | hloaded
    · exact h.seen call hmem seen hseen
    · refine ⟨h.past seen hloaded.found, hloaded.own, h.key seen hloaded.found, hloaded.names, ?_⟩
      intro row hrow heq
      rw [eq_of_id h.ids hrow hloaded.found heq]
   obtain ⟨hlt, hown, hkey, hnames, hsame⟩ := hloaded
   refine ⟨by omega, hown, hkey, hnames, ?_⟩
   intro row hrow heq
   rcases hold row hrow with hfresh | ⟨old, hmem, hid, hkey'⟩
   · omega
   · rw [← hkey']
     exact hsame old hmem (hid.trans heq)

theorem reachable_tidy (h : ReachableBy directory allowed s) : Tidy s := by
 induction h with
 | start => exact ⟨List.nodup_nil, List.nodup_nil, by simp [initial], by simp [initial], by simp [initial]⟩
 | step a _ _ hstep ih => exact ih.step hstep

def between (a b : Text) (row : Friendship) : Bool :=
  (row.requesterId == a && row.addresseeId == b) || (row.requesterId == b && row.addresseeId == a)

theorem Tidy.one_row (h : Tidy s) (a b : Text) : (s.rows.filter (between a b)).length ≤ 1 := by
 have hkey : ∀ row ∈ s.rows.filter (between a b), row.pairKey = pairKey a b := by
  intro row hrow
  obtain ⟨hmem, hbetween⟩ := List.mem_filter.1 hrow
  rw [h.key row hmem]
  simp only [between, Bool.or_eq_true, Bool.and_eq_true, beq_iff_eq] at hbetween
  rcases hbetween with ⟨hrequester, haddressee⟩ | ⟨hrequester, haddressee⟩
  · rw [hrequester, haddressee]
  · rw [hrequester, haddressee, pairKey_comm]
 have hnodup : ((s.rows.filter (between a b)).map (·.pairKey)).Nodup :=
  h.keys.sublist (List.filter_sublist.map _)
 cases hrows : s.rows.filter (between a b) with
 | nil => simp
 | cons first rest =>
  cases rest with
  | nil => simp
  | cons second rest =>
   exfalso
   rw [hrows] at hkey hnodup
   have hfirst := hkey first (by simp)
   have hsecond := hkey second (by simp)
   simp [hfirst, hsecond] at hnodup

end OneRow

section Rules

variable {directory : Directory} {s s' : System}

def placesBlock (id : ℕ) (w : WriteRecord) : Bool :=
  match w.after with
  | none => false
  | some row => row.id == id && row.status == .blocked && (w.before.map (·.status)) != some .blocked

def placedBy (history : List WriteRecord) (id : ℕ) : Option Text :=
  (history.reverse.find? (placesBlock id)).map (·.userId)

structure Lawful (earlier : List WriteRecord) (w : WriteRecord) : Prop where
  blocked : ∀ row, w.before = some row → row.status = .blocked →
    w.request = .remove row.id ∧ w.after = none ∧ placedBy earlier row.id = some w.userId
  answered : ∀ row, w.after = some row → row.status = .accepted ∨ row.status = .declined →
    ∃ old, w.before = some old ∧ old.status = .pending ∧ old.addresseeId = w.userId
  withdrawn : ∀ row, w.after = some row → row.status = .withdrawn →
    ∃ old, w.before = some old ∧ old.status = .pending ∧ old.requesterId = w.userId

/-- The row a respond or a remove is about to write still passes the check the
    call made when it loaded it. -/
def StillAllowed (s : System) : Action → Prop
  | .begin _ _ => True
  | .advance i => ∀ call seen row, s.calls[i]? = some call → call.phase = .rowRead seen →
      findById s.rows seen.id = some row → refusal call.userId call.request row = none

theorem placedBy_append (history : List WriteRecord) (w : WriteRecord) (id : ℕ) :
  placedBy (history ++ [w]) id = if placesBlock id w then some w.userId else placedBy history id := by
 rw [placedBy, List.reverse_append, List.reverse_singleton, List.singleton_append, List.find?_cons]
 cases placesBlock id w <;> rfl

structure Ruled (s : System) : Prop where
  tidy : Tidy s
  blocker : ∀ row ∈ s.rows, row.status = .blocked → placedBy s.history row.id = some row.requesterId
  lawful : ∀ earlier w later, s.history = earlier ++ w :: later → Lawful earlier w

theorem respond_passes {userId : Text} {status : RespondableFriendshipStatus} {row : Friendship}
  (h : respondRefusal userId status row = none) : row.status ≠ .blocked ∧
   (status = .accepted ∨ status = .declined → row.status = .pending ∧ row.addresseeId = userId) ∧
   (status = .withdrawn → row.status = .pending ∧ row.requesterId = userId) := by
 cases status with
 | accepted | declined =>
  simp only [respondRefusal] at h
  by_cases huser : row.addresseeId = userId
  · by_cases hpending : row.status = .pending
    · simp [hpending, huser]
    · simp [huser, hpending] at h
  · simp [huser] at h
 | withdrawn =>
  simp only [respondRefusal] at h
  by_cases huser : row.requesterId = userId
  · by_cases hpending : row.status = .pending
    · simp [hpending, huser]
    · simp [huser, hpending] at h
  · simp [huser] at h
 | blocked =>
  simp only [respondRefusal] at h
  by_cases hblocked : row.status = .blocked
  · simp [hblocked] at h
  · simp [hblocked]

theorem responded_status (userId : Text) (status : RespondableFriendshipStatus)
  (seen row : Friendship) (now : ℕ) :
  (responded userId status seen now row).status = status.status := by
 cases status <;> rfl

variable {w : WriteRecord}

theorem placesBlock_other {id : ℕ} (h : ∀ row, w.after = some row → row.id ≠ id) :
  placesBlock id w = false := by
 unfold placesBlock
 cases hafter : w.after with
 | none => rfl
 | some row => simp [h row hafter]

theorem placesBlock_open {id : ℕ} (h : ∀ row, w.after = some row → row.status ≠ .blocked) :
  placesBlock id w = false := by
 unfold placesBlock
 cases hafter : w.after with
 | none => rfl
 | some row => simp [h row hafter]

theorem lawful_pending {earlier : List WriteRecord} {next : Friendship}
  (hbefore : ∀ row, w.before = some row → row.status ≠ .blocked) (hafter : w.after = some next)
  (hpending : next.status = .pending) : Lawful earlier w := by
 refine ⟨fun row hrow hblocked => absurd hblocked (hbefore row hrow), ?_, ?_⟩
 · intro row hrow hstatus
   rw [hafter] at hrow
   cases hrow
   rw [hpending] at hstatus
   rcases hstatus with hstatus | hstatus <;> cases hstatus
 · intro row hrow hstatus
   rw [hafter] at hrow
   cases hrow
   rw [hpending] at hstatus
   cases hstatus

theorem repurposable_open {row : Friendship} (h : repurposable row = true) :
  row.status ≠ .blocked := by
 intro hblocked
 simp [repurposable, hblocked] at h

theorem passes_of_allowed (htidy : Tidy s) {i : ℕ} {call : Call} {seen row : Friendship} {id : ℕ}
  (hallowed : StillAllowed s (.advance i)) (hcall : s.calls[i]? = some call)
  (hseen : call.phase = .rowRead seen)
  (hid : call.request = .remove id ∨ ∃ status, call.request = .respond id status)
  (hfound : findById s.rows id = some row) : refusal call.userId call.request row = none := by
 obtain ⟨-, -, -, hnames, -⟩ := htidy.seen call (List.mem_of_getElem? hcall) seen hseen
 have heq : seen.id = id := by
  rcases hid with hid | ⟨status, hid⟩ <;> rcases hnames with hnames | ⟨status', hnames⟩ <;>
   rw [hid] at hnames <;> cases hnames <;> rfl
 subst heq
 exact hallowed call seen row hcall hseen hfound

theorem Ruled.written (h : Ruled s) {i : ℕ} {call : Call} {rows : List Friendship}
  (hallowed : StillAllowed s (.advance i)) (hcall : s.calls[i]? = some call)
  (hw : Written s call rows w) :
  Lawful s.history w ∧
   ∀ row ∈ rows, row.status = .blocked → placedBy (s.history ++ [w]) row.id = some row.requesterId := by
 have hkept : ∀ row ∈ s.rows, row.status = .blocked → placesBlock row.id w = false →
   placedBy (s.history ++ [w]) row.id = some row.requesterId := by
  intro row hrow hblocked hother
  rw [placedBy_append, hother]
  exact h.blocker row hrow hblocked
 cases hw with
 | created addresseeId message row hrequest hnone hrow =>
  refine ⟨lawful_pending (by simp) rfl (by rw [hrow]), ?_⟩
  intro r hr hblocked
  rcases List.mem_append.1 hr with hr | hr
  · refine hkept r hr hblocked (placesBlock_open ?_)
    intro next hnext
    cases hnext
    rw [hrow]
    exact nofun
  · rw [List.mem_singleton.1 hr, hrow] at hblocked
    cases hblocked
 | reactivated addresseeId message row hrequest hfound hopen =>
  refine ⟨lawful_pending ?_ rfl rfl, ?_⟩
  · intro r hr
    cases hr
    exact repurposable_open hopen
  · intro r hr hblocked
    rcases mem_replaceRow hr with rfl | ⟨hold, -⟩
    · cases hblocked
    · refine hkept r hold hblocked (placesBlock_open ?_)
      intro next hnext
      cases hnext
      exact nofun
 | responded id status seen row hrequest hseen hfound =>
  have hpass := passes_of_allowed h.tidy hallowed hcall hseen (.inr ⟨status, hrequest⟩) hfound
  rw [hrequest] at hpass
  obtain ⟨hopen, hanswer, hwithdraw⟩ := respond_passes hpass
  refine ⟨⟨?_, ?_, ?_⟩, ?_⟩
  · intro r hr hblocked
    cases hr
    exact absurd hblocked hopen
  · intro r hr hstatus
    cases hr
    rw [responded_status] at hstatus
    have hchoice : status = .accepted ∨ status = .declined := by
     cases status with
     | accepted => exact .inl rfl
     | declined => exact .inr rfl
     | withdrawn | blocked => rcases hstatus with hstatus | hstatus <;> cases hstatus
    exact ⟨row, rfl, hanswer hchoice⟩
  · intro r hr hstatus
    cases hr
    rw [responded_status] at hstatus
    have hchoice : status = .withdrawn := by
     cases status with
     | withdrawn => rfl
     | accepted | declined | blocked => cases hstatus
    exact ⟨row, rfl, hwithdraw hchoice⟩
  · intro r hr hblocked
    rcases mem_replaceRow hr with rfl | ⟨hold, hne⟩
    · have hstatus : status = .blocked := by
       rw [responded_status] at hblocked
       cases status with
       | blocked => rfl
       | accepted | declined | withdrawn => cases hblocked
      subst hstatus
      have hplaces : placesBlock (responded call.userId .blocked seen s.clock row).id
        ⟨call.userId, .respond id .blocked, some row,
         some (responded call.userId .blocked seen s.clock row)⟩ =
         true := by
       simp [placesBlock, responded, hopen]
      rw [placedBy_append, hplaces]
      rfl
    · refine hkept r hold hblocked (placesBlock_other ?_)
      intro next hnext
      cases hnext
      exact Ne.symm hne
 | removed id seen row hrequest hseen hfound =>
  obtain ⟨hmem, hid⟩ := findById_some hfound
  have hpass := passes_of_allowed h.tidy hallowed hcall hseen (.inl hrequest) hfound
  rw [hrequest] at hpass
  refine ⟨⟨?_, by simp, by simp⟩, ?_⟩
  · intro r hr hblocked
    cases hr
    have hown : row.requesterId = call.userId := by
     by_contra hne
     simp [refusal, removeRefusal, hblocked, hne] at hpass
    rw [hid]
    refine ⟨rfl, rfl, ?_⟩
    rw [← hid, h.blocker row hmem hblocked, hown]
  · intro r hr hblocked
    exact hkept r (List.mem_of_mem_filter hr) hblocked rfl

theorem Ruled.step (h : Ruled s) {a : Action} (hallowed : StillAllowed s a)
  (hstep : step directory s a = some s') : Ruled s' := by
 obtain ⟨-, hcases⟩ := step_cases hstep
 rcases hcases with ⟨hrows, hhistory⟩ | ⟨i, call, w, rfl, hcall, hwritten, hhistory⟩
 · refine ⟨h.tidy.step hstep, ?_, ?_⟩
   · rw [hrows, hhistory]
     exact h.blocker
   · rw [hhistory]
     exact h.lawful
 · obtain ⟨hlawful, hblocker⟩ := h.written hallowed hcall hwritten
   refine ⟨h.tidy.step hstep, ?_, ?_⟩
   · rw [hhistory]
     exact hblocker
   · intro earlier w' later heq
     rw [hhistory] at heq
     rcases List.append_eq_append_iff.1 heq with ⟨rest, hearlier, hrest⟩ | ⟨rest, hearlier, hrest⟩
     · -- the new write is the one asked for, or the split lies beyond the end
       cases rest with
       | nil =>
        rw [List.append_nil] at hearlier
        cases hrest
        rw [hearlier]
        exact hlawful
       | cons first rest => simp at hrest
     · cases rest with
       | nil =>
        rw [List.append_nil] at hearlier
        cases hrest
        rw [← hearlier]
        exact hlawful
       | cons first rest =>
        cases hrest
        exact h.lawful earlier _ rest hearlier

theorem reachable_ruled (h : ReachableBy directory StillAllowed s) : Ruled s := by
 induction h with
 | start => exact ⟨reachable_tidy (.start : ReachableBy directory StillAllowed initial), by simp [initial],
   by simp [initial]⟩
 | step a _ hallowed hstep ih => exact ih.step hallowed hstep

/-- One row for a pair, and every write within the rules, in every run whose
    responds and removes write rows that still pass their checks. -/
theorem friendship_rules (h : ReachableBy directory StillAllowed s) :
    (∀ a b, (s.rows.filter (between a b)).length ≤ 1) ∧
      ∀ earlier w later, s.history = earlier ++ w :: later → Lawful earlier w :=
 ⟨(reachable_ruled h).tidy.one_row, (reachable_ruled h).lawful⟩

end Rules

section Samples

def stillAllowed (s : System) : Action → Bool
  | .begin _ _ => true
  | .advance i =>
    match s.calls[i]? with
    | none => true
    | some call =>
      match call.phase with
      | .rowRead seen =>
        match findById s.rows seen.id with
        | some row => refusal call.userId call.request row == none
        | none => true
      | _ => true

theorem stillAllowed_of_check {s : System} {a : Action} (h : stillAllowed s a = true) :
  StillAllowed s a := by
 cases a with
 | begin userId request => trivial
 | advance i =>
  intro call seen row hcall hphase hfound
  simpa [stillAllowed, hcall, hphase, hfound] using h

def runChecked (directory : Directory) (test : System → Action → Bool) (s : System) : List Action →
    Option System
  | [] => some s
  | a :: rest => if test s a then (step directory s a).bind fun s' =>
   runChecked directory test s' rest else none

theorem reachable_runChecked {directory : Directory} {test : System → Action → Bool}
  {allowed : System → Action → Prop} (htest : ∀ s a, test s a = true → allowed s a)
  (actions : List Action) :
  ∀ {s s' : System}, ReachableBy directory allowed s → runChecked directory test s actions = some s' →
   ReachableBy directory allowed s' := by
 induction actions with
 | nil =>
  intro s s' hs h
  cases h
  exact hs
 | cons a rest ih =>
  intro s s' hs h
  by_cases hok : test s a = true
  · simp only [runChecked, hok, if_true] at h
    obtain ⟨mid, hmid, hrest⟩ := Option.bind_eq_some_iff.1 h
    exact ih (.step a hs (htest s a hok) hmid) hrest
  · simp [runChecked, hok] at h

def everybody : Directory := fun _ _ => some none

def anna : Text := "anna".toList

def ben : Text := "ben".toList

def annaAsks : List Action := [.begin anna (.create ben none), .advance 0, .advance 0, .advance 0]

def answerThenBlock : List Action :=
  annaAsks ++ [.begin ben (.respond 3 .accepted), .advance 1, .advance 1,
   .begin anna (.respond 3 .blocked),
    .advance 2, .advance 2]

def blockWhileAnswering : List Action :=
  annaAsks ++ [.begin ben (.respond 3 .accepted), .advance 1, .begin anna (.respond 3 .blocked),
   .advance 2,
    .advance 2, .advance 1]

theorem friendship_rules_block : ∃ s : System, s.history.length = 3 ∧
    (∀ a b, (s.rows.filter (between a b)).length ≤ 1) ∧
      ∀ earlier w later, s.history = earlier ++ w :: later → Lawful earlier w := by
 have hrun : ((runChecked everybody stillAllowed initial answerThenBlock).map (·.history.length))
  = some 3 := by
  decide +kernel
 obtain ⟨s, hs, hlength⟩ := Option.map_eq_some_iff.1 hrun
 exact ⟨s, hlength, friendship_rules (reachable_runChecked (fun _ _ => stillAllowed_of_check) _ .start hs)⟩

/-- An acceptance decided on before the block is written over it. -/
theorem accepted_over_block :
  ¬ ∀ (directory : Directory) (s : System), ReachableBy directory (fun _ _ => True) s →
    (∀ a b, (s.rows.filter (between a b)).length ≤ 1) ∧
      ∀ earlier w later, s.history = earlier ++ w :: later → Lawful earlier w := by
 intro h
 have hrun : ((runChecked everybody (fun _ _ => true) initial blockWhileAnswering).map fun s =>
   s.history.map fun w => (w.request, w.before.map (·.status))) =
   some [(.create ben none, none), (.respond 3 .blocked, some .pending),
    (.respond 3 .accepted, some .blocked)] := by
  decide +kernel
 obtain ⟨s, hs, hhistory⟩ := Option.map_eq_some_iff.1 hrun
 have hlawful := (h everybody s (reachable_runChecked (fun _ _ _ => trivial) _ .start hs)).2
 obtain ⟨w₁, rest, hsplit, -, hrest⟩ := List.map_eq_cons_iff.1 hhistory
 obtain ⟨w₂, rest', rfl, -, hrest'⟩ := List.map_eq_cons_iff.1 hrest
 obtain ⟨w₃, rest'', rfl, hw₃, -⟩ := List.map_eq_cons_iff.1 hrest'
 simp only [Prod.mk.injEq] at hw₃
 obtain ⟨row, hrow, hblocked⟩ := Option.map_eq_some_iff.1 hw₃.2
 have hremove := ((hlawful [w₁, w₂] w₃ rest'' hsplit).blocked row hrow hblocked).1
 rw [hw₃.1] at hremove
 cases hremove

end Samples

end BoardGamesEmpire.FriendshipService
