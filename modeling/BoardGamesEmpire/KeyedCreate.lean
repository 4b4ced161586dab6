import BoardGamesEmpire.JsText
import BoardGamesEmpire.PhasedCalls

set_option autoImplicit false

/-!
# Creates that a client may retry

`createOrReplay`: a look under the client request id, the create, and after a
unique violation another look. The table has a unique index on the creator and
the key, and an insert that meets an entry of a rival that has not committed
waits for it.
-/
namespace BoardGamesEmpire.KeyedCreate
open JsText PhasedCalls

section Table

def normalizeClientRequestId (raw : Option Text) : Option Text := (raw.map trim).filter (· ≠ [])

structure Row where
  id : ℕ
  createdById : ℕ
  clientRequestId : Option Text
deriving DecidableEq

/-- The rows, the rows of inserts that have not committed, and a record of what
    was inserted and deleted. -/
structure Table where
  rows : List Row
  uncommitted : List Row
  nextId : ℕ
  inserted : List Row
  deleted : List ℕ

def emptyTable : Table := ⟨[], [], 0, [], []⟩

def Row.under (row : Row) (createdById : ℕ) (clientRequestId : Text) : Bool :=
  decide (row.createdById = createdById) && decide (row.clientRequestId = some clientRequestId)

/-- The rows have one entry in the unique index, where nulls are distinct. -/
def Row.clashes (row other : Row) : Bool :=
  row.clientRequestId.any fun key => other.under row.createdById key

def Table.find (table : Table) (createdById : ℕ) (clientRequestId : Text) : Option Row :=
  table.rows.find? (·.under createdById clientRequestId)

def Table.insert (table : Table) (row : Row) : Table :=
  { table with uncommitted := row :: table.uncommitted, nextId := table.nextId + 1 }

def Table.commit (table : Table) (row : Row) : Table :=
  { table with
    rows := table.rows ++ [row], uncommitted := table.uncommitted.erase row, inserted :=
     table.inserted ++ [row] }

def Table.release (table : Table) (row : Row) : Table :=
    { table with uncommitted := table.uncommitted.erase row }

def Table.delete (table : Table) (id : ℕ) : Table :=
  { table with rows := table.rows.filter (·.id ≠ id), deleted := id :: table.deleted }

theorem clashes_iff {row other : Row} : row.clashes other = true ↔
  ∃ key, row.under row.createdById key = true ∧ other.under row.createdById key = true := by
 unfold Row.clashes Row.under
 cases row.clientRequestId with
 | none => simp
 | some key => simp

theorem under_iff {row : Row} {createdById : ℕ} {key : Text} :
  row.under createdById key = true ↔ row.createdById = createdById ∧ row.clientRequestId = some key := by
 rw [Row.under, Bool.and_eq_true, decide_eq_true_eq, decide_eq_true_eq]

theorem clashes_of_under {row other : Row} {createdById : ℕ} {key : Text}
  (h : row.under createdById key = true) (hother : other.under createdById key = true) :
  row.clashes other = true := by
 obtain ⟨rfl, -⟩ := under_iff.1 h
 exact clashes_iff.2 ⟨key, h, hother⟩

theorem clashes_symm {row other : Row} (h : row.clashes other = true) :
  other.clashes row = true := by
 obtain ⟨key, hrow, hother⟩ := clashes_iff.1 h
 exact clashes_of_under hother hrow

structure Sound (table : Table) : Prop where
  ids : ((table.inserted ++ table.uncommitted).map Row.id).Nodup
  fresh : ∀ row ∈ table.inserted ++ table.uncommitted, row.id < table.nextId
  live : ∀ row, row ∈ table.rows ↔ row ∈ table.inserted ∧ row.id ∉ table.deleted
  gone : ∀ id ∈ table.deleted, ∃ row ∈ table.inserted, row.id = id
  unique : (table.rows ++ table.uncommitted).Pairwise fun row other => row.clashes other = false
  once : table.inserted.Pairwise fun earlier later => earlier.clashes later = true →
   earlier.id ∈ table.deleted

theorem sound_empty : Sound emptyTable where
 ids := List.nodup_nil
 fresh _ h := absurd h List.not_mem_nil
 live _ := by simp [emptyTable]
 gone _ h := absurd h List.not_mem_nil
 unique := List.Pairwise.nil
 once := List.Pairwise.nil

variable {table : Table} {row : Row}

theorem Sound.insert (h : Sound table) (hid : row.id = table.nextId)
  (hclear : ∀ other ∈ table.rows ++ table.uncommitted, row.clashes other = false) :
  Sound (table.insert row) where
 ids := by
  refine (List.perm_middle.map Row.id).nodup_iff.2 ?_
  refine List.nodup_cons.2 ⟨fun hmem => ?_, h.ids⟩
  obtain ⟨other, hother, heq⟩ := List.mem_map.1 hmem
  have hlt := h.fresh other hother
  omega
 fresh other hother := by
  have hnext : (table.insert row).nextId = table.nextId + 1 := rfl
  rcases List.mem_cons.1 (List.perm_middle.mem_iff.1 hother) with rfl | hmem
  · omega
  · have hlt := h.fresh other hmem
    omega
 live := h.live
 gone := h.gone
 unique := by
  have hperm : List.Perm (table.rows ++ row :: table.uncommitted)
   (row :: (table.rows ++ table.uncommitted)) := List.perm_middle
  refine (hperm.pairwise_iff ?_).2 (List.pairwise_cons.2 ⟨hclear, h.unique⟩)
  intro left right hleft
  rw [← Bool.not_eq_true] at hleft ⊢
  exact fun hright => hleft (clashes_symm hright)
 once := h.once

theorem Sound.commit (h : Sound table) (hmem : row ∈ table.uncommitted) :
  Sound (table.commit row) := by
 have hmoved : List.Perm (table.rows ++ [row] ++ table.uncommitted.erase row)
  (table.rows ++ table.uncommitted) := by
  rw [List.append_assoc]
  exact (List.perm_cons_erase hmem).symm.append_left _
 have hlogged : List.Perm (table.inserted ++ [row] ++ table.uncommitted.erase row)
  (table.inserted ++ table.uncommitted) := by
  rw [List.append_assoc]
  exact (List.perm_cons_erase hmem).symm.append_left _
 have hkept : row.id ∉ table.deleted := by
  intro hdeleted
  obtain ⟨other, hother, heq⟩ := h.gone _ hdeleted
  have hids := h.ids
  rw [List.map_append, List.nodup_append] at hids
  exact hids.2.2 _ (List.mem_map_of_mem hother) _ (List.mem_map_of_mem hmem) heq
 refine ⟨(hlogged.map Row.id).nodup_iff.2 h.ids, fun other hother =>
  h.fresh other (hlogged.mem_iff.1 hother), fun other => ?_,
  fun id hid => ?_, (hmoved.pairwise_iff ?_).2 h.unique, ?_⟩
 · show other ∈ table.rows ++ [row] ↔ other ∈ table.inserted ++ [row] ∧ other.id ∉ table.deleted
   rw [List.mem_append, List.mem_append, List.mem_singleton, h.live other]
   constructor
   · rintro (⟨hinserted, hlive⟩ | rfl)
     · exact ⟨.inl hinserted, hlive⟩
     · exact ⟨.inr rfl, hkept⟩
   · rintro ⟨hinserted | rfl, hlive⟩
     · exact .inl ⟨hinserted, hlive⟩
     · exact .inr rfl
 · obtain ⟨other, hother, heq⟩ := h.gone id hid
   exact ⟨other, List.mem_append_left _ hother, heq⟩
 · intro left right hleft
   rw [← Bool.not_eq_true] at hleft ⊢
   exact fun hright => hleft (clashes_symm hright)
 · refine List.pairwise_append.2
    ⟨h.once, List.pairwise_singleton _ _, fun earlier hearlier later hlater hclash => ?_⟩
   rw [List.mem_singleton.1 hlater] at hclash
   by_contra hlive
   have hrow : earlier ∈ table.rows := (h.live earlier).2 ⟨hearlier, hlive⟩
   have hfree := (List.pairwise_append.1 h.unique).2.2 earlier hrow row hmem
   rw [hfree] at hclash
   cases hclash

theorem Sound.release (h : Sound table) (row : Row) : Sound (table.release row) where
 ids := h.ids.sublist (((List.Sublist.refl _).append List.erase_sublist).map _)
 fresh other hother := by
  rcases List.mem_append.1 hother with hmem | hmem
  · exact h.fresh other (List.mem_append_left _ hmem)
  · exact h.fresh other (List.mem_append_right _ (List.mem_of_mem_erase hmem))
 live := h.live
 gone := h.gone
 unique := h.unique.sublist ((List.Sublist.refl _).append List.erase_sublist)
 once := h.once

theorem Sound.delete (h : Sound table) {id : ℕ} (hid : ∃ row ∈ table.rows, row.id = id) :
  Sound (table.delete id) where
 ids := h.ids
 fresh := h.fresh
 live other := by
  show other ∈ table.rows.filter (·.id ≠ id) ↔ other ∈ table.inserted ∧ other.id ∉ id :: table.deleted
  rw [List.mem_filter, h.live other, List.mem_cons, not_or, decide_eq_true_eq]
  tauto
 gone other hother := by
  rcases List.mem_cons.1 hother with rfl | hmem
  · obtain ⟨row, hrow, heq⟩ := hid
    exact ⟨row, ((h.live row).1 hrow).1, heq⟩
  · exact h.gone other hmem
 unique := h.unique.sublist (List.filter_sublist.append (List.Sublist.refl _))
 once := h.once.imp fun hearlier hclash => List.mem_cons_of_mem _ (hearlier hclash)

theorem Sound.eq_of_id (h : Sound table) {other : Row}
  (hrow : row ∈ table.inserted ++ table.uncommitted)
  (hother : other ∈ table.inserted ++ table.uncommitted) (heq : row.id = other.id) : row = other :=
 List.inj_on_of_nodup_map h.ids hrow hother heq

theorem Sound.deleted_of_clash (h : Sound table) {other : Row} (hrow : row ∈ table.inserted)
  (hother : other ∈ table.inserted) (hne : row ≠ other) (hclash : row.clashes other = true) :
  row.id ∈ table.deleted ∨ other.id ∈ table.deleted := by
 have hrel : table.inserted.Pairwise fun row other =>
   row.clashes other = true → row.id ∈ table.deleted ∨ other.id ∈ table.deleted :=
  h.once.imp fun hearlier hclash => .inl (hearlier hclash)
 have hsymm : Std.Symm fun row other : Row => row.clashes other = true → row.id ∈ table.deleted ∨
  other.id ∈ table.deleted :=
  ⟨fun _ _ hrel hclash => (hrel (clashes_symm hclash)).symm⟩
 exact hrel.forall hrow hother hne hclash

end Table

section Calls

variable {ε : Type}

/-- What a create throws. The index's own violation is a unique violation. -/
structure PrismaErrors (ε : Type) where
  isPrismaUniqueConstraintError : ε → Bool
  keyTaken : ε
  keyTaken_unique : isPrismaUniqueConstraintError keyTaken = true

-- Errors as their codes: P2002 is the unique violation.
example : PrismaErrors Text := ⟨fun code => code == "P2002".toList, "P2002".toList, by decide⟩

structure CreateRequest where
  createdById : ℕ
  clientRequestId : Option Text

inductive KeyedPhase (ε : Type) where
  | looking
  | creating
  | inserted (row : Row)
  | committed (row : Row)
  | lookingAgain (error : ε)
  | returned (row : Row) (replayed : Bool)
  | threw (error : ε)

/-- A call of `createOrReplay`. `createThrew` records what its create threw, and
    `findThrew` that one of its own looks did. -/
structure KeyedCall (ε : Type) where
  createdById : ℕ
  clientRequestId : Option Text
  phase : KeyedPhase ε
  createThrew : Option ε
  findThrew : Bool

inductive QueryAnswer (ε : Type) where
  | ok
  | failed (error : ε)

def startCall (request : CreateRequest) : KeyedCall ε :=
  let key := normalizeClientRequestId request.clientRequestId
  ⟨request.createdById, key, if key.isSome then .looking else .creating, none, false⟩

def KeyedCall.goes (call : KeyedCall ε) (phase : KeyedPhase ε) : KeyedCall ε := { call with phase }

def KeyedCall.look (call : KeyedCall ε) (table : Table) (missed : KeyedPhase ε) : KeyedCall ε :=
  call.goes <|
    match call.clientRequestId.bind (table.find call.createdById) with
    | some row => .returned row true
    | none => missed

/-- An unkeyed create's error is thrown; a keyed one's may be a replay. -/
def KeyedCall.caught (errors : PrismaErrors ε) (call : KeyedCall ε) (error : ε) : KeyedCall ε :=
  { call with
    createThrew := some error
    phase := if call.clientRequestId.isSome && errors.isPrismaUniqueConstraintError error then
     .lookingAgain error
      else .threw error }

def KeyedCall.findFailed (call : KeyedCall ε) (error : ε) : KeyedCall ε :=
  { call with findThrew := true, phase := .threw error }

def keyedMove (errors : PrismaErrors ε) (answer : QueryAnswer ε) (call : KeyedCall ε) (table : Table) :
    Option (KeyedCall ε × Table) :=
  match call.phase, answer with
  | .looking, .ok => some (call.look table .creating, table)
  | .looking, .failed error => some (call.findFailed error, table)
  | .creating, .ok =>
    let row : Row := ⟨table.nextId, call.createdById, call.clientRequestId⟩
    if table.rows.any row.clashes then some (call.caught errors errors.keyTaken, table)
    -- the rival's entry is neither committed nor gone
    else if table.uncommitted.any row.clashes then none
    else some (call.goes (.inserted row), table.insert row)
  | .creating, .failed error => some (call.caught errors error, table)
  | .inserted row, .ok => some (call.goes (.committed row), table.commit row)
  | .inserted row, .failed error => some (call.caught errors error, table.release row)
  | .committed row, _ => some (call.goes (.returned row false), table)
  | .lookingAgain error, .ok => some (call.look table (.threw error), table)
  | .lookingAgain _, .failed error => some (call.findFailed error, table)
  | .returned _ _, _ | .threw _, _ => none

def deleteOutside (id : ℕ) (table : Table) : Option Table :=
  if table.rows.any (·.id = id) then some (table.delete id) else none

def keyedCreates (errors : PrismaErrors ε) :
    Program CreateRequest (QueryAnswer ε) ℕ Table (KeyedCall ε) where
  start request _ := startCall request
  move := keyedMove errors
  outside := deleteOutside

def KeyedCall.made (call : KeyedCall ε) : Option Row :=
  match call.phase with
  | .inserted row | .committed row | .returned row false => some row
  | .looking | .creating | .lookingAgain _ | .returned _ true | .threw _ => none

inductive Effect (call call' : KeyedCall ε) (table : Table) : Table → Prop where
  | keeps (hmade : call'.made = call.made) : Effect call call' table table
  | inserts (row : Row) (hid : row.id = table.nextId) (hmade : call.made = none) (hmade' : call'.made = some row)
    (hclear : ∀ other ∈ table.rows ++ table.uncommitted, row.clashes other = false) :
     Effect call call' table (table.insert row)
  | commits (row : Row) (hphase : call.phase = .inserted row) (hphase' : call'.phase = .committed row) :
    Effect call call' table (table.commit row)
  | releases (row : Row) (hphase : call.phase = .inserted row) (hmade' : call'.made = none) :
    Effect call call' table (table.release row)

theorem look_made (call : KeyedCall ε) (table : Table) {missed : KeyedPhase ε}
  (hmissed : (call.goes missed).made = none) :
  (call.look table missed).made = none := by
 unfold KeyedCall.look
 cases call.clientRequestId.bind (table.find call.createdById) with
 | none => exact hmissed
 | some row => rfl

theorem caught_made (errors : PrismaErrors ε) (call : KeyedCall ε) (error : ε) :
  (call.caught errors error).made = none := by
 unfold KeyedCall.caught KeyedCall.made
 dsimp only
 cases call.clientRequestId.isSome && errors.isPrismaUniqueConstraintError error <;> rfl

theorem keyedMove_effect {errors : PrismaErrors ε} {answer : QueryAnswer ε} {call : KeyedCall ε}
  {table : Table} {moved : KeyedCall ε × Table}
  (h : keyedMove errors answer call table = some moved) :
  Effect call moved.1 table moved.2 := by
 have hmade : call.made = (call.goes call.phase).made := rfl
 unfold keyedMove at h
 generalize hphase : call.phase = phase at h hmade
 cases phase with
 | looking =>
  cases answer with
  | ok =>
   cases h
   exact .keeps ((look_made call table rfl).trans hmade.symm)
  | failed error =>
   cases h
   exact .keeps hmade.symm
 | creating =>
  cases answer with
  | ok =>
   dsimp only at h
   split at h
   · cases h
     exact .keeps ((caught_made errors call _).trans hmade.symm)
   · next hrows =>
     split at h
     · cases h
     · next huncommitted =>
       cases h
       refine .inserts _ rfl hmade rfl fun other hother => ?_
       rw [← Bool.not_eq_true]
       intro hclash
       rcases List.mem_append.1 hother with hmem | hmem
       · exact hrows (List.any_eq_true.2 ⟨other, hmem, hclash⟩)
       · exact huncommitted (List.any_eq_true.2 ⟨other, hmem, hclash⟩)
  | failed error =>
   cases h
   exact .keeps ((caught_made errors call error).trans hmade.symm)
 | inserted row =>
  cases answer with
  | ok =>
   cases h
   exact .commits row hphase rfl
  | failed error =>
   cases h
   exact .releases row hphase (caught_made errors call error)
 | committed row =>
  cases h
  exact .keeps hmade.symm
 | lookingAgain error =>
  cases answer with
  | ok =>
   cases h
   exact .keeps ((look_made call table rfl).trans hmade.symm)
  | failed other =>
   cases h
   exact .keeps hmade.symm
 | returned row replayed => cases h
 | threw error => cases h

def KeyedCall.Names (call : KeyedCall ε) (row : Row) : Prop :=
  row.createdById = call.createdById ∧ row.clientRequestId = call.clientRequestId

def Fits (table : Table) (call : KeyedCall ε) : Prop :=
  match call.phase with
  | .looking => call.clientRequestId ≠ none
  | .creating => True
  | .inserted row => row ∈ table.uncommitted ∧ call.Names row
  | .committed row | .returned row false => row ∈ table.inserted ∧ call.Names row
  | .returned row true => row ∈ table.inserted ∧ call.Names row ∧ call.clientRequestId ≠ none
  | .lookingAgain error => call.clientRequestId ≠ none ∧ call.createThrew = some error
  | .threw error => call.findThrew = true ∨ call.createThrew = some error

theorem fits_start (table : Table) (request : CreateRequest) :
  Fits table (startCall request : KeyedCall ε) := by
 unfold Fits startCall
 dsimp only
 cases hkey : normalizeClientRequestId request.clientRequestId with
 | none => trivial
 | some key => exact nofun

theorem fits_mono {table table' : Table} {call : KeyedCall ε} (h : Fits table call)
  (hinserted : ∀ row ∈ table.inserted, row ∈ table'.inserted)
  (huncommitted : ∀ row ∈ table.uncommitted, call.made = some row → row ∈ table'.uncommitted) :
   Fits table' call := by
 obtain ⟨createdById, clientRequestId, phase, createThrew, findThrew⟩ := call
 cases phase with
 | looking => exact h
 | creating => trivial
 | inserted row => exact ⟨huncommitted row h.1 rfl, h.2⟩
 | committed row => exact ⟨hinserted row h.1, h.2⟩
 | lookingAgain error => exact h
 | returned row replayed =>
  cases replayed with
  | false => exact ⟨hinserted row h.1, h.2⟩
  | true => exact ⟨hinserted row h.1, h.2⟩
 | threw error => exact h

theorem find_some {table : Table} (hsound : Sound table) {call : KeyedCall ε} {row : Row}
  (h : call.clientRequestId.bind (table.find call.createdById) = some row) :
  row ∈ table.inserted ∧ call.Names row ∧ call.clientRequestId ≠ none := by
 obtain ⟨key, hkey, hfind⟩ := Option.bind_eq_some_iff.1 h
 have hfound := List.find?_some hfind
 obtain ⟨hcreator, hunder⟩ := under_iff.1 hfound
 refine ⟨((hsound.live row).1 (List.mem_of_find?_eq_some hfind)).1, ⟨hcreator, hunder.trans hkey.symm⟩, ?_⟩
 rw [hkey]
 exact nofun

theorem fits_look {table : Table} (hsound : Sound table) {call : KeyedCall ε}
  {missed : KeyedPhase ε} (hmissed : Fits table (call.goes missed)) :
  Fits table (call.look table missed) := by
 unfold KeyedCall.look
 cases hfind : call.clientRequestId.bind (table.find call.createdById) with
 | none => exact hmissed
 | some row => exact find_some hsound hfind

theorem fits_caught (errors : PrismaErrors ε) (call : KeyedCall ε) (error : ε) (table : Table) :
  Fits table (call.caught errors error) := by
 unfold KeyedCall.caught Fits
 cases hkey : call.clientRequestId with
 | none => exact .inr rfl
 | some key =>
  dsimp only [Option.isSome_some, Bool.true_and]
  cases errors.isPrismaUniqueConstraintError error with
  | true => exact ⟨nofun, rfl⟩
  | false => exact .inr rfl

theorem fits_move {errors : PrismaErrors ε} {answer : QueryAnswer ε} {call : KeyedCall ε}
  {table : Table} {moved : KeyedCall ε × Table} (hsound : Sound table) (hfits : Fits table call)
  (h : keyedMove errors answer call table = some moved) : Fits moved.2 moved.1 := by
 obtain ⟨createdById, clientRequestId, phase, createThrew, findThrew⟩ := call
 cases phase with
 | looking =>
  cases answer with
  | ok =>
   cases h
   exact fits_look hsound trivial
  | failed error =>
   cases h
   exact .inl rfl
 | creating =>
  cases answer with
  | ok =>
   unfold keyedMove at h
   dsimp only at h
   split at h
   · cases h
     exact fits_caught errors _ _ _
   · split at h
     · cases h
     · cases h
       exact ⟨List.mem_cons_self, rfl, rfl⟩
  | failed error =>
   cases h
   exact fits_caught errors _ _ _
 | inserted row =>
  cases answer with
  | ok =>
   cases h
   exact ⟨List.mem_append_right _ (List.mem_singleton_self row), hfits.2⟩
  | failed error =>
   cases h
   exact fits_caught errors _ _ _
 | committed row =>
  cases h
  exact hfits
 | lookingAgain error =>
  cases answer with
  | ok =>
   cases h
   exact fits_look hsound (.inr hfits.2)
  | failed other =>
   cases h
   exact .inl rfl
 | returned row replayed => cases h
 | threw error => cases h

end Calls

section Runs

variable {ε : Type} {errors : PrismaErrors ε}

structure Inv (s : Sys Table (KeyedCall ε)) : Prop where
  sound : Sound s.shared
  fits : ∀ call ∈ s.calls, Fits s.shared call
  own : ∀ (i j : ℕ) (call call' : KeyedCall ε) (row row' : Row), s.calls[i]? = some call →
   s.calls[j]? = some call' →
    call.made = some row → call'.made = some row' → row.id = row'.id → i = j
  madeBy : ∀ row ∈ s.shared.inserted, ∃ call ∈ s.calls, call.made = some row

theorem made_recorded {table : Table} {call : KeyedCall ε} (h : Fits table call) {row : Row}
  (hmade : call.made = some row) :
  row ∈ table.inserted ++ table.uncommitted := by
 obtain ⟨createdById, clientRequestId, phase, createThrew, findThrew⟩ := call
 cases phase with
 | looking => cases hmade
 | creating => cases hmade
 | inserted row => cases hmade; exact List.mem_append_right _ h.1
 | committed row => cases hmade; exact List.mem_append_left _ h.1
 | lookingAgain error => cases hmade
 | returned row replayed =>
  cases replayed with
  | false => cases hmade; exact List.mem_append_left _ h.1
  | true => cases hmade
 | threw error => cases hmade

theorem Inv.begin {s : Sys Table (KeyedCall ε)} (h : Inv s) (request : CreateRequest) :
  Inv ⟨s.shared, s.calls ++ [startCall request]⟩ where
 sound := h.sound
 fits call hcall := by
  rcases List.mem_append.1 hcall with hmem | hmem
  · exact h.fits call hmem
  · rw [List.mem_singleton.1 hmem]
    exact fits_start s.shared request
 own i j call call' row row' hi hj hmade hmade' heq := by
  have hnone : (startCall request : KeyedCall ε).made = none := by
   unfold startCall KeyedCall.made
   dsimp only
   cases (normalizeClientRequestId request.clientRequestId).isSome <;> rfl
  rcases getElem?_concat_cases hi with hi | ⟨-, rfl⟩
  · rcases getElem?_concat_cases hj with hj | ⟨-, rfl⟩
    · exact h.own i j call call' row row' hi hj hmade hmade' heq
    · rw [hnone] at hmade'
      cases hmade'
  · rw [hnone] at hmade
    cases hmade
 madeBy row hrow := by
  obtain ⟨call, hcall, hmade⟩ := h.madeBy row hrow
  exact ⟨call, List.mem_append_left _ hcall, hmade⟩

theorem Inv.delete {s : Sys Table (KeyedCall ε)} (h : Inv s) {id : ℕ} {table : Table}
  (hdelete : deleteOutside id s.shared = some table) :
  Inv ⟨table, s.calls⟩ := by
 unfold deleteOutside at hdelete
 split at hdelete
 · next hpresent =>
   cases hdelete
   obtain ⟨row, hrow, hid⟩ := List.any_eq_true.1 hpresent
   refine ⟨h.sound.delete ⟨row, hrow, of_decide_eq_true hid⟩, fun call hcall => ?_, h.own, h.madeBy⟩
   exact fits_mono (h.fits call hcall) (fun _ hrow => hrow) fun _ hrow _ => hrow
 · cases hdelete

theorem Effect.sound {call call' : KeyedCall ε} {table table' : Table}
  (h : Effect call call' table table') (hsound : Sound table)
  (hfits : Fits table call) : Sound table' := by
 cases h with
 | keeps _ => exact hsound
 | inserts row hid _ _ hclear => exact hsound.insert hid hclear
 | commits row hphase _ =>
  rw [Fits, hphase] at hfits
  exact hsound.commit hfits.1
 | releases row _ _ => exact hsound.release row

theorem Effect.inserted_mono {call call' : KeyedCall ε} {table table' : Table}
  (h : Effect call call' table table') {row : Row}
  (hrow : row ∈ table.inserted) : row ∈ table'.inserted := by
 cases h with
 | keeps _ => exact hrow
 | inserts _ _ _ _ _ => exact hrow
 | commits _ _ _ => exact List.mem_append_left _ hrow
 | releases _ _ _ => exact hrow

theorem Effect.uncommitted_mono {call call' : KeyedCall ε} {table table' : Table}
  (h : Effect call call' table table') {row : Row}
  (hrow : row ∈ table.uncommitted) (hother : call.made ≠ some row) : row ∈ table'.uncommitted := by
 have hleft : ∀ own, call.phase = .inserted own → row ≠ own := by
  rintro own hphase rfl
  exact hother (by rw [KeyedCall.made, hphase])
 cases h with
 | keeps _ => exact hrow
 | inserts _ _ _ _ _ => exact List.mem_cons_of_mem _ hrow
 | commits own hphase _ => exact (List.mem_erase_of_ne (hleft own hphase)).2 hrow
 | releases own hphase _ => exact (List.mem_erase_of_ne (hleft own hphase)).2 hrow

theorem Effect.made_cases {call call' : KeyedCall ε} {table table' : Table}
  (h : Effect call call' table table') {row : Row}
  (hmade : call'.made = some row) : call.made = some row ∨ row.id = table.nextId := by
 cases h with
 | keeps hkept => exact .inl (hkept ▸ hmade)
 | inserts own hid _ hmade' _ =>
  rw [hmade'] at hmade
  cases hmade
  exact .inr hid
 | commits own hphase hphase' =>
  rw [KeyedCall.made, hphase'] at hmade
  rw [KeyedCall.made, hphase]
  exact .inl hmade
 | releases own _ hmade' =>
  rw [hmade'] at hmade
  cases hmade

theorem Effect.inserted_cases {call call' : KeyedCall ε} {table table' : Table}
  (h : Effect call call' table table') (hsound : Sound table) (hfits : Fits table call) {row : Row}
  (hrow : row ∈ table'.inserted) :
  call'.made = some row ∨ (row ∈ table.inserted ∧ call.made ≠ some row) := by
 by_cases hmade : call.made = some row
 · cases h with
   | keeps hkept => exact .inl (hkept.trans hmade)
   | inserts own _ hnone _ _ => rw [hnone] at hmade; cases hmade
   | commits own hphase hphase' =>
    rw [KeyedCall.made, hphase] at hmade
    rw [KeyedCall.made, hphase']
    exact .inl hmade
   | releases own hphase _ =>
    -- a row that was never committed is not among the inserted ones
    rw [KeyedCall.made, hphase] at hmade
    cases hmade
    rw [Fits, hphase] at hfits
    have hids := hsound.ids
    rw [List.map_append, List.nodup_append] at hids
    exact absurd rfl (hids.2.2 _ (List.mem_map_of_mem hrow) _ (List.mem_map_of_mem hfits.1))
 · cases h with
   | keeps _ => exact .inr ⟨hrow, hmade⟩
   | inserts _ _ _ _ _ => exact .inr ⟨hrow, hmade⟩
   | commits own hphase hphase' =>
    rcases List.mem_append.1 hrow with hmem | hmem
    · exact .inr ⟨hmem, hmade⟩
    · rw [List.mem_singleton.1 hmem, KeyedCall.made, hphase']
      exact .inl rfl
   | releases _ _ _ => exact .inr ⟨hrow, hmade⟩

theorem Inv.move {s : Sys Table (KeyedCall ε)} (h : Inv s) {i : ℕ} {answer : QueryAnswer ε}
  {call : KeyedCall ε} {moved : KeyedCall ε × Table} (hcall : s.calls[i]? = some call)
  (hmove : keyedMove errors answer call s.shared = some moved) :
  Inv ⟨moved.2, s.calls.set i moved.1⟩ := by
 have heffect := keyedMove_effect hmove
 have hmem := List.mem_of_getElem? hcall
 have hlt := (List.getElem?_eq_some_iff.1 hcall).1
 have hfits := h.fits call hmem
 have hfresh : ∀ other ∈ s.calls, ∀ row, other.made = some row → row.id <
  s.shared.nextId := fun other hother row hmade =>
  h.sound.fresh row (made_recorded (h.fits other hother) hmade)
 refine ⟨heffect.sound h.sound hfits, fun other hother => ?_,
  fun j k other other' row row' hplace hplace' hmade hmade' heq =>
  ?_, fun row hrow => ?_⟩
 · obtain ⟨j, hj⟩ := List.getElem?_of_mem hother
   rcases getElem?_set_cases hj with ⟨-, rfl⟩ | ⟨hne, hj⟩
   · exact fits_move h.sound hfits hmove
   · refine fits_mono (h.fits other (List.mem_of_getElem? hj)) (fun _ => heffect.inserted_mono)
      fun row hrow hmade => ?_
     refine heffect.uncommitted_mono hrow fun hsame => hne ?_
     exact h.own j i other call row row hj hcall hmade hsame rfl
 · rcases getElem?_set_cases hplace with ⟨rfl, rfl⟩ | ⟨hjne, hj⟩
   · rcases getElem?_set_cases hplace' with ⟨rfl, rfl⟩ | ⟨hkne, hk⟩
     · rfl
     · rcases heffect.made_cases hmade with hbefore | hnew
       · exact h.own j k call other' row row' hcall hk hbefore hmade' heq
       · have hlt' := hfresh other' (List.mem_of_getElem? hk) row' hmade'
         omega
   · rcases getElem?_set_cases hplace' with ⟨rfl, rfl⟩ | ⟨hkne, hk⟩
     · rcases heffect.made_cases hmade' with hbefore | hnew
       · exact h.own j k other call row row' hj hcall hmade hbefore heq
       · have hlt' := hfresh other (List.mem_of_getElem? hj) row hmade
         omega
     · exact h.own j k other other' row row' hj hk hmade hmade' heq
 · rcases heffect.inserted_cases h.sound hfits hrow with hown | ⟨hbefore, hnot⟩
   · exact ⟨moved.1, List.mem_set hlt moved.1, hown⟩
   · obtain ⟨other, hother, hmade⟩ := h.madeBy row hbefore
     obtain ⟨j, hj⟩ := List.getElem?_of_mem hother
     have hne : i ≠ j := by
      rintro rfl
      rw [hcall] at hj
      cases hj
      exact hnot hmade
     exact ⟨other, List.mem_of_getElem? ((List.getElem?_set_ne hne).trans hj), hmade⟩

theorem inv_step {s s' : Sys Table (KeyedCall ε)} {a : Action CreateRequest (QueryAnswer ε) ℕ}
  (h : Inv s) (hstep : step (keyedCreates errors) s a = some s') : Inv s' := by
 rcases step_cases hstep with ⟨request, -, rfl⟩ | ⟨i, answer, call, moved, -, hcall, hmove, rfl⟩
  | ⟨id, table, -, hdelete, rfl⟩
 · exact h.begin request
 · exact h.move hcall hmove
 · exact h.delete hdelete

theorem inv_reachable {s : Sys Table (KeyedCall ε)}
  (h : Reachable (keyedCreates errors) emptyTable s) : Inv s := by
 induction h with
 | start =>
  exact ⟨sound_empty, fun _ hcall => absurd hcall List.not_mem_nil, fun _ _ _ _ _ _ hi => by simp at hi,
   fun _ hrow => absurd hrow List.not_mem_nil⟩
 | step a _ _ hstep ih => exact inv_step ih hstep

end Runs

section Replay

variable {ε : Type}

def Returned (s : Sys Table (KeyedCall ε)) (i : ℕ) (call : KeyedCall ε) (row : Row)
    (replayed : Bool) : Prop :=
  s.calls[i]? = some call ∧ call.phase = .returned row replayed

variable {s : Sys Table (KeyedCall ε)} {i j : ℕ} {call call' : KeyedCall ε} {row row' : Row}
  {replayed replayed' : Bool}

theorem returned_inserted (h : Inv s) (hreturned : Returned s i call row replayed) :
  row ∈ s.shared.inserted ∧ call.Names row ∧ (call.clientRequestId = none → replayed = false) := by
 have hfits := h.fits call (List.mem_of_getElem? hreturned.1)
 rw [Fits, hreturned.2] at hfits
 cases replayed with
 | false => exact ⟨hfits.1, hfits.2, fun _ => rfl⟩
 | true => exact ⟨hfits.1, hfits.2.1, fun hnone => absurd hnone hfits.2.2⟩

theorem returned_same (h : Inv s) (hi : Returned s i call row replayed)
  (hj : Returned s j call' row' replayed') (hcreator : call.createdById = call'.createdById)
  {key : Text} (hkey : call.clientRequestId = some key) (hkey' : call'.clientRequestId = some key)
  (hlive : row.id ∉ s.shared.deleted) (hlive' : row'.id ∉ s.shared.deleted) : row = row' := by
 obtain ⟨hrow, ⟨hrowCreator, hrowKey⟩, -⟩ := returned_inserted h hi
 obtain ⟨hrow', ⟨hrowCreator', hrowKey'⟩, -⟩ := returned_inserted h hj
 by_contra hne
 have hclash : row.clashes row' = true := clashes_of_under (under_iff.2 ⟨rfl, hrowKey.trans hkey⟩)
  (under_iff.2 ⟨by rw [hrowCreator', ← hcreator, hrowCreator], hrowKey'.trans hkey'⟩)
 exact (h.sound.deleted_of_clash hrow hrow' hne hclash).elim hlive hlive'

theorem created_once (h : Inv s) (hi : Returned s i call row false)
  (hj : Returned s j call' row' false) (heq : row.id = row'.id) :
  i = j :=
 h.own i j call call' row row' hi.1 hj.1 (by rw [KeyedCall.made, hi.2]) (by rw [KeyedCall.made, hj.2]) heq

/-- A keyed create runs once: rows under one key are inserted one after the
    other's deletion, and the calls that return one share it with the call that
    made it. -/
theorem createOrReplay_once (errors : PrismaErrors ε) :
    (∀ s, Reachable (keyedCreates errors) emptyTable s →
      s.shared.rows.Pairwise (fun row other => row.clashes other = false) ∧
      s.shared.inserted.Pairwise (fun earlier later => earlier.clashes later = true →
       earlier.id ∈ s.shared.deleted) ∧
      (∀ row ∈ s.shared.inserted, ∃ call ∈ s.calls, call.made = some row) ∧
      (∀ i j call call' row row' replayed replayed', Returned s i call row replayed →
       Returned s j call' row' replayed' →
        call.createdById = call'.createdById → call.clientRequestId = call'.clientRequestId →
         call.clientRequestId ≠ none →
        row.id ∉ s.shared.deleted → row'.id ∉ s.shared.deleted → row = row' ∧
         (i ≠ j → replayed = true ∨ replayed' = true)) ∧
      (∀ i call row replayed, Returned s i call row replayed → call.clientRequestId = none →
        replayed = false ∧ ∀ j call' row' replayed', Returned s j call' row' replayed' → i ≠ j →
         row.id ≠ row'.id) ∧
      ∀ call ∈ s.calls, ∀ error, call.phase = .threw error → call.findThrew = false →
       call.createThrew = some error) ∧
    (∀ raw raw' : Text, trim raw = trim raw' → trim raw ≠ [] →
      normalizeClientRequestId (some raw) = normalizeClientRequestId (some raw') ∧
       normalizeClientRequestId (some raw) ≠ none) ∧
    ∀ raw : Option Text, raw.map trim = some [] ∨ raw = none → normalizeClientRequestId raw = none := by
 refine ⟨fun s hs => ?_, fun raw raw' hsame hkey => ?_, fun raw hblank => ?_⟩
 · have h := inv_reachable hs
   refine ⟨(List.pairwise_append.1 h.sound.unique).1, h.sound.once, h.madeBy,
    fun i j call call' row row' replayed replayed' hi hj hcreator hsame hkeyed hlive hlive' => ?_,
    fun i call row replayed hi hunkeyed => ?_, fun call hcall error hphase hfind => ?_⟩
   · obtain ⟨key, hkey⟩ := Option.ne_none_iff_exists'.1 hkeyed
     have heq := returned_same h hi hj hcreator hkey (hsame ▸ hkey) hlive hlive'
     refine ⟨heq, fun hne => ?_⟩
     cases replayed with
     | true => exact .inl rfl
     | false =>
      cases replayed' with
      | true => exact .inr rfl
      | false => exact absurd (created_once h hi hj (by rw [heq])) hne
   · obtain ⟨hrow, ⟨-, hnull⟩, hcreated⟩ := returned_inserted h hi
     obtain rfl := hcreated hunkeyed
     refine ⟨rfl, fun j call' row' replayed' hj hne heq => ?_⟩
     obtain ⟨hrow', ⟨-, hkey'⟩, -⟩ := returned_inserted h hj
     have hsame := h.sound.eq_of_id (List.mem_append_left _ hrow) (List.mem_append_left _ hrow') heq
     cases replayed' with
     | false => exact hne (created_once h hi hj heq)
     | true =>
      have hfits := h.fits call' (List.mem_of_getElem? hj.1)
      rw [Fits, hj.2] at hfits
      exact hfits.2.2 (by rw [← hkey', ← hsame, hnull, hunkeyed])
   · have hfits := h.fits call hcall
     rw [Fits, hphase] at hfits
     rcases hfits with hthrew | hthrew
     · rw [hfind] at hthrew
       cases hthrew
     · exact hthrew
 · unfold normalizeClientRequestId
   rw [Option.map_some, Option.map_some, ← hsame]
   refine ⟨rfl, ?_⟩
   simp [hkey]
 · unfold normalizeClientRequestId
   rcases hblank with hblank | rfl
   · rw [hblank]
     rfl
   · rfl

end Replay

end BoardGamesEmpire.KeyedCreate
