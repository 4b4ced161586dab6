import BoardGamesEmpire.JsonText

set_option autoImplicit false

/-!
# Objects and their keys

The own-key order of ECMAScript objects, the order `sort` gives to strings,
`JSON.parse`, and documents whose keys are sorted at every depth.
-/
namespace BoardGamesEmpire.JsonText
open JsText

def codeUnits (c : Char) : List ℕ :=
  if c.toNat < 0x10000 then [c.toNat]
  else [0xd800 + (c.toNat - 0x10000) / 0x400, 0xdc00 + (c.toNat - 0x10000) % 0x400]

def units (s : Text) : List ℕ := s.flatMap codeUnits

/-- The order of `Array.prototype.sort` on strings: by code units. -/
def textLe (a b : Text) : Bool := decide (units a ≤ units b)

def sortTexts (texts : List Text) : List Text := texts.mergeSort textLe

def arrayIndex (key : Text) : Option ℕ :=
  let n := ofDigits 10 (digitsPrefix 10 key)
  if toText 10 n = key ∧ n < 2 ^ 32 - 1 then some n else none

/-- Own-key order: array indices first, ascending; the rest keep their places. -/
def ownBefore (a b : Text) : Bool :=
  match arrayIndex a, arrayIndex b with
  | some i, some j => decide (i ≤ j)
  | some _, none => true
  | none, some _ => false
  | none, none => true

section Members

variable {α : Type}

def ownOrder (members : List (Text × α)) : List (Text × α) :=
  members.mergeSort fun a b => ownBefore a.1 b.1

def setMember (members : List (Text × α)) (m : Text × α) : List (Text × α) :=
  if (members.map Prod.fst).contains m.1 then
    members.map fun n => if n.1 = m.1 then m else n
  else members ++ [m]

/-- `Object.fromEntries`. -/
def fromEntries (entries : List (Text × α)) : List (Text × α) :=
  ownOrder (entries.foldl setMember [])

def properMembers (members : List (Text × α)) : Bool :=
  decide (members.map Prod.fst).Nodup &&
    decide (members.Pairwise fun a b => ownBefore a.1 b.1 = true)

def sortMembers (members : List (Text × α)) : List (Text × α) :=
  members.mergeSort fun a b => textLe a.1 b.1

end Members

section Documents

variable {ν : Type}

def build : Json ν → Json ν :=
  fold { null := .null, bool := .bool, num := .num, str := .str, arr := .arr,
         obj := fun members => .obj (fromEntries members) }

/-- `JSON.parse`; `none` is the `SyntaxError`. -/
def parse (F : NumberFormat ν) (s : Text) : Option (Json ν) := (readText F s).map build

def proper : Json ν → Bool :=
  fold { null := true, bool := fun _ => true, num := fun _ => true, str := fun _ => true,
         arr := fun items => items.all id,
         obj := fun members => properMembers members && members.all Prod.snd }

def sortKeys : Json ν → Json ν :=
  fold { null := .null, bool := .bool, num := .num, str := .str, arr := .arr,
         obj := fun members => .obj (fromEntries (sortMembers members)) }

/-- A column that holds JSON documents and returns the members of an object in
    an order of its own, as `jsonb` does. -/
structure JsonColumn (ν : Type) where
  arrange : List (Text × Json ν) → List (Text × Json ν)
  arrange_perm : ∀ members, (arrange members).Perm members

def JsonColumn.stored (column : JsonColumn ν) : Json ν → Json ν :=
  fold { null := .null, bool := .bool, num := .num, str := .str, arr := .arr,
         obj := fun members => .obj (column.arrange members) }

def jsonbColumn : JsonColumn ν where
  arrange members := members.mergeSort fun a b => decide (a.1.length ≤ b.1.length)
  arrange_perm _ := List.mergeSort_perm _ _

end Documents

theorem codeUnits_cons (c : Char) : ∃ u us, codeUnits c = u :: us := by
 unfold codeUnits
 split <;> exact ⟨_, _, rfl⟩

theorem toNat_surrogate (c : Char) : c.toNat < 0xd800 ∨ 0xdfff < c.toNat := by
 have h := c.valid
 simp only [UInt32.isValidChar, Nat.isValidChar] at h
 change c.toNat < 0xd800 ∨ 0xdfff < c.toNat ∧ c.toNat < 0x110000 at h
 omega

theorem toNat_lt (c : Char) : c.toNat < 0x110000 := by
 have h := c.valid
 simp only [UInt32.isValidChar, Nat.isValidChar] at h
 change c.toNat < 0xd800 ∨ 0xdfff < c.toNat ∧ c.toNat < 0x110000 at h
 omega

theorem codeUnits_append_inj {c d : Char} {s t : List ℕ}
  (h : codeUnits c ++ s = codeUnits d ++ t) : c = d ∧ s = t := by
 have hc := toNat_surrogate c
 have hd := toNat_surrogate d
 have hcl := toNat_lt c
 have hdl := toNat_lt d
 unfold codeUnits at h
 split_ifs at h with h1 h2 h2
 · simp only [List.cons_append, List.nil_append, List.cons.injEq] at h
   exact ⟨Char.toNat_inj.mp h.1, h.2⟩
 · simp only [List.cons_append, List.nil_append, List.cons.injEq] at h
   omega
 · simp only [List.cons_append, List.nil_append, List.cons.injEq] at h
   omega
 · simp only [List.cons_append, List.nil_append, List.cons.injEq] at h
   exact ⟨Char.toNat_inj.mp (by omega), h.2.2⟩

theorem units_injective {s t : Text} (h : units s = units t) : s = t := by
 induction s generalizing t with
 | nil =>
  cases t with
  | nil => rfl
  | cons d t =>
   obtain ⟨u, us, hu⟩ := codeUnits_cons d
   simp [units, hu] at h
 | cons c s ih =>
  cases t with
  | nil =>
   obtain ⟨u, us, hu⟩ := codeUnits_cons c
   simp [units, hu] at h
  | cons d t =>
   obtain ⟨hcd, hst⟩ := codeUnits_append_inj (s := units s) (t := units t) (by simpa [units] using h)
   rw [hcd, ih hst]

theorem textLe_trans {a b c : Text} (hab : textLe a b = true) (hbc : textLe b c = true) :
  textLe a c = true := by
 simp only [textLe, decide_eq_true_eq] at hab hbc ⊢
 exact le_trans hab hbc

theorem textLe_total (a b : Text) : (textLe a b || textLe b a) = true := by
 simp only [textLe, Bool.or_eq_true, decide_eq_true_eq]
 exact le_total _ _

theorem textLe_antisymm {a b : Text} (hab : textLe a b = true) (hba : textLe b a = true) :
  a = b := by
 simp only [textLe, decide_eq_true_eq] at hab hba
 exact units_injective (le_antisymm hab hba)

theorem sortTexts_perm (texts : List Text) : (sortTexts texts).Perm texts :=
 List.mergeSort_perm _ _

theorem sortTexts_pairwise (texts : List Text) :
  (sortTexts texts).Pairwise fun a b => textLe a b = true := by
 apply List.pairwise_mergeSort
 · intro a b c hab hbc
   exact textLe_trans hab hbc
 · intro a b
   exact textLe_total _ _

theorem sortTexts_congr {texts texts' : List Text} (h : texts'.Perm texts) :
  sortTexts texts' = sortTexts texts := by
 have hperm : (sortTexts texts').Perm (sortTexts texts) :=
  (sortTexts_perm texts').trans (h.trans (sortTexts_perm texts).symm)
 apply hperm.eq_of_pairwise _ (sortTexts_pairwise texts') (sortTexts_pairwise texts)
 intro a b _ _ hab hba
 exact textLe_antisymm hab hba

section MemberLemmas

variable {α : Type}

theorem sortMembers_perm (members : List (Text × α)) : (sortMembers members).Perm members :=
 List.mergeSort_perm _ _

theorem sortMembers_pairwise (members : List (Text × α)) :
  (sortMembers members).Pairwise fun a b => textLe a.1 b.1 = true := by
 apply List.pairwise_mergeSort
 · intro a b c hab hbc
   exact textLe_trans hab hbc
 · intro a b
   exact textLe_total _ _

theorem member_eq {members : List (Text × α)} (hkeys : (members.map Prod.fst).Nodup)
  {a b : Text × α} (ha : a ∈ members) (hb : b ∈ members) (h : a.1 = b.1) : a = b :=
 List.inj_on_of_nodup_map hkeys ha hb h

theorem sortMembers_congr {ms ns : List (Text × α)} (h : ms.Perm ns)
  (hkeys : (ms.map Prod.fst).Nodup) : sortMembers ms = sortMembers ns := by
 have hperm : (sortMembers ms).Perm (sortMembers ns) :=
  (sortMembers_perm ms).trans (h.trans (sortMembers_perm ns).symm)
 apply hperm.eq_of_pairwise _ (sortMembers_pairwise ms) (sortMembers_pairwise ns)
 intro a b ha hb hab hba
 have hams : a ∈ ms := (sortMembers_perm ms).mem_iff.mp ha
 have hbms : b ∈ ms := h.mem_iff.mpr ((sortMembers_perm ns).mem_iff.mp hb)
 exact member_eq hkeys hams hbms (textLe_antisymm hab hba)

theorem foldl_setMember (ms acc : List (Text × α)) (hkeys : ((acc ++ ms).map Prod.fst).Nodup) :
  ms.foldl setMember acc = acc ++ ms := by
 induction ms generalizing acc with
 | nil => simp
 | cons m ms ih =>
  have hnew : (acc.map Prod.fst).contains m.1 = false := by
   simp only [List.map_append, List.map_cons, List.nodup_append, List.mem_cons] at hkeys
   rw [List.contains_eq_mem, decide_eq_false_iff_not]
   intro hm
   exact hkeys.2.2 _ hm _ (Or.inl rfl) rfl
  rw [List.foldl_cons, setMember, hnew]
  rw [if_neg (by decide), ih (acc ++ [m]) (by simpa using hkeys)]
  simp

theorem foldl_setMember_nil {ms : List (Text × α)} (hkeys : (ms.map Prod.fst).Nodup) :
  ms.foldl setMember [] = ms := by
 simpa using foldl_setMember ms [] (by simpa using hkeys)

theorem properMembers_iff {members : List (Text × α)} : properMembers members = true ↔
  (members.map Prod.fst).Nodup ∧ members.Pairwise fun a b => ownBefore a.1 b.1 = true := by
 simp [properMembers]

theorem fromEntries_proper {members : List (Text × α)} (h : properMembers members = true) :
  fromEntries members = members := by
 obtain ⟨hkeys, horder⟩ := properMembers_iff.mp h
 rw [fromEntries, foldl_setMember_nil hkeys]
 exact List.mergeSort_of_pairwise horder

theorem properMembers_map {β : Type} (f : Text × α → β) (members : List (Text × α)) :
  properMembers (members.map fun m => (m.1, f m)) = properMembers members := by
 rw [Bool.eq_iff_iff, properMembers_iff, properMembers_iff, List.pairwise_map, List.map_map]
 rfl

end MemberLemmas

section DocumentLemmas

variable {ν : Type}

theorem proper_arr {items : List (Json ν)} (h : proper (.arr items) = true) :
  ∀ v ∈ items, proper v = true := by
 rw [proper, fold_arr] at h
 change (items.map proper).all id = true at h
 simpa using h

theorem proper_obj {members : List (Text × Json ν)} : proper (.obj members) = true ↔
  properMembers members = true ∧ ∀ m ∈ members, proper m.2 = true := by
 have hmap := properMembers_map (fun m : Text × Json ν => proper m.2) members
 rw [proper, fold_obj]
 simp only [Bool.and_eq_true, List.all_map, List.all_eq_true]
 exact and_congr_left fun _ => iff_of_eq (congrArg (· = true) hmap)

theorem build_proper {v : Json ν} (h : proper v = true) : build v = v := by
 induction v using Json.induction with
 | null => rfl
 | bool b => rfl
 | num n => rfl
 | str s => rfl
 | arr items ih =>
  have hitems : items.map build = items.map id :=
   List.map_congr_left fun v hv => ih v hv (proper_arr h v hv)
  rw [List.map_id] at hitems
  rw [build, fold_arr]
  exact congrArg Json.arr hitems
 | obj members ih =>
  obtain ⟨hproper, hvalues⟩ := proper_obj.mp h
  have hmembers : members.map (fun m => (m.1, build m.2)) = members := by
   conv_rhs => rw [← List.map_id members]
   apply List.map_congr_left
   intro m hm
   rw [ih m hm (hvalues m hm)]
   rfl
  rw [build, fold_obj]
  change Json.obj (fromEntries (members.map fun m => (m.1, build m.2))) = _
  rw [hmembers, fromEntries_proper hproper]

/-- `JSON.parse` gives back the value `JSON.stringify` printed. -/
theorem parse_stringify (F : NumberFormat ν) {v : Json ν} (h : proper v = true) :
  parse F (stringify F v) = some v := by
 rw [parse, readText_stringify, Option.map_some, build_proper h]

theorem sortKeys_obj (members : List (Text × Json ν)) : sortKeys (.obj members) =
  .obj (fromEntries (sortMembers (members.map fun m => (m.1, sortKeys m.2)))) := by
 rw [sortKeys, fold_obj]

theorem sortKeys_arr (items : List (Json ν)) :
  sortKeys (.arr items) = .arr (items.map sortKeys) := by
 rw [sortKeys, fold_arr]

theorem sortKeys_stored (column : JsonColumn ν) {v : Json ν} (h : proper v = true) :
  sortKeys (column.stored v) = sortKeys v := by
 induction v using Json.induction with
 | null => rfl
 | bool b => rfl
 | num n => rfl
 | str s => rfl
 | arr items ih =>
  have hstored : column.stored (.arr items) = .arr (items.map column.stored) := fold_arr _ _
  rw [hstored, sortKeys_arr, sortKeys_arr, List.map_map]
  exact congrArg Json.arr (List.map_congr_left fun v hv => ih v hv (proper_arr h v hv))
 | obj members ih =>
  obtain ⟨hproper, hvalues⟩ := proper_obj.mp h
  have hkeys := (properMembers_iff.mp hproper).1
  have hstored : column.stored (.obj members) =
    .obj (column.arrange (members.map fun m => (m.1, column.stored m.2))) := fold_obj _ _
  rw [hstored, sortKeys_obj, sortKeys_obj]
  apply congrArg fun ms => Json.obj (fromEntries ms)
  have hsorted : (members.map fun m => (m.1, column.stored m.2)).map
    (fun m => (m.1, sortKeys m.2)) = members.map fun m => (m.1, sortKeys m.2) := by
   rw [List.map_map]
   apply List.map_congr_left
   intro m hm
   exact congrArg (m.1, ·) (ih m hm (hvalues m hm))
  rw [← hsorted]
  apply sortMembers_congr ((column.arrange_perm _).map _)
  rw [List.map_map]
  apply ((column.arrange_perm _).map Prod.fst).nodup_iff.mpr
  rw [List.map_map]
  exact hkeys

end DocumentLemmas

end BoardGamesEmpire.JsonText
