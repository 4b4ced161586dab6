import BoardGamesEmpire.JsText

set_option autoImplicit false

/-!
# A map by its `set` calls

A `Map` is given by the entries that were set, in order. A later one replaces
an earlier one under its key and keeps its place.
-/
namespace BoardGamesEmpire.JsText

section Maps

variable {κ ν α : Type} [DecidableEq κ]

def findLast (keeps : α → Bool) (l : List α) : Option α := l.reverse.find? keeps

theorem findLast_concat (keeps : α → Bool) (l : List α) (x : α) :
  findLast keeps (l ++ [x]) = if keeps x then some x else findLast keeps l := by
 rw [findLast, List.reverse_append, List.reverse_singleton, List.singleton_append, List.find?_cons]
 cases keeps x <;> rfl

theorem findLast_some {keeps : α → Bool} {l : List α} {x : α} (h : findLast keeps l = some x) :
  x ∈ l ∧ keeps x = true :=
 ⟨List.mem_reverse.1 (List.mem_of_find?_eq_some h), List.find?_some h⟩

theorem findLast_isSome (keeps : α → Bool) {l : List α} {x : α} (hx : x ∈ l)
  (hkeeps : keeps x = true) :
  ∃ y, findLast keeps l = some y :=
 Option.isSome_iff_exists.1 (List.find?_isSome.2 ⟨x, List.mem_reverse.2 hx, hkeeps⟩)

theorem findLast_of_imp {keeps keeps' : α → Bool} {l : List α} {x : α}
  (himp : ∀ y, keeps y = true → keeps' y = true) (h : findLast keeps' l = some x)
  (hx : keeps x = true) : findLast keeps l = some x := by
 induction l using List.reverseRecOn with
 | nil => cases h
 | append_singleton l y ih =>
  rw [findLast_concat] at h ⊢
  by_cases hy : keeps y = true
  · rw [if_pos (himp y hy)] at h
    rw [if_pos hy, h]
  · rw [if_neg hy]
    split at h
    · cases h
      exact absurd hx hy
    · exact ih h

theorem mapGet_concat (entries : List (κ × ν)) (key key' : κ) (value : ν) :
  mapGet (entries ++ [(key, value)]) key' = if key = key' then some value else mapGet entries key' := by
 rw [mapGet, List.reverse_append, List.reverse_singleton, List.singleton_append, List.find?_cons]
 by_cases h : key = key'
 · simp [h]
 · simp [h, mapGet]

/-- `map.entries()`. -/
def mapEntries (sets : List (κ × ν)) : List (κ × ν) :=
  (sets.map Prod.fst).eraseDups.filterMap fun key => (mapGet sets key).map fun value => (key, value)

theorem mem_mapEntries {sets : List (κ × ν)} {key : κ} {value : ν} :
  (key, value) ∈ mapEntries sets ↔ mapGet sets key = some value := by
 rw [mapEntries, List.mem_filterMap]
 constructor
 · rintro ⟨key', -, h⟩
   obtain ⟨value', hget, heq⟩ := Option.map_eq_some_iff.1 h
   cases heq
   exact hget
 · intro h
   refine ⟨key, ?_, by rw [h]; rfl⟩
   rw [List.mem_eraseDups]
   exact List.mem_map_of_mem (mapGet_mem h)

theorem nodup_mapEntries (sets : List (κ × ν)) : ((mapEntries sets).map Prod.fst).Nodup := by
 have hsub : ∀ keys : List κ,
  ((keys.filterMap fun key => (mapGet sets key).map fun value => (key, value)).map Prod.fst).Sublist
   keys := by
  intro keys
  induction keys with
  | nil => exact .slnil
  | cons key keys ih =>
   cases hget : mapGet sets key with
   | none => simpa [hget] using ih.cons key
   | some value => simpa [hget] using ih.cons_cons key
 exact (hsub _).nodup (nodup_eraseDups _)

/-- The `set` calls of a loop that pushes each value under its key. -/
def setsGrouped (key : α → κ) (value : α → ν) (l : List α) : List (κ × List ν) :=
  l.foldl (fun sets x => sets ++ [(key x, (mapGet sets (key x)).getD [] ++ [value x])]) []

theorem mapGet_setsGrouped (key : α → κ) (value : α → ν) (l : List α) (k : κ) :
  (mapGet (setsGrouped key value l) k).getD [] = (l.filter fun x => key x = k).map value := by
 unfold setsGrouped
 induction l using List.reverseRecOn with
 | nil => rfl
 | append_singleton l x ih =>
  rw [List.foldl_append, List.foldl_cons, List.foldl_nil, mapGet_concat, List.filter_append,
   List.map_append]
  by_cases h : key x = k
  · subst h
    rw [if_pos rfl, ← ih]
    simp
  · rw [if_neg h, ih]
    simp [h]

end Maps

end BoardGamesEmpire.JsText
