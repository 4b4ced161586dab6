import BoardGamesEmpire.UniformChoices

set_option autoImplicit false

/-!
# Random samples

`random-sample.ts`. Each `Math.floor(Math.random() * n)` is a choice below `n`,
and a sampler is given the vector of its choices.
-/
namespace BoardGamesEmpire.RandomSample
open UniformChoices

section Samplers

variable {α : Type}

/-- `[pool[i], pool[j]] = [pool[j], pool[i]]`. -/
def swap (pool : List α) (i j : ℕ) : List α :=
  match pool[i]?, pool[j]? with
  | some a, some b => (pool.set i b).set j a
  | _, _ => pool

def sampleSize (size length : ℕ) : ℕ := min size length

def sampleWithoutReplacement (items : List α) (size : ℕ) (picks : List ℕ) : List α :=
  let count := sampleSize size items.length
  let pool := ((List.range' 0 count).zip picks).foldl
   (fun pool step => swap pool step.1 (step.1 + step.2)) items
  pool.take count

/-- What each choice of `sampleWithoutReplacement` is below. -/
def sampleBounds (length size : ℕ) : List ℕ := (List.range' 0 (sampleSize size length)).map (length - ·)

/-- `Set.add`, in the order of insertion. -/
def add (picked : List ℕ) (offset : ℕ) : List ℕ :=
    if picked.contains offset then picked else picked ++ [offset]

def pickOffset (picked : List ℕ) (upper pick : ℕ) :
    List ℕ := add picked (if picked.contains pick then upper else pick)

/-- The uppers from `lower` on, one for each choice. -/
def pickOffsets (lower wanted : ℕ) (picks : List ℕ) : List ℕ :=
  ((List.range' lower wanted).zip picks).foldl (fun picked step => pickOffset picked step.1 step.2) []

def randomOffsets (count size : ℕ) (picks : List ℕ) : List ℕ :=
  let wanted := min size count
  (pickOffsets (count - wanted) wanted picks).mergeSort (· ≤ ·)

/-- What each choice of `randomOffsets` is below. -/
def offsetBounds (count size : ℕ) : List ℕ :=
    (List.range' (count - min size count) (min size count)).map (· + 1)

/-- The loop over the offsets; the number of rows found is that of the reads before. -/
def readOffsets (readAt : (read skip : ℕ) → (after : Option α) → Option α) :
    (rows : List α) → (reached : ℕ) → List ℕ → List α
  | rows, _, [] => rows
  | rows, reached, offset :: offsets =>
    match readAt rows.length (offset - reached) rows.getLast? with
    | none => rows
    | some row => readOffsets readAt (rows ++ [row]) offset offsets

def sampleByOffsets (count size : ℕ) (readAt : (read skip : ℕ) → (after : Option α) → Option α)
    (picks shuffles : List ℕ) : List α :=
  let rows := readOffsets readAt [] 0 (randomOffsets count size picks)
  sampleWithoutReplacement rows rows.length shuffles

end Samplers

section Offsets

theorem mem_add (picked : List ℕ) (offset x : ℕ) :
  x ∈ add picked offset ↔ x ∈ picked ∨ x = offset := by
 unfold add
 split
 · next h =>
   have hmem : offset ∈ picked := List.contains_iff_mem.mp h
   constructor
   · exact .inl
   · rintro (hx | rfl)
     · exact hx
     · exact hmem
 · simp

theorem nodup_add (picked : List ℕ) (offset : ℕ) (h : picked.Nodup) :
  (add picked offset).Nodup := by
 unfold add
 split
 · exact h
 · next hnot =>
   have hfresh : offset ∉ picked := fun hmem => hnot (List.contains_iff_mem.mpr hmem)
   exact List.Nodup.append h (List.nodup_singleton _) (List.disjoint_singleton.mpr hfresh)

theorem nodup_pickOffsets (lower wanted : ℕ) (picks : List ℕ) :
  (pickOffsets lower wanted picks).Nodup := by
 unfold pickOffsets
 generalize (List.range' lower wanted).zip picks = steps
 induction steps using List.reverseRecOn with
 | nil => exact List.nodup_nil
 | append_singleton steps step ih =>
  rw [List.foldl_append]
  exact nodup_add _ _ ih

theorem offsets_concat (lower wanted : ℕ) (picks : List ℕ) (pick : ℕ) (h : picks.length = wanted) :
  pickOffsets lower (wanted + 1) (picks ++ [pick]) = pickOffset (pickOffsets lower wanted picks)
   (lower + wanted) pick := by
 unfold pickOffsets
 rw [List.range'_concat, List.zip_append (by rw [List.length_range', h]), List.foldl_append, Nat.one_mul]
 rfl

/-- The bounds of the choices from `lower` on. -/
def boundsFrom (lower wanted : ℕ) : List ℕ := (List.range' lower wanted).map (· + 1)

theorem boundsFrom_succ (lower wanted : ℕ) :
  boundsFrom lower (wanted + 1) = boundsFrom lower wanted ++ [lower + wanted + 1] := by
 rw [boundsFrom, List.range'_concat, List.map_append, Nat.one_mul]
 rfl

theorem boundsFrom_length (lower wanted : ℕ) : (boundsFrom lower wanted).length = wanted := by
 rw [boundsFrom, List.length_map, List.length_range']

theorem toFinset_pickOffset (picked : List ℕ) (upper pick : ℕ) :
  (pickOffset picked upper pick).toFinset = insert (if pick ∈ picked then upper else pick)
   picked.toFinset := by
 ext x
 rw [List.mem_toFinset, pickOffset, mem_add, Finset.mem_insert, List.mem_toFinset, or_comm]
 simp only [List.contains_iff_mem]

theorem picked_below (lower wanted : ℕ) (picks : List ℕ)
  (h : picks ∈ choices (boundsFrom lower wanted)) :
  (pickOffsets lower wanted picks).toFinset ⊆ Finset.range (lower + wanted) ∧
   (pickOffsets lower wanted picks).toFinset.card = wanted := by
 induction wanted generalizing picks with
 | zero => simp [pickOffsets]
 | succ wanted ih =>
  have hlength := length_of_mem_choices h
  rw [boundsFrom_length] at hlength
  obtain ⟨picks, pick, rfl⟩ : ∃ before last, picks = before ++ [last] :=
   ⟨picks.dropLast, picks.getLast (List.ne_nil_of_length_eq_add_one hlength),
    (List.dropLast_append_getLast _).symm⟩
  rw [boundsFrom_succ, concat_mem_choices] at h
  obtain ⟨hbelow, hcard⟩ := ih picks h.1
  rw [List.length_append, List.length_singleton, Nat.add_right_cancel_iff] at hlength
  rw [offsets_concat lower wanted picks pick hlength, toFinset_pickOffset]
  have hupper : lower + wanted ∉ (pickOffsets lower wanted picks).toFinset := fun hmem => by
   have hlt := Finset.mem_range.mp (hbelow hmem)
   omega
  constructor
  · refine Finset.insert_subset ?_ (hbelow.trans (Finset.range_subset_range.mpr (by omega)))
    rw [Finset.mem_range]
    split <;> omega
  · rw [Finset.card_insert_of_notMem, hcard]
    split
    · exact hupper
    · next hfresh => exact fun hmem => hfresh (List.mem_toFinset.mp hmem)

theorem pickOffset_eq_iff (picked : List ℕ) (upper pick : ℕ) (S : Finset ℕ)
  (hpicked : picked.toFinset ⊆ Finset.range upper) (hpick : pick < upper + 1) :
  (pickOffset picked upper pick).toFinset = S ↔
   pick ∈ S ∧ picked.toFinset = S.erase (if upper ∈ S then upper else pick) := by
 have hupper : upper ∉ picked.toFinset :=
  fun hmem => absurd (Finset.mem_range.mp (hpicked hmem)) (lt_irrefl _)
 have hbelow : ∀ {x}, x ∈ picked → x ≠ upper := fun hx h => hupper (List.mem_toFinset.mpr (h ▸ hx))
 rw [toFinset_pickOffset]
 by_cases hmem : pick ∈ picked
 · rw [if_pos hmem]
   constructor
   · rintro rfl
     rw [if_pos (Finset.mem_insert_self _ _), Finset.erase_insert hupper]
     exact ⟨Finset.mem_insert_of_mem (List.mem_toFinset.mpr hmem), rfl⟩
   · rintro ⟨hS, heq⟩
     by_cases hin : upper ∈ S
     · rw [if_pos hin] at heq
       rw [heq, Finset.insert_erase hin]
     · rw [if_neg hin] at heq
       exact absurd (List.mem_toFinset.mpr hmem) (heq ▸ Finset.notMem_erase _ _)
 · rw [if_neg hmem]
   have hnotmem : pick ∉ picked.toFinset := fun h => hmem (List.mem_toFinset.mp h)
   constructor
   · rintro rfl
     refine ⟨Finset.mem_insert_self _ _, ?_⟩
     split
     · next hin =>
       obtain rfl : upper = pick := (Finset.mem_insert.mp hin).resolve_right hupper
       exact (Finset.erase_insert hnotmem).symm
     · exact (Finset.erase_insert hnotmem).symm
   · rintro ⟨hS, heq⟩
     by_cases hin : upper ∈ S
     · rw [if_pos hin] at heq
       have hpick : pick = upper := by
        by_contra hne
        exact hnotmem (heq ▸ Finset.mem_erase.mpr ⟨hne, hS⟩)
       rw [heq, hpick, Finset.insert_erase hin]
     · rw [if_neg hin] at heq
       rw [heq, Finset.insert_erase hS]

theorem ways_pickOffsets (lower wanted : ℕ) (S : Finset ℕ)
  (hbelow : S ⊆ Finset.range (lower + wanted)) (hcard : S.card = wanted) :
  ways (boundsFrom lower wanted) (fun picks => (pickOffsets lower wanted picks).toFinset = S)
   = wanted.factorial := by
 induction wanted generalizing S with
 | zero =>
  have hempty : S = ∅ := Finset.card_eq_zero.mp hcard
  have hways := ways_nil fun picks => (pickOffsets lower 0 picks).toFinset = S
  rw [if_pos (by simp [pickOffsets, hempty])] at hways
  exact hways
 | succ wanted ih =>
  rw [boundsFrom_succ, ways_concat]
  have hlast : ∀ pick ∈ Finset.range (lower + wanted + 1),
    ways (boundsFrom lower wanted)
     (fun picks => (pickOffsets lower (wanted + 1) (picks ++ [pick])).toFinset = S) =
     if pick ∈ S then wanted.factorial else 0 := by
   intro pick hpick
   have hstep : ∀ picks ∈ choices (boundsFrom lower wanted),
     (pickOffsets lower (wanted + 1) (picks ++ [pick])).toFinset = S ↔
      pick ∈ S ∧ (pickOffsets lower wanted picks).toFinset = S.erase
       (if lower + wanted ∈ S then lower + wanted else pick) := by
    intro picks hpicks
    have hlength := length_of_mem_choices hpicks
    rw [boundsFrom_length] at hlength
    rw [offsets_concat lower wanted picks pick hlength]
    exact pickOffset_eq_iff _ _ _ _ (picked_below lower wanted picks hpicks).1 (Finset.mem_range.mp hpick)
   split
   · next hS =>
     have herased : (if lower + wanted ∈ S then lower + wanted else pick) ∈ S := by
      split
      · assumption
      · exact hS
     have hsub : S.erase (if lower + wanted ∈ S then lower + wanted else pick) ⊆ Finset.range
      (lower + wanted) := by
      intro x hx
      obtain ⟨hne, hxS⟩ := Finset.mem_erase.mp hx
      have hlt := Finset.mem_range.mp (hbelow hxS)
      refine Finset.mem_range.mpr (lt_of_le_of_ne (by omega) ?_)
      rintro rfl
      exact hne (if_pos hxS).symm
     rw [← ih _ hsub (by rw [Finset.card_erase_of_mem herased, hcard]; rfl)]
     exact ways_congr _ _ _ fun picks hpicks => (hstep picks hpicks).trans (and_iff_right hS)
   · next hS => exact ways_of_forall_not _ _ fun picks hpicks heq => hS ((hstep picks hpicks).mp heq).1
  rw [Finset.sum_congr rfl hlast, Finset.sum_ite_mem,
   Finset.inter_eq_right.mpr (show S ⊆ Finset.range (lower + wanted + 1) from hbelow),
   Finset.sum_const, hcard, smul_eq_mul]
  rfl

theorem nodup_randomOffsets (count size : ℕ) (picks : List ℕ) :
  (randomOffsets count size picks).Nodup :=
 (List.mergeSort_perm _ _).nodup_iff.mpr (nodup_pickOffsets _ _ _)

theorem toFinset_randomOffsets (count size : ℕ) (picks : List ℕ) :
  (randomOffsets count size picks).toFinset =
   (pickOffsets (count - min size count) (min size count) picks).toFinset :=
 List.toFinset_eq_of_perm _ _ (List.mergeSort_perm _ _)

theorem sorted_randomOffsets (count size : ℕ) (picks : List ℕ) :
  (randomOffsets count size picks).Pairwise (· < ·) := by
 have hle : (randomOffsets count size picks).Pairwise (· ≤ ·) := by
  have hsorted :=
   @List.pairwise_mergeSort ℕ (fun a b => decide (a ≤ b)) (fun a b c hab hbc => by simp at *; omega)
   (fun a b => by simp; omega) (pickOffsets (count - min size count) (min size count) picks)
  exact hsorted.imp fun h => of_decide_eq_true h
 exact (hle.and (nodup_randomOffsets count size picks)).imp fun h => lt_of_le_of_ne h.1 h.2

theorem randomOffsets_below (count size : ℕ) (picks : List ℕ)
  (h : picks ∈ choices (offsetBounds count size)) :
  (∀ offset ∈ randomOffsets count size picks, offset < count) ∧
   (randomOffsets count size picks).length = min size count := by
 have hle : min size count ≤ count := Nat.min_le_right _ _
 obtain ⟨hbelow, hcard⟩ := picked_below _ _ picks h
 rw [Nat.sub_add_cancel hle, ← toFinset_randomOffsets] at hbelow
 rw [← toFinset_randomOffsets, List.toFinset_card_of_nodup (nodup_randomOffsets count size picks)] at hcard
 exact ⟨fun offset hmem => Finset.mem_range.mp (hbelow (List.mem_toFinset.mpr hmem)), hcard⟩

theorem ways_randomOffsets (count size : ℕ) (S : Finset ℕ) (hbelow : S ⊆ Finset.range count)
  (hcard : S.card = min size count) :
  ways (offsetBounds count size) (fun picks => (randomOffsets count size picks).toFinset = S) =
   (min size count).factorial := by
 have hle : min size count ≤ count := Nat.min_le_right _ _
 have hways :=
  ways_pickOffsets (count - min size count) (min size count) S (by rwa [Nat.sub_add_cancel hle]) hcard
 simp only [toFinset_randomOffsets]
 exact hways

end Offsets

section Shuffles

variable {α β : Type}

/-- The items as they are drawn, each from those left in the order the draws before left them. -/
def drawn : List α → List ℕ → List α
  | _, [] => []
  | rest, pick :: picks =>
    match swap rest 0 pick with
    | [] => []
    | item :: rest => item :: drawn rest picks

theorem swap_perm (pool : List α) (i j : ℕ) : (swap pool i j).Perm pool := by
 unfold swap
 split
 · next a b hi hj =>
   obtain ⟨hilt, rfl⟩ := List.getElem?_eq_some_iff.mp hi
   obtain ⟨hjlt, rfl⟩ := List.getElem?_eq_some_iff.mp hj
   exact List.set_set_perm hilt hjlt
 · exact .refl _

theorem swap_append (done rest : List α) (pick : ℕ) :
  swap (done ++ rest) done.length (done.length + pick) = done ++ swap rest 0 pick := by
 have hget : ∀ i, (done ++ rest)[done.length + i]? = rest[i]? := fun i => by
  rw [List.getElem?_append_right (Nat.le_add_right _ _), Nat.add_sub_cancel_left]
 have hset : ∀ (xs : List α) i x, (done ++ xs).set (done.length + i) x = done ++ xs.set i x :=
  fun xs i x => by
  rw [List.set_append_right _ _ (Nat.le_add_right _ _), Nat.add_sub_cancel_left]
 have hzero := hget 0
 rw [Nat.add_zero] at hzero
 unfold swap
 rw [hget, hzero]
 cases h₀ : rest[0]? with
 | none => rfl
 | some a =>
  cases rest[pick]? with
  | none => rfl
  | some b =>
   have hfirst := hset rest 0 b
   rw [Nat.add_zero] at hfirst
   dsimp only
   rw [hfirst, hset]

theorem swap_map (f : α → β) (pool : List α) (i j : ℕ) :
  swap (pool.map f) i j = (swap pool i j).map f := by
 unfold swap
 rw [List.getElem?_map, List.getElem?_map]
 cases pool[i]? with
 | none => rfl
 | some a =>
  cases pool[j]? with
  | none => rfl
  | some b => simp [List.map_set]

theorem foldl_swap (done rest : List α) (picks : List ℕ) (h : picks.length ≤ rest.length) :
  ∃ left, ((List.range' done.length picks.length).zip picks).foldl
   (fun pool step => swap pool step.1 (step.1 + step.2)) (done ++ rest) =
   done ++ drawn rest picks ++ left ∧ (drawn rest picks).length = picks.length := by
 induction picks generalizing done rest with
 | nil => exact ⟨rest, by simp [drawn], rfl⟩
 | cons pick picks ih =>
  have hlength := (swap_perm rest 0 pick).length_eq
  cases hswap : swap rest 0 pick with
  | nil =>
   rw [hswap] at hlength
   simp only [List.length_nil, List.length_cons] at hlength h
   omega
  | cons item rest' =>
   rw [hswap] at hlength
   simp only [List.length_cons] at hlength h
   obtain ⟨left, hfold, hdrawn⟩ := ih (done ++ [item]) rest' (by omega)
   refine ⟨left, ?_, by simp [drawn, hswap, hdrawn]⟩
   rw [List.length_cons, List.range'_succ, List.zip_cons_cons, List.foldl_cons, swap_append, hswap]
   simp only [List.length_append, List.length_singleton, List.append_assoc, List.singleton_append] at hfold
   simpa [drawn, hswap] using hfold

theorem sampleBounds_length (length size : ℕ) :
  (sampleBounds length size).length = sampleSize size length := by
 rw [sampleBounds, List.length_map, List.length_range']

theorem sample_eq_drawn (items : List α) (size : ℕ) (picks : List ℕ)
  (h : picks.length = sampleSize size items.length) :
  sampleWithoutReplacement items size picks = drawn items picks ∧
   (drawn items picks).length = sampleSize size items.length := by
 obtain ⟨left, hfold, hlength⟩ := foldl_swap [] items picks (h ▸ Nat.min_le_right _ _)
 rw [List.nil_append, List.nil_append, List.length_nil, h] at hfold
 refine ⟨?_, hlength.trans h⟩
 unfold sampleWithoutReplacement
 dsimp only
 rw [hfold, List.take_append_of_le_length (by rw [hlength, h]),
  List.take_of_length_le (by rw [hlength, h])]

theorem sample_map (f : α → β) (items : List α) (size : ℕ) (picks : List ℕ) :
  sampleWithoutReplacement (items.map f) size picks =
   (sampleWithoutReplacement items size picks).map f := by
 unfold sampleWithoutReplacement
 dsimp only
 rw [List.length_map, List.map_take]
 congr 1
 generalize (List.range' 0 (sampleSize size items.length)).zip picks = steps
 induction steps generalizing items with
 | nil => rfl
 | cons step steps ih => rw [List.foldl_cons, List.foldl_cons, swap_map, ih]

theorem foldl_swap_perm (items : List α) (steps : List (ℕ × ℕ)) :
  (steps.foldl (fun pool step => swap pool step.1 (step.1 + step.2)) items).Perm items := by
 induction steps generalizing items with
 | nil => exact .refl _
 | cons step steps ih => exact (ih _).trans (swap_perm _ _ _)

theorem sample_perm (items : List α) (size : ℕ) (picks : List ℕ) :
  ∃ left, (sampleWithoutReplacement items size picks ++ left).Perm items := by
 have hpool := foldl_swap_perm items ((List.range' 0 (sampleSize size items.length)).zip picks)
 refine ⟨(((List.range' 0 (sampleSize size items.length)).zip picks).foldl
  (fun pool step => swap pool step.1 (step.1 + step.2)) items).drop
  (sampleSize size items.length), ?_⟩
 unfold sampleWithoutReplacement
 dsimp only
 rw [List.take_append_drop]
 exact hpool

theorem sample_length (items : List α) (size : ℕ) (picks : List ℕ) :
  (sampleWithoutReplacement items size picks).length = min size items.length := by
 unfold sampleWithoutReplacement
 dsimp only
 rw [List.length_take, (foldl_swap_perm _ _).length_eq, sampleSize, min_eq_left (Nat.min_le_right _ _)]

theorem swap_head (rest : List α) (pick : ℕ) (item : α) (hpick : rest[pick]? = some item) :
  ∃ rest', swap rest 0 pick = item :: rest' := by
 cases rest with
 | nil => cases hpick
 | cons first rest =>
  cases pick with
  | zero =>
   refine ⟨rest, ?_⟩
   rw [swap, hpick]
   rfl
  | succ pick =>
   refine ⟨rest.set pick first, ?_⟩
   rw [swap, hpick]
   rfl

theorem ways_drawn [DecidableEq α] (rest target : List α) (hrest : rest.Nodup)
  (htarget : target.Nodup) (hsub : target ⊆ rest) :
  ways ((List.range' 0 target.length).map (rest.length - ·))
   (fun picks => drawn rest picks = target) = 1 := by
 induction target generalizing rest with
 | nil =>
  have hways := ways_nil fun picks => drawn rest picks = []
  rw [if_pos (by simp [drawn])] at hways
  exact hways
 | cons item target ih =>
  obtain ⟨hfresh, hnodup⟩ := List.nodup_cons.mp htarget
  obtain ⟨place, hplace, hitem⟩ := List.getElem_of_mem (hsub List.mem_cons_self)
  have hget : rest[place]? = some item := List.getElem?_eq_some_iff.mpr ⟨hplace, hitem⟩
  have hbounds : (List.range' 0 (target.length + 1)).map (rest.length - ·) =
    rest.length :: (List.range' 0 target.length).map (rest.length - 1 - ·) := by
   rw [List.range'_succ, List.map_cons, Nat.sub_zero, List.range'_eq_map_range,
    List.range'_eq_map_range, List.map_map, List.map_map]
   refine congrArg _ (List.map_congr_left fun i _ => ?_)
   simp only [Function.comp_apply]
   omega
  have hchoice : ∀ pick ∈ Finset.range rest.length,
    ways ((List.range' 0 target.length).map (rest.length - 1 - ·))
     (fun picks => drawn rest (pick :: picks) = item :: target) =
     if pick = place then 1 else 0 := by
   intro pick hpick
   have hlt := Finset.mem_range.mp hpick
   obtain ⟨rest', hswap⟩ := swap_head rest pick rest[pick] (List.getElem?_eq_getElem hlt)
   have hperm := hswap ▸ swap_perm rest 0 pick
   have hlength : rest'.length = rest.length - 1 := by
    rw [← hperm.length_eq]
    rfl
   have hdrawn : ∀ picks, drawn rest (pick :: picks) = rest[pick] :: drawn rest' picks := fun picks => by
    rw [drawn, hswap]
   split
   · next heq =>
     subst heq
     obtain ⟨-, hrest'⟩ := List.nodup_cons.mp (hperm.nodup_iff.mpr hrest)
     have hsub' : target ⊆ rest' := by
      intro x hx
      have hmem := hperm.mem_iff.mpr (hsub (List.mem_cons_of_mem _ hx))
      rw [hitem] at hmem
      exact (List.mem_cons.mp hmem).resolve_left fun h => hfresh (h ▸ hx)
     have hone := ih rest' hrest' hnodup hsub'
     rw [hlength] at hone
     refine (ways_congr _ _ _ fun picks _ => ?_).trans hone
     rw [hdrawn, hitem]
     exact ⟨fun h => (List.cons.inj h).2, fun h => by rw [h]⟩
   · next hne =>
     refine ways_of_forall_not _ _ fun picks _ heq => hne ?_
     rw [hdrawn] at heq
     exact (hrest.getElem_inj_iff).mp ((List.cons.inj heq).1.trans hitem.symm)
  rw [List.length_cons, hbounds, ways_cons, Finset.sum_congr rfl hchoice, Finset.sum_ite_eq',
   if_pos (Finset.mem_range.mpr hplace)]

theorem ways_sample [DecidableEq α] (items target : List α) (size : ℕ) (hitems : items.Nodup)
  (htarget : target.Nodup)
  (hsub : target ⊆ items) (hlength : target.length = min size items.length) :
  ways (sampleBounds items.length size)
   (fun picks => sampleWithoutReplacement items size picks = target) = 1 := by
 have hdrawn := ways_drawn items target hitems htarget hsub
 rw [hlength] at hdrawn
 rw [← hdrawn]
 refine ways_congr _ _ _ fun picks hpicks => ?_
 have hpicks := (length_of_mem_choices hpicks).trans (sampleBounds_length _ _)
 rw [(sample_eq_drawn items size picks hpicks).1]

end Shuffles

end BoardGamesEmpire.RandomSample
