import BoardGamesEmpire.RandomSample

set_option autoImplicit false

/-!
# Samples of a set read row by row

`sampleByOffsets` over a fixed ordered set and over one that shrinks between its
reads, and with it what every sampler answers.
-/
namespace BoardGamesEmpire.RandomSample
open UniformChoices

section Sets

variable {α : Type} [DecidableEq α]

/-- The rows left from the place of `after` on, its own place first whether or not
    it is left; all of them in the absence of `after`. -/
def placesFrom (rows left : List α) : Option α → List α
  | none => left
  | some row => row :: left.filter fun other => rows.idxOf row < rows.idxOf other

structure OrderedSet (α : Type) where
  rows : List α
  nodup : rows.Nodup

/-- `readAt` over a set that does not change. -/
def OrderedSet.readAt (set : OrderedSet α) (_read skip : ℕ) (after : Option α) :
    Option α := (placesFrom set.rows set.rows after)[skip]?

/-- A set that only loses rows from one read to the next; a read answers the row
    it asks for, or none. -/
structure ShrinkingSet (α : Type) [DecidableEq α] extends OrderedSet α where
  left : ℕ → List α
  left_start : (left 0).Sublist rows
  left_step : ∀ read, (left (read + 1)).Sublist (left read)
  readAt : (read skip : ℕ) → (after : Option α) → Option α
  readAt_place : ∀ read skip after row, readAt read skip after = some row →
   (placesFrom rows (left read) after)[skip]? = some row

-- Three rows, of which the first is gone after the first read.
example : ShrinkingSet ℕ where
  rows := [3, 1, 2]
  nodup := by decide
  left read := if read = 0 then [3, 1, 2] else [1, 2]
  left_start := by decide
  left_step read := by
    rw [if_neg (Nat.succ_ne_zero read)]
    split <;> decide
  readAt read skip after := (placesFrom [3, 1, 2] (if read = 0 then [3, 1, 2] else [1, 2]) after)[skip]?
  readAt_place _ _ _ _ h := h

theorem placesFrom_eq_drop (rows : List α) (hrows : rows.Nodup) (i : ℕ) (hi : i < rows.length) :
  placesFrom rows rows (some rows[i]) = rows.drop i := by
 have hidx : ∀ (j : ℕ) (hj : j < rows.length), rows.idxOf rows[j] = j :=
  fun j hj => hrows.idxOf_getElem j hj
 have hsplit : rows.filter (fun other => rows.idxOf rows[i] < rows.idxOf other) =
   (rows.take (i + 1) ++ rows.drop (i + 1)).filter fun other => rows.idxOf rows[i] < rows.idxOf other := by
  rw [List.take_append_drop]
 have hbefore : (rows.take (i + 1)).filter (fun other => rows.idxOf rows[i] < rows.idxOf other) = [] := by
  refine List.filter_eq_nil_iff.mpr fun other hmem => ?_
  obtain ⟨j, hj, rfl⟩ := List.getElem_of_mem hmem
  rw [List.length_take] at hj
  rw [List.getElem_take, hidx i hi, hidx j (by omega)]
  simp
  omega
 have hafter : (rows.drop (i + 1)).filter (fun other => rows.idxOf rows[i] < rows.idxOf other)
  = rows.drop (i + 1) := by
  refine List.filter_eq_self.mpr fun other hmem => ?_
  obtain ⟨j, hj, rfl⟩ := List.getElem_of_mem hmem
  rw [List.length_drop] at hj
  rw [List.getElem_drop, hidx i hi, hidx _ (by omega)]
  simp
  omega
 rw [placesFrom, hsplit, List.filter_append, hbefore, hafter, List.nil_append,
  List.drop_eq_getElem_cons hi]

end Sets

section Rows

variable {α : Type}

theorem sample_all_perm (items : List α) (picks : List ℕ) :
  (sampleWithoutReplacement items items.length picks).Perm items := by
 obtain ⟨left, hperm⟩ := sample_perm items items.length picks
 have hlength := hperm.length_eq
 rw [List.length_append, sample_length, min_self, Nat.add_eq_left, List.length_eq_zero_iff] at hlength
 rwa [hlength, List.append_nil] at hperm

variable (set : OrderedSet α)

def rowsAt (size : ℕ) (picks : List ℕ) :
    List α := (randomOffsets set.rows.length size picks).filterMap (set.rows[·]?)

theorem rowsAt_length (size : ℕ) (picks : List ℕ)
  (h : picks ∈ choices (offsetBounds set.rows.length size)) :
  (rowsAt set size picks).length = min size set.rows.length := by
 obtain ⟨hbelow, hlength⟩ := randomOffsets_below _ _ picks h
 rw [rowsAt, List.length_filterMap_eq_countP, ← hlength, List.countP_eq_length]
 intro offset hoffset
 rw [List.getElem?_eq_getElem (hbelow offset hoffset)]
 rfl

theorem rowsAt_nodup (size : ℕ) (picks : List ℕ) : (rowsAt set size picks).Nodup := by
 refine (nodup_randomOffsets _ _ picks).filterMap fun i j row hi hj => ?_
 obtain ⟨hilt, hi⟩ := List.getElem?_eq_some_iff.mp hi
 obtain ⟨hjlt, hj⟩ := List.getElem?_eq_some_iff.mp hj
 exact (set.nodup.getElem_inj_iff).mp (hi.trans hj.symm)

end Rows

section Fixed

variable {α : Type} [DecidableEq α] (set : OrderedSet α)

theorem readOffsets_from (found : List α) (reached : ℕ) (hreached : reached < set.rows.length)
  (hlast : found.getLast? = some set.rows[reached]) (offsets : List ℕ)
  (hsorted : (reached :: offsets).Pairwise (· < ·))
  (hbelow : ∀ offset ∈ offsets, offset < set.rows.length) :
  readOffsets set.readAt found reached offsets = found ++ offsets.filterMap (set.rows[·]?) := by
 induction offsets generalizing found reached with
 | nil => simp [readOffsets]
 | cons offset offsets ih =>
  obtain ⟨hfirst, hrest⟩ := List.pairwise_cons.mp hsorted
  have hlt := hfirst offset List.mem_cons_self
  have hoffset := hbelow offset List.mem_cons_self
  have hread : set.readAt found.length (offset - reached) found.getLast? = some set.rows[offset] := by
   rw [OrderedSet.readAt, hlast, placesFrom_eq_drop _ set.nodup _ hreached, List.getElem?_drop,
    Nat.add_sub_cancel' hlt.le,
    List.getElem?_eq_getElem hoffset]
  rw [readOffsets, hread]
  dsimp only
  rw [ih (found ++ [set.rows[offset]]) offset hoffset List.getLast?_concat hrest fun o ho =>
   hbelow o (List.mem_cons_of_mem _ ho),
   List.filterMap_cons_some (List.getElem?_eq_getElem hoffset), List.append_assoc, List.singleton_append]

theorem readOffsets_all (offsets : List ℕ) (hsorted : offsets.Pairwise (· < ·))
  (hbelow : ∀ offset ∈ offsets, offset < set.rows.length) :
  readOffsets set.readAt [] 0 offsets = offsets.filterMap (set.rows[·]?) := by
 cases offsets with
 | nil => rfl
 | cons offset offsets =>
  have hoffset := hbelow offset List.mem_cons_self
  have hread : set.readAt ([] : List α).length (offset - 0) ([] : List α).getLast? = some
   set.rows[offset] :=
   List.getElem?_eq_getElem hoffset
  have hfrom :=
   readOffsets_from set ([] ++ [set.rows[offset]]) offset hoffset List.getLast?_concat offsets hsorted
   fun o ho => hbelow o (List.mem_cons_of_mem _ ho)
  rw [readOffsets, hread]
  dsimp only
  rw [hfrom, List.filterMap_cons_some (List.getElem?_eq_getElem hoffset)]
  rfl

theorem mem_rowsAt (size : ℕ) (picks : List ℕ) (row : α) (hrow : row ∈ set.rows) :
  row ∈ rowsAt set size picks ↔ set.rows.idxOf row ∈ randomOffsets set.rows.length size picks := by
 have hplace : set.rows[set.rows.idxOf row]? = some row :=
  List.getElem?_eq_some_iff.mpr ⟨List.idxOf_lt_length_of_mem hrow, List.getElem_idxOf _⟩
 rw [rowsAt, List.mem_filterMap]
 constructor
 · rintro ⟨offset, hmem, hoffset⟩
   obtain ⟨hlt, rfl⟩ := List.getElem?_eq_some_iff.mp hoffset
   rwa [set.nodup.idxOf_getElem]
 · intro hmem
   exact ⟨_, hmem, hplace⟩

theorem sampleByOffsets_eq (size : ℕ) (picks shuffles : List ℕ)
  (h : picks ∈ choices (offsetBounds set.rows.length size)) :
  sampleByOffsets set.rows.length size set.readAt picks shuffles =
   sampleWithoutReplacement (rowsAt set size picks) (rowsAt set size picks).length shuffles := by
 rw [sampleByOffsets, readOffsets_all set _ (sorted_randomOffsets _ _ picks)
  (randomOffsets_below _ _ picks h).1]
 rfl

theorem ways_shuffles (size : ℕ) (picks : List ℕ)
  (h : picks ∈ choices (offsetBounds set.rows.length size)) (sample : List α)
  (hnodup : sample.Nodup) (hsub : sample ⊆ set.rows)
  (hlength : sample.length = min size set.rows.length) :
  ways (sampleBounds (min size set.rows.length) (min size set.rows.length))
    (fun shuffles => sampleByOffsets set.rows.length size set.readAt picks shuffles = sample) =
   if (randomOffsets set.rows.length size picks).toFinset =
    (sample.map set.rows.idxOf).toFinset then 1 else 0 := by
 simp only [sampleByOffsets_eq set size picks _ h]
 rw [← rowsAt_length set size picks h]
 split
 · next heq =>
   refine ways_sample _ sample _ (rowsAt_nodup set size picks) hnodup (fun row hrow => ?_) ?_
   · have hplace : set.rows.idxOf row ∈ (sample.map set.rows.idxOf).toFinset :=
      List.mem_toFinset.mpr (List.mem_map_of_mem hrow)
     rw [← heq, List.mem_toFinset] at hplace
     exact (mem_rowsAt set size picks row (hsub hrow)).mpr hplace
   · rw [min_self, rowsAt_length set size picks h, hlength]
 · next hne =>
   refine ways_of_forall_not _ _ fun shuffles _ heq => hne ?_
   have hperm := sample_all_perm (rowsAt set size picks) shuffles
   rw [heq] at hperm
   ext offset
   rw [List.mem_toFinset, List.mem_toFinset, List.mem_map]
   constructor
   · intro hoffset
     have hlt := (randomOffsets_below _ _ picks h).1 offset hoffset
     have hplace := set.nodup.idxOf_getElem offset hlt
     have hrow := (mem_rowsAt set size picks set.rows[offset] (List.getElem_mem hlt)).mpr (by rwa [hplace])
     exact ⟨_, hperm.mem_iff.mpr hrow, hplace⟩
   · rintro ⟨row, hrow, rfl⟩
     exact (mem_rowsAt set size picks row (hsub hrow)).mp (hperm.mem_iff.mp hrow)

theorem card_samples (size : ℕ) (sample : List α) (hnodup : sample.Nodup) (hsub : sample ⊆ set.rows)
  (hlength : sample.length = min size set.rows.length) :
  ((choices (offsetBounds set.rows.length size) ×ˢ choices
   (sampleBounds (min size set.rows.length) (min size set.rows.length))).filter
   fun v => sampleByOffsets set.rows.length size set.readAt v.1 v.2 = sample).card =
    (min size set.rows.length).factorial := by
 have hplaces : (sample.map set.rows.idxOf).toFinset ⊆ Finset.range set.rows.length := by
  intro place hplace
  obtain ⟨row, hrow, rfl⟩ := List.mem_map.mp (List.mem_toFinset.mp hplace)
  exact Finset.mem_range.mpr (List.idxOf_lt_length_of_mem (hsub hrow))
 have hcard : (sample.map set.rows.idxOf).toFinset.card = min size set.rows.length := by
  rw [List.toFinset_card_of_nodup, List.length_map, hlength]
  refine List.Nodup.map_on (fun row hrow other hother heq => ?_) hnodup
  exact List.idxOf_inj (hsub hrow) |>.mp heq
 refine (card_pairs _ _ fun picks shuffles => sampleByOffsets set.rows.length size set.readAt picks
  shuffles = sample).trans ?_
 rw [Finset.sum_congr rfl fun picks hpicks => ways_shuffles set size picks hpicks sample hnodup hsub
  hlength, ← Finset.card_filter]
 exact ways_randomOffsets _ _ _ hplaces hcard

end Fixed

section Shrinking

variable {α : Type} [DecidableEq α] (set : ShrinkingSet α)

theorem left_sublist (read : ℕ) : (set.left read).Sublist (set.left 0) := by
 induction read with
 | zero => exact .refl _
 | succ read ih => exact (set.left_step read).trans ih

def Ascending (found : List α) : Prop :=
  found.Pairwise (fun row other => set.rows.idxOf row < set.rows.idxOf other) ∧ found ⊆ set.left 0

theorem ascending_concat (found : List α) (skip : ℕ) (row : α) (hfound : Ascending set found)
  (hskip : found ≠ [] → 0 < skip) (hread : set.readAt found.length skip found.getLast? = some row) :
  Ascending set (found ++ [row]) := by
 have hplace := set.readAt_place _ _ _ _ hread
 have hleft := (left_sublist set found.length).subset
 cases hlast : found.getLast? with
 | none =>
  have hempty := List.getLast?_eq_none_iff.mp hlast
  rw [hlast] at hplace
  refine ⟨by simp [hempty], ?_⟩
  rw [hempty, List.nil_append]
  exact List.cons_subset.mpr ⟨hleft (List.mem_of_getElem? hplace), List.nil_subset _⟩
 | some last =>
  have hne : found ≠ [] := fun h => by simp [h] at hlast
  rw [hlast, placesFrom, List.getElem?_cons, if_neg (hskip hne).ne'] at hplace
  obtain ⟨hmem, hpast⟩ := List.mem_filter.mp (List.mem_of_getElem? hplace)
  have hpast := of_decide_eq_true hpast
  refine ⟨List.pairwise_append.mpr ⟨hfound.1, List.pairwise_singleton _ _, ?_⟩, ?_⟩
  · intro other hother new hnew
    obtain rfl := List.mem_singleton.mp hnew
    obtain ⟨before, hsplit⟩ := List.getLast?_eq_some_iff.mp hlast
    rw [hsplit] at hother hfound
    rcases List.mem_append.mp hother with hbefore | hlast
    · exact ((List.pairwise_append.mp hfound.1).2.2 other hbefore last
       (List.mem_singleton_self _)).trans hpast
    · obtain rfl := List.mem_singleton.mp hlast
      exact hpast
  · exact List.append_subset.mpr ⟨hfound.2, List.cons_subset.mpr ⟨hleft hmem, List.nil_subset _⟩⟩

theorem readOffsets_ascending (found : List α) (reached : ℕ) (offsets : List ℕ)
  (hfound : Ascending set found) (hsorted : offsets.Pairwise (· < ·))
  (hreached : found ≠ [] → ∀ offset ∈ offsets, reached < offset) :
  Ascending set (readOffsets set.readAt found reached offsets) ∧
   (readOffsets set.readAt found reached offsets).length ≤ found.length + offsets.length := by
 induction offsets generalizing found reached with
 | nil => exact ⟨hfound, le_rfl⟩
 | cons offset offsets ih =>
  obtain ⟨hfirst, hrest⟩ := List.pairwise_cons.mp hsorted
  rw [readOffsets]
  split
  · exact ⟨hfound, Nat.le_add_right _ _⟩
  · next row hread =>
    have hskip : found ≠ [] → 0 < offset - reached := fun hne =>
     Nat.sub_pos_of_lt (hreached hne offset List.mem_cons_self)
    have hnext := ascending_concat set found (offset - reached) row hfound hskip hread
    obtain ⟨hall, hlength⟩ := ih (found ++ [row]) offset hnext hrest fun _ => hfirst
    refine ⟨hall, hlength.trans ?_⟩
    rw [List.length_append, List.length_singleton, List.length_cons]
    omega

end Shrinking

section Uniform

/-- Every vector gives so many distinct offsets in order, and each set of them
    comes from as many vectors. -/
structure OffsetsUniform (count size : ℕ) : Prop where
  chosen : ∀ picks ∈ choices (offsetBounds count size),
   (randomOffsets count size picks).length = min size count ∧
    (randomOffsets count size picks).Pairwise (· < ·) ∧
     ∀ offset ∈ randomOffsets count size picks, offset < count
  uniform : ∃ n, ∀ S : Finset ℕ, S ⊆ Finset.range count → S.card = min size count →
    ways (offsetBounds count size) (fun picks => (randomOffsets count size picks).toFinset = S) = n

def samplePositions {α : Type} (items : List α) (size : ℕ) (picks : List ℕ) : List ℕ :=
  sampleWithoutReplacement (List.range items.length) size picks

structure SampleUniform {α : Type} (items : List α) (size : ℕ) : Prop where
  entries : ∀ picks ∈ choices (sampleBounds items.length size),
   (samplePositions items size picks).length = min size items.length ∧
    (samplePositions items size picks).Nodup ∧
     (∀ position ∈ samplePositions items size picks, position < items.length) ∧
      (sampleWithoutReplacement items size picks).map some = (samplePositions items size picks).map
       (items[·]?)
  uniform : ∃ n, ∀ positions : List ℕ, positions.Nodup →
   (∀ position ∈ positions, position < items.length) →
    positions.length = min size items.length →
      ways (sampleBounds items.length size) (fun picks => samplePositions items size picks = positions) = n

structure RowsUniform {α : Type} [DecidableEq α] (set : OrderedSet α) (size : ℕ) : Prop where
  found : ∀ picks ∈ choices (offsetBounds set.rows.length size), ∀ shuffles : List ℕ,
    (sampleByOffsets set.rows.length size set.readAt picks shuffles).Nodup ∧
    (sampleByOffsets set.rows.length size set.readAt picks shuffles).length = min size set.rows.length ∧
      ∀ row, row ∈ sampleByOffsets set.rows.length size set.readAt picks shuffles ↔
        ∃ offset ∈ randomOffsets set.rows.length size picks, set.rows[offset]? = some row
  uniform : ∃ n, ∀ sample : List α, sample.Nodup → sample ⊆ set.rows →
   sample.length = min size set.rows.length →
    ((choices (offsetBounds set.rows.length size) ×ˢ choices
     (sampleBounds (min size set.rows.length) (min size set.rows.length))).filter
      fun v => sampleByOffsets set.rows.length size set.readAt v.1 v.2 = sample).card = n

structure ShrunkSample {α : Type} [DecidableEq α] (set : ShrinkingSet α) (size : ℕ) : Prop where
  distinct : ∀ picks shuffles, (sampleByOffsets set.rows.length size set.readAt picks shuffles).Nodup
  rows : ∀ picks shuffles, sampleByOffsets set.rows.length size set.readAt picks shuffles ⊆ set.left 0
  most : ∀ picks ∈ choices (offsetBounds set.rows.length size), ∀ shuffles,
    (sampleByOffsets set.rows.length size set.readAt picks shuffles).length ≤ min size set.rows.length

theorem sampleUniform {α : Type} (items : List α) (size : ℕ) : SampleUniform items size := by
 constructor
 · intro picks _
   obtain ⟨left, hperm⟩ := sample_perm (List.range items.length) size picks
   have hmap := sample_map (items[·]?) (List.range items.length) size picks
   have hitems : (List.range items.length).map (items[·]?) = items.map some := by
    refine List.ext_getElem (by simp) fun i hi _ => ?_
    simp only [List.length_map, List.length_range] at hi
    simp [List.getElem?_eq_getElem hi]
   rw [hitems, sample_map] at hmap
   refine ⟨?_, ?_, ?_, hmap⟩
   · rw [samplePositions, sample_length, List.length_range]
   · exact (List.nodup_append.mp (hperm.nodup_iff.mpr List.nodup_range)).1
   · intro position hposition
     exact List.mem_range.mp (hperm.mem_iff.mp (List.mem_append_left _ hposition))
 · refine ⟨1, fun positions hnodup hbelow hlength => ?_⟩
   have hways := ways_sample (List.range items.length) positions size List.nodup_range hnodup
    (fun position hposition => List.mem_range.mpr (hbelow position hposition)) (by rwa [List.length_range])
   rwa [List.length_range] at hways

theorem rowsUniform {α : Type} [DecidableEq α] (set : OrderedSet α) (size : ℕ) :
  RowsUniform set size := by
 constructor
 · intro picks hpicks shuffles
   have hperm := sample_all_perm (rowsAt set size picks) shuffles
   rw [← sampleByOffsets_eq set size picks shuffles hpicks] at hperm
   refine ⟨hperm.nodup_iff.mpr (rowsAt_nodup set size picks),
    hperm.length_eq.trans (rowsAt_length set size picks hpicks), fun row => ?_⟩
   rw [hperm.mem_iff, rowsAt, List.mem_filterMap]
 · exact ⟨_, fun sample hnodup hsub hlength => card_samples set size sample hnodup hsub hlength⟩

theorem shrunkSample {α : Type} [DecidableEq α] (set : ShrinkingSet α) (size : ℕ) :
  ShrunkSample set size := by
 have hread : ∀ picks,
  Ascending set (readOffsets set.readAt [] 0 (randomOffsets set.rows.length size picks)) ∧
   (readOffsets set.readAt [] 0 (randomOffsets set.rows.length size picks)).length ≤
    0 + (randomOffsets set.rows.length size picks).length :=
  fun picks => readOffsets_ascending set [] 0 _ ⟨.nil, List.nil_subset _⟩
   (sorted_randomOffsets _ _ picks) fun h => absurd rfl h
 have hperm : ∀ picks shuffles, (sampleByOffsets set.rows.length size set.readAt picks shuffles).Perm
   (readOffsets set.readAt [] 0 (randomOffsets set.rows.length size picks)) := fun picks shuffles =>
    sample_all_perm _ shuffles
 constructor
 · intro picks shuffles
   refine (hperm picks shuffles).nodup_iff.mpr ((hread picks).1.1.imp fun hlt heq => ?_)
   rw [heq] at hlt
   exact lt_irrefl _ hlt
 · intro picks shuffles row hrow
   exact (hread picks).1.2 ((hperm picks shuffles).mem_iff.mp hrow)
 · intro picks hpicks shuffles
   have hlength := (hread picks).2
   rw [Nat.zero_add, (randomOffsets_below _ _ picks hpicks).2] at hlength
   exact (hperm picks shuffles).length_eq.trans_le hlength

/-- Every sampler is uniform over its vectors of choices, and a set that shrinks
    under the reads costs rows, never distinctness. -/
theorem samples_uniform {α : Type} [DecidableEq α] (count size : ℕ) (items : List α)
  (set : OrderedSet α) (shrinking : ShrinkingSet α) :
    OffsetsUniform count size ∧ SampleUniform items size ∧ RowsUniform set size ∧
     ShrunkSample shrinking size := by
 refine ⟨⟨fun picks hpicks => ?_, _, fun S hbelow hcard =>
  ways_randomOffsets count size S hbelow hcard⟩, sampleUniform items size,
  rowsUniform set size, shrunkSample shrinking size⟩
 obtain ⟨hbelow, hlength⟩ := randomOffsets_below count size picks hpicks
 exact ⟨hlength, sorted_randomOffsets count size picks, hbelow⟩

end Uniform

end BoardGamesEmpire.RandomSample
