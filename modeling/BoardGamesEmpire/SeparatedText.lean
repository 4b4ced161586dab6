import BoardGamesEmpire.JsText

set_option autoImplicit false

/-!
# Texts as pieces between separators

A text is the list of its pieces between one separator. Concatenation, the cut
after the last separator and the cut at the first doubled one are read on that
list: a doubled separator is an empty piece inside it.
-/
namespace BoardGamesEmpire.SeparatedText
open JsText

section Pieces

variable {c : Char} {s t : Text} {q : List Text} {p : Text}

theorem concat_inj {q' : List Text} {p' : Text} (h : q ++ [p] = q' ++ [p']) : q = q' ∧ p = p' := by
 obtain ⟨hq, hp⟩ := List.append_inj' h rfl
 exact ⟨hq, by simpa using hp⟩

theorem splitOn_concat (c : Char) (s : Text) : ∃ q p, s.splitOn c = q ++ [p] :=
 ⟨_, _, (List.dropLast_append_getLast (List.splitOn_ne_nil c s)).symm⟩

theorem join_splitOn (c : Char) (s : Text) :
  [c].intercalate (s.splitOn c) = s := List.intercalate_splitOn c

theorem splitOn_cons_self (c : Char) (s : Text) : (c :: s).splitOn c = [] :: s.splitOn c := by
 simpa using List.splitOn_append_cons_self (a := c) [] s

theorem splitOn_cons_ne {d : Char} (h : d ≠ c) {ps : List Text} (hs : s.splitOn c = p :: ps) :
  (d :: s).splitOn c = (d :: p) :: ps := by
 rw [List.splitOn_cons_eq_if_modifyHead, if_neg (by simpa using h), hs, List.modifyHead_cons]

theorem not_mem_piece (h : p ∈ s.splitOn c) : c ∉ p := by
 induction s generalizing p with
 | nil =>
  rw [List.splitOn_nil, List.mem_singleton] at h
  rw [h]
  exact List.not_mem_nil
 | cons d s ih =>
  obtain ⟨first, rest, hs⟩ := List.exists_cons_of_ne_nil (List.splitOn_ne_nil c s)
  by_cases hd : d = c
  · rw [hd, splitOn_cons_self] at h
    rcases List.mem_cons.1 h with rfl | h
    · exact List.not_mem_nil
    · exact ih h
  · rw [splitOn_cons_ne hd hs] at h
    rcases List.mem_cons.1 h with rfl | h
    · have hfirst : c ∉ first := ih (hs ▸ List.mem_cons_self)
      rw [List.mem_cons, not_or]
      exact ⟨Ne.symm hd, hfirst⟩
    · exact ih (hs ▸ List.mem_cons_of_mem _ h)

theorem mem_of_piece {d : Char} (h : p ∈ s.splitOn c) (hd : d ∈ p) : d ∈ s := by
 induction s generalizing p with
 | nil =>
  rw [List.splitOn_nil, List.mem_singleton] at h
  rw [h] at hd
  exact absurd hd List.not_mem_nil
 | cons e s ih =>
  obtain ⟨first, rest, hs⟩ := List.exists_cons_of_ne_nil (List.splitOn_ne_nil c s)
  by_cases he : e = c
  · rw [he, splitOn_cons_self] at h
    rcases List.mem_cons.1 h with rfl | h
    · exact absurd hd List.not_mem_nil
    · exact List.mem_cons_of_mem _ (ih h hd)
  · rw [splitOn_cons_ne he hs] at h
    rcases List.mem_cons.1 h with rfl | h
    · rcases List.mem_cons.1 hd with rfl | hd
      · exact List.mem_cons_self
      · exact List.mem_cons_of_mem _ (ih (hs ▸ List.mem_cons_self) hd)
    · exact List.mem_cons_of_mem _ (ih (hs ▸ List.mem_cons_of_mem _ h) hd)

theorem mem_piece {d : Char} (h : d ∈ s) : d = c ∨ ∃ p ∈ s.splitOn c, d ∈ p := by
 rw [← join_splitOn c s] at h
 exact mem_join h

theorem splitOn_cases (c : Char) (s : Text) : (c ∉ s ∧ s.splitOn c = [s]) ∨
  (c ∈ s ∧ ∃ p q e, s.splitOn c = p :: (q ++ [e])) := by
 by_cases hmem : c ∈ s
 · refine .inr ⟨hmem, ?_⟩
   obtain ⟨p, rest, hs⟩ := List.exists_cons_of_ne_nil (List.splitOn_ne_nil c s)
   cases rest using List.reverseRecOn with
   | nil =>
    have hp : c ∉ p := not_mem_piece (hs ▸ List.mem_cons_self)
    have hjoin : s = p := by
     rw [← join_splitOn c s, hs, List.intercalate_singleton]
    exact absurd (hjoin ▸ hmem) hp
   | append_singleton q e => exact ⟨p, q, e, hs⟩
 · exact .inl ⟨hmem, splitOn_absent hmem⟩

theorem splitOn_append {ps : List Text} {first : Text} (hs : s.splitOn c = q ++ [p])
  (ht : t.splitOn c = first :: ps) :
  (s ++ t).splitOn c = q ++ (p ++ first) :: ps := by
 induction s generalizing q p with
 | nil =>
  rw [List.splitOn_nil] at hs
  have hnil : [] ++ [[]] = q ++ [p] := hs
  obtain ⟨rfl, rfl⟩ := concat_inj hnil
  simpa using ht
 | cons d s ih =>
  by_cases hd : d = c
  · rw [hd, splitOn_cons_self] at hs
    rw [hd, List.cons_append, splitOn_cons_self]
    cases q with
    | nil =>
     simp only [List.nil_append, List.cons.injEq] at hs
     exact absurd hs.2 (List.splitOn_ne_nil c s)
    | cons first' q =>
     rw [List.cons_append, List.cons.injEq] at hs
     rw [ih hs.2, ← hs.1, List.cons_append]
  · obtain ⟨first', rest, hs'⟩ := List.exists_cons_of_ne_nil (List.splitOn_ne_nil c s)
    rw [splitOn_cons_ne hd hs'] at hs
    rw [List.cons_append]
    cases q with
    | nil =>
     rw [List.nil_append, List.cons.injEq] at hs
     obtain ⟨rfl, rfl⟩ := hs
     have hrest := ih (q := []) (p := first') (by rw [hs', List.nil_append])
     exact splitOn_cons_ne hd hrest
    | cons second q =>
     rw [List.cons_append, List.cons.injEq] at hs
     obtain ⟨rfl, rfl⟩ := hs
     have hrest := ih (q := first' :: q) (p := p) (by rw [hs', List.cons_append])
     rw [splitOn_cons_ne hd hrest]
     rfl

theorem cutLast (c : Char) (s : Text) : s = throughLast c s ++ afterLast c s ∧ c ∉ afterLast c s ∧
  (throughLast c s = [] ∨ ∃ u, throughLast c s = u ++ [c]) := by
 refine ⟨?_, fun h => ?_, ?_⟩
 · rw [throughLast, afterLast, ← List.reverse_append, List.takeWhile_append_dropWhile,
    List.reverse_reverse]
 · rw [afterLast, List.mem_reverse] at h
   simpa using List.mem_takeWhile_imp h
 · rw [throughLast]
   cases hrest : s.reverse.dropWhile (· ≠ c) with
   | nil => exact .inl rfl
   | cons d rest =>
    right
    have hd : (decide (d ≠ c)) ≠ true := by
     have hhead := List.head?_dropWhile_not (fun x => decide (x ≠ c)) s.reverse
     rw [hrest] at hhead
     simp at hhead
     simp [hhead]
    obtain rfl : d = c := by simpa using hd
    exact ⟨rest.reverse, by simp⟩

theorem splitOn_cutLast (hs : s.splitOn c = q ++ [p]) :
  afterLast c s = p ∧ ∀ t : Text, (throughLast c s ++ t).splitOn c = q ++ t.splitOn c := by
 obtain ⟨hcut, hfree, hthrough⟩ := cutLast c s
 rcases hthrough with hnil | ⟨u, hu⟩
 · rw [hnil, List.nil_append] at hcut
   rw [hcut, splitOn_absent hfree] at hs
   have hone : [] ++ [afterLast c s] = q ++ [p] := hs
   obtain ⟨hq, hp⟩ := concat_inj hone
   refine ⟨hp, fun t => ?_⟩
   rw [hnil, ← hq]
   rfl
 · have hpieces : s.splitOn c = u.splitOn c ++ [afterLast c s] := by
    rw [← splitOn_absent hfree, ← List.splitOn_append_cons_self]
    congr 1
    rw [← List.singleton_append, ← List.append_assoc, ← hu]
    exact hcut
   obtain ⟨hq, hp⟩ := concat_inj (hpieces.symm.trans hs)
   refine ⟨hp, fun t => ?_⟩
   rw [hu, List.append_assoc, List.singleton_append, List.splitOn_append_cons_self, hq]

theorem append_sep_inj {s' t' : Text} (ht : c ∉ t) (ht' : c ∉ t') (h : s ++ c :: t = s' ++ c :: t') :
  s = s' ∧ t = t' := by
 rcases List.append_eq_append_iff.1 h with ⟨x, hs, hx⟩ | ⟨x, hs, hx⟩
 · cases x with
   | nil => exact ⟨by simpa using hs.symm, (List.cons.inj hx).2⟩
   | cons d x => exact absurd (by rw [(List.cons.inj hx).2]; simp) ht
 · cases x with
   | nil => exact ⟨by simpa using hs, ((List.cons.inj hx).2).symm⟩
   | cons d x => exact absurd (by rw [(List.cons.inj hx).2]; simp) ht'

end Pieces

section Gap

/-- The pieces left and right of the first empty piece inside the list. -/
def gap : List Text → Option (List Text × List Text)
  | [] => none
  | [_] => none
  | p :: piece :: rest =>
    if piece = [] ∧ rest ≠ [] then some ([p], rest) else (gap (piece :: rest)).map fun cut =>
     (p :: cut.1, cut.2)

variable {c : Char} {ps l r : List Text}

theorem gap_spec (h : gap ps = some (l, r)) :
  ps = l ++ [] :: r ∧ l ≠ [] ∧ r ≠ [] ∧ [] ∉ l.tail := by
 induction ps generalizing l with
 | nil => cases h
 | cons p ps ih =>
  cases ps with
  | nil => cases h
  | cons piece rest =>
   rw [gap] at h
   split at h
   · next hempty =>
     obtain ⟨rfl, rfl⟩ : [p] = l ∧ rest = r := by simpa using h
     exact ⟨by simp [hempty.1], by simp, hempty.2, by simp⟩
   · next hfull =>
     obtain ⟨⟨l', r'⟩, hcut, heq⟩ := Option.map_eq_some_iff.1 h
     obtain ⟨rfl, rfl⟩ : p :: l' = l ∧ r' = r := by simpa using heq
     obtain ⟨hps, hl, hr, hinner⟩ := ih hcut
     refine ⟨by rw [hps, List.cons_append], by simp, hr, fun hmem => ?_⟩
     cases l' with
     | nil => exact hl rfl
     | cons first l' =>
      rw [List.cons_append, List.cons.injEq] at hps
      rcases List.mem_cons.1 hmem with hnil | hin
      · refine hfull ⟨hps.1.trans hnil.symm, ?_⟩
        rw [hps.2]
        simp
      · exact hinner hin

theorem gap_eq_some (hl : l ≠ []) (hr : r ≠ []) (hinner : [] ∉ l.tail) :
  gap (l ++ [] :: r) = some (l, r) := by
 induction l with
 | nil => exact absurd rfl hl
 | cons p l ih =>
  cases l with
  | nil => rw [List.singleton_append, gap, if_pos ⟨rfl, hr⟩]
  | cons piece l =>
   rw [List.tail_cons, List.mem_cons, not_or] at hinner
   rw [List.cons_append, List.cons_append, gap, if_neg fun h => hinner.1 h.1.symm, ← List.cons_append,
    ih (by simp) hinner.2]
   rfl

theorem gap_eq_none_iff : gap ps = none ↔ [] ∉ ps.tail.dropLast := by
 induction ps with
 | nil => simp [gap]
 | cons p ps ih =>
  cases ps with
  | nil => simp [gap]
  | cons piece rest =>
   cases rest with
   | nil => simp [gap]
   | cons next rest =>
    rw [gap, List.tail_cons, List.dropLast_cons_of_ne_nil (by simp), List.mem_cons, not_or]
    by_cases hempty : piece = []
    · simp [hempty]
    · rw [if_neg fun h => hempty h.1, Option.map_eq_none_iff, ih, List.tail_cons]
      simp [Ne.symm hempty]

theorem head_join (p : Text) (ps : List Text) : ∃ rest, [c].intercalate (p :: ps) = p ++ rest := by
 cases ps with
 | nil => exact ⟨[], by rw [List.intercalate_singleton, List.append_nil]⟩
 | cons piece rest => exact ⟨_, by rw [List.intercalate_cons_cons, List.append_assoc]⟩

theorem cutFirst_join (h : ∀ p ∈ ps, c ∉ p) : cutFirst [c, c] ([c].intercalate ps) =
  (gap ps).map fun cut => ([c].intercalate cut.1, [c].intercalate cut.2) := by
 induction ps with
 | nil => rfl
 | cons p ps ih =>
  have hp : c ∉ p := h p List.mem_cons_self
  cases ps with
  | nil =>
   rw [List.intercalate_singleton, cutFirst_absent hp]
   rfl
  | cons piece rest =>
   have hpiece : c ∉ piece := h piece (by simp)
   have hrest := ih fun p' hp' => h p' (List.mem_cons_of_mem _ hp')
   rw [List.intercalate_cons_cons, List.append_assoc, cutFirst_append hp, List.singleton_append, gap]
   by_cases hempty : piece = [] ∧ rest ≠ []
   · obtain ⟨rfl, hne⟩ := hempty
     rw [if_pos ⟨rfl, hne⟩, List.intercalate_cons_of_ne_nil hne]
     simp [cutFirst]
   · have hsingle : ¬ [c, c] <+: c :: [c].intercalate (piece :: rest) := by
      intro hpre
      have hstart : [c] <+: [c].intercalate (piece :: rest) := (List.cons_prefix_cons.1 hpre).2
      cases piece with
      | cons d piece =>
       obtain ⟨more, hmore⟩ := head_join (c := c) (d :: piece) rest
       rw [hmore, List.cons_append] at hstart
       exact hpiece ((List.cons_prefix_cons.1 hstart).1 ▸ List.mem_cons_self)
      | nil =>
       obtain rfl : rest = [] := by simpa using hempty
       simp at hstart
     rw [cutFirst, if_neg hsingle, hrest, if_neg hempty, Option.map_map, Option.map_map, Option.map_map]
     cases hgap : gap (piece :: rest) with
     | none => rfl
     | some cut =>
      obtain ⟨l, r⟩ := cut
      have hl : l ≠ [] := (gap_spec hgap).2.1
      simp [List.intercalate_cons_of_ne_nil hl]

end Gap

end BoardGamesEmpire.SeparatedText
