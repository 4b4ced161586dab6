import Mathlib

set_option autoImplicit false

/-!
# A file system as a tree

Directories of named entries, files at the leaves, and the calls that read and
change them, with the faults they answer. `look` is what any caller can see at a
path; each call is specified by what it does to `look`.
-/
namespace BoardGamesEmpire.FileTree

inductive Fault where
  | missing
  | notDirectory
  | isDirectory
  | exists
deriving DecidableEq

inductive Node (ν γ : Type) where
  | file (content : γ)
  | dir (entries : List (ν × Node ν γ))

inductive Kind (γ : Type) where
  | file (content : γ)
  | dir
deriving DecidableEq

section Calls

variable {ν γ : Type} [DecidableEq ν]

def Node.kind : Node ν γ → Kind γ
  | .file content => .file content
  | .dir _ => .dir

def setEntry (n : ν) (x : Node ν γ) : List (ν × Node ν γ) → List (ν × Node ν γ)
  | [] => [(n, x)]
  | e :: es => if e.1 = n then (n, x) :: es else e :: setEntry n x es

def dropEntry (n : ν) (es : List (ν × Node ν γ)) : List (ν × Node ν γ) :=
    es.filter fun e => decide (e.1 ≠ n)

def find : List ν → Node ν γ → Except Fault (Node ν γ)
  | [], x => .ok x
  | _ :: _, .file _ => .error .notDirectory
  | n :: p, .dir es =>
    match es.lookup n with
    | none => .error .missing
    | some x => find p x

def look (p : List ν) (x : Node ν γ) : Except Fault (Kind γ) := (find p x).map Node.kind

def change (f : List (ν × Node ν γ) → Except Fault (List (ν × Node ν γ))) :
    List ν → Node ν γ → Except Fault (Node ν γ)
  | _, .file _ => .error .notDirectory
  | [], .dir es => (f es).map .dir
  | n :: p, .dir es =>
    match es.lookup n with
    | none => .error .missing
    | some x => (change f p x).map fun y => .dir (setEntry n y es)

def putFile (n : ν) (content : γ) (es : List (ν × Node ν γ)) : Except Fault (List (ν × Node ν γ)) :=
  match es.lookup n with
  | some (.dir _) => .error .isDirectory
  | _ => .ok (setEntry n (.file content) es)

def unlink (n : ν) (es : List (ν × Node ν γ)) : Except Fault (List (ν × Node ν γ)) :=
  match es.lookup n with
  | none => .error .missing
  | some (.dir _) => .error .isDirectory
  | some (.file _) => .ok (dropEntry n es)

def writeFile (p : List ν) (content : γ) (x : Node ν γ) : Except Fault (Node ν γ) :=
  match p.getLast? with
  | none => .error .isDirectory
  | some n => change (putFile n content) p.dropLast x

def removeFile (p : List ν) (x : Node ν γ) : Except Fault (Node ν γ) :=
  match p.getLast? with
  | none => .error .isDirectory
  | some n => change (unlink n) p.dropLast x

def mkdirs : List ν → Node ν γ → Except Fault (Node ν γ)
  | [], .dir es => .ok (.dir es)
  | [], .file _ => .error .exists
  | _ :: _, .file _ => .error .notDirectory
  | n :: p, .dir es => (mkdirs p ((es.lookup n).getD (.dir []))).map fun y => .dir (setEntry n y es)

mutual

/-- The files below a directory whose own names are kept, in entry order. -/
def paths (keep : ν → Bool) : List (ν × Node ν γ) → List (List ν)
  | [] => []
  | e :: es => entryPaths keep e ++ paths keep es
termination_by structural es => es

def entryPaths (keep : ν → Bool) : ν × Node ν γ → List (List ν)
  | (n, x) => nodePaths keep x n
termination_by structural e => e

def nodePaths (keep : ν → Bool) : Node ν γ → ν → List (List ν)
  | .file _, n => if keep n then [[n]] else []
  | .dir es, n => (paths keep es).map (n :: ·)
termination_by structural x => x

end

def Distinct (x : Node ν γ) : Prop := ∀ p es, find p x = .ok (.dir es) → (es.map Prod.fst).Nodup

end Calls

section Entries

variable {ν γ : Type} [DecidableEq ν]

theorem lookup_cons (m : ν) (e : ν × Node ν γ) (es : List (ν × Node ν γ)) :
  (e :: es).lookup m = if m = e.1 then some e.2 else es.lookup m := by
 by_cases h : m = e.1
 · rw [if_pos h, h, List.lookup_cons_self]
 · rw [if_neg h, List.lookup_cons, beq_eq_false_iff_ne.2 h]

theorem lookup_setEntry (n m : ν) (x : Node ν γ) (es : List (ν × Node ν γ)) :
  (setEntry n x es).lookup m = if m = n then some x else es.lookup m := by
 induction es with
 | nil => rw [setEntry, lookup_cons]
 | cons e es ih =>
  unfold setEntry
  by_cases he : e.1 = n
  · rw [if_pos he, lookup_cons, lookup_cons, he]
    by_cases h : m = n
    · simp [h]
    · simp [h]
  · rw [if_neg he, lookup_cons, lookup_cons, ih]
    by_cases h : m = n
    · have hne : m ≠ e.1 := fun heq => he (heq.symm.trans h)
      rw [if_neg hne, if_pos h, if_pos h]
    · simp [h]

theorem lookup_dropEntry (n m : ν) (es : List (ν × Node ν γ)) :
  (dropEntry n es).lookup m = if m = n then none else es.lookup m := by
 induction es with
 | nil => simp [dropEntry]
 | cons e es ih =>
  unfold dropEntry at ih ⊢
  by_cases he : e.1 = n
  · rw [List.filter_cons_of_neg (by simpa using he), ih, lookup_cons, he]
    by_cases h : m = n
    · simp [h]
    · simp [h]
  · rw [List.filter_cons_of_pos (by simpa using he), lookup_cons, lookup_cons, ih]
    by_cases h : m = n
    · have hne : m ≠ e.1 := fun heq => he (heq.symm.trans h)
      rw [if_neg hne, if_pos h, if_pos h]
    · simp [h]

theorem names_setEntry (n : ν) (x : Node ν γ) (es : List (ν × Node ν γ)) :
  (setEntry n x es).map Prod.fst = if n ∈ es.map Prod.fst then es.map Prod.fst else es.map
   Prod.fst ++ [n] := by
 induction es with
 | nil => simp [setEntry]
 | cons e es ih =>
  unfold setEntry
  by_cases he : e.1 = n
  · simp [he]
  · have hne : n ≠ e.1 := fun heq => he heq.symm
    rw [if_neg he, List.map_cons, ih, List.map_cons]
    by_cases h : n ∈ es.map Prod.fst
    · rw [if_pos h, if_pos (List.mem_cons_of_mem _ h)]
    · rw [if_neg h, if_neg (by simpa [hne] using h), List.cons_append]

theorem nodup_setEntry {n : ν} {x : Node ν γ} {es : List (ν × Node ν γ)}
  (h : (es.map Prod.fst).Nodup) :
  ((setEntry n x es).map Prod.fst).Nodup := by
 rw [names_setEntry]
 split
 · exact h
 · rename_i hn
   exact List.nodup_append.2
    ⟨h, by simp, fun a ha b hb heq => hn (by rw [List.mem_singleton] at hb; rw [← hb, ← heq]; exact ha)⟩

theorem nodup_dropEntry {n : ν} {es : List (ν × Node ν γ)} (h : (es.map Prod.fst).Nodup) :
  ((dropEntry n es).map Prod.fst).Nodup := h.sublist (List.filter_sublist.map _)

theorem mem_of_lookup {n : ν} {x : Node ν γ} {es : List (ν × Node ν γ)} (h : es.lookup n = some x) :
  (n, x) ∈ es := by
 obtain ⟨before, after, rfl, -⟩ := List.lookup_eq_some_iff.1 h
 simp

end Entries

section Look

variable {ν γ : Type} [DecidableEq ν]

@[simp] theorem look_nil (x : Node ν γ) : look [] x = .ok x.kind := rfl

@[simp] theorem look_file (n : ν) (p : List ν) (content : γ) :
  look (n :: p) (.file content) = .error .notDirectory := rfl

theorem look_absent {n : ν} {es : List (ν × Node ν γ)} (h : es.lookup n = none) (p : List ν) :
  look (n :: p) (.dir es) = .error .missing := by
 rw [look, find, h]
 rfl

theorem look_entry {n : ν} {x : Node ν γ} {es : List (ν × Node ν γ)} (h : es.lookup n = some x)
  (p : List ν) :
  look (n :: p) (.dir es) = look p x := by
 rw [look, find, h]
 rfl

theorem look_congr {n : ν} {es es' : List (ν × Node ν γ)} (h : es.lookup n = es'.lookup n)
  (p : List ν) :
  look (n :: p) (.dir es) = look (n :: p) (.dir es') := by
 rw [look, look, find, find, h]

theorem look_append (p q : List ν) (x : Node ν γ) : look (p ++ q) x = (find p x).bind (look q) := by
 induction p generalizing x with
 | nil => rfl
 | cons n p ih =>
  cases x with
  | file content => rfl
  | dir es =>
   cases hn : es.lookup n with
   | none => rw [List.cons_append, look_absent hn, find, hn]; rfl
   | some x => rw [List.cons_append, look_entry hn, ih, find, hn]

theorem look_error {p : List ν} {x : Node ν γ} {fault : Fault} (h : look p x = .error fault) :
  fault = .missing ∨ fault = .notDirectory := by
 induction p generalizing x with
 | nil => cases h
 | cons n p ih =>
  cases x with
  | file content => cases h; exact .inr rfl
  | dir es =>
   cases hn : es.lookup n with
   | none => rw [look_absent hn] at h; cases h; exact .inl rfl
   | some x => rw [look_entry hn] at h; exact ih h

theorem look_notDirectory {q : List ν} {x : Node ν γ} : look q x = .error .notDirectory ↔
  ∃ p, p <+: q ∧ p ≠ q ∧ ∃ content, look p x = .ok (.file content) := by
 induction q generalizing x with
 | nil => simp
 | cons n q ih =>
  cases x with
  | file content => exact iff_of_true rfl ⟨[], List.nil_prefix, by simp, content, rfl⟩
  | dir es =>
   have hroot : ∀ content, look [] (.dir es) ≠ .ok (.file content) := fun content h => by cases h
   cases hn : es.lookup n with
   | none =>
    rw [look_absent hn]
    refine iff_of_false (fun h => by cases h) ?_
    intro h
    obtain ⟨p, hp, -, content, hfile⟩ := h
    cases p with
    | nil => exact hroot content hfile
    | cons m p =>
     rw [(List.cons_prefix_cons.1 hp).1, look_absent hn] at hfile
     cases hfile
   | some x =>
    rw [look_entry hn, ih]
    constructor
    · intro h
      obtain ⟨p, hp, hne, content, hfile⟩ := h
      exact ⟨n :: p,
       List.cons_prefix_cons.2 ⟨rfl, hp⟩, by simpa using hne, content, by rw [look_entry hn, hfile]⟩
    · intro h
      obtain ⟨p, hp, hne, content, hfile⟩ := h
      cases p with
      | nil => exact absurd hfile (hroot content)
      | cons m p =>
       obtain ⟨rfl, hpq⟩ := List.cons_prefix_cons.1 hp
       rw [look_entry hn] at hfile
       exact ⟨p, hpq, by simpa using hne, content, hfile⟩

theorem look_parent {p q : List ν} {x : Node ν γ} {kind : Kind γ} (h : look q x = .ok kind)
  (hp : p <+: q) (hne : p ≠ q) :
  look p x = .ok .dir := by
 obtain ⟨r, rfl⟩ := hp
 rw [look_append] at h
 cases r with
 | nil => simp at hne
 | cons n r =>
  cases hfind : find p x with
  | error fault => rw [hfind] at h; cases h
  | ok y =>
   rw [hfind] at h
   cases y with
   | file content => cases h
   | dir es => rw [look, hfind]; rfl

end Look

section Changes

variable {ν γ : Type} [DecidableEq ν]

variable {f : List (ν × Node ν γ) → Except Fault (List (ν × Node ν γ))} {p : List ν}
  {x y : Node ν γ}

theorem change_ok (h : change f p x = .ok y) :
  ∃ es es', find p x = .ok (.dir es) ∧ f es = .ok es' ∧ find p y = .ok (.dir es') ∧
   ∀ q, ¬ p <+: q → look q y = look q x := by
 induction p generalizing x y with
 | nil =>
  cases x with
  | file content => cases h
  | dir es =>
   cases hf : f es with
   | error fault => rw [change, hf] at h; cases h
   | ok es' =>
    rw [change, hf] at h
    cases h
    exact ⟨es, es', rfl, hf, rfl, fun q hq => absurd List.nil_prefix hq⟩
 | cons n p ih =>
  cases x with
  | file content => cases h
  | dir ds =>
   cases hn : ds.lookup n with
   | none => rw [change, hn] at h; cases h
   | some child =>
    cases hchange : change f p child with
    | error fault => rw [change, hn] at h; dsimp only at h; rw [hchange] at h; cases h
    | ok child' =>
     rw [change, hn] at h
     dsimp only at h
     rw [hchange] at h
     cases h
     obtain ⟨es, es', hfind, hf, hfind', hother⟩ := ih hchange
     have hself : (setEntry n child' ds).lookup n = some child' := by rw [lookup_setEntry, if_pos rfl]
     refine ⟨es, es', by rw [find, hn]; exact hfind, hf, by rw [find, hself]; exact hfind', fun q hq => ?_⟩
     cases q with
     | nil => rfl
     | cons m q =>
      by_cases hm : m = n
      · rw [hm, look_entry hself, look_entry hn]
        exact hother q fun hq' => hq (List.cons_prefix_cons.2 ⟨hm.symm, hq'⟩)
      · exact look_congr (by rw [lookup_setEntry, if_neg hm]) q

theorem change_entry {n : ν} (h : change f p x = .ok y)
  (hf : ∀ es es', f es = .ok es' → ∀ m, m ≠ n → es'.lookup m = es.lookup m) (q : List ν)
  (hq : ¬ p ++ [n] <+: q) : look q y = look q x := by
 obtain ⟨es, es', hfind, hes, hfind', hother⟩ := change_ok h
 by_cases hp : p <+: q
 · obtain ⟨r, rfl⟩ := hp
   rw [look_append, look_append, hfind, hfind']
   cases r with
   | nil => rfl
   | cons m r =>
    have hm : m ≠ n := fun heq => hq (by rw [heq]; exact ⟨r, by simp⟩)
    exact look_congr (hf es es' hes m hm) r
 · exact hother q hp

omit [DecidableEq ν] in
theorem exists_last (h : p ≠ []) : ∃ n, p.getLast? = some n ∧ p = p.dropLast ++ [n] :=
 ⟨p.getLast h, List.getLast?_eq_some_getLast h, (List.dropLast_append_getLast h).symm⟩

theorem look_writeFile {content : γ} (h : writeFile p content x = .ok y) (q : List ν) :
  look q y = if q = p then .ok (.file content) else if p <+:
   q then .error .notDirectory else look q x := by
 have hne : p ≠ [] := fun hp => by rw [hp] at h; cases h
 obtain ⟨n, hn, hp⟩ := exists_last hne
 rw [writeFile, hn] at h
 dsimp only at h
 have hput : ∀ es es', putFile n content es = .ok es' → es' = setEntry n (.file content) es := by
  intro es es' hes
  unfold putFile at hes
  split at hes
  · cases hes
  · cases hes; rfl
 by_cases hpq : p <+: q
 · obtain ⟨es, es', -, hes, hfind', -⟩ := change_ok h
   obtain ⟨r, rfl⟩ := hpq
   have hself : es'.lookup n = some (.file content) := by rw [hput es es' hes, lookup_setEntry, if_pos rfl]
   have hbelow : look (p ++ r) y = look r (.file content : Node ν γ) := by
    rw [hp, List.append_assoc, look_append, hfind']
    exact look_entry hself r
   rw [hbelow]
   cases r with
   | nil => simp [Node.kind]
   | cons m r => simp
 · have hqp : q ≠ p := fun heq => hpq (heq ▸ List.prefix_rfl)
   rw [if_neg hqp, if_neg hpq]
   refine change_entry h (fun es es' hes m hm => ?_) q (hp ▸ hpq)
   rw [hput es es' hes, lookup_setEntry, if_neg hm]

theorem look_removeFile (h : removeFile p x = .ok y) (q : List ν) :
  look q y = if p <+: q then .error .missing else look q x := by
 have hne : p ≠ [] := fun hp => by rw [hp] at h; cases h
 obtain ⟨n, hn, hp⟩ := exists_last hne
 rw [removeFile, hn] at h
 dsimp only at h
 have hdrop : ∀ es es' : List (ν × Node ν γ), unlink n es = .ok es' → es' = dropEntry n es := by
  intro es es' hes
  unfold unlink at hes
  split at hes <;> cases hes
  rfl
 by_cases hpq : p <+: q
 · obtain ⟨es, es', -, hes, hfind', -⟩ := change_ok h
   obtain ⟨r, rfl⟩ := hpq
   have hgone : es'.lookup n = none := by rw [hdrop es es' hes, lookup_dropEntry, if_pos rfl]
   rw [if_pos (List.prefix_append p r), hp, List.append_assoc, look_append, hfind']
   exact look_absent hgone r
 · rw [if_neg hpq]
   refine change_entry h (fun es es' hes m hm => ?_) q (hp ▸ hpq)
   rw [hdrop es es' hes, lookup_dropEntry, if_neg hm]

theorem change_error {fault : Fault} (h : change f p x = .error fault) : find p x = .error fault ∨
   (fault = .notDirectory ∧ ∃ content, find p x = .ok (.file content)) ∨
   ∃ es, find p x = .ok (.dir es) ∧ f es = .error fault := by
 induction p generalizing x with
 | nil =>
  cases x with
  | file content => cases h; exact .inr (.inl ⟨rfl, content, rfl⟩)
  | dir es =>
   cases hf : f es with
   | error fault' => rw [change, hf] at h; cases h; exact .inr (.inr ⟨es, rfl, hf⟩)
   | ok es' => rw [change, hf] at h; cases h
 | cons n p ih =>
  cases x with
  | file content => cases h; exact .inl rfl
  | dir ds =>
   cases hn : ds.lookup n with
   | none => rw [change, hn] at h; cases h; rw [find, hn]; exact .inl rfl
   | some child =>
    rw [change, hn] at h
    dsimp only at h
    cases hchange : change f p child with
    | ok child' => rw [hchange] at h; cases h
    | error fault' =>
     rw [hchange] at h
     cases h
     rw [find, hn]
     exact ih hchange

theorem change_found {n : ν} (h : change f p x = .ok y) :
  ∃ es es', f es = .ok es' ∧ look (p ++ [n]) x = look [n] (.dir es) := by
 obtain ⟨es, es', hfind, hes, -⟩ := change_ok h
 refine ⟨es, es', hes, ?_⟩
 rw [look_append, hfind]
 rfl

theorem look_dir_entry {n : ν} {es : List (ν × Node ν γ)} (h : look [n] (.dir es) = .ok .dir) :
  ∃ ds, es.lookup n = some (.dir ds) := by
 cases hn : es.lookup n with
 | none => rw [look_absent hn] at h; cases h
 | some x =>
  rw [look_entry hn] at h
  cases x with
  | file content => cases h
  | dir ds => exact ⟨ds, rfl⟩

theorem writeFile_ok {content : γ} (h : writeFile p content x = .ok y) : look p x ≠ .ok .dir := by
 intro hdir
 have hne : p ≠ [] := fun hp => by rw [hp] at h; cases h
 obtain ⟨n, hn, hp⟩ := exists_last hne
 rw [writeFile, hn] at h
 obtain ⟨es, es', hes, hlook⟩ := change_found (n := n) h
 rw [← hp, hdir] at hlook
 obtain ⟨ds, hds⟩ := look_dir_entry hlook.symm
 rw [putFile, hds] at hes
 cases hes

theorem removeFile_ok (h : removeFile p x = .ok y) : look p x ≠ .ok .dir := by
 intro hdir
 have hne : p ≠ [] := fun hp => by rw [hp] at h; cases h
 obtain ⟨n, hn, hp⟩ := exists_last hne
 rw [removeFile, hn] at h
 obtain ⟨es, es', hes, hlook⟩ := change_found (n := n) h
 rw [← hp, hdir] at hlook
 obtain ⟨ds, hds⟩ := look_dir_entry hlook.symm
 rw [unlink, hds] at hes
 cases hes

theorem mkdirs_ok (h : mkdirs p x = .ok y) {q : List ν} (hq : q <+: p) (content : γ) :
  look q x ≠ .ok (.file content) := by
 induction p generalizing x y q with
 | nil =>
  cases x with
  | file content => cases h
  | dir es =>
   rw [List.prefix_nil.1 hq]
   intro hfile
   cases hfile
 | cons n p ih =>
  cases x with
  | file content => cases h
  | dir es =>
   rw [mkdirs] at h
   cases hmk : mkdirs p ((es.lookup n).getD (.dir [])) with
   | error fault => rw [hmk] at h; cases h
   | ok child =>
    cases q with
    | nil => intro hfile; cases hfile
    | cons m q =>
     obtain ⟨rfl, hpre⟩ := List.cons_prefix_cons.1 hq
     cases hn : es.lookup m with
     | none => rw [look_absent hn]; intro hfile; cases hfile
     | some x =>
      rw [hn] at hmk
      rw [look_entry hn]
      exact ih hmk hpre

theorem removeFile_missing (h : removeFile p x = .error .missing) :
  look p x = .error .missing := by
 have hne : p ≠ [] := fun hp => by rw [hp] at h; cases h
 obtain ⟨n, hn, hp⟩ := exists_last hne
 rw [removeFile, hn] at h
 dsimp only at h
 rw [hp, look_append]
 rcases change_error h with hfind | ⟨hfault, -⟩ | ⟨es, hfind, hes⟩
 · rw [hfind]; rfl
 · cases hfault
 · rw [hfind]
   refine look_absent ?_ []
   unfold unlink at hes
   split at hes
   · assumption
   · cases hes
   · cases hes

theorem look_mkdirs (h : mkdirs p x = .ok y) (q : List ν) :
  look q y = if q <+: p then .ok .dir else look q x := by
 induction p generalizing x y q with
 | nil =>
  cases x with
  | file content => cases h
  | dir es =>
   cases h
   cases q with
   | nil => rfl
   | cons m q => simp
 | cons n p ih =>
  cases x with
  | file content => cases h
  | dir es =>
   rw [mkdirs] at h
   cases hmk : mkdirs p ((es.lookup n).getD (.dir [])) with
   | error fault => rw [hmk] at h; cases h
   | ok child =>
    rw [hmk] at h
    cases h
    have hself : (setEntry n child es).lookup n = some child := by rw [lookup_setEntry, if_pos rfl]
    cases q with
    | nil => simp [Node.kind]
    | cons m q =>
     by_cases hm : m = n
     · subst hm
       rw [look_entry hself, ih hmk]
       simp only [List.cons_prefix_cons, true_and]
       split
       · rfl
       · rename_i hq
         cases hn : es.lookup m with
         | some child' => rw [look_entry hn]; rfl
         | none =>
          rw [look_absent hn]
          cases q with
          | nil => exact absurd List.nil_prefix hq
          | cons l q => rfl
     · rw [if_neg fun hq => hm (List.cons_prefix_cons.1 hq).1]
       exact look_congr (by rw [lookup_setEntry, if_neg hm]) q

end Changes

/-! What each call leaves in place, and where what is there afterwards came from. -/
section Frame

variable {ν γ : Type} [DecidableEq ν]

variable {p q : List ν} {kind : Kind γ} {x y : Node ν γ}

theorem writeFile_keeps {content : γ} (h : writeFile p content x = .ok y) (hq : look q x = .ok kind)
  (hne : q ≠ p) : look q y = .ok kind := by
 rw [look_writeFile h, if_neg hne, if_neg, hq]
 intro hp
 exact writeFile_ok h (look_parent hq hp (Ne.symm hne))

theorem writeFile_from {content : γ}
  (h : writeFile p content x = .ok y)
  (hq : look q y = .ok kind) : (q = p ∧ kind = .file content) ∨ look q x = .ok kind := by
 rw [look_writeFile h] at hq
 split at hq
 · rename_i heq
   cases hq
   exact .inl ⟨heq, rfl⟩
 · split at hq
   · cases hq
   · exact .inr hq

theorem writeFile_written {content : γ} (h : writeFile p content x = .ok y) :
  look p y = .ok (.file content) := by
 rw [look_writeFile h, if_pos rfl]

theorem removeFile_keeps (h : removeFile p x = .ok y)
  (hq : look q x = .ok kind) (hne : q ≠ p) : look q y = .ok kind := by
 rw [look_removeFile h, if_neg, hq]
 intro hp
 exact removeFile_ok h (look_parent hq hp (Ne.symm hne))

theorem removeFile_from (h : removeFile p x = .ok y)
  (hq : look q y = .ok kind) : q ≠ p ∧ look q x = .ok kind := by
 rw [look_removeFile h] at hq
 split at hq
 · cases hq
 · rename_i hp
   exact ⟨fun heq => hp (heq ▸ List.prefix_rfl), hq⟩

theorem mkdirs_keeps (h : mkdirs p x = .ok y) (hq : look q x = .ok kind) :
  look q y = .ok kind := by
 rw [look_mkdirs h]
 split
 · rename_i hp
   cases kind with
   | dir => rfl
   | file content => exact absurd hq (mkdirs_ok h hp content)
 · exact hq

theorem mkdirs_from (h : mkdirs p x = .ok y) (hq : look q y = .ok kind) :
  (q <+: p ∧ kind = .dir) ∨ look q x = .ok kind := by
 rw [look_mkdirs h] at hq
 split at hq
 · rename_i hp
   cases hq
   exact .inl ⟨hp, rfl⟩
 · exact .inr hq

end Frame

section Walk

variable {ν γ : Type} [DecidableEq ν]

variable {es : List (ν × Node ν γ)}

theorem distinct_dir : Distinct (.dir es) ↔
  (es.map Prod.fst).Nodup ∧ ∀ n x, es.lookup n = some x → Distinct x := by
 constructor
 · intro h
   refine ⟨h [] es rfl, fun n x hn p ds hfind => h (n :: p) ds ?_⟩
   rw [find, hn]
   exact hfind
 · intro h p ds hfind
   cases p with
   | nil => cases hfind; exact h.1
   | cons n p =>
    cases hn : es.lookup n with
    | none => rw [find, hn] at hfind; cases hfind
    | some x => rw [find, hn] at hfind; exact h.2 n x hn p ds hfind

variable {x y : Node ν γ}

theorem distinct_find {p : List ν} (h : Distinct x) (hfind : find p x = .ok y) : Distinct y := by
 induction p generalizing x with
 | nil => cases hfind; exact h
 | cons n p ih =>
  cases x with
  | file content => cases hfind
  | dir es =>
   cases hn : es.lookup n with
   | none => rw [find, hn] at hfind; cases hfind
   | some x => rw [find, hn] at hfind; exact ih ((distinct_dir.1 h).2 n x hn) hfind

theorem distinct_file (content : γ) : Distinct (.file content : Node ν γ) := by
 intro p es h
 cases p with
 | nil => cases h
 | cons n p => cases h

theorem distinct_empty :
  Distinct (.dir [] : Node ν γ) := distinct_dir.2 ⟨by simp, fun n x h => by cases h⟩

theorem distinct_setEntry {n : ν} (h : Distinct (.dir es)) (hx : Distinct x) :
  Distinct (.dir (setEntry n x es)) := by
 obtain ⟨hnodup, hbelow⟩ := distinct_dir.1 h
 refine distinct_dir.2 ⟨nodup_setEntry hnodup, fun m y hm => ?_⟩
 rw [lookup_setEntry] at hm
 split at hm
 · cases hm; exact hx
 · exact hbelow m y hm

theorem distinct_dropEntry {n : ν} (h : Distinct (.dir es)) :
  Distinct (.dir (dropEntry n es)) := by
 obtain ⟨hnodup, hbelow⟩ := distinct_dir.1 h
 refine distinct_dir.2 ⟨nodup_dropEntry hnodup, fun m y hm => ?_⟩
 rw [lookup_dropEntry] at hm
 split at hm
 · cases hm
 · exact hbelow m y hm

theorem distinct_change {f : List (ν × Node ν γ) → Except Fault (List (ν × Node ν γ))} {p : List ν}
  (hf : ∀ es es', f es = .ok es' → Distinct (.dir es) → Distinct (.dir es')) (hx : Distinct x)
  (h : change f p x = .ok y) :
  Distinct y := by
 induction p generalizing x y with
 | nil =>
  cases x with
  | file content => cases h
  | dir es =>
   cases hes : f es with
   | error fault => rw [change, hes] at h; cases h
   | ok es' => rw [change, hes] at h; cases h; exact hf es es' hes hx
 | cons n p ih =>
  cases x with
  | file content => cases h
  | dir es =>
   cases hn : es.lookup n with
   | none => rw [change, hn] at h; cases h
   | some child =>
    rw [change, hn] at h
    dsimp only at h
    cases hchild : change f p child with
    | error fault => rw [hchild] at h; cases h
    | ok child' =>
     rw [hchild] at h
     cases h
     exact distinct_setEntry hx (ih ((distinct_dir.1 hx).2 n child hn) hchild)

theorem distinct_writeFile {p : List ν} {content : γ} (hx : Distinct x)
  (h : writeFile p content x = .ok y) :
  Distinct y := by
 unfold writeFile at h
 split at h
 · cases h
 · refine distinct_change (fun es es' hes hdistinct => ?_) hx h
   unfold putFile at hes
   split at hes
   · cases hes
   · cases hes; exact distinct_setEntry hdistinct (distinct_file content)

theorem distinct_removeFile {p : List ν} (hx : Distinct x)
  (h : removeFile p x = .ok y) : Distinct y := by
 unfold removeFile at h
 split at h
 · cases h
 · refine distinct_change (fun es es' hes hdistinct => ?_) hx h
   unfold unlink at hes
   split at hes <;> cases hes
   exact distinct_dropEntry hdistinct

theorem distinct_mkdirs {p : List ν} (hx : Distinct x) (h : mkdirs p x = .ok y) : Distinct y := by
 induction p generalizing x y with
 | nil =>
  cases x with
  | file content => cases h
  | dir es => cases h; exact hx
 | cons n p ih =>
  cases x with
  | file content => cases h
  | dir es =>
   rw [mkdirs] at h
   cases hchild : mkdirs p ((es.lookup n).getD (.dir [])) with
   | error fault => rw [hchild] at h; cases h
   | ok child =>
    rw [hchild] at h
    cases h
    refine distinct_setEntry hx (ih ?_ hchild)
    cases hn : es.lookup n with
    | none => exact distinct_empty
    | some x => exact (distinct_dir.1 hx).2 n x hn

/-- What a walk lists of a directory: its files whose names are kept, each once. -/
structure Lists (keep : ν → Bool) (es : List (ν × Node ν γ)) (found : List (List ν)) : Prop where
  mem : ∀ q, q ∈ found ↔ (∃ content, look q (.dir es) = .ok (.file content)) ∧
   ∃ n, q.getLast? = some n ∧ keep n = true
  nodup : found.Nodup

structure ListsEntry (keep : ν → Bool) (n : ν) (x : Node ν γ) (found : List (List ν)) : Prop where
  mem : ∀ q, q ∈ found ↔ ∃ r, q = n :: r ∧ (∃ content, look r x = .ok (.file content)) ∧
    ∃ m, (n :: r).getLast? = some m ∧ keep m = true
  nodup : found.Nodup

theorem lists_nil (keep : ν → Bool) : Lists keep ([] : List (ν × Node ν γ)) [] where
 mem q := by
  cases q with
  | nil => simp
  | cons n q => simp [look_absent (show ([] : List (ν × Node ν γ)).lookup n = none from rfl)]
 nodup := List.nodup_nil

theorem lists_cons {keep : ν → Bool} {n : ν} {found found' : List (List ν)}
  (hn : n ∉ es.map Prod.fst) (hentry : ListsEntry keep n x found) (hrest : Lists keep es found') :
  Lists keep ((n, x) :: es) (found ++ found') := by
 have hself : ((n, x) :: es).lookup n = some x := List.lookup_cons_self
 have hother : ∀ m, m ≠ n → ((n, x) :: es).lookup m = es.lookup m :=
  fun m hm => by rw [lookup_cons, if_neg hm]
 have habsent : es.lookup n = none := by
  by_contra hsome
  obtain ⟨y, hy⟩ := Option.ne_none_iff_exists'.1 hsome
  exact hn (List.mem_map_of_mem (f := Prod.fst) (mem_of_lookup hy))
 constructor
 · intro q
   rw [List.mem_append, hentry.mem, hrest.mem]
   cases q with
   | nil => simp
   | cons m q =>
    by_cases hm : m = n
    · subst hm
      rw [look_entry hself, look_absent habsent]
      simp
    · rw [look_congr (hother m hm) q]
      simp [hm]
 · refine List.nodup_append.2 ⟨hentry.nodup, hrest.nodup, fun q hq q' hq' heq => ?_⟩
   obtain ⟨r, rfl, -⟩ := (hentry.mem q).1 hq
   obtain ⟨⟨content, hfile⟩, -⟩ := (hrest.mem q').1 hq'
   rw [← heq, look_absent habsent] at hfile
   cases hfile

mutual

theorem lists_paths (keep : ν → Bool) :
  ∀ es : List (ν × Node ν γ), Distinct (.dir es) → Lists keep es (paths keep es)
 | [], _ => lists_nil keep
 | (n, x) :: es, h => by
  obtain ⟨hnodup, hbelow⟩ := distinct_dir.1 h
  rw [List.map_cons, List.nodup_cons] at hnodup
  have hx : Distinct x := hbelow n x List.lookup_cons_self
  have hes : Distinct (.dir es) := by
   refine distinct_dir.2 ⟨hnodup.2, fun m y hm => hbelow m y ?_⟩
   have hne : m ≠ n := fun heq => hnodup.1 (heq ▸ List.mem_map.2 ⟨_, mem_of_lookup hm, rfl⟩)
   rw [lookup_cons, if_neg hne, hm]
  exact lists_cons hnodup.1 (lists_nodePaths keep x n hx) (lists_paths keep es hes)

theorem lists_nodePaths (keep : ν → Bool) :
  ∀ (x : Node ν γ) (n : ν), Distinct x → ListsEntry keep n x (nodePaths keep x n)
 | .file content, n, _ => by
  rw [nodePaths]
  constructor
  · intro q
    constructor
    · intro hq
      split at hq
      · rename_i hkeep
        exact ⟨[], by simpa using hq, ⟨content, rfl⟩, n, rfl, hkeep⟩
      · simp at hq
    · rintro ⟨r, rfl, ⟨content', hfile⟩, m, hm, hkeep⟩
      cases r with
      | nil =>
       cases hm
       rw [if_pos (show keep n = true from hkeep)]
       exact List.mem_singleton.2 rfl
      | cons m' r => cases hfile
  · split <;> simp
 | .dir es, n, h => by
  have hlists := lists_paths keep es h
  rw [nodePaths]
  constructor
  · intro q
    rw [List.mem_map]
    constructor
    · rintro ⟨r, hr, rfl⟩
      obtain ⟨hfile, m, hm, hkeep⟩ := (hlists.mem r).1 hr
      exact ⟨r, rfl, hfile, m, by rw [List.getLast?_cons, hm]; rfl, hkeep⟩
    · rintro ⟨r, rfl, ⟨content, hfile⟩, m, hm, hkeep⟩
      refine ⟨r, (hlists.mem r).2 ⟨⟨content, hfile⟩, m, ?_, hkeep⟩, rfl⟩
      cases r with
      | nil => cases hfile
      | cons l r => rw [List.getLast?_cons_cons] at hm; exact hm
  · exact hlists.nodup.map fun a b hab => (List.cons_eq_cons.1 hab).2

end

end Walk

end BoardGamesEmpire.FileTree
