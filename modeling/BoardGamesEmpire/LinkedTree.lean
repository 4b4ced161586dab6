import Mathlib

set_option autoImplicit false

/-!
# A file tree with symbolic links

Directories of named entries, files, and links whose targets are paths of their
own. `realpath` follows every link it meets, as many as it is allowed; what it
answers is a path that meets none.
-/
namespace BoardGamesEmpire.LinkedTree

inductive Component (ν : Type) where
  | here
  | parent
  | name (n : ν)
deriving DecidableEq

inductive Node (ν γ : Type) where
  | file (content : γ)
  | special
  | dir (entries : List (ν × Node ν γ))
  | link (absolute : Bool) (target : List (Component ν))

section Lookups

variable {ν γ : Type} [DecidableEq ν]

def nodeAt : List ν → Node ν γ → Option (Node ν γ)
  | [], x => some x
  | n :: p, .dir entries =>
    match entries.lookup n with
    | some x => nodeAt p x
    | none => none
  | _ :: _, .file _ | _ :: _, .special | _ :: _, .link _ _ => none

def Node.isLink : Node ν γ → Bool
  | .link _ _ => true
  | .file _ | .special | .dir _ => false

def Node.isDirectory : Node ν γ → Bool
  | .dir _ => true
  | .file _ | .special | .link _ _ => false

def Node.isFile : Node ν γ → Bool
  | .file _ => true
  | .special | .dir _ | .link _ _ => false

/-- Something stands there, and no name on the way to it is a link's, nor is its own. -/
def Real (root : Node ν γ) (p : List ν) : Prop := ∃ x, nodeAt p root = some x ∧ x.isLink = false

def IsDirectory (root : Node ν γ) (p : List ν) : Prop := ∃ entries, nodeAt p root = some (.dir entries)

theorem nodeAt_append (p q : List ν) (x : Node ν γ) :
  nodeAt (p ++ q) x = (nodeAt p x).bind (nodeAt q) := by
 induction p generalizing x with
 | nil => rfl
 | cons n p ih =>
  cases x with
  | dir entries =>
   rw [List.cons_append, nodeAt, nodeAt]
   cases entries.lookup n with
   | none => rfl
   | some x => exact ih x
  | file _ => rfl
  | special => rfl
  | link _ _ => rfl

theorem directory_above {root x : Node ν γ} {p q : List ν} (h : nodeAt (p ++ q) root = some x)
  (hq : q ≠ []) : IsDirectory root p := by
 rw [nodeAt_append] at h
 obtain ⟨y, hy, hbelow⟩ := Option.bind_eq_some_iff.1 h
 obtain ⟨n, rest, rfl⟩ := List.exists_cons_of_ne_nil hq
 cases y with
 | dir entries => exact ⟨entries, hy⟩
 | file _ => cases hbelow
 | special => cases hbelow
 | link _ _ => cases hbelow

theorem real_of_directory {root : Node ν γ} {p : List ν} (h : IsDirectory root p) : Real root p :=
 let ⟨_, hnode⟩ := h
 ⟨_, hnode, rfl⟩

theorem directory_dropLast {root : Node ν γ} {p : List ν} (h : IsDirectory root p) :
  IsDirectory root p.dropLast := by
 by_cases hp : p = []
 · subst hp
   exact h
 · obtain ⟨entries, hnode⟩ := h
   rw [← List.dropLast_append_getLast hp] at hnode
   exact directory_above hnode (List.cons_ne_nil _ _)

end Lookups

section Resolution

variable {ν γ : Type} [DecidableEq ν]

/-- One component after another from a directory; a link hands over to `onLink`. -/
def follow (root : Node ν γ) (onLink : List ν → List (Component ν) → Option (List ν)) :
    List ν → List (Component ν) → Option (List ν)
  | resolved, [] => some resolved
  | resolved, .here :: rest => follow root onLink resolved rest
  | resolved, .parent :: rest => follow root onLink resolved.dropLast rest
  | resolved, .name n :: rest =>
    match nodeAt (resolved ++ [n]) root with
    | none => none
    | some (.dir _) => follow root onLink (resolved ++ [n]) rest
    | some (.file _) | some .special => if rest = [] then some (resolved ++ [n]) else none
    | some (.link absolute target) => onLink (if absolute then [] else resolved) (target ++ rest)

def realpathFrom (root : Node ν γ) : ℕ → List ν → List (Component ν) → Option (List ν)
  | 0 => follow root fun _ _ => none
  | links + 1 => follow root (realpathFrom root links)

def realpath (root : Node ν γ) (links : ℕ) (p : List ν) : Option (List ν) :=
    realpathFrom root links [] (p.map .name)

/-- `stat`: what stands at the real path. -/
def stat (root : Node ν γ) (links : ℕ) (p : List ν) :
    Option (Node ν γ) := (realpath root links p).bind fun q => nodeAt q root

variable {root : Node ν γ}

theorem follow_real {onLink : List ν → List (Component ν) → Option (List ν)}
  (honLink : ∀ resolved rest p, IsDirectory root resolved → onLink resolved rest = some p → Real root p)
  (hroot : IsDirectory root []) (rest : List (Component ν)) {resolved p : List ν}
  (hresolved : IsDirectory root resolved) (h : follow root onLink resolved rest = some p) :
  Real root p := by
 induction rest generalizing resolved with
 | nil =>
  cases h
  exact real_of_directory hresolved
 | cons component rest ih =>
  cases component with
  | here => exact ih hresolved h
  | parent => exact ih (directory_dropLast hresolved) h
  | name n =>
   rw [follow] at h
   split at h
   · cases h
   · next entries hnode => exact ih ⟨entries, hnode⟩ h
   · next content hnode =>
     split at h
     · cases h
       exact ⟨_, hnode, rfl⟩
     · cases h
   · next hnode =>
     split at h
     · cases h
       exact ⟨_, hnode, rfl⟩
     · cases h
   · next absolute target hnode =>
     refine honLink _ _ p ?_ h
     split
     · exact hroot
     · exact hresolved

theorem realpathFrom_real (hroot : IsDirectory root []) (links : ℕ)
  {rest : List (Component ν)} {resolved p : List ν} (hresolved : IsDirectory root resolved)
  (h : realpathFrom root links resolved rest = some p) : Real root p := by
 induction links generalizing resolved rest p with
 | zero => exact follow_real (fun _ _ _ _ hnone => by cases hnone) hroot rest hresolved h
 | succ links ih => exact follow_real (fun _ _ _ hdir hlink => ih hdir hlink) hroot rest hresolved h

theorem follow_self {onLink : List ν → List (Component ν) → Option (List ν)}
  (rest : List ν) {resolved : List ν} (h : Real root (resolved ++ rest)) :
  follow root onLink resolved (rest.map .name) = some (resolved ++ rest) := by
 induction rest generalizing resolved with
 | nil => rw [List.append_nil]; rfl
 | cons n rest ih =>
  have hrest : resolved ++ n :: rest = resolved ++ [n] ++ rest := by rw [List.append_assoc]; rfl
  rw [hrest] at h ⊢
  rw [List.map_cons, follow]
  by_cases hlast : rest = []
  · subst hlast
    obtain ⟨x, hx, hlink⟩ := h
    rw [List.append_nil] at hx ⊢
    rw [hx]
    cases x with
    | dir _ => rfl
    | file _ => rfl
    | special => rfl
    | link _ _ => cases hlink
  · obtain ⟨x, hx, hlink⟩ := h
    obtain ⟨entries, hdir⟩ := directory_above hx hlast
    rw [hdir]
    exact ih ⟨x, hx, hlink⟩

theorem realpath_iff (hroot : IsDirectory root []) (links : ℕ) (p : List ν) :
  realpath root links p = some p ↔ Real root p := by
 constructor
 · exact fun h => realpathFrom_real hroot links hroot h
 · intro h
   cases links with
   | zero => exact follow_self p h
   | succ links => exact follow_self p h

end Resolution

end BoardGamesEmpire.LinkedTree
