import Mathlib.Tactic.Common

set_option autoImplicit false

/-!
# Conditions on rows with nulls

A comparison with a null says neither yes nor no. A query selects the rows
whose condition says yes.
-/
namespace BoardGamesEmpire.SqlTruth

inductive Truth where
  | yes
  | no
  | unknown
deriving DecidableEq

def Truth.of (b : Bool) : Truth := if b then .yes else .no

def Truth.and : Truth → Truth → Truth
  | .yes, t => t
  | .no, _ => .no
  | .unknown, .no => .no
  | .unknown, .yes | .unknown, .unknown => .unknown

def Truth.or : Truth → Truth → Truth
  | .yes, _ => .yes
  | .no, t => t
  | .unknown, .yes => .yes
  | .unknown, .no | .unknown, .unknown => .unknown

variable {α T : Type}

def compared (p : α → Bool) : Option α → Truth
  | some a => .of (p a)
  | none => .unknown

def isNull : Option α → Truth
  | some _ => .no
  | none => .yes

inductive Where (T : Type) where
  | test (t : T)
  | all (w v : Where T)
  | any (w v : Where T)

def Where.truth (eval : T → Truth) : Where T → Truth
  | .test t => eval t
  | .all w v => (w.truth eval).and (v.truth eval)
  | .any w v => (w.truth eval).or (v.truth eval)

@[simp] theorem Truth.of_eq_yes (b : Bool) : Truth.of b = .yes ↔ b = true := by
 cases b <;> simp [Truth.of]

@[simp] theorem Truth.and_eq_yes (s t : Truth) : s.and t = .yes ↔ s = .yes ∧ t = .yes := by
 cases s <;> cases t <;> simp [Truth.and]

@[simp] theorem Truth.or_eq_yes (s t : Truth) : s.or t = .yes ↔ s = .yes ∨ t = .yes := by
 cases s <;> cases t <;> simp [Truth.or]

@[simp] theorem compared_some (p : α → Bool) (a : α) : compared p (some a) = .of (p a) := rfl

@[simp] theorem compared_none (p : α → Bool) : compared p none = .unknown := rfl

@[simp] theorem isNull_some (a : α) : isNull (some a) = .no := rfl

@[simp] theorem isNull_none : isNull (none : Option α) = .yes := rfl

@[simp] theorem Where.truth_test (eval : T → Truth) (t : T) :
  (Where.test t).truth eval = eval t := rfl

@[simp] theorem Where.truth_all (eval : T → Truth) (w v : Where T) :
  (Where.all w v).truth eval = .yes ↔ w.truth eval = .yes ∧ v.truth eval = .yes := Truth.and_eq_yes _ _

@[simp] theorem Where.truth_any (eval : T → Truth) (w v : Where T) :
  (Where.any w v).truth eval = .yes ↔ w.truth eval = .yes ∨ v.truth eval = .yes := Truth.or_eq_yes _ _

end BoardGamesEmpire.SqlTruth
