/-
`WHERE` clauses that are put together with their arguments, under SQL's
three-valued logic.

A column may be NULL (`none`), and a test of it then is NULL as well, neither
true nor false. A clause is a conjunction of tests; its arguments are bound to
the placeholders from left to right. `Clause` has as many of the one as of the
other, so what is pushed last is bound last (`Clause.holds_push`).
-/
import Mathlib.Algebra.Group.Int.Defs
import Mathlib.Algebra.GroupWithZero.Nat
import Mathlib.Data.List.Basic

namespace Lib

-- ================================================================== truths

/-- True, false or NULL. -/
abbrev Truth := Option Bool

/-- `AND`. -/
def sqlAnd : Truth → Truth → Truth
  | some true, b => b
  | some false, _ => some false
  | none, some false => some false
  | none, _ => none

theorem sqlAnd_eq_true {a b : Truth} :
    sqlAnd a b = some true ↔ a = some true ∧ b = some true := by
  rcases a with _ | _ | _ <;> rcases b with _ | _ | _ <;> decide

-- =================================================================== tests

/-- A test of a column against placeholders. -/
inductive Test (C : Type)
  | eq (c : C)
  | ge (c : C)
  | le (c : C)
  | isIn (c : C) (n : Nat)
  deriving DecidableEq

section Tests

variable {C V : Type}

/-- How many placeholders a test has. -/
def Test.width : Test C → Nat
  | .eq _ | .ge _ | .le _ => 1
  | .isIn _ n => n

theorem Test.width_eq (c : C) : (Test.eq c).width = 1 := rfl

theorem Test.width_ge (c : C) : (Test.ge c).width = 1 := rfl

theorem Test.width_le (c : C) : (Test.le c).width = 1 := rfl

theorem Test.width_isIn (c : C) (n : Nat) : (Test.isIn c n).width = n := rfl

/-- A comparison is NULL if either side is. -/
def compareTo (row : C → Option V) (c : C) (op : V → V → Bool) (args : List V) : Truth :=
  match row c, args with
  | some x, arg :: _ => some (op x arg)
  | _, _ => none

/-- A comparison of a column that is not NULL. -/
theorem compareTo_some {row : C → Option V} {c : C} {x arg : V} {op : V → V → Bool}
    (hrow : row c = some x) : compareTo row c op [arg] = some true ↔ op x arg = true := by
  unfold compareTo
  rw [hrow]
  exact Option.some_inj

variable [DecidableEq V] [LE V] [DecidableLE V]

/-- The truth of a test for a row, its placeholders bound. -/
def Test.holds (row : C → Option V) : Test C → List V → Truth
  | .eq c, args => compareTo row c (fun x arg => x = arg) args
  | .ge c, args => compareTo row c (fun x arg => arg ≤ x) args
  | .le c, args => compareTo row c (fun x arg => x ≤ arg) args
  | .isIn _ _, [] => some false
  | .isIn c _, args => (row c).map args.contains

section Comparisons

variable {row : C → Option V} {c : C} {x arg : V}

theorem Test.holds_eq (hrow : row c = some x) :
    Test.holds row (.eq c) [arg] = some true ↔ x = arg :=
  (compareTo_some hrow).trans decide_eq_true_iff

theorem Test.holds_ge (hrow : row c = some x) :
    Test.holds row (.ge c) [arg] = some true ↔ arg ≤ x :=
  (compareTo_some hrow).trans decide_eq_true_iff

theorem Test.holds_le (hrow : row c = some x) :
    Test.holds row (.le c) [arg] = some true ↔ x ≤ arg :=
  (compareTo_some hrow).trans decide_eq_true_iff

end Comparisons

/-- The truth of a conjunction of tests; each takes its arguments from the
front. -/
def holdsAll (row : C → Option V) : List (Test C) → List V → Truth
  | [], _ => some true
  | t :: ts, args =>
      sqlAnd (t.holds row (args.take t.width)) (holdsAll row ts (args.drop t.width))

/-- Tests and arguments put behind others. -/
theorem holdsAll_append {row : C → Option V} {ts us : List (Test C)} {xs ys : List V}
    (h : xs.length = (ts.map Test.width).sum) :
    holdsAll row (ts ++ us) (xs ++ ys) = some true
      ↔ holdsAll row ts xs = some true ∧ holdsAll row us ys = some true := by
  induction ts generalizing xs with
  | nil =>
      have hnil : xs = [] := List.length_eq_zero_iff.mp h
      subst hnil
      exact (and_iff_right rfl).symm
  | cons t ts ih =>
      rw [List.map_cons, List.sum_cons] at h
      have htake : (xs ++ ys).take t.width = xs.take t.width :=
        List.take_append_of_le_length (by omega)
      have hdrop : (xs ++ ys).drop t.width = xs.drop t.width ++ ys :=
        List.drop_append_of_le_length (by omega)
      have hrest : (xs.drop t.width).length = (ts.map Test.width).sum := by
        rw [List.length_drop, h, Nat.add_sub_cancel_left]
      rw [List.cons_append, holdsAll, holdsAll, htake, hdrop, sqlAnd_eq_true, sqlAnd_eq_true,
        ih hrest, and_assoc]

end Tests

-- ================================================================= clauses

/-- Tests with an argument for each placeholder. -/
structure Clause (C V : Type) where
  tests : List (Test C)
  args : List V
  bound : args.length = (tests.map Test.width).sum

namespace Clause

variable {C V : Type}

/-- No tests. -/
def empty : Clause C V := ⟨[], [], rfl⟩

/-- One more test, with its arguments. -/
def push (clause : Clause C V) (t : Test C) (args : List V) (h : args.length = t.width) :
    Clause C V where
  tests := clause.tests ++ [t]
  args := clause.args ++ args
  bound := by
    rw [List.length_append, clause.bound, h, List.map_append, List.sum_append,
      List.map_singleton, List.sum_singleton]

/-- `c IN (..)`, where there is something to be in. -/
def pushIn (clause : Clause C V) (c : C) (args : List V) : Clause C V :=
  if args.isEmpty then clause else clause.push (.isIn c args.length) args (Test.width_isIn c _).symm

theorem length_pushIn (clause : Clause C V) (c : C) (args : List V) :
    (clause.pushIn c args).args.length = clause.args.length + args.length := by
  rw [pushIn]
  split
  next hempty =>
    rw [List.isEmpty_iff.mp hempty]
    rfl
  next => exact List.length_append

variable [DecidableEq V] [LE V] [DecidableLE V]

/-- The truth of a clause for a row. -/
def holds (clause : Clause C V) (row : C → Option V) : Truth :=
  holdsAll row clause.tests clause.args

variable {row : C → Option V} {clause : Clause C V}

theorem holds_push {t : Test C} {args : List V} (h : args.length = t.width) :
    (clause.push t args h).holds row = some true
      ↔ clause.holds row = some true ∧ t.holds row args = some true := by
  have hlast : holdsAll row [t] args = some true ↔ t.holds row args = some true := by
    rw [holdsAll, holdsAll, sqlAnd_eq_true, and_iff_left rfl,
      List.take_of_length_le (Nat.le_of_eq h)]
  rw [holds, push, holdsAll_append clause.bound, hlast]
  rfl

/-- A column is in a list: it is not NULL and one of it. -/
theorem holds_pushIn {c : C} {args : List V} :
    (clause.pushIn c args).holds row = some true
      ↔ clause.holds row = some true ∧ (args = [] ∨ ∃ x ∈ args, row c = some x) := by
  rw [pushIn]
  cases args with
  | nil => exact (and_iff_left (Or.inl rfl)).symm
  | cons a args =>
      have hin : Test.holds row (.isIn c (a :: args).length) (a :: args) = some true
          ↔ ∃ x ∈ a :: args, row c = some x := by
        rw [Test.holds]
        · cases row c with
          | none =>
              refine iff_of_false (Option.some_ne_none true).symm ?_
              rintro ⟨x, -, hx⟩
              cases hx
          | some y =>
              rw [Option.map_some, Option.some_inj, List.contains_iff_mem]
              constructor
              · exact fun hy => ⟨y, hy, rfl⟩
              · rintro ⟨x, hx, heq⟩
                rwa [Option.some_inj.mp heq]
        · exact List.cons_ne_nil a args
      rw [List.isEmpty_cons, if_neg Bool.false_ne_true, holds_push, hin,
        or_iff_right (List.cons_ne_nil a args)]

theorem holds_pushIn_map {A : Type} {g : A → V} {c : C} {xs : List A} :
    (clause.pushIn c (xs.map g)).holds row = some true
      ↔ clause.holds row = some true ∧ (xs = [] ∨ ∃ a ∈ xs, row c = some (g a)) := by
  rw [holds_pushIn, List.map_eq_nil_iff]
  simp only [List.mem_map, exists_exists_and_eq_and]

end Clause

end Lib
