/-
JavaScript's BigInt.

A BigInt is an integer of any size: its sums and products are exact, `/`
drops the fraction and throws on 0, and `>>` rounds down. A dividend that
is not negative is rounded down too (`bigDiv_ok`).
-/
import Mathlib.Algebra.Group.Int.Defs
import Mathlib.Algebra.GroupWithZero.Nat
import Mathlib.Algebra.Order.Group.Int
import Mathlib.Data.Int.Order.Basic

namespace Lib

/-- What a script throws. -/
inductive JsError where
  | rangeError (msg : String)
  | error (msg : String)
  deriving DecidableEq

/-- `a / b` on BigInts. -/
def bigDiv (a b : Int) : Except JsError Int :=
  if b = 0 then .error (.rangeError "Division by zero") else .ok (a.tdiv b)

/-- `a >> bits` on BigInts: rounds down. -/
def bigShr (a : Int) (bits : Nat) : Int := a / 2 ^ bits

/-- `n | 0`, for a number that is an integer. -/
def toInt32 (n : Int) : Int := n.bmod (2 ^ 32)

theorem bigDiv_ok {a b : Int} (ha : 0 ≤ a) (hb : 0 < b) : bigDiv a b = .ok (a / b) := by
  rw [bigDiv, if_neg (ne_of_gt hb), Int.tdiv_eq_ediv_of_nonneg ha]

theorem bigShr_nonneg {a : Int} (ha : 0 ≤ a) (bits : Nat) : 0 ≤ bigShr a bits :=
  Int.ediv_nonneg ha (Int.pow_nonneg (by decide))

theorem bigShr_mono {a b : Int} (hab : a ≤ b) (bits : Nat) : bigShr a bits ≤ bigShr b bits :=
  Int.ediv_le_ediv (Int.pow_pos (by decide)) hab

/-- Division that rounds up, written with one that rounds down. -/
theorem ceil_ediv_le_iff {a b q : Int} (hb : 0 < b) : (a + b - 1) / b ≤ q ↔ a ≤ q * b := by
  rw [← Int.lt_add_one_iff, Int.ediv_lt_iff_lt_mul hb, Int.add_mul, Int.one_mul]
  constructor
  · intro h
    omega
  · intro h
    omega

end Lib
