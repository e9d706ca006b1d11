/-
What liquidity stands for, exactly.

At the square-root price `p` (times 2^96), liquidity is backed by
`reserve0` of token0 and `reserve1` of token1; their product is the
liquidity's square at every price. The page's amounts for liquidity are
the differences of reserves, rounded down (`getAmount0ForLiquidity_eq`,
`getAmount1ForLiquidity_eq`): the two nested divisions of the first make
one. Its liquidity for an amount is one whose difference the amount still
covers (`getLiquidityForAmount0_ok`, `getLiquidityForAmount1_ok`).
-/
import KoinosEvm.Ui.V3Math
import Mathlib.Algebra.Order.Floor.Ring
import Mathlib.Data.Rat.Floor
import Mathlib.Tactic.FieldSimp
import Mathlib.Tactic.Linarith
import Mathlib.Tactic.Ring

namespace KoinosEvm.Proofs

open Lib Ui

-- ============================================================ reserves

/-- The token0 behind `liquidity` at price `p`. -/
def reserve0 (liquidity p : Int) : ℚ := liquidity * Q96 / p

/-- The token1 behind `liquidity` at price `p`. -/
def reserve1 (liquidity p : Int) : ℚ := liquidity * p / Q96

theorem Q96_pos : 0 < Q96 := by decide

theorem Q96_nonneg : 0 ≤ Q96 := le_of_lt Q96_pos

theorem Q96_cast_pos : (0 : ℚ) < Q96 := Int.cast_pos.mpr Q96_pos

section Reserves

variable {liquidity p q : Int}

theorem reserve0_mul_reserve1 (hp : 0 < p) :
    reserve0 liquidity p * reserve1 liquidity p = (liquidity : ℚ) ^ 2 := by
  have hp' : (p : ℚ) ≠ 0 := ne_of_gt (Int.cast_pos.mpr hp)
  have hQ := ne_of_gt Q96_cast_pos
  unfold reserve0 reserve1
  field_simp

/-- Token0 grows scarce as the price rises. -/
theorem reserve0_anti (hL : 0 ≤ liquidity) (hp : 0 < p) (hpq : p ≤ q) :
    reserve0 liquidity q ≤ reserve0 liquidity p := by
  have hL' : (0 : ℚ) ≤ liquidity := Int.cast_nonneg hL
  have hpq' : (p : ℚ) ≤ q := Int.cast_le.mpr hpq
  apply div_le_div_of_nonneg_left _ (Int.cast_pos.mpr hp) hpq'
  exact mul_nonneg hL' (le_of_lt Q96_cast_pos)

/-- Token1 grows with the price. -/
theorem reserve1_mono (hL : 0 ≤ liquidity) (hpq : p ≤ q) :
    reserve1 liquidity p ≤ reserve1 liquidity q := by
  have hL' : (0 : ℚ) ≤ liquidity := Int.cast_nonneg hL
  have hpq' : (p : ℚ) ≤ q := Int.cast_le.mpr hpq
  apply div_le_div_of_nonneg_right _ (le_of_lt Q96_cast_pos)
  exact mul_le_mul_of_nonneg_left hpq' hL'

theorem floor_cast_div {n m : Int} (hm : 0 ≤ m) : ⌊(n : ℚ) / m⌋ = n / m := by
  rw [Int.floor_div_cast_of_nonneg hm, Int.floor_intCast]

theorem reserve0_sub (hp : 0 < p) (hq : 0 < q) :
    reserve0 liquidity p - reserve0 liquidity q
      = ((liquidity * Q96 * (q - p) : Int) : ℚ) / ((q * p : Int) : ℚ) := by
  have hp' : (p : ℚ) ≠ 0 := ne_of_gt (Int.cast_pos.mpr hp)
  have hq' : (q : ℚ) ≠ 0 := ne_of_gt (Int.cast_pos.mpr hq)
  unfold reserve0
  push_cast
  field_simp

theorem reserve1_sub :
    reserve1 liquidity q - reserve1 liquidity p
      = ((liquidity * (q - p) : Int) : ℚ) / (Q96 : ℚ) := by
  unfold reserve1
  push_cast
  ring

theorem floor_reserve0_sub (hp : 0 < p) (hq : 0 < q) :
    ⌊reserve0 liquidity p - reserve0 liquidity q⌋ = liquidity * Q96 * (q - p) / (q * p) := by
  rw [reserve0_sub hp hq, floor_cast_div (le_of_lt (mul_pos hq hp))]

theorem floor_reserve1_sub :
    ⌊reserve1 liquidity q - reserve1 liquidity p⌋ = liquidity * (q - p) / Q96 := by
  rw [reserve1_sub, floor_cast_div Q96_nonneg]

end Reserves

-- ==================================================== the page's formulas

section Formulas

variable {sqrtA sqrtB liquidity amount : Int}

theorem sort_of_le (h : sqrtA ≤ sqrtB) : sort sqrtA sqrtB = (sqrtA, sqrtB) :=
  if_neg (not_lt_of_ge h)

/-- The amount of token0 between two prices: what the reserves differ by,
rounded down once. -/
theorem getAmount0ForLiquidity_eq (hA : 0 < sqrtA) (hAB : sqrtA ≤ sqrtB) (hL : 0 ≤ liquidity) :
    getAmount0ForLiquidity sqrtA sqrtB liquidity
      = .ok ⌊reserve0 liquidity sqrtA - reserve0 liquidity sqrtB⌋ := by
  have hB : 0 < sqrtB := lt_of_lt_of_le hA hAB
  have hnum : 0 ≤ liquidity * 2 ^ 96 * (sqrtB - sqrtA) :=
    mul_nonneg (mul_nonneg hL Q96_nonneg) (Int.sub_nonneg.mpr hAB)
  rw [getAmount0ForLiquidity, sort_of_le hAB]
  simp only
  rw [bigDiv_ok hnum hB, floor_reserve0_sub hA hB, ← Int.ediv_ediv_of_nonneg (le_of_lt hB)]
  exact bigDiv_ok (Int.ediv_nonneg hnum (le_of_lt hB)) hA

theorem getAmount1ForLiquidity_eq (hAB : sqrtA ≤ sqrtB) (hL : 0 ≤ liquidity) :
    getAmount1ForLiquidity sqrtA sqrtB liquidity
      = .ok ⌊reserve1 liquidity sqrtB - reserve1 liquidity sqrtA⌋ := by
  rw [getAmount1ForLiquidity, sort_of_le hAB, floor_reserve1_sub]
  exact bigDiv_ok (mul_nonneg hL (Int.sub_nonneg.mpr hAB)) Q96_pos

/-- The liquidity for an amount of token0: one the amount covers. -/
theorem getLiquidityForAmount0_ok (hA : 0 < sqrtA) (hAB : sqrtA < sqrtB) (hx : 0 ≤ amount) :
    ∃ liquidity, getLiquidityForAmount0 sqrtA sqrtB amount = .ok liquidity ∧ 0 ≤ liquidity
      ∧ reserve0 liquidity sqrtA - reserve0 liquidity sqrtB ≤ amount := by
  have hB : 0 < sqrtB := lt_trans hA hAB
  have hprod : 0 ≤ sqrtA * sqrtB := le_of_lt (mul_pos hA hB)
  have hsub : 0 < sqrtB - sqrtA := Int.sub_pos.mpr hAB
  have hinter : 0 ≤ sqrtA * sqrtB / Q96 := Int.ediv_nonneg hprod Q96_nonneg
  have hnum : 0 ≤ amount * (sqrtA * sqrtB / Q96) := mul_nonneg hx hinter
  refine ⟨amount * (sqrtA * sqrtB / Q96) / (sqrtB - sqrtA), ?_,
    Int.ediv_nonneg hnum (le_of_lt hsub), ?_⟩
  · rw [getLiquidityForAmount0, sort_of_le (le_of_lt hAB)]
    simp only
    rw [bigDiv_ok hprod Q96_pos]
    exact bigDiv_ok hnum hsub
  · -- both divisions round down, and the amount is what they round down from
    have hL := Int.ediv_mul_le (amount * (sqrtA * sqrtB / Q96)) (ne_of_gt hsub)
    have hI := Int.ediv_mul_le (sqrtA * sqrtB) (ne_of_gt Q96_pos)
    rw [reserve0_sub hA hB, div_le_iff₀ (Int.cast_pos.mpr (mul_pos hB hA)), ← Int.cast_mul,
      Int.cast_le]
    calc amount * (sqrtA * sqrtB / Q96) / (sqrtB - sqrtA) * Q96 * (sqrtB - sqrtA)
        = amount * (sqrtA * sqrtB / Q96) / (sqrtB - sqrtA) * (sqrtB - sqrtA) * Q96 := by ring
      _ ≤ amount * (sqrtA * sqrtB / Q96) * Q96 :=
          mul_le_mul_of_nonneg_right hL Q96_nonneg
      _ = amount * (sqrtA * sqrtB / Q96 * Q96) := mul_assoc _ _ _
      _ ≤ amount * (sqrtA * sqrtB) := mul_le_mul_of_nonneg_left hI hx
      _ = amount * (sqrtB * sqrtA) := by rw [mul_comm sqrtA sqrtB]

/-- The liquidity for an amount of token1: one the amount covers. -/
theorem getLiquidityForAmount1_ok (hAB : sqrtA < sqrtB) (hx : 0 ≤ amount) :
    ∃ liquidity, getLiquidityForAmount1 sqrtA sqrtB amount = .ok liquidity ∧ 0 ≤ liquidity
      ∧ reserve1 liquidity sqrtB - reserve1 liquidity sqrtA ≤ amount := by
  have hsub : 0 < sqrtB - sqrtA := Int.sub_pos.mpr hAB
  have hnum : 0 ≤ amount * Q96 := mul_nonneg hx Q96_nonneg
  refine ⟨amount * Q96 / (sqrtB - sqrtA), ?_, Int.ediv_nonneg hnum (le_of_lt hsub), ?_⟩
  · rw [getLiquidityForAmount1, sort_of_le (le_of_lt hAB)]
    exact bigDiv_ok hnum hsub
  · rw [reserve1_sub, div_le_iff₀ Q96_cast_pos, ← Int.cast_mul, Int.cast_le]
    exact Int.ediv_mul_le _ (ne_of_gt hsub)

end Formulas

end KoinosEvm.Proofs
