/-
Words that are cut into lanes of equal width.

`lane` reads a lane and `setLane` replaces one by masking and shifting, the
way packed storage does. A lane that fits the word reads back what was put
in (`lane_setLane_self`), and no other lane changes (`lane_setLane_of_ne`).
-/
import Mathlib.Data.BitVec

namespace Lib

section Lanes

variable {w k : Nat}

/-- Lane `j` of a word, `k` bits wide. -/
def lane (k : Nat) (x : BitVec w) (j : Nat) : BitVec k := x.extractLsb' (j * k) k

/-- The word with lane `j` replaced. -/
def setLane (x : BitVec w) (j : Nat) (v : BitVec k) : BitVec w :=
  (x &&& ~~~((BitVec.allOnes k).setWidth w <<< (j * k))) ||| (v.setWidth w <<< (j * k))

/-- The bits of the new word: the value's in the lane, the old ones outside. -/
theorem getLsbD_setLane (x : BitVec w) {j i : Nat} (v : BitVec k) (hi : i < w) :
    (setLane x j v).getLsbD i
      = if j * k ≤ i ∧ i < j * k + k then v.getLsbD (i - j * k) else x.getLsbD i := by
  simp only [setLane, BitVec.getLsbD_or, BitVec.getLsbD_and, BitVec.getLsbD_not,
    BitVec.getLsbD_shiftLeft, BitVec.getLsbD_setWidth, BitVec.getLsbD_allOnes, hi, decide_true,
    Bool.true_and]
  split
  next h =>
    have hlo : ¬ i < j * k := by omega
    have hlt : i - j * k < k := by omega
    have hlt' : i - j * k < w := by omega
    simp [hlo, hlt, hlt']
  next h =>
    by_cases hlo : i < j * k
    · simp [hlo]
    · have hge : ¬ i - j * k < k := by omega
      have hv : v.getLsbD (i - j * k) = false := BitVec.getLsbD_of_ge _ _ (by omega)
      simp [hlo, hge, hv]

/-- What was put into a lane is read back. -/
theorem lane_setLane_self (x : BitVec w) {j : Nat} (v : BitVec k) (hj : (j + 1) * k ≤ w) :
    lane k (setLane x j v) j = v := by
  have hend : (j + 1) * k = j * k + k := Nat.succ_mul j k
  refine BitVec.eq_of_getLsbD_eq fun i hi => ?_
  have hin : j * k ≤ j * k + i ∧ j * k + i < j * k + k := by omega
  rw [lane, BitVec.getLsbD_extractLsb', getLsbD_setLane x v (by omega), if_pos hin,
    Nat.add_sub_cancel_left, decide_eq_true hi, Bool.true_and]

/-- .. and the other lanes are as they were. -/
theorem lane_setLane_of_ne (x : BitVec w) {j j' : Nat} (v : BitVec k) (hj : (j' + 1) * k ≤ w)
    (hne : j' ≠ j) : lane k (setLane x j v) j' = lane k x j' := by
  have hend : (j' + 1) * k = j' * k + k := Nat.succ_mul j' k
  refine BitVec.eq_of_getLsbD_eq fun i hi => ?_
  have hout : ¬ (j * k ≤ j' * k + i ∧ j' * k + i < j * k + k) := by
    rcases Nat.lt_or_gt_of_ne hne with hlt | hlt
    · have hle : (j' + 1) * k ≤ j * k := Nat.mul_le_mul_right k hlt
      omega
    · have hle : (j + 1) * k ≤ j' * k := Nat.mul_le_mul_right k hlt
      have hend' : (j + 1) * k = j * k + k := Nat.succ_mul j k
      omega
  rw [lane, BitVec.getLsbD_extractLsb', getLsbD_setLane x v (by omega), if_neg hout, lane,
    BitVec.getLsbD_extractLsb']

/-- Every lane of the word zero is zero. -/
theorem lane_zero (k j : Nat) : lane k (0 : BitVec w) j = 0 := by
  refine BitVec.eq_of_getLsbD_eq fun i hi => ?_
  simp [lane]

end Lanes

end Lib
