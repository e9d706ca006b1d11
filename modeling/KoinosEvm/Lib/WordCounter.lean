/-
Counters of 64 bits.

One more is one more unless it is zero (`toNat_succ`); numbers that count up
from one (`countUp`) repeat nothing before they have come round
(`nodup_countUp`).
-/
import Mathlib.Algebra.GroupWithZero.Nat
import Mathlib.Data.List.Nodup
import Mathlib.Data.List.Range

namespace Lib

/-- `k` numbers that count up. -/
def countUp (first : UInt64) (k : Nat) : List UInt64 :=
  (List.range k).map fun j => first + UInt64.ofNat j

theorem toNat_succ {n : UInt64} (h : n + 1 ≠ 0) : (n + 1).toNat = n.toNat + 1 := by
  have hadd : (n + 1).toNat = (n.toNat + 1) % 2 ^ 64 := UInt64.toNat_add n 1
  have hlt := n.toNat_lt
  have hne : (n + 1).toNat ≠ 0 := fun hzero => h (UInt64.toNat_inj.mp hzero)
  omega

theorem lt_succ_of_le {m n : UInt64} (hle : m ≤ n) (h : n + 1 ≠ 0) : m < n + 1 := by
  rw [UInt64.lt_iff_toNat_lt, toNat_succ h]
  exact Nat.lt_succ_of_le (UInt64.le_iff_toNat_le.mp hle)

theorem countUp_succ (first : UInt64) (k : Nat) :
    countUp first (k + 1) = countUp first k ++ [first + UInt64.ofNat k] := by
  rw [countUp, List.range_succ, List.map_append]
  rfl

theorem nodup_countUp (first : UInt64) {k : Nat} (hk : k ≤ 2 ^ 64) : (countUp first k).Nodup := by
  refine List.Nodup.map_on ?_ List.nodup_range
  intro a ha b hb heq
  have hnat := congrArg UInt64.toNat ((UInt64.add_right_inj first).mp heq)
  rw [UInt64.toNat_ofNat', UInt64.toNat_ofNat'] at hnat
  have ha := List.mem_range.mp ha
  have hb := List.mem_range.mp hb
  omega

end Lib
