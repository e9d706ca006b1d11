/-
Bitmaps kept as byte strings, the last byte first: bit `i` is bit `i % 8`
of the byte `i / 8` from the end.

A bitmap is a set of positions, and everything here is said through
`HasBit`: setting a bit adds its position (`hasBit_setBit`), `orBytes` is
the union (`hasBit_orBytes`), and two bitmaps of one length with the same
positions are the same bytes (`eq_of_hasBit`). A loop that only ever adds
positions ends with what its rounds add (`hasBit_foldl`), in whatever
order they come.
-/
import Mathlib.Data.List.Basic
import Mathlib.Data.Nat.Bitwise

namespace Lib

/-- The position is in the bitmap. -/
def HasBit (bs : List UInt8) (i : Nat) : Prop :=
  (bs.getD (bs.length - 1 - i / 8) 0).toNat.testBit (i % 8) = true

instance (bs : List UInt8) (i : Nat) : Decidable (HasBit bs i) :=
  inferInstanceAs (Decidable (_ = true))

/-- Add a position. -/
def setBit (bs : List UInt8) (i : Nat) : List UInt8 :=
  bs.modify (bs.length - 1 - i / 8) (· ||| (1 <<< UInt8.ofNat (i % 8)))

/-- Byte by byte, `|`. -/
def orBytes (xs ys : List UInt8) : List UInt8 := List.zipWith (· ||| ·) xs ys

@[simp] theorem length_setBit (bs : List UInt8) (i : Nat) : (setBit bs i).length = bs.length := by
  simp [setBit]

theorem length_orBytes {xs ys : List UInt8} (h : xs.length = ys.length) :
    (orBytes xs ys).length = xs.length := by
  simp [orBytes, h]

/-- One bit of a byte. -/
theorem testBit_or_one_shiftLeft (b : UInt8) : ∀ j < 8, ∀ i < 8,
    (b ||| (1 <<< UInt8.ofNat j)).toNat.testBit i = (b.toNat.testBit i || decide (i = j)) := by
  intro j hj i hi
  rw [UInt8.toNat_or, Nat.testBit_or]
  congr 1
  revert i j
  decide

/-- Setting a bit adds the position, and no other. -/
theorem hasBit_setBit {bs : List UInt8} {i j : Nat} (hi : i < 8 * bs.length)
    (hj : j < 8 * bs.length) : HasBit (setBit bs i) j ↔ j = i ∨ HasBit bs j := by
  have hpos : bs.length - 1 - j / 8 < bs.length := by omega
  have hpos' : bs.length - 1 - j / 8 < (setBit bs i).length := by
    rw [length_setBit]
    exact hpos
  rw [HasBit, HasBit, length_setBit, List.getD_eq_getElem _ _ hpos', List.getD_eq_getElem _ _ hpos]
  simp only [setBit, List.getElem_modify]
  by_cases hbyte : bs.length - 1 - i / 8 = bs.length - 1 - j / 8
  · rw [if_pos hbyte, testBit_or_one_shiftLeft _ _ (by omega) _ (by omega), Bool.or_eq_true,
      decide_eq_true_eq, or_comm]
    refine or_congr_left ?_
    omega
  · rw [if_neg hbyte]
    constructor
    · exact Or.inr
    · intro h
      rcases h with rfl | h
      · exact absurd rfl hbyte
      · exact h

/-- The union of two bitmaps. -/
theorem hasBit_orBytes {xs ys : List UInt8} {i : Nat} (hlen : xs.length = ys.length)
    (hi : i < 8 * xs.length) : HasBit (orBytes xs ys) i ↔ HasBit xs i ∨ HasBit ys i := by
  have hx : xs.length - 1 - i / 8 < xs.length := by omega
  have hy : xs.length - 1 - i / 8 < ys.length := by omega
  have hxy : xs.length - 1 - i / 8 < (orBytes xs ys).length := by
    rw [length_orBytes hlen]
    exact hx
  rw [HasBit, HasBit, HasBit, length_orBytes hlen, ← hlen, List.getD_eq_getElem _ _ hxy,
    List.getD_eq_getElem _ _ hx, List.getD_eq_getElem _ _ hy]
  simp only [orBytes, List.getElem_zipWith]
  rw [UInt8.toNat_or, Nat.testBit_or, Bool.or_eq_true]

/-- The empty bitmap. -/
theorem not_hasBit_zeros (n i : Nat) : ¬ HasBit (List.replicate n 0) i := by
  have hzero : ∀ k, (List.replicate n (0 : UInt8)).getD k 0 = 0 := by
    intro k
    by_cases hk : k < n
    · simp [List.getD_eq_getElem?_getD, hk]
    · simp [List.getD_eq_getElem?_getD, hk]
  rw [HasBit, hzero]
  simp

/-- The positions determine the bytes. -/
theorem eq_of_hasBit {xs ys : List UInt8} (hlen : xs.length = ys.length)
    (h : ∀ i < 8 * xs.length, HasBit xs i ↔ HasBit ys i) : xs = ys := by
  apply List.ext_getElem hlen
  intro k hx hy
  apply UInt8.toNat_inj.mp
  apply Nat.eq_of_testBit_eq
  intro j
  by_cases hj : j < 8
  · have hbit := h ((xs.length - 1 - k) * 8 + j) (by omega)
    have hbyte : xs.length - 1 - ((xs.length - 1 - k) * 8 + j) / 8 = k := by omega
    have hin : ((xs.length - 1 - k) * 8 + j) % 8 = j := by omega
    rw [HasBit, HasBit, ← hlen, hbyte, hin, List.getD_eq_getElem _ _ hx,
      List.getD_eq_getElem _ _ hy] at hbit
    exact Bool.eq_iff_iff.mpr hbit
  · have hsmall : ∀ b : UInt8, b.toNat.testBit j = false := by
      intro b
      apply Nat.testBit_lt_two_pow
      have hpow : 2 ^ 8 ≤ 2 ^ j := Nat.pow_le_pow_right (by omega) (by omega)
      have hb := b.toNat_lt
      omega
    rw [hsmall, hsmall]

/-- What a loop has added, when each round adds positions of its own. -/
theorem hasBit_foldl {α β : Type*} (bits : β → Nat → Prop) (adds : α → Nat → Prop)
    {f : β → α → β} {i : Nat} (hf : ∀ b a, bits (f b a) i ↔ bits b i ∨ adds a i) (as : List α)
    (b : β) : bits (as.foldl f b) i ↔ bits b i ∨ ∃ a ∈ as, adds a i := by
  induction as generalizing b with
  | nil => simp
  | cons a as ih =>
      rw [List.foldl_cons, ih, hf, or_assoc]
      simp

end Lib
