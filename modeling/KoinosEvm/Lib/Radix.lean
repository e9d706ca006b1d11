/-
Numerals that keep their leading zeros.

A digit string, most significant first, says two things: how many zeros
it starts with, and what number it stands for. In any base they determine
it (`spell_leading_value`) and can be prescribed (`leading_spell`,
`value_spell`), so rewriting a string from one base in another loses
nothing as long as both are carried over.
-/
import Mathlib.Data.Nat.Digits.Defs
import Mathlib.Data.Nat.Digits.Lemmas

namespace Lib

/-- The zeros a string starts with. -/
def leadingZeros (xs : List Nat) : Nat := (xs.takeWhile (· == 0)).length

/-- The number it stands for in base `d`. -/
def radixValue (d : Nat) (xs : List Nat) : Nat := Nat.ofDigits d xs.reverse

/-- `z` zeros, then the digits of `v` in base `d`. -/
def spell (d z v : Nat) : List Nat := List.replicate z 0 ++ (Nat.digits d v).reverse

variable {d : Nat}

-- ============================================================== leading

theorem leadingZeros_append {z : Nat} {xs : List Nat} (hxs : xs.head? ≠ some 0) :
    leadingZeros (List.replicate z 0 ++ xs) = z := by
  induction z with
  | zero =>
      cases xs with
      | nil => rfl
      | cons x xs =>
          have hx : x ≠ 0 := by simpa using hxs
          simp [leadingZeros, hx]
  | succ z ih =>
      rw [List.replicate_succ, List.cons_append, leadingZeros, List.takeWhile_cons_of_pos (by rfl),
        List.length_cons]
      exact congrArg (· + 1) ih

/-- A string is its leading zeros and a rest that has none. -/
theorem leading_split (xs : List Nat) :
    ∃ ys, xs = List.replicate (leadingZeros xs) 0 ++ ys ∧ ys.head? ≠ some 0 := by
  induction xs with
  | nil => exact ⟨[], by simp [leadingZeros]⟩
  | cons x xs ih =>
      by_cases hx : x = 0
      · obtain ⟨ys, hys, hne⟩ := ih
        refine ⟨ys, ?_, hne⟩
        have hcount : leadingZeros (x :: xs) = leadingZeros xs + 1 := by
          simp [leadingZeros, hx]
        rw [hcount, List.replicate_succ, List.cons_append, ← hys, hx]
      · exact ⟨x :: xs, by simp [leadingZeros, hx], by simpa using hx⟩

-- ================================================================ value

@[simp] theorem radixValue_nil : radixValue d [] = 0 := rfl

@[simp] theorem radixValue_append (xs : List Nat) (x : Nat) :
    radixValue d (xs ++ [x]) = radixValue d xs * d + x := by
  rw [radixValue, List.reverse_append, List.reverse_singleton, List.singleton_append,
    Nat.ofDigits_cons, radixValue]
  simp [Nat.add_comm, Nat.mul_comm]

/-- Digit by digit, as a reader takes them. -/
theorem radixValue_eq_foldl (xs : List Nat) :
    radixValue d xs = xs.foldl (fun v x => v * d + x) 0 := by
  induction xs using List.reverseRecOn with
  | nil => rfl
  | append_singleton xs x ih =>
      rw [radixValue_append, List.foldl_append, ← ih]
      rfl

theorem radixValue_zeros (z : Nat) (xs : List Nat) :
    radixValue d (List.replicate z 0 ++ xs) = radixValue d xs := by
  rw [radixValue, List.reverse_append, List.reverse_replicate, Nat.ofDigits_append_replicate_zero,
    radixValue]

-- ============================================================= spelling

theorem head_digits_reverse (v : Nat) : (Nat.digits d v).reverse.head? ≠ some 0 := by
  rw [List.head?_reverse]
  intro h
  have hne : Nat.digits d v ≠ [] := by
    intro hnil
    simp [hnil] at h
  have hv : v ≠ 0 := by
    intro hv
    exact hne (by simp [hv])
  rw [List.getLast?_eq_some_getLast hne] at h
  exact Nat.getLast_digit_ne_zero d hv (Option.some.inj h)

theorem leadingZeros_spell (z v : Nat) : leadingZeros (spell d z v) = z :=
  leadingZeros_append (head_digits_reverse v)

theorem radixValue_spell (z v : Nat) : radixValue d (spell d z v) = v := by
  rw [spell, radixValue_zeros, radixValue, List.reverse_reverse, Nat.ofDigits_digits]

/-- The two numbers determine the string. -/
theorem spell_leading_value (hd : 1 < d) {xs : List Nat} (hxs : ∀ x ∈ xs, x < d) :
    spell d (leadingZeros xs) (radixValue d xs) = xs := by
  obtain ⟨ys, hsplit, hys⟩ := leading_split xs
  have hvalue : radixValue d xs = radixValue d ys := by
    rw [hsplit, radixValue_zeros]
  have hdigits : Nat.digits d (radixValue d ys) = ys.reverse := by
    apply Nat.digits_ofDigits d hd
    · intro y hy
      apply hxs
      rw [hsplit]
      exact List.mem_append_right _ (List.mem_reverse.mp hy)
    · intro hne hlast
      apply hys
      rw [← List.reverse_reverse ys, List.head?_reverse, List.getLast?_eq_some_getLast hne, hlast]
  rw [spell, hvalue, hdigits, List.reverse_reverse]
  exact hsplit.symm

theorem spell_lt (hd : 1 < d) {z v x : Nat} (hx : x ∈ spell d z v) : x < d := by
  rcases List.mem_append.mp hx with h | h
  · rw [List.eq_of_mem_replicate h]
    omega
  · exact Nat.digits_lt_base hd (List.mem_reverse.mp h)

end Lib
