/-
Moving along a curve from grid point to grid point.

Of two quantities one is paid in and the other taken out, and a mover goes
to the furthest point that what it pays covers (`IsFurthest`). Which way is
further is a relation of the user's: nothing is asked of it, and a curve
that can be walked both ways has two.

That the point is the furthest one is all there is to know about it: it is
not behind the start (`IsFurthest.ahead`), not behind the point a smaller
payment reaches (`IsFurthest.mono`), and not behind where two payments
lead one after the other (`IsFurthest.split`). What is taken out, rounded
down, follows it (`floor_sub_mono`, `floor_sub_split`); on a hyperbola it
is at most what the curve itself gives (`sub_le_hyperbola`).
-/
import Mathlib.Algebra.Order.Floor.Ring
import Mathlib.Algebra.Order.Field.Basic

namespace Lib

variable {α K : Type*}

-- ======================================================= the furthest point

/-- The furthest point of `V` that the payment `f` reaches from `p`. -/
structure IsFurthest [Add K] [LE K] (further : α → α → Prop) (V : Set α) (paid : α → K)
    (p : α) (f : K) (q : α) : Prop where
  mem : q ∈ V
  covered : paid q ≤ paid p + f
  furthest : ∀ q' ∈ V, paid q' ≤ paid p + f → further q' q

section Payments

variable [AddCommMonoid K] [PartialOrder K] [IsOrderedAddMonoid K]
  {further : α → α → Prop} {V : Set α} {paid : α → K} {p q q' : α} {f f' : K}

theorem IsFurthest.ahead (h : IsFurthest further V paid p f q) (hp : p ∈ V) (hf : 0 ≤ f) :
    further p q :=
  h.furthest p hp (le_add_of_nonneg_right hf)

/-- Who pays more gets further. -/
theorem IsFurthest.mono (h : IsFurthest further V paid p f q)
    (h' : IsFurthest further V paid p f' q') (hff' : f ≤ f') : further q q' := by
  apply h'.furthest q h.mem
  exact le_trans h.covered (add_le_add_right hff' _)

/-- Who pays at once gets further than who pays in two parts. -/
theorem IsFurthest.split {f₁ f₂ : K} {q₁ q₂ : α} (h₁ : IsFurthest further V paid p f₁ q₁)
    (h₂ : IsFurthest further V paid q₁ f₂ q₂) (h : IsFurthest further V paid p f q)
    (hf : f₁ + f₂ ≤ f) : further q₂ q := by
  apply h.furthest q₂ h₂.mem
  calc paid q₂ ≤ paid q₁ + f₂ := h₂.covered
    _ ≤ paid p + f₁ + f₂ := add_le_add_left h₁.covered _
    _ = paid p + (f₁ + f₂) := add_assoc _ _ _
    _ ≤ paid p + f := add_le_add_right hf _

end Payments

-- ========================================================= what comes out

section Floors

variable [Ring K] [LinearOrder K] [IsStrictOrderedRing K] [FloorRing K] {a b c d : K}

theorem floor_sub_nonneg (h : b ≤ a) : 0 ≤ ⌊a - b⌋ := Int.floor_nonneg.mpr (sub_nonneg.mpr h)

theorem floor_sub_mono (h : c ≤ b) : ⌊a - b⌋ ≤ ⌊a - c⌋ :=
  Int.floor_le_floor (sub_le_sub_left h _)

/-- Two parts, each rounded down, are no more than the whole. -/
theorem floor_sub_split (h : d ≤ c) : ⌊a - b⌋ + ⌊b - c⌋ ≤ ⌊a - d⌋ := by
  calc ⌊a - b⌋ + ⌊b - c⌋ ≤ ⌊a - b + (b - c)⌋ := Int.le_floor_add _ _
    _ = ⌊a - c⌋ := by rw [sub_add_sub_cancel]
    _ ≤ ⌊a - d⌋ := floor_sub_mono h

end Floors

section Hyperbola

variable [Field K] [LinearOrder K] [IsStrictOrderedRing K]

/-- On `x * y = k`, nothing that is covered gives more than the curve. -/
theorem sub_le_hyperbola {x x' y y' f k : K} (hx' : 0 < x') (hk : 0 ≤ k)
    (hcurve : x' * y' = k) (hcovered : x' ≤ x + f) : y - y' ≤ y - k / (x + f) := by
  have hy' : y' = k / x' := by
    rw [← hcurve, mul_div_cancel_left₀ _ (ne_of_gt hx')]
  rw [hy']
  exact sub_le_sub_left (div_le_div_of_nonneg_left hk hx' hcovered) _

end Hyperbola

end Lib
