/-
The swap quote.

With liquidity, a swap pays one reserve and takes from the other. The next
price of `quoteSingleTick` is, in either direction, the furthest whole
price whose paid reserve the input covers (`quoteBranch_spec`): token0 in
rounds the falling price up, token1 in rounds the rising price down. What
goes out is the difference of the other reserve, rounded down. That is all
the rest needs (`swap_quote`): the quote is no more than the curve gives,
grows with the input, and is not beaten by its own parts.
-/
import KoinosEvm.Lib.Curve
import KoinosEvm.Proofs.Reserves

namespace KoinosEvm.Proofs

open Lib Ui

-- ========================================================== directions

/-- The reserve that is paid into. -/
def reserveIn (zeroForOne : Bool) (liquidity p : Int) : ℚ :=
  if zeroForOne then reserve0 liquidity p else reserve1 liquidity p

/-- The reserve that is taken from. -/
def reserveOut (zeroForOne : Bool) (liquidity p : Int) : ℚ :=
  if zeroForOne then reserve1 liquidity p else reserve0 liquidity p

/-- `q` is not behind `p`: token0 in lets the price fall, token1 in lets it
rise. -/
def Ahead (zeroForOne : Bool) (p q : Int) : Prop := if zeroForOne then q ≤ p else p ≤ q

/-- `q` is as far as `f` gets from `p`. -/
def Reaches (zeroForOne : Bool) (liquidity p f q : Int) : Prop :=
  IsFurthest (Ahead zeroForOne) {q : Int | 0 < q} (reserveIn zeroForOne liquidity) p (f : ℚ) q

section Directions

variable {zeroForOne : Bool} {liquidity p q f : Int}

theorem reserveIn_mul_reserveOut (hp : 0 < p) :
    reserveIn zeroForOne liquidity p * reserveOut zeroForOne liquidity p
      = (liquidity : ℚ) ^ 2 := by
  cases zeroForOne with
  | false => exact (mul_comm _ _).trans (reserve0_mul_reserve1 hp)
  | true => exact reserve0_mul_reserve1 hp

theorem reserveIn_pos (hL : 0 < liquidity) (hp : 0 < p) :
    0 < reserveIn zeroForOne liquidity p := by
  have hL' : (0 : ℚ) < liquidity := Int.cast_pos.mpr hL
  have hp' : (0 : ℚ) < p := Int.cast_pos.mpr hp
  cases zeroForOne with
  | false => exact div_pos (mul_pos hL' hp') Q96_cast_pos
  | true => exact div_pos (mul_pos hL' Q96_cast_pos) hp'

theorem reserveOut_anti (hL : 0 ≤ liquidity) (hp : 0 < p)
    (h : Ahead zeroForOne p q) :
    reserveOut zeroForOne liquidity q ≤ reserveOut zeroForOne liquidity p := by
  cases zeroForOne with
  | false => exact reserve0_anti hL hp h
  | true => exact reserve1_mono hL h

/-- What token0 covers. -/
theorem reserve0_covered_iff (hp : 0 < p) (hq : 0 < q) :
    reserve0 liquidity q ≤ reserve0 liquidity p + f
      ↔ liquidity * p * Q96 ≤ q * (liquidity * Q96 + f * p) := by
  have hp' : (0 : ℚ) < p := Int.cast_pos.mpr hp
  have hq' : (0 : ℚ) < q := Int.cast_pos.mpr hq
  have hsum : reserve0 liquidity p + f = (liquidity * Q96 + f * p) / p := by
    unfold reserve0
    field_simp
  rw [hsum, reserve0, div_le_div_iff₀ hq' hp', ← Int.cast_le (R := ℚ)]
  push_cast
  constructor
  · intro h
    linarith
  · intro h
    linarith

/-- What token1 covers. -/
theorem reserve1_covered_iff (hL : 0 < liquidity) :
    reserve1 liquidity q ≤ reserve1 liquidity p + f ↔ q ≤ p + f * Q96 / liquidity := by
  have hsum : reserve1 liquidity p + f = (liquidity * p + f * Q96) / Q96 := by
    have hQ := ne_of_gt Q96_cast_pos
    unfold reserve1
    field_simp
  rw [hsum, reserve1, div_le_div_iff_of_pos_right Q96_cast_pos, ← sub_le_iff_le_add',
    ← sub_le_iff_le_add', Int.le_ediv_iff_mul_le hL, ← Int.cast_le (R := ℚ)]
  push_cast
  rw [← mul_sub, mul_comm]

end Directions

-- ============================================================ the quote

section Quote

variable {sqrtP liquidity f amountIn : Int}

/-- Token0 in: the price falls to the least whole price that is covered. -/
theorem reaches_ceil (hP : 0 < sqrtP) (hL : 0 < liquidity) (hf : 0 ≤ f) :
    Reaches true liquidity sqrtP f
      ((liquidity * sqrtP * Q96 + (liquidity * Q96 + f * sqrtP) - 1)
        / (liquidity * Q96 + f * sqrtP)) := by
  have hden : 0 < liquidity * Q96 + f * sqrtP :=
    add_pos_of_pos_of_nonneg (mul_pos hL Q96_pos) (mul_nonneg hf (le_of_lt hP))
  have hnum : 0 < liquidity * sqrtP * Q96 := mul_pos (mul_pos hL hP) Q96_pos
  have hpos : 0 < (liquidity * sqrtP * Q96 + (liquidity * Q96 + f * sqrtP) - 1)
      / (liquidity * Q96 + f * sqrtP) := by
    apply lt_of_not_ge
    intro hle
    have hzero := (ceil_ediv_le_iff hden).mp hle
    rw [Int.zero_mul] at hzero
    exact absurd hzero (not_le_of_gt hnum)
  refine ⟨hpos, ?_, ?_⟩
  · exact (reserve0_covered_iff hP hpos).mpr ((ceil_ediv_le_iff hden).mp (le_refl _))
  · intro q hq hcovered
    exact (ceil_ediv_le_iff hden).mpr ((reserve0_covered_iff hP hq).mp hcovered)

/-- Token1 in: the price rises to the greatest whole price that is
covered. -/
theorem reaches_floor (hP : 0 < sqrtP) (hL : 0 < liquidity) (hf : 0 ≤ f) :
    Reaches false liquidity sqrtP f (sqrtP + f * Q96 / liquidity) := by
  have hmoved : 0 ≤ f * Q96 / liquidity :=
    Int.ediv_nonneg (mul_nonneg hf Q96_nonneg) (le_of_lt hL)
  refine ⟨add_pos_of_pos_of_nonneg hP hmoved, (reserve1_covered_iff hL).mpr (le_refl _), ?_⟩
  intro q _ hcovered
  exact (reserve1_covered_iff hL).mp hcovered

/-- The branch for token1 in. -/
theorem quoteBranch_oneForZero (hP : 0 < sqrtP) (hL : 0 < liquidity) (hf : 0 ≤ f) :
    ∃ next, Reaches false liquidity sqrtP f next
      ∧ quoteBranch sqrtP liquidity f false
        = .ok (⌊reserve0 liquidity sqrtP - reserve0 liquidity next⌋, next) := by
  have hreach := reaches_floor hP hL hf
  have hahead : sqrtP ≤ sqrtP + f * Q96 / liquidity := hreach.ahead hP (Int.cast_nonneg hf)
  have hnum : 0 ≤ liquidity * Q96 * (sqrtP + f * Q96 / liquidity - sqrtP) :=
    mul_nonneg (mul_nonneg (le_of_lt hL) Q96_nonneg) (Int.sub_nonneg.mpr hahead)
  have hden : 0 < (sqrtP + f * Q96 / liquidity) * sqrtP := mul_pos hreach.mem hP
  refine ⟨_, hreach, ?_⟩
  simp only [quoteBranch, Bool.false_eq_true, if_false, bigDiv_ok (mul_nonneg hf Q96_nonneg) hL,
    bind, Except.bind, bigDiv_ok hnum hden, floor_reserve0_sub hP hreach.mem]

/-- The branch for token0 in. -/
theorem quoteBranch_zeroForOne (hP : 0 < sqrtP) (hL : 0 < liquidity) (hf : 0 ≤ f) :
    ∃ next, Reaches true liquidity sqrtP f next
      ∧ quoteBranch sqrtP liquidity f true
        = .ok (⌊reserve1 liquidity sqrtP - reserve1 liquidity next⌋, next) := by
  have hreach := reaches_ceil hP hL hf
  have hden : 0 < liquidity * Q96 + f * sqrtP :=
    add_pos_of_pos_of_nonneg (mul_pos hL Q96_pos) (mul_nonneg hf (le_of_lt hP))
  have hnum : 0 < liquidity * sqrtP * Q96 := mul_pos (mul_pos hL hP) Q96_pos
  have hceil : ceilDiv (liquidity * sqrtP * Q96) (liquidity * Q96 + f * sqrtP)
      = .ok ((liquidity * sqrtP * Q96 + (liquidity * Q96 + f * sqrtP) - 1)
          / (liquidity * Q96 + f * sqrtP)) := bigDiv_ok (by omega) hden
  refine ⟨_, hreach, ?_⟩
  rw [quoteBranch, if_pos rfl]
  simp only [hceil, bind, Except.bind]
  generalize (liquidity * sqrtP * Q96 + (liquidity * Q96 + f * sqrtP) - 1)
    / (liquidity * Q96 + f * sqrtP) = next at hreach
  have hahead : next ≤ sqrtP := hreach.ahead hP (Int.cast_nonneg hf)
  -- the price never rises, so the clamp changes nothing
  have hclamp : (if sqrtP ≤ next then sqrtP else next) = next := by
    split
    · omega
    · rfl
  have hout : 0 ≤ liquidity * (sqrtP - next) :=
    mul_nonneg (le_of_lt hL) (Int.sub_nonneg.mpr hahead)
  simp only [hclamp, bigDiv_ok hout Q96_pos, floor_reserve1_sub]

/-- The branches move as far as the input covers, and give what the other
reserve loses, rounded down. -/
theorem quoteBranch_spec (zeroForOne : Bool) (hP : 0 < sqrtP) (hL : 0 < liquidity)
    (hf : 0 ≤ f) :
    ∃ next, Reaches zeroForOne liquidity sqrtP f next
      ∧ quoteBranch sqrtP liquidity f zeroForOne
        = .ok (⌊reserveOut zeroForOne liquidity sqrtP - reserveOut zeroForOne liquidity next⌋,
            next) := by
  cases zeroForOne with
  | false => exact quoteBranch_oneForZero hP hL hf
  | true => exact quoteBranch_zeroForOne hP hL hf

/-- What is left of the input behind the fee. -/
def afterFee (amountIn : Int) : Int := amountIn * FEE_NUM / FEE_DEN

theorem afterFee_nonneg (hx : 0 ≤ amountIn) : 0 ≤ afterFee amountIn :=
  Int.ediv_nonneg (mul_nonneg hx (by decide)) (by decide)

theorem afterFee_mono {x y : Int} (h : x ≤ y) : afterFee x ≤ afterFee y :=
  Int.ediv_le_ediv (by decide) (mul_le_mul_of_nonneg_right h (by decide))

theorem afterFee_add (x y : Int) : afterFee x + afterFee y ≤ afterFee (x + y) := by
  unfold afterFee FEE_NUM FEE_DEN
  omega

/-- Without input the price stays. -/
theorem reaches_zero (zeroForOne : Bool) (hP : 0 < sqrtP) (hL : 0 < liquidity) :
    Reaches zeroForOne liquidity sqrtP 0 sqrtP := by
  refine ⟨hP, by rw [Int.cast_zero, add_zero], ?_⟩
  intro q hq hcovered
  cases zeroForOne with
  | false =>
      have hle := (reserve1_covered_iff hL).mp hcovered
      rw [Int.zero_mul, Int.zero_ediv, add_zero] at hle
      exact hle
  | true =>
      have hle := (reserve0_covered_iff hP hq).mp hcovered
      rw [Int.zero_mul, add_zero, mul_right_comm, mul_comm q] at hle
      exact le_of_mul_le_mul_left hle (mul_pos hL Q96_pos)

/-- The quote, early returns and all. -/
theorem quoteSingleTick_spec (zeroForOne : Bool) (hP : 0 < sqrtP) (hL : 0 < liquidity)
    (hx : 0 ≤ amountIn) :
    ∃ next, Reaches zeroForOne liquidity sqrtP (afterFee amountIn) next
      ∧ quoteSingleTick sqrtP liquidity amountIn zeroForOne
        = .ok ⟨⌊reserveOut zeroForOne liquidity sqrtP - reserveOut zeroForOne liquidity next⌋,
            next, false⟩ := by
  have hfee := afterFee_nonneg hx
  have hdiv : bigDiv (amountIn * FEE_NUM) FEE_DEN = .ok (afterFee amountIn) :=
    bigDiv_ok (mul_nonneg hx (by decide)) (by decide)
  rcases eq_or_lt_of_le hfee with hzero | hpos
  · -- nothing is left of the input: both early returns are this quote
    refine ⟨sqrtP, ?_, ?_⟩
    · rw [← hzero]
      exact reaches_zero zeroForOne hP hL
    · rw [sub_self, Int.floor_zero, quoteSingleTick, hdiv, ← hzero]
      split
      · rfl
      · rfl
  · have hin : 0 < amountIn := by
      unfold afterFee FEE_NUM FEE_DEN at hpos
      omega
    obtain ⟨next, hreach, hbranch⟩ := quoteBranch_spec zeroForOne hP hL hfee
    refine ⟨next, hreach, ?_⟩
    have hout : 0 ≤ ⌊reserveOut zeroForOne liquidity sqrtP
        - reserveOut zeroForOne liquidity next⌋ :=
      floor_sub_nonneg (reserveOut_anti (le_of_lt hL) hP
        (hreach.ahead hP (Int.cast_nonneg hfee)))
    rw [quoteSingleTick, if_neg (by omega), hdiv]
    simp only [bind, Except.bind, if_neg (not_le_of_gt hpos), hbranch,
      if_neg (not_lt_of_ge hout)]

/-- Without liquidity nothing moves. -/
theorem quoteSingleTick_empty (sqrtP amountIn : Int) (zeroForOne : Bool) :
    quoteSingleTick sqrtP 0 amountIn zeroForOne = .ok ⟨0, sqrtP, false⟩ :=
  if_pos (.inl (le_refl _))

-- ============================================================ the curve

/-- What the curve itself gives for `f`: the other reserve, less what is
left of it where the product is the liquidity's square again. -/
def curveOut (zeroForOne : Bool) (liquidity p : Int) (f : ℚ) : ℚ :=
  reserveOut zeroForOne liquidity p
    - (liquidity : ℚ) ^ 2 / (reserveIn zeroForOne liquidity p + f)

theorem curveOut_empty (zeroForOne : Bool) (p : Int) (f : ℚ) :
    curveOut zeroForOne 0 p f = 0 := by
  cases zeroForOne with
  | false => simp [curveOut, reserveOut, reserve0]
  | true => simp [curveOut, reserveOut, reserve1]

theorem curveOut_mono {f f' : ℚ} (zeroForOne : Bool) (hP : 0 < sqrtP) (hL : 0 < liquidity)
    (hf : 0 ≤ f) (hff' : f ≤ f') :
    curveOut zeroForOne liquidity sqrtP f ≤ curveOut zeroForOne liquidity sqrtP f' := by
  have hin : 0 < reserveIn zeroForOne liquidity sqrtP := reserveIn_pos hL hP
  apply sub_le_sub_left
  apply div_le_div_of_nonneg_left (sq_nonneg _) (add_pos_of_pos_of_nonneg hin hf)
  exact add_le_add_right hff' _

theorem afterFee_le (amountIn : Int) : (afterFee amountIn : ℚ) ≤ amountIn * (997 / 1000) := by
  have hle : afterFee amountIn * 1000 ≤ amountIn * 997 := by
    unfold afterFee FEE_NUM FEE_DEN
    omega
  have hle' : (afterFee amountIn : ℚ) * 1000 ≤ amountIn * 997 := by exact_mod_cast hle
  linarith

/-- Where the input does not reach further, no more goes out than on the
curve. -/
theorem floor_le_curveOut {zeroForOne : Bool} {next : Int} (hL : 0 < liquidity)
    (hreach : Reaches zeroForOne liquidity sqrtP f next) :
    ((⌊reserveOut zeroForOne liquidity sqrtP - reserveOut zeroForOne liquidity next⌋ : Int) : ℚ)
      ≤ curveOut zeroForOne liquidity sqrtP f := by
  apply le_trans (Int.floor_le _)
  exact sub_le_hyperbola (reserveIn_pos hL hreach.mem) (sq_nonneg _)
    (reserveIn_mul_reserveOut hreach.mem) hreach.covered

end Quote

section Conservative

variable {sqrtP liquidity : Int} (zeroForOne : Bool)

/-- One quote: no more than the curve gives, and the price goes the
trade's way. -/
theorem quote_bounds (hP : 0 < sqrtP) (hL : 0 ≤ liquidity) {amountIn : Int}
    (hx : 0 ≤ amountIn) :
    ∃ quote, quoteSingleTick sqrtP liquidity amountIn zeroForOne = .ok quote
      ∧ 0 ≤ quote.amountOut ∧ 0 < quote.sqrtPNext
      ∧ (quote.amountOut : ℚ) ≤ curveOut zeroForOne liquidity sqrtP (afterFee amountIn)
      ∧ curveOut zeroForOne liquidity sqrtP (afterFee amountIn)
        ≤ curveOut zeroForOne liquidity sqrtP (amountIn * (997 / 1000))
      ∧ Ahead zeroForOne sqrtP quote.sqrtPNext := by
  rcases eq_or_lt_of_le hL with rfl | hL
  · refine ⟨_, quoteSingleTick_empty _ _ _, le_refl _, hP, ?_, ?_, ?_⟩
    · rw [curveOut_empty, Int.cast_zero]
    · rw [curveOut_empty, curveOut_empty]
    · cases zeroForOne with
      | false => exact le_refl sqrtP
      | true => exact le_refl sqrtP
  · obtain ⟨next, hreach, hquote⟩ := quoteSingleTick_spec zeroForOne hP hL hx
    have hfee : (0 : ℚ) ≤ afterFee amountIn := Int.cast_nonneg (afterFee_nonneg hx)
    have hahead := hreach.ahead hP hfee
    exact ⟨_, hquote, floor_sub_nonneg (reserveOut_anti (le_of_lt hL) hP hahead), hreach.mem,
      floor_le_curveOut hL hreach, curveOut_mono zeroForOne hP hL hfee (afterFee_le amountIn),
      hahead⟩

/-- More in, no less out. -/
theorem quote_mono (hP : 0 < sqrtP) (hL : 0 ≤ liquidity) {x y : Int} (hx : 0 ≤ x)
    (hxy : x ≤ y) :
    ∃ quote quote', quoteSingleTick sqrtP liquidity x zeroForOne = .ok quote
      ∧ quoteSingleTick sqrtP liquidity y zeroForOne = .ok quote'
      ∧ quote.amountOut ≤ quote'.amountOut := by
  rcases eq_or_lt_of_le hL with rfl | hL
  · exact ⟨_, _, quoteSingleTick_empty _ _ _, quoteSingleTick_empty _ _ _, le_refl _⟩
  · obtain ⟨p, hp, hquote⟩ := quoteSingleTick_spec zeroForOne hP hL hx
    obtain ⟨q, hq, hquote'⟩ := quoteSingleTick_spec zeroForOne hP hL (le_trans hx hxy)
    have hahead := hp.mono hq (Int.cast_le.mpr (afterFee_mono hxy))
    exact ⟨_, _, hquote, hquote', floor_sub_mono (reserveOut_anti (le_of_lt hL) hp.mem hahead)⟩

/-- Two swaps, one after the other, give no more than one. -/
theorem quote_split (hP : 0 < sqrtP) (hL : 0 ≤ liquidity) {x₁ x₂ : Int} (hx₁ : 0 ≤ x₁)
    (hx₂ : 0 ≤ x₂) :
    ∃ first second whole, quoteSingleTick sqrtP liquidity x₁ zeroForOne = .ok first
      ∧ quoteSingleTick first.sqrtPNext liquidity x₂ zeroForOne = .ok second
      ∧ quoteSingleTick sqrtP liquidity (x₁ + x₂) zeroForOne = .ok whole
      ∧ first.amountOut + second.amountOut ≤ whole.amountOut := by
  rcases eq_or_lt_of_le hL with rfl | hL
  · exact ⟨_, _, _, quoteSingleTick_empty _ _ _, quoteSingleTick_empty _ _ _,
      quoteSingleTick_empty _ _ _, le_refl _⟩
  · obtain ⟨p, hp, hfirst⟩ := quoteSingleTick_spec zeroForOne hP hL hx₁
    obtain ⟨q, hq, hsecond⟩ := quoteSingleTick_spec zeroForOne hp.mem hL hx₂
    obtain ⟨r, hr, hwhole⟩ := quoteSingleTick_spec zeroForOne hP hL (add_nonneg hx₁ hx₂)
    have hfees : (afterFee x₁ : ℚ) + afterFee x₂ ≤ afterFee (x₁ + x₂) := by
      exact_mod_cast afterFee_add x₁ x₂
    have hahead := hp.split hq hr hfees
    exact ⟨_, _, _, hfirst, hsecond, hwhole,
      floor_sub_split (reserveOut_anti (le_of_lt hL) hq.mem hahead)⟩

/-- The quote is conservative, in either direction. -/
theorem swap_quote (hP : 0 < sqrtP) (hL : 0 ≤ liquidity) {amountIn x₁ x₂ : Int}
    (hx : 0 ≤ amountIn) (hx₁ : 0 ≤ x₁) (hx₂ : 0 ≤ x₂) :
    (∃ quote, quoteSingleTick sqrtP liquidity amountIn zeroForOne = .ok quote
        ∧ 0 ≤ quote.amountOut
        ∧ (quote.amountOut : ℚ) ≤ curveOut zeroForOne liquidity sqrtP (afterFee amountIn)
        ∧ (quote.amountOut : ℚ)
          ≤ curveOut zeroForOne liquidity sqrtP (amountIn * (997 / 1000))
        ∧ if zeroForOne then quote.sqrtPNext ≤ sqrtP else sqrtP ≤ quote.sqrtPNext)
      ∧ (x₁ ≤ x₂ →
          ∃ quote quote', quoteSingleTick sqrtP liquidity x₁ zeroForOne = .ok quote
            ∧ quoteSingleTick sqrtP liquidity x₂ zeroForOne = .ok quote'
            ∧ quote.amountOut ≤ quote'.amountOut)
      ∧ ∃ first second whole, quoteSingleTick sqrtP liquidity x₁ zeroForOne = .ok first
          ∧ quoteSingleTick first.sqrtPNext liquidity x₂ zeroForOne = .ok second
          ∧ quoteSingleTick sqrtP liquidity (x₁ + x₂) zeroForOne = .ok whole
          ∧ first.amountOut + second.amountOut ≤ whole.amountOut := by
  obtain ⟨quote, hquote, hnonneg, -, hcurve, hfee, hahead⟩ :=
    quote_bounds zeroForOne hP hL hx
  exact ⟨⟨quote, hquote, hnonneg, hcurve, le_trans hcurve hfee, hahead⟩,
    fun h => quote_mono zeroForOne hP hL hx₁ h, quote_split zeroForOne hP hL hx₁ hx₂⟩

end Conservative

/-- A small pool at price one: 1000 and then 2000 of token0. -/
theorem swap_quote_sample :
    (∃ less more, quoteSingleTick Q96 1000000 1000 true = .ok less
        ∧ quoteSingleTick Q96 1000000 2000 true = .ok more
        ∧ less.amountOut ≤ more.amountOut)
      ∧ ∃ first second whole, quoteSingleTick Q96 1000000 1000 true = .ok first
        ∧ quoteSingleTick first.sqrtPNext 1000000 2000 true = .ok second
        ∧ quoteSingleTick Q96 1000000 3000 true = .ok whole
        ∧ first.amountOut + second.amountOut ≤ whole.amountOut := by
  have hpool : (0 : Int) ≤ 1000000 := by omega
  have hone : (0 : Int) ≤ 1000 := by omega
  have htwo : (0 : Int) ≤ 2000 := by omega
  obtain ⟨-, hmono, hsplit⟩ :=
    swap_quote true Q96_pos hpool hone hone htwo
  exact ⟨hmono (by omega), hsplit⟩

end KoinosEvm.Proofs
