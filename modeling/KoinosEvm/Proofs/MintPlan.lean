/-
The mint planner.

`getSqrtRatioAtTick` returns a positive price for every tick in range: its
ratio is squeezed between the product of all its factors and one
(`ratio_bounds`), so the inversion for positive ticks never divides by
zero. The planner derives liquidity from one amount and the amounts from
the liquidity; the liquidity is one the amount covers, so the amount that
comes back is at most the one that was typed (`mint_plan`).
-/
import KoinosEvm.Lib.Curve
import KoinosEvm.Proofs.Reserves

namespace KoinosEvm.Proofs

open Lib Ui

-- ============================================================== prices

/-- The ratio with every factor in it. -/
def leastRatio (factors : List (Nat × Int)) (ratio : Int) : Int :=
  factors.foldl (fun ratio factor => bigShr (ratio * factor.2) 128) ratio

theorem mul_shr_le {ratio factor : Int} (hr : 0 ≤ ratio) (hf : factor ≤ 2 ^ 128) :
    bigShr (ratio * factor) 128 ≤ ratio := by
  apply Int.ediv_le_of_le_mul (by decide)
  exact mul_le_mul_of_nonneg_left hf hr

/-- A factor makes the ratio smaller, and no smaller than it does where it
is taken. -/
theorem ratioStep_bounds (absTick : Nat) {least ratio : Int} {factor : Nat × Int}
    (hleast : 0 ≤ least) (hratio : least ≤ ratio) (hf : 0 ≤ factor.2)
    (hone : factor.2 ≤ 2 ^ 128) :
    bigShr (least * factor.2) 128 ≤ ratioStep absTick ratio factor
      ∧ ratioStep absTick ratio factor ≤ ratio := by
  rw [ratioStep]
  by_cases hbit : absTick &&& factor.1 ≠ 0
  · rw [if_pos hbit]
    exact ⟨bigShr_mono (mul_le_mul_of_nonneg_right hratio hf) 128,
      mul_shr_le (le_trans hleast hratio) hone⟩
  · rw [if_neg hbit]
    exact ⟨le_trans (mul_shr_le hleast hone) hratio, le_refl _⟩

/-- Whichever factors a tick takes. -/
theorem ratio_bounds (absTick : Nat) (factors : List (Nat × Int)) {least ratio : Int}
    (hf : ∀ factor ∈ factors, 0 ≤ factor.2 ∧ factor.2 ≤ 2 ^ 128) (hleast : 0 ≤ least)
    (hratio : least ≤ ratio) :
    leastRatio factors least ≤ factors.foldl (ratioStep absTick) ratio
      ∧ factors.foldl (ratioStep absTick) ratio ≤ ratio := by
  induction factors generalizing least ratio with
  | nil => exact ⟨hratio, le_refl _⟩
  | cons factor factors ih =>
      obtain ⟨⟨hzero, hone⟩, hrest⟩ := List.forall_mem_cons.mp hf
      obtain ⟨hlow, hhigh⟩ := ratioStep_bounds absTick hleast hratio hzero hone
      obtain ⟨hl, hh⟩ := ih hrest (bigShr_nonneg (mul_nonneg hleast hzero) 128) hlow
      exact ⟨hl, le_trans hh hhigh⟩

theorem ratioFactors_fit : ∀ factor ∈ ratioFactors, 0 ≤ factor.2 ∧ factor.2 ≤ 2 ^ 128 := by
  have hall : ratioFactors.all (fun factor => 0 ≤ factor.2 && factor.2 ≤ 2 ^ 128) = true := rfl
  simpa using List.all_eq_true.mp hall

/-- The ratio of a tick, before the inversion. -/
theorem tickRatio_bounds (absTick : Nat) {first : Int}
    (hlow : 0xfffcb933bd6fad37aa2d162d1a594001 ≤ first) (hhigh : first ≤ 2 ^ 128) :
    0 < ratioFactors.foldl (ratioStep absTick) first
      ∧ ratioFactors.foldl (ratioStep absTick) first ≤ 2 ^ 128 := by
  obtain ⟨hl, hh⟩ := ratio_bounds absTick ratioFactors ratioFactors_fit (by decide) hlow
  have hpos : 0 < leastRatio ratioFactors 0xfffcb933bd6fad37aa2d162d1a594001 := by decide
  exact ⟨lt_of_lt_of_le hpos hl, le_trans hh hhigh⟩

theorem shr_up_pos {ratio : Int} (h : 0 < ratio) :
    0 < if ratio.tmod (2 ^ 32) ≠ 0 then bigShr ratio 32 + 1 else bigShr ratio 32 := by
  have hshr : 0 ≤ bigShr ratio 32 := bigShr_nonneg (le_of_lt h) 32
  by_cases hmod : ratio.tmod (2 ^ 32) ≠ 0
  · rw [if_pos hmod]
    omega
  · -- a positive multiple of 2^32 is at least 2^32
    rw [if_neg hmod, bigShr]
    rw [not_not, Int.tmod_eq_emod_of_nonneg (le_of_lt h)] at hmod
    omega

/-- A tick is out of range or has a positive price. -/
theorem getSqrtRatioAtTick_cases (tick : Int) :
    getSqrtRatioAtTick tick = .error (.error "T: tick out of range")
      ∨ ∃ sqrtP, getSqrtRatioAtTick tick = .ok sqrtP ∧ 0 < sqrtP := by
  unfold getSqrtRatioAtTick
  simp only
  generalize toInt32 tick = tick
  generalize (if tick < 0 then -tick else tick) = absTick
  by_cases hrange : MAX_TICK < absTick
  · exact .inl (if_pos hrange)
  rw [if_neg hrange]
  right
  generalize hfirst : (if absTick.toNat &&& 0x1 ≠ 0 then
    (0xfffcb933bd6fad37aa2d162d1a594001 : Int)
    else 0x100000000000000000000000000000000) = first
  have hbounds : 0xfffcb933bd6fad37aa2d162d1a594001 ≤ first ∧ first ≤ 2 ^ 128 := by
    rw [← hfirst]
    split
    · decide
    · decide
  obtain ⟨hpos, hle⟩ := tickRatio_bounds absTick.toNat hbounds.1 hbounds.2
  by_cases hup : 0 < tick
  · -- the inverse of at most one is positive again
    have hinv : 0 < MAX_U256 / ratioFactors.foldl (ratioStep absTick.toNat) first :=
      Int.le_ediv_of_mul_le hpos (le_trans (by rw [zero_add, one_mul]) (le_trans hle (by decide)))
    rw [if_pos hup, bigDiv_ok (by decide) hpos]
    exact ⟨_, rfl, shr_up_pos hinv⟩
  · rw [if_neg hup]
    exact ⟨_, rfl, shr_up_pos hpos⟩

theorem getSqrtRatioAtTick_pos {tick sqrtP : Int} (h : getSqrtRatioAtTick tick = .ok sqrtP) :
    0 < sqrtP := by
  rcases getSqrtRatioAtTick_cases tick with herr | ⟨s, hok, hpos⟩
  · rw [herr] at h
    cases h
  · rw [hok] at h
    rwa [← Except.ok.inj h]

-- ============================================================= amounts

section Plan

variable {sqrtP sqrtA sqrtB tickLower tickUpper amount : Int}

/-- The price, moved to the end of the range it is outside of. -/
def clamp (sqrtP sqrtA sqrtB : Int) : Int := max sqrtA (min sqrtP sqrtB)

theorem clamp_below (h : sqrtP ≤ sqrtA) : clamp sqrtP sqrtA sqrtB = sqrtA :=
  max_eq_left (le_trans (min_le_left _ _) h)

theorem clamp_above (hAB : sqrtA ≤ sqrtB) (h : sqrtB ≤ sqrtP) :
    clamp sqrtP sqrtA sqrtB = sqrtB := by
  rw [clamp, min_eq_right h, max_eq_right hAB]

theorem clamp_inside (hA : sqrtA ≤ sqrtP) (hB : sqrtP ≤ sqrtB) :
    clamp sqrtP sqrtA sqrtB = sqrtP := by
  rw [clamp, min_eq_left hB, max_eq_right hA]

theorem le_clamp : sqrtA ≤ clamp sqrtP sqrtA sqrtB := le_max_left _ _

theorem clamp_le (hAB : sqrtA ≤ sqrtB) : clamp sqrtP sqrtA sqrtB ≤ sqrtB :=
  max_le hAB (min_le_right _ _)

/-- In every region the amounts are what the reserves differ by between
the price and the ends of the range. -/
theorem getAmountsForLiquidity_eq {liquidity : Int} (hA : 0 < sqrtA) (hAB : sqrtA < sqrtB)
    (hL : 0 ≤ liquidity) :
    getAmountsForLiquidity sqrtP sqrtA sqrtB liquidity
      = .ok (⌊reserve0 liquidity (clamp sqrtP sqrtA sqrtB) - reserve0 liquidity sqrtB⌋,
          ⌊reserve1 liquidity (clamp sqrtP sqrtA sqrtB) - reserve1 liquidity sqrtA⌋) := by
  have hAB' := le_of_lt hAB
  rw [getAmountsForLiquidity, sort_of_le hAB']
  simp only
  by_cases hbelow : sqrtP ≤ sqrtA
  · rw [if_pos hbelow, getAmount0ForLiquidity_eq hA hAB' hL, clamp_below hbelow, sub_self,
      Int.floor_zero]
    rfl
  · rw [if_neg hbelow]
    have hAP := lt_of_not_ge hbelow
    by_cases habove : sqrtP < sqrtB
    · rw [if_pos habove, clamp_inside (le_of_lt hAP) (le_of_lt habove),
        getAmount0ForLiquidity_eq (lt_trans hA hAP) (le_of_lt habove) hL,
        getAmount1ForLiquidity_eq (le_of_lt hAP) hL]
      rfl
    · rw [if_neg habove, clamp_above hAB' (le_of_not_gt habove),
        getAmount1ForLiquidity_eq hAB' hL, sub_self, Int.floor_zero]
      rfl

-- ============================================================= the plan

/-- A plan with these amounts. -/
def planOf (kind : MintKind) (sqrtP sqrtA sqrtB liquidity : Int) : MintPlan where
  liquidity := liquidity
  amount0 := ⌊reserve0 liquidity (clamp sqrtP sqrtA sqrtB) - reserve0 liquidity sqrtB⌋
  amount1 := ⌊reserve1 liquidity (clamp sqrtP sqrtA sqrtB) - reserve1 liquidity sqrtA⌋
  kind := kind
  sqrtA := sqrtA
  sqrtB := sqrtB

/-- Token0 typed, and the price not above the range: the liquidity is that
of the part of the range above the price. -/
theorem computeMint_amount0 (hlower : getSqrtRatioAtTick tickLower = .ok sqrtA)
    (hupper : getSqrtRatioAtTick tickUpper = .ok sqrtB) (hA : 0 < sqrtA) (hAB : sqrtA < sqrtB)
    (hPB : sqrtP < sqrtB) (hx : 0 ≤ amount) :
    ∃ kind liquidity, 0 ≤ liquidity
      ∧ reserve0 liquidity (clamp sqrtP sqrtA sqrtB) - reserve0 liquidity sqrtB ≤ amount
      ∧ computeMint sqrtP tickLower tickUpper ⟨some amount, none⟩
        = .ok (planOf kind sqrtP sqrtA sqrtB liquidity) := by
  unfold computeMint
  rw [hlower, hupper]
  simp only [bind, Except.bind]
  by_cases hbelow : sqrtP ≤ sqrtA
  · obtain ⟨liquidity, hok, hL, hcovers⟩ := getLiquidityForAmount0_ok hA hAB hx
    refine ⟨.token0Only, liquidity, hL, ?_, ?_⟩
    · rw [clamp_below hbelow]
      exact hcovers
    · rw [if_pos hbelow, hok]
      simp only
      rw [getAmountsForLiquidity_eq hA hAB hL]
      rfl
  · have hAP := lt_of_not_ge hbelow
    obtain ⟨liquidity, hok, hL, hcovers⟩ :=
      getLiquidityForAmount0_ok (lt_trans hA hAP) hPB hx
    refine ⟨.both, liquidity, hL, ?_, ?_⟩
    · rw [clamp_inside (le_of_lt hAP) (le_of_lt hPB)]
      exact hcovers
    · rw [if_neg hbelow, if_neg (not_le_of_gt hPB), hok]
      simp only
      rw [getAmountsForLiquidity_eq hA hAB hL]
      rfl

/-- Token1 typed, and the price not below the range: the liquidity is that
of the part of the range below the price. -/
theorem computeMint_amount1 (hlower : getSqrtRatioAtTick tickLower = .ok sqrtA)
    (hupper : getSqrtRatioAtTick tickUpper = .ok sqrtB) (hA : 0 < sqrtA) (hAB : sqrtA < sqrtB)
    (hAP : sqrtA < sqrtP) (hx : 0 ≤ amount) :
    ∃ kind liquidity, 0 ≤ liquidity
      ∧ reserve1 liquidity (clamp sqrtP sqrtA sqrtB) - reserve1 liquidity sqrtA ≤ amount
      ∧ computeMint sqrtP tickLower tickUpper ⟨none, some amount⟩
        = .ok (planOf kind sqrtP sqrtA sqrtB liquidity) := by
  unfold computeMint
  rw [hlower, hupper]
  simp only [bind, Except.bind]
  rw [if_neg (not_le_of_gt hAP)]
  by_cases habove : sqrtB ≤ sqrtP
  · obtain ⟨liquidity, hok, hL, hcovers⟩ := getLiquidityForAmount1_ok hAB hx
    refine ⟨.token1Only, liquidity, hL, ?_, ?_⟩
    · rw [clamp_above (le_of_lt hAB) habove]
      exact hcovers
    · rw [if_pos habove, hok]
      simp only
      rw [getAmountsForLiquidity_eq hA hAB hL]
      rfl
  · obtain ⟨liquidity, hok, hL, hcovers⟩ := getLiquidityForAmount1_ok hAP hx
    refine ⟨.both, liquidity, hL, ?_, ?_⟩
    · rw [clamp_inside (le_of_lt hAP) (le_of_not_ge habove)]
      exact hcovers
    · rw [if_neg habove, hok]
      simp only
      rw [getAmountsForLiquidity_eq hA hAB hL]
      rfl

/-- What a plan may be for an amount of one token: nothing negative, no
more of that token than was typed, and none of the other outside the
range. -/
structure Affordable (sqrtP sqrtA sqrtB amount : Int) (plan : MintPlan)
    (typed other : MintPlan → Int) : Prop where
  liquidity : 0 ≤ plan.liquidity
  typed_nonneg : 0 ≤ typed plan
  other_nonneg : 0 ≤ other plan
  typed_le : typed plan ≤ amount
  outside : sqrtP ≤ sqrtA ∨ sqrtB ≤ sqrtP → other plan = 0
  below : sqrtP ≤ sqrtA → plan.amount1 = 0
  above : sqrtB ≤ sqrtP → plan.amount0 = 0

section Amounts

variable {kind : MintKind} {liquidity : Int}

theorem planOf_nonneg (hA : 0 < sqrtA) (hAB : sqrtA < sqrtB) (hL : 0 ≤ liquidity) :
    0 ≤ (planOf kind sqrtP sqrtA sqrtB liquidity).amount0
      ∧ 0 ≤ (planOf kind sqrtP sqrtA sqrtB liquidity).amount1 := by
  have hclamp : 0 < clamp sqrtP sqrtA sqrtB := lt_of_lt_of_le hA le_clamp
  constructor
  · exact floor_sub_nonneg (reserve0_anti hL hclamp (clamp_le (le_of_lt hAB)))
  · exact floor_sub_nonneg (reserve1_mono hL le_clamp)

theorem planOf_below (h : sqrtP ≤ sqrtA) :
    (planOf kind sqrtP sqrtA sqrtB liquidity).amount1 = 0 := by
  simp [planOf, clamp_below h]

theorem planOf_above (hAB : sqrtA < sqrtB) (h : sqrtB ≤ sqrtP) :
    (planOf kind sqrtP sqrtA sqrtB liquidity).amount0 = 0 := by
  simp [planOf, clamp_above (le_of_lt hAB) h]

end Amounts

/-- A floor is no more than what its argument is covered by. -/
theorem floor_le_of_covers {x : ℚ} (h : x ≤ amount) : ⌊x⌋ ≤ amount := by
  have hfloor : (⌊x⌋ : ℚ) ≤ (amount : ℚ) := le_trans (Int.floor_le x) h
  exact Int.cast_le.mp hfloor

/-- A plan for nothing. -/
theorem affordable_nothing (kind : MintKind) {typed other : MintPlan → Int}
    (htyped : typed ⟨0, 0, 0, kind, sqrtA, sqrtB⟩ = 0)
    (hother : other ⟨0, 0, 0, kind, sqrtA, sqrtB⟩ = 0) (hx : 0 ≤ amount) :
    Affordable sqrtP sqrtA sqrtB amount ⟨0, 0, 0, kind, sqrtA, sqrtB⟩ typed other where
  liquidity := le_refl _
  typed_nonneg := le_of_eq htyped.symm
  other_nonneg := le_of_eq hother.symm
  typed_le := by
    rw [htyped]
    exact hx
  outside _ := hother
  below _ := rfl
  above _ := rfl

theorem affordable_amount0 (hlower : getSqrtRatioAtTick tickLower = .ok sqrtA)
    (hupper : getSqrtRatioAtTick tickUpper = .ok sqrtB) (hAB : sqrtA < sqrtB)
    (hx : 0 ≤ amount) :
    ∃ plan, computeMint sqrtP tickLower tickUpper ⟨some amount, none⟩ = .ok plan
      ∧ Affordable sqrtP sqrtA sqrtB amount plan MintPlan.amount0 MintPlan.amount1 := by
  have hA : 0 < sqrtA := getSqrtRatioAtTick_pos hlower
  rcases lt_or_ge sqrtP sqrtB with hPB | hPB
  · obtain ⟨kind, liquidity, hL, hcovers, hplan⟩ :=
      computeMint_amount0 hlower hupper hA hAB hPB hx
    obtain ⟨h0, h1⟩ := planOf_nonneg hA hAB hL
    refine ⟨_, hplan, hL, h0, h1, floor_le_of_covers hcovers, ?_, planOf_below,
      planOf_above hAB⟩
    intro hout
    exact planOf_below (hout.resolve_right (not_le_of_gt hPB))
  · -- the price is above the range, which takes no token0
    refine ⟨_, ?_, affordable_nothing .token1Only rfl rfl hx⟩
    unfold computeMint
    rw [hlower, hupper]
    simp only [bind, Except.bind]
    rw [if_neg (not_le_of_gt (lt_of_lt_of_le hAB hPB)), if_pos hPB]

theorem affordable_amount1 (hlower : getSqrtRatioAtTick tickLower = .ok sqrtA)
    (hupper : getSqrtRatioAtTick tickUpper = .ok sqrtB) (hAB : sqrtA < sqrtB)
    (hx : 0 ≤ amount) :
    ∃ plan, computeMint sqrtP tickLower tickUpper ⟨none, some amount⟩ = .ok plan
      ∧ Affordable sqrtP sqrtA sqrtB amount plan MintPlan.amount1 MintPlan.amount0 := by
  have hA : 0 < sqrtA := getSqrtRatioAtTick_pos hlower
  rcases lt_or_ge sqrtA sqrtP with hAP | hAP
  · obtain ⟨kind, liquidity, hL, hcovers, hplan⟩ :=
      computeMint_amount1 hlower hupper hA hAB hAP hx
    obtain ⟨h0, h1⟩ := planOf_nonneg hA hAB hL
    refine ⟨_, hplan, hL, h1, h0, floor_le_of_covers hcovers, ?_, planOf_below,
      planOf_above hAB⟩
    intro hout
    exact planOf_above hAB (hout.resolve_left (not_le_of_gt hAP))
  · -- the price is below the range, which takes no token1
    refine ⟨_, ?_, affordable_nothing .token0Only rfl rfl hx⟩
    unfold computeMint
    rw [hlower, hupper]
    simp only [bind, Except.bind]
    rw [if_pos hAP]

/-- The planner never asks for more than the user typed. -/
theorem mint_plan (hlower : getSqrtRatioAtTick tickLower = .ok sqrtA)
    (hupper : getSqrtRatioAtTick tickUpper = .ok sqrtB) (hAB : sqrtA < sqrtB)
    (hx : 0 ≤ amount) :
    (∃ plan, computeMint sqrtP tickLower tickUpper ⟨some amount, none⟩ = .ok plan
        ∧ Affordable sqrtP sqrtA sqrtB amount plan MintPlan.amount0 MintPlan.amount1)
      ∧ ∃ plan, computeMint sqrtP tickLower tickUpper ⟨none, some amount⟩ = .ok plan
        ∧ Affordable sqrtP sqrtA sqrtB amount plan MintPlan.amount1 MintPlan.amount0 :=
  ⟨affordable_amount0 hlower hupper hAB hx, affordable_amount1 hlower hupper hAB hx⟩

end Plan

/-- One token0 (of six decimals) at price one, between ticks -60 and 60. -/
theorem mint_plan_sample :
    ∃ plan, computeMint Q96 (-60) 60 ⟨some 1000000, none⟩ = .ok plan
      ∧ Affordable Q96 78990846045029531151608375686 79466191966197645195421774833 1000000 plan
        MintPlan.amount0 MintPlan.amount1 :=
  (mint_plan rfl rfl (by decide) (by decide)).1

end KoinosEvm.Proofs
