/-
The page's own pool mathematics (ui/v3math.js): square-root prices by
tick, the amounts a position of given liquidity is made of, the planner
that derives a position from one amount the user typed, and the quote of
a swap that stays within the current tick.

All values are BigInts but the ticks, which are numbers put through
`| 0`.
-/
import KoinosEvm.Lib.BigInt

namespace KoinosEvm.Ui

open Lib

/-- `Q96`. -/
def Q96 : Int := 2 ^ 96

/-- `MAX_U256`. -/
def MAX_U256 : Int := 2 ^ 256 - 1

/-- `MAX_TICK`. -/
def MAX_TICK : Int := 887272

-- =============================================================== prices

/-- What the ratio is multiplied by, for each bit of the tick's magnitude
but the lowest. -/
def ratioFactors : List (Nat × Int) := [
  (0x2, 0xfff97272373d413259a46990580e213a),
  (0x4, 0xfff2e50f5f656932ef12357cf3c7fdcc),
  (0x8, 0xffe5caca7e10e4e61c3624eaa0941cd0),
  (0x10, 0xffcb9843d60f6159c9db58835c926644),
  (0x20, 0xff973b41fa98c081472e6896dfb254c0),
  (0x40, 0xff2ea16466c96a3843ec78b326b52861),
  (0x80, 0xfe5dee046a99a2a811c461f1969c3053),
  (0x100, 0xfcbe86c7900a88aedcffc83b479aa3a4),
  (0x200, 0xf987a7253ac413176f2b074cf7815e54),
  (0x400, 0xf3392b0822b70005940c7a398e4b70f3),
  (0x800, 0xe7159475a2c29b7443b29c7fa6e889d9),
  (0x1000, 0xd097f3bdfd2022b8845ad8f792aa5825),
  (0x2000, 0xa9f746462d870fdf8a65dc1f90e061e5),
  (0x4000, 0x70d869a156d2a1b890bb3df62baf32f7),
  (0x8000, 0x31be135f97d08fd981231505542fcfa6),
  (0x10000, 0x9aa508b5b7a84e1c677de54f3e99bc9),
  (0x20000, 0x5d6af8dedb81196699c329225ee604),
  (0x40000, 0x2216e584f5fa1ea926041bedfe98),
  (0x80000, 0x48a170391f7dc42444e8fa2)]

/-- `if (absTick & bit) ratio = (ratio * factor) >> 128n;`. -/
def ratioStep (absTick : Nat) (ratio : Int) (factor : Nat × Int) : Int :=
  if absTick &&& factor.1 ≠ 0 then bigShr (ratio * factor.2) 128 else ratio

/-- `getSqrtRatioAtTick`. -/
def getSqrtRatioAtTick (tick : Int) : Except JsError Int :=
  let tick := toInt32 tick
  let absTick := if tick < 0 then -tick else tick
  if MAX_TICK < absTick then .error (.error "T: tick out of range")
  else do
    let first := if absTick.toNat &&& 0x1 ≠ 0 then 0xfffcb933bd6fad37aa2d162d1a594001
      else 0x100000000000000000000000000000000
    let ratio := ratioFactors.foldl (ratioStep absTick.toNat) first
    let ratio ← if 0 < tick then bigDiv MAX_U256 ratio else .ok ratio
    -- rounding up
    let sqrtP := bigShr ratio 32
    .ok (if ratio.tmod (2 ^ 32) ≠ 0 then sqrtP + 1 else sqrtP)

-- ===================================================== LiquidityAmounts

/-- `sort`. -/
def sort (a b : Int) : Int × Int := if b < a then (b, a) else (a, b)

/-- `getLiquidityForAmount0`. -/
def getLiquidityForAmount0 (sqrtA sqrtB amount0 : Int) : Except JsError Int := do
  let (sqrtA, sqrtB) := sort sqrtA sqrtB
  let intermediate ← bigDiv (sqrtA * sqrtB) Q96
  bigDiv (amount0 * intermediate) (sqrtB - sqrtA)

/-- `getLiquidityForAmount1`. -/
def getLiquidityForAmount1 (sqrtA sqrtB amount1 : Int) : Except JsError Int :=
  let (sqrtA, sqrtB) := sort sqrtA sqrtB
  bigDiv (amount1 * Q96) (sqrtB - sqrtA)

/-- `getAmount0ForLiquidity`. -/
def getAmount0ForLiquidity (sqrtA sqrtB liquidity : Int) : Except JsError Int := do
  let (sqrtA, sqrtB) := sort sqrtA sqrtB
  let scaled ← bigDiv (liquidity * 2 ^ 96 * (sqrtB - sqrtA)) sqrtB
  bigDiv scaled sqrtA

/-- `getAmount1ForLiquidity`. -/
def getAmount1ForLiquidity (sqrtA sqrtB liquidity : Int) : Except JsError Int :=
  let (sqrtA, sqrtB) := sort sqrtA sqrtB
  bigDiv (liquidity * (sqrtB - sqrtA)) Q96

/-- `getAmountsForLiquidity`. -/
def getAmountsForLiquidity (sqrtP sqrtA sqrtB liquidity : Int) : Except JsError (Int × Int) :=
  let (sqrtA, sqrtB) := sort sqrtA sqrtB
  if sqrtP ≤ sqrtA then do
    let a0 ← getAmount0ForLiquidity sqrtA sqrtB liquidity
    .ok (a0, 0)
  else if sqrtP < sqrtB then do
    let a0 ← getAmount0ForLiquidity sqrtP sqrtB liquidity
    let a1 ← getAmount1ForLiquidity sqrtA sqrtP liquidity
    .ok (a0, a1)
  else do
    let a1 ← getAmount1ForLiquidity sqrtA sqrtB liquidity
    .ok (0, a1)

-- ============================================================= swap quote

/-- `FEE_NUM`. -/
def FEE_NUM : Int := 997000

/-- `FEE_DEN`. -/
def FEE_DEN : Int := 1000000

/-- `ceilDiv`. -/
def ceilDiv (a b : Int) : Except JsError Int := bigDiv (a + b - 1) b

/-- What `quoteSingleTick` returns. -/
structure Quote where
  amountOut : Int
  sqrtPNext : Int
  crossedToLimit : Bool
  deriving DecidableEq

/-- The two branches of `quoteSingleTick`: what goes out, and the next
price. -/
def quoteBranch (sqrtP liquidity amountInAfterFee : Int) (zeroForOne : Bool) :
    Except JsError (Int × Int) :=
  if zeroForOne then do
    let num := liquidity * sqrtP * Q96
    let den := liquidity * Q96 + amountInAfterFee * sqrtP
    let sqrtPNext ← ceilDiv num den
    let sqrtPNext := if sqrtP ≤ sqrtPNext then sqrtP else sqrtPNext
    let amountOut ← bigDiv (liquidity * (sqrtP - sqrtPNext)) Q96
    .ok (amountOut, sqrtPNext)
  else do
    let moved ← bigDiv (amountInAfterFee * Q96) liquidity
    let sqrtPNext := sqrtP + moved
    let amountOut ← bigDiv (liquidity * Q96 * (sqrtPNext - sqrtP)) (sqrtPNext * sqrtP)
    .ok (amountOut, sqrtPNext)

/-- `quoteSingleTick`. -/
def quoteSingleTick (sqrtP liquidity amountIn : Int) (zeroForOne : Bool) :
    Except JsError Quote :=
  if liquidity ≤ 0 ∨ amountIn ≤ 0 then .ok ⟨0, sqrtP, false⟩
  else do
    let amountInAfterFee ← bigDiv (amountIn * FEE_NUM) FEE_DEN
    if amountInAfterFee ≤ 0 then .ok ⟨0, sqrtP, false⟩
    else do
      let (amountOut, sqrtPNext) ← quoteBranch sqrtP liquidity amountInAfterFee zeroForOne
      let amountOut := if amountOut < 0 then 0 else amountOut
      .ok ⟨amountOut, sqrtPNext, false⟩

-- =========================================================== the planner

/-- `provided`: what the user typed. -/
structure Provided where
  amount0 : Option Int
  amount1 : Option Int

/-- `kind`: which tokens the position needs. -/
inductive MintKind where
  | token0Only
  | token1Only
  | both
  deriving DecidableEq

/-- What `computeMint` returns. -/
structure MintPlan where
  liquidity : Int
  amount0 : Int
  amount1 : Int
  kind : MintKind
  sqrtA : Int
  sqrtB : Int
  deriving DecidableEq

/-- `computeMint`. -/
def computeMint (sqrtP tickLower tickUpper : Int) (provided : Provided) :
    Except JsError MintPlan := do
  let sqrtA ← getSqrtRatioAtTick tickLower
  let sqrtB ← getSqrtRatioAtTick tickUpper
  let planned (kind : MintKind) (liquidity : Int) : Except JsError MintPlan := do
    let (amount0, amount1) ← getAmountsForLiquidity sqrtP sqrtA sqrtB liquidity
    .ok ⟨liquidity, amount0, amount1, kind, sqrtA, sqrtB⟩
  if sqrtP ≤ sqrtA then
    -- below the range: all token0
    match provided.amount0 with
    | none => .ok ⟨0, 0, 0, .token0Only, sqrtA, sqrtB⟩
    | some amount0 => do planned .token0Only (← getLiquidityForAmount0 sqrtA sqrtB amount0)
  else if sqrtB ≤ sqrtP then
    -- above the range: all token1
    match provided.amount1 with
    | none => .ok ⟨0, 0, 0, .token1Only, sqrtA, sqrtB⟩
    | some amount1 => do planned .token1Only (← getLiquidityForAmount1 sqrtA sqrtB amount1)
  else
    match provided.amount0, provided.amount1 with
    | some amount0, _ => do planned .both (← getLiquidityForAmount0 sqrtP sqrtB amount0)
    | none, some amount1 => do planned .both (← getLiquidityForAmount1 sqrtA sqrtP amount1)
    | none, none => .ok ⟨0, 0, 0, .both, sqrtA, sqrtB⟩

end KoinosEvm.Ui
