/-
The request parameters and quantities of Ethereum's JSON-RPC
(rpc/src/eth_codec.rs), and the errors of the handlers (rpc/src/rpc.rs).
-/
import KoinosEvm.Proxy.ProcessEntry

namespace KoinosEvm.Proxy

-- ================================================================ errors

/-- An `anyhow::Error` of a handler: an `RpcError` with its code, or any
other. -/
structure RpcFailure where
  code : Option Int
  message : String
  deriving DecidableEq

/-- A result of `anyhow`, its error a text, in a handler. -/
def anyhow {α : Type} : Except String α → Except RpcFailure α
  | .ok a => .ok a
  | .error e => .error ⟨none, e⟩

/-- `.map_err(bad_params)`. -/
def badParams {α : Type} : Except String α → Except RpcFailure α
  | .ok a => .ok a
  | .error e => .error ⟨some (-32602), "invalid params: " ++ e⟩

-- ================================================================ readers

/-- `s.starts_with(p)`. -/
def startsWith (p s : String) : Bool := (stripPrefix p s).isSome

/-- The loop of `u64::from_str_radix(s, 16)`. -/
def fromHexLoop : List Char → Nat → Except String Nat
  | [], n => .ok n
  | c :: rest, n =>
      match hexDigit c with
      | none => .error "invalid digit found in string"
      | some d =>
          if 2 ^ 64 ≤ 16 * n + d.toNat then .error "number too large to fit in target type"
          else fromHexLoop rest (16 * n + d.toNat)

/-- `u64::from_str_radix(s, 16)` of a text that is not empty. -/
def fromHex (s : String) : Except String UInt64 :=
  let digits : List Char :=
    match s.toList with
    | '+' :: c :: rest => c :: rest
    | cs => cs
  (fromHexLoop digits 0).map UInt64.ofNat

/-- `parse_quantity`. -/
def parseQuantity (s : String) : Except String UInt64 := do
  let s ← orError (stripPrefix "0x" s) "expected 0x-prefixed quantity"
  if s.isEmpty then .error "empty quantity" else fromHex s

/-- `quantity`. -/
def quantity (n : UInt64) : Value :=
  .string ("0x" ++ String.ofList (Nat.toDigits 16 n.toNat))

section Hex

variable [HexCrate]

/-- `parse_address`. -/
def parseAddress (s : String) : Except String Address := do
  let v ← parseData s
  let len := v.length
  orError (FixedBytes.ofBytes? 20 v) s!"address must be 20 bytes, got {len}"

/-- `parse_b32`. -/
def parseB32 (s : String) : Except String B256 := do
  let v ← parseData s
  let len := v.length
  orError (FixedBytes.ofBytes? 32 v) s!"expected 32 bytes, got {len}"

end Hex

-- ================================================================= params

/-- `param`. -/
def param (params : Value) (idx : Nat) : Except String Value :=
  match params with
  | .array arr => orError arr[idx]? s!"missing param at index {idx}"
  | _ => .error "params must be an array"

/-- `param_str`. -/
def paramStr (params : Value) (idx : Nat) : Except String String := do
  orError (← param params idx).asStr s!"param {idx} must be a string"

-- =============================================================== the head

/-- The height in a reply to `get_head_info`. -/
def headHeight (headInfo : Except String Value) : Except RpcFailure UInt64 :=
  anyhow (headInfo.bind fun head =>
    orError ((head.get "head_topology").bind (·.getU64 "height")) "head_info missing height")

/-- `resolve_block_number_tag`. -/
def resolveBlockNumberTag (headInfo : Except String Value) (tag : String) :
    Except RpcFailure UInt64 :=
  if tag = "latest" ∨ tag = "pending" ∨ tag = "safe" ∨ tag = "finalized" then headHeight headInfo
  else if tag = "earliest" then .ok 1
  else if startsWith "0x" tag then badParams (parseQuantity tag)
  else badParams (.error s!"unsupported block tag: {tag}")

end KoinosEvm.Proxy
