/-
The wide quantities of rpc/src/eth_codec.rs, and what the admission floor of
rpc/src/rpc.rs does with them: `eth_gasPrice` advertises the floor, and
`eth_sendRawTransaction` holds a transaction's committed price to it.
-/
import KoinosEvm.Proxy.GetLogs

namespace KoinosEvm.Proxy

variable [HexCrate]

/-- `parse_u256_be`. -/
def parseU256Be (s : String) : Except String B256 := do
  let s ← orError (stripPrefix "0x" s) "expected 0x-prefixed quantity"
  if s.isEmpty then .error "empty quantity"
  else if 64 < strLen s then .error "quantity exceeds 256 bits"
  else
    let padded := String.ofList (List.replicate (64 - strLen s) '0' ++ s.toList)
    let bytes ← hexDecode padded
    -- of 64 digits there are 32 bytes
    return (FixedBytes.ofBytes? 32 bytes).getD (.zero 32)

/-- `quantity_from_be32`. -/
def quantityFromBe32 (bytes : B256) : Value :=
  let trimmed := (hexEncode bytes.bytes).toList.dropWhile (· == '0')
  if trimmed.isEmpty then .string "0x0" else .string ("0x" ++ String.ofList trimmed)

/-- `quantity_u128`. -/
def quantityU128 (n : U128) : Value := numberHex n.toNat

/-- `u256_be_ge_u128`. -/
def u256BeGeU128 (v : B256) (floor : U128) : Bool :=
  if (v.bytes.take 16).any (· ≠ 0) then true
  else decide (floor ≤ BitVec.ofNat 128 (Lib.ofBe (v.bytes.drop 16)))

/-- `server_error`. -/
def serverError (msg : String) : RpcFailure := ⟨some (-32000), msg⟩

/-- The admission floor of `handle_send_raw_tx`. -/
def checkGasPrice (minGasPriceWei : U128) (gasPrice : B256) : Except RpcFailure Unit :=
  if 0 < minGasPriceWei ∧ ¬ u256BeGeU128 gasPrice minGasPriceWei then
    let floor := minGasPriceWei.toNat
    .error (serverError
      s!"transaction underpriced: committed gas price below relay floor of {floor} wei (set by MIN_GAS_PRICE_WEI)")
  else .ok ()

/-- `eth_gasPrice`. -/
def handleGasPrice (minGasPriceWei : U128) : Value := quantityU128 minGasPriceWei

end KoinosEvm.Proxy
