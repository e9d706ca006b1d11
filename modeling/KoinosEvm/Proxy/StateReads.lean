/-
The requests that read the EVM's state (rpc/src/rpc.rs) over the node's
`chain.read_contract` (rpc/src/koinos.rs).

A handler may fail, with an EVM revert or with another error, and the reader
of the engine's replies may panic (`Handler`). The node is what it posts
back. `eth_getTransactionCount` takes the pending nonces (PendingNonce.lean)
as they are when it has the lock, and hands them back.
-/
import KoinosEvm.Proxy.KoinosTx
import KoinosEvm.Proxy.PendingNonce
import KoinosEvm.Proxy.Quantities

namespace KoinosEvm.Proxy

-- ============================================================= handlers

/-- An `anyhow::Error` of a handler: a `RevertError`, or any other. -/
inductive HandlerError where
  | revert (output : Bytes)
  | failure (f : RpcFailure)
  deriving DecidableEq

/-- A handler: it may panic, and it may fail. -/
abbrev Handler : Type → Type := ExceptT HandlerError (Except Panic)

/-- `?` on an error that is no revert. -/
def failing {α : Type} : Except RpcFailure α → Handler α
  | .ok a => pure a
  | .error f => throw (.failure f)

/-- `.map_err(bad_params)?`. -/
def badParam {α : Type} (x : Except String α) : Handler α := failing (badParams x)

/-- `?` on the outcome of a reader of replies. -/
def reading {α : Type} : Except Panic (Except String α) → Handler α
  | .ok x => failing (anyhow x)
  | .error p => ExceptT.mk (.error p)

-- =============================================================== the node

/-- The node and the crates: what a `POST` is answered with, the base64
engines, and the texts that come from outside. -/
structure NodeClient where
  post : Value → Except String Value
  b64 : Base64
  checks : Checks
  /-- `{}` of a JSON value. -/
  display : Value → String
  /-- `{:?}` of a text. -/
  debug : String → String
  engineContractAddrB58check : String

namespace NodeClient

variable [HexCrate] (client : NodeClient)

/-- The request body of `KoinosClient::rpc`. -/
def rpcRequest (method : String) (params : Value) : Value :=
  .object [("jsonrpc", .string "2.0"), ("id", .number 1), ("method", .string method),
    ("params", params)]

/-- `KoinosClient::rpc`. -/
def rpc (method : String) (params : Value) : Except String Value := do
  let resp ← client.post (rpcRequest method params)
  match resp.get "error" with
  | some err => .error ("koinos rpc error: " ++ client.display err)
  | none => orError (resp.get "result") "koinos rpc response missing 'result'"

/-- The parameters of `chain.read_contract`. -/
def readParams (entryPoint : UInt32) (argsB64 : String) : Value :=
  .object [("contract_id", .string client.engineContractAddrB58check),
    ("entry_point", .number entryPoint.toNat), ("args", .string argsB64)]

/-- `KoinosClient::read_contract`, of the engine. -/
def readContract (entryPoint : UInt32) (args : Bytes) : Except String Bytes := do
  let resp ← client.rpc "chain.read_contract"
    (client.readParams entryPoint (encodeB64 args))
  let resultB64 := (resp.getStr "result").getD ""
  orError (decodeB64Lax client.b64 resultB64) ("invalid base64: " ++ client.debug resultB64)

-- ========================================================== the arguments

def EP_CALL_VIEW : UInt32 := 0x00000002
def EP_GET_ACCOUNT : UInt32 := 0x00000004
def EP_GET_STORAGE_AT : UInt32 := 0x00000005
def EP_GET_CODE : UInt32 := 0x00000006

/-- `build_get_storage_at_args`. -/
def buildGetStorageAtArgs (addr : Address) (slot : B256) : Bytes := addr.bytes ++ slot.bytes

/-- `build_get_code_args`. -/
def buildGetCodeArgs (addr : Address) : Bytes := addr.bytes

-- ============================================================ the requests

/-- The address in a parameter. -/
def addressParam (params : Value) (idx : Nat) : Handler Address := do
  let addrS ← badParam (paramStr params idx)
  badParam (parseAddress addrS)

/-- `read_account`. -/
def readAccount (addr : Address) : Handler (Option EvmAccount) := do
  let bytes ← failing (anyhow (client.readContract EP_GET_ACCOUNT (buildGetAccountArgs addr)))
  reading (decodeAccount client.checks bytes)

/-- `handle_get_balance`. -/
def handleGetBalance (params : Value) : Handler Value := do
  let addr ← addressParam params 0
  match ← client.readAccount addr with
  | some a => return quantityFromBe32 a.balance
  | none => return .string "0x0"

/-- `handle_get_tx_count`. -/
def handleGetTxCount (pendingNonce : PendingNonceStore) (now : Nat) (params : Value) :
    Handler (Value × PendingNonceStore) := do
  let addr ← addressParam params 0
  let onChain := ((← client.readAccount addr).map EvmAccount.nonce).getD 0
  let blockTag := (paramStr params 1).toOption.getD "latest"
  -- only "pending" looks at the relayed transactions
  if blockTag ≠ "pending" then return (quantity onChain, pendingNonce)
  let (count, pendingNonce) := countPending pendingNonce now addr onChain
  return (quantity count, pendingNonce)

/-- `handle_get_code`. -/
def handleGetCode (params : Value) : Handler Value := do
  let addr ← addressParam params 0
  let bytes ← failing (anyhow (client.readContract EP_GET_CODE (buildGetCodeArgs addr)))
  return dataHex bytes

/-- `handle_get_storage_at`. -/
def handleGetStorageAt (params : Value) : Handler Value := do
  let addrS ← badParam (paramStr params 0)
  let slotS ← badParam (paramStr params 1)
  let addr ← badParam (parseAddress addrS)
  let slot ← badParam (parseB32 slotS)
  let bytes ← failing (anyhow
    (client.readContract EP_GET_STORAGE_AT (buildGetStorageAtArgs addr slot)))
  return dataHex bytes

/-- The calldata of a call object. -/
def parseCalldata (dataS : String) : Handler NativeBuf :=
  let parsed := if dataS = "0x" ∨ dataS.isEmpty then .ok [] else parseData dataS
  do
    let bytes ← badParam parsed
    -- a `Vec` is no longer than this
    if h : bytes.length < 2 ^ 63 then return ⟨bytes, h⟩
    else throw (.failure ⟨none, "capacity overflow"⟩)

/-- The address in a member of a call object, if it is there. -/
def parseMember (text : Option String) : Handler (Option Address) :=
  match text with
  | some s => some <$> badParam (parseAddress s)
  | none => pure none

/-- The value in a call object, if it is there. -/
def parseValue (text : Option String) : Handler (Option B256) :=
  match text with
  | some s => some <$> badParam (parseU256Be s)
  | none => pure none

/-- The gas limit of a call object, thirty million where there is none. -/
def parseGas (text : Option String) : Handler UInt64 :=
  match text with
  | some s => badParam (parseQuantity s)
  | none => pure 30000000

/-- `handle_eth_call`. -/
def handleEthCall (params : Value) : Handler Value := do
  let callObj ← badParam (param params 0)
  let toS ← badParam (orError (callObj.getStr "to") "eth_call: 'to' required")
  let toAddr ← badParam (parseAddress toS)
  let calldata ← parseCalldata ((callObj.getStr "data").getD "0x")
  let caller ← parseMember (callObj.getStr "from")
  let value ← parseValue (callObj.getStr "value")
  let gasLimit ← parseGas (callObj.getStr "gas")
  let bytes ← failing (anyhow (client.readContract EP_CALL_VIEW
    (buildCallViewArgs ⟨caller, some toAddr, value, calldata, gasLimit⟩)))
  let result ← reading (decodeEvmResult client.checks bytes)
  if !result.success then throw (.revert result.output)
  return dataHex result.output

/-- `gas_used.saturating_mul(120) / 100`, at least 21000. -/
def gasEstimate (gasUsed : UInt64) : UInt64 :=
  let scaled := min (gasUsed.toNat * 120) (2 ^ 64 - 1) / 100
  UInt64.ofNat (max scaled 21000)

/-- `e.to_string().contains("-1013")`. -/
def mentions1013 (text : String) : Bool := decide ("-1013".toList <:+: text.toList)

/-- `handle_estimate_gas`, with the configured fallback. -/
def handleEstimateGas (estimateGasFallback : UInt64) (params : Value) : Handler Value := do
  let callObj ← badParam (param params 0)
  let caller ← parseMember (callObj.getStr "from")
  let toAddr ← parseMember (callObj.getStr "to")
  let calldata ← parseCalldata ((callObj.getStr "data").getD "0x")
  let value ← parseValue (callObj.getStr "value")
  match client.readContract EP_CALL_VIEW
      (buildCallViewArgs ⟨caller, toAddr, value, calldata, 30000000⟩) with
  | .error e =>
      if 0 < estimateGasFallback ∧ mentions1013 e then return quantity estimateGasFallback
      else throw (.failure ⟨none, e⟩)
  | .ok bytes =>
      let result ← reading (decodeEvmResult client.checks bytes)
      if !result.success then throw (.revert result.output)
      return quantity (gasEstimate result.gasUsed)

end NodeClient

end KoinosEvm.Proxy
