/-
The contract's entry point (engine/src/lib.rs): `_start` and the Phase-0
handlers. Which arms exist depends on the cargo features of the build.
-/
import KoinosEvm.Engine.Handlers

namespace KoinosEvm.Engine

/-- The cargo features: `dev_unsafe_caller = ["evm"]`. -/
structure Build where
  evm : Bool
  devUnsafeCaller : Bool
  implied : devUnsafeCaller = true → evm = true

def EP_EXECUTE : UInt32 := 0x00000001
def EP_CALL_VIEW : UInt32 := 0x00000002
def EP_DEPLOY_CODE : UInt32 := 0x00000003
def EP_GET_ACCOUNT : UInt32 := 0x00000004
def EP_GET_STORAGE_AT : UInt32 := 0x00000005
def EP_GET_CODE : UInt32 := 0x00000006
def EP_SUBMIT_RAW_TX : UInt32 := 0x00000007
def EP_STORE_VALUE : UInt32 := 0x10000001
def EP_READ_VALUE : UInt32 := 0x10000002
def EP_ECHO : UInt32 := 0x10000003

/-- `u32::from_le_bytes` of the first four bytes. -/
def leU32 (args : Bytes) : Nat :=
  (args.take 4).reverse.foldl (fun acc b => acc * 256 + b.toNat) 0

/-- `handle_store_value`: `key_len(4 LE) + key + value`. -/
def handleStoreValue (args : Bytes) : HostM Bytes := do
  if args.length < 5 then Sys.exitError "store_value: args too short"
  else
    let stop := 4 + leU32 args
    -- `checked_add` on a 32-bit `usize`
    if 2 ^ 32 ≤ stop ∨ args.length < stop then
      Sys.log "store_value: invalid key length"
      Sys.exitError "invalid key length"
    else
      let space ← testSpace
      Sys.putObject space ((args.take stop).drop 4) (args.drop stop)
      Sys.log "store_value: success"
      return []

/-- `handle_read_value`. -/
def handleReadValue (args : Bytes) : HostM Bytes := do
  let space ← testSpace
  match ← Sys.getObject space args with
  | some value =>
      Sys.log "read_value: found"
      return value
  | none =>
      Sys.log "read_value: not found"
      return []

/-- `handle_echo`. -/
def handleEcho (args : Bytes) : HostM Bytes := do
  Sys.log "echo: returning args"
  return args

variable (build : Build) (revm : Revm) (rlp : AlloyRlp)

/-- The `match` of `_start`. -/
def dispatch (call : Sys.Arguments) : HostM Bytes :=
  if call.entryPoint = EP_STORE_VALUE then handleStoreValue call.arguments
  else if call.entryPoint = EP_READ_VALUE then handleReadValue call.arguments
  else if call.entryPoint = EP_ECHO then handleEcho call.arguments
  else if build.evm ∧ call.entryPoint = EP_SUBMIT_RAW_TX then
    handleSubmitRawTx revm rlp call.arguments
  else if build.evm ∧ call.entryPoint = EP_CALL_VIEW then
    handleCallView revm call.arguments
  else if build.evm ∧ call.entryPoint = EP_GET_ACCOUNT then handleGetAccount call.arguments
  else if build.evm ∧ call.entryPoint = EP_GET_STORAGE_AT then
    handleGetStorageAt call.arguments
  else if build.evm ∧ call.entryPoint = EP_GET_CODE then handleGetCode call.arguments
  else if build.devUnsafeCaller ∧ call.entryPoint = EP_EXECUTE then
    handleExecute revm call.arguments
  else if build.devUnsafeCaller ∧ call.entryPoint = EP_DEPLOY_CODE then
    handleDeployCode revm call.arguments
  else if build.evm ∧ ¬ build.devUnsafeCaller ∧
      (call.entryPoint = EP_EXECUTE ∨ call.entryPoint = EP_DEPLOY_CODE) then do
    Sys.log "execute/deploy_code disabled: use submit_raw_tx"
    Sys.exitError "use submit_raw_tx"
  else do
    Sys.log "unknown entry point"
    Sys.exitError "unknown entry point"

/-- `_start`. -/
def start : HostM Unit := do
  let call ← Sys.getArguments
  let result ← dispatch build revm rlp call
  Sys.exitSuccess result

end KoinosEvm.Engine
