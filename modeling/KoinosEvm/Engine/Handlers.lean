/-
The entry-point handlers of the engine (engine/src/engine.rs).

Both EVM construction sites run `transact` through the same database and
precompiles (`databaseOp`); a panic inside revm ends in the panic handler
of lib.rs.
-/
import KoinosEvm.Engine.Database
import KoinosEvm.Engine.Precompiles

namespace KoinosEvm.Engine

open Proto

/-- `ENGINE_CHAIN_ID`. -/
def ENGINE_CHAIN_ID : UInt64 := 42069

-- ============================================================ arguments

/-- `EvmCallArgs`. -/
structure EvmCallArgs where
  caller : Address
  toAddr : Option Address
  value : U256
  data : Bytes
  gasLimit : UInt64

/-- `bytes[..20]` of at least twenty bytes. -/
def first20 (bs : Bytes) : Option Address := FixedBytes.ofBytes? 20 (bs.take 20)

/-- One field of `EvmCallArgs { bytes caller = 1; bytes to = 2; bytes value = 3;
bytes data = 4; uint64 gas_limit = 5; }`. -/
def callArgsField (args : EvmCallArgs) (f : Field) : EvmCallArgs :=
  match f with
  | (1, v) =>
      match (getBytes v).bind first20 with
      | some a => { args with caller := a }
      | none => args
  | (2, v) =>
      match (getBytes v).bind first20 with
      | some a => { args with toAddr := some a }
      | none => args
  | (3, v) =>
      match getBytes v with
      | some bs => if bs.length = 32 then { args with value := u256FromBeSlice bs } else args
      | none => args
  | (4, v) =>
      match getBytes v with
      | some bs => { args with data := bs }
      | none => args
  | (5, v) =>
      match getVarint v with
      | some v => { args with gasLimit := v }
      | none => args
  | _ => args

/-- `parse_call_args`. -/
def parseCallArgs (args : Bytes) : EvmCallArgs :=
  (fieldsOf args).foldl callArgsField ⟨FixedBytes.zero 20, none, 0, [], 30000000⟩

-- ============================================================ execution

/-- `build_block_env`. -/
def buildBlockEnv : HostM BlockEnv := do
  let head ← Sys.getHeadInfo
  return {
    number := BitVec.ofNat 256 head.height.toNat
    timestamp := BitVec.ofNat 256 (head.headBlockTime / 1000).toNat
    basefee := 0
    gasLimit := 30000000
    coinbase := FixedBytes.zero 20
    difficulty := 0 }

/-- `build_cfg_env`. -/
def buildCfgEnv : CfgEnv := ⟨ENGINE_CHAIN_ID⟩

/-- The panic handler of lib.rs. -/
def panicHandler {α : Type} : HostM α := do
  Sys.log "PANIC"
  Sys.exitError "panic"

/-- What revm's calls run. -/
def databaseOp : (op : DbOp) → HostM (DbRes op)
  | .basic address => basic address
  | .codeByHash codeHash => codeByHash codeHash
  | .storage address index => storage address index
  | .blockHash number => blockHash number
  | .precompile p input gasLimit => runPrecompile p input gasLimit

variable (revm : Revm)

/-- `evm.transact()`. -/
def transact (block : BlockEnv) (tx : TxEnv) :
    HostM (Except EvmError (ExecutionResult × EvmState)) :=
  (revm.transact buildCfgEnv block tx).interp databaseOp fun _ => panicHandler

/-- `evm.transact_commit()`. -/
def transactCommit (block : BlockEnv) (tx : TxEnv) :
    HostM (Except EvmError ExecutionResult) := do
  match ← transact revm block tx with
  | .error e => return .error e
  | .ok (result, state) =>
      commit state
      return .ok result

/-- `execute_evm`. -/
def executeEvm (args : EvmCallArgs) (committing : Bool) :
    HostM (Except EvmError ExecutionResult) := do
  let tx : TxEnv := {
    caller := args.caller
    gasLimit := args.gasLimit
    gasPrice := 0
    transactTo := match args.toAddr with
      | some addr => .call addr
      | none => .create
    value := args.value
    data := args.data
    nonce := none
    chainId := none }
  let block ← buildBlockEnv
  if committing then transactCommit revm block tx
  else
    match ← transact revm block tx with
    | .error e => return .error e
    | .ok (result, _) => return .ok result

-- =============================================================== events

/-- `emit_logs`. -/
def emitLogs (logs : List Log) : HostM Unit :=
  logs.forM fun log =>
    Sys.event "evm.log" (encodeLog log)
      (log.address.bytes :: log.topics.map FixedBytes.bytes)

/-- `emit_evm_result_event`. -/
def emitEvmResultEvent (success : Bool) (gasUsed : UInt64)
    (contractAddress : Option Address) : HostM Unit :=
  Sys.event "evm.result" (encodeResultEvent success gasUsed contractAddress) []

/-- `reject_submit`. -/
def rejectSubmit (msg : Bytes) : HostM Bytes := do
  emitEvmResultEvent false 0 none
  return encodeEvmResult false msg 0 none

/-- `execution_result_to_response`. -/
def executionResultToResponse (result : ExecutionResult) (emitting : Bool) :
    HostM Bytes := do
  match result with
  | .success gasUsed logs output =>
      if emitting then emitLogs logs
      let (outputBytes, contractAddr) := match output with
        | .call data => (data.bytes, none)
        | .create data addr => (data.bytes, addr)
      if emitting then emitEvmResultEvent true gasUsed contractAddr
      return encodeEvmResult true outputBytes gasUsed contractAddr
  | .revert gasUsed output =>
      if emitting then emitEvmResultEvent false gasUsed none
      return encodeEvmResult false output.bytes gasUsed none
  | .halt gasUsed =>
      if emitting then emitEvmResultEvent false gasUsed none
      return encodeEvmResult false (utf8 "execution halted") gasUsed none

-- ============================================================= handlers

/-- The error arm of `handle_execute`, `handle_call_view` and
`handle_deploy_code`. -/
def evmErrorResponse (msg : String) : HostM Bytes := do
  Sys.log msg
  return encodeEvmResult false (utf8 msg) 0 none

/-- `handle_execute`. -/
def handleExecute (args : Bytes) : HostM Bytes := do
  match ← executeEvm revm (parseCallArgs args) true with
  | .ok result => executionResultToResponse result true
  | .error e =>
      let debug := e.debug
      evmErrorResponse s!"EVM error: {debug}"

/-- `handle_call_view`. -/
def handleCallView (args : Bytes) : HostM Bytes := do
  match ← executeEvm revm (parseCallArgs args) false with
  | .ok result => executionResultToResponse result false
  | .error e =>
      let debug := e.debug
      evmErrorResponse s!"EVM error: {debug}"

/-- `handle_deploy_code`. -/
def handleDeployCode (args : Bytes) : HostM Bytes := do
  match ← executeEvm revm { parseCallArgs args with toAddr := none } true with
  | .ok result => executionResultToResponse result true
  | .error e =>
      let debug := e.debug
      evmErrorResponse s!"EVM deploy error: {debug}"

/-- `handle_get_account`. -/
def handleGetAccount (args : Bytes) : HostM Bytes := do
  match first20 args with
  | none => return []
  | some addr =>
      match ← basic addr with
      | .ok (some info) =>
          return encodeVarintField 1 info.nonce
            ++ encodeBytesField 2 (beBytes32 info.balance).bytes
            ++ encodeBytesField 3 info.codeHash.bytes
      | .ok none => return []
      | .error _ => return []

/-- `handle_get_storage_at`. -/
def handleGetStorageAt (args : Bytes) : HostM Bytes := do
  if args.length < 52 then return []
  else
    match first20 args with
    | none => return []
    | some addr =>
        let slot := u256FromBeSlice ((args.drop 20).take 32)
        match ← storage addr slot with
        | .ok value => return (beBytes32 value).bytes
        | .error _ => return List.replicate 32 0

/-- `handle_get_code`. -/
def handleGetCode (args : Bytes) : HostM Bytes := do
  match first20 args with
  | none => return []
  | some addr =>
      match ← basic addr with
      | .ok (some info) =>
          match ← codeByHash info.codeHash with
          | .ok code => return code
          | .error _ => return []
      | _ => return []

-- ======================================================== submit_raw_tx

variable (rlp : AlloyRlp)

/-- `tx::parse_raw_tx` on the syscall crypto. -/
def parseRaw (raw : Bytes) : HostM (Except TxParseError ParsedTx) :=
  (parseRawTx rlp (syscallCrypto Sys.crypto) raw).run

/-- The `TxEnv` of a parsed transaction. -/
def txEnvOf (p : ParsedTx) : TxEnv where
  caller := p.sender
  gasLimit := p.gasLimit
  gasPrice := 0
  transactTo := match p.toAddr with
    | some addr => .call addr
    | none => .create
  value := p.value
  data := p.data
  nonce := some p.nonce
  chainId := p.chainId

/-- Log a message and reject with it. -/
def logAndReject (msg : String) : HostM Bytes := do
  Sys.log msg
  rejectSubmit (utf8 msg)

/-- `handle_submit_raw_tx` from a transaction that passed its checks. -/
def executeSubmit (p : ParsedTx) : HostM Bytes := do
  let block ← buildBlockEnv
  match ← transactCommit revm block (txEnvOf p) with
  | .ok result => executionResultToResponse result true
  | .error e =>
      let debug := e.debug
      logAndReject s!"EVM error: {debug}"

/-- The nonce check of `handle_submit_raw_tx`. -/
def checkNonce (p : ParsedTx) : HostM Bytes := do
  match ← basic p.sender with
  | .error _ => rejectSubmit (utf8 "db basic read failed")
  | .ok account =>
      let expectedNonce := match account with
        | some info => info.nonce
        | none => 0
      if p.nonce ≠ expectedNonce then
        let got := p.nonce.toNat
        let expected := expectedNonce.toNat
        logAndReject s!"nonce mismatch: tx={got} expected={expected}"
      else executeSubmit revm p

/-- `handle_submit_raw_tx`. -/
def handleSubmitRawTx (args : Bytes) : HostM Bytes := do
  let rawTx := stripRawTx args
  if rawTx.isEmpty then rejectSubmit (utf8 "empty raw_tx")
  else
    match ← parseRaw rlp rawTx with
    | .error e =>
        let debug := e.debug
        logAndReject s!"raw_tx parse error: {debug}"
    | .ok p =>
        match p.chainId with
        | some cid =>
            if cid ≠ ENGINE_CHAIN_ID then
              let got := cid.toNat
              let expected := ENGINE_CHAIN_ID.toNat
              logAndReject s!"chain_id mismatch: tx={got} expected={expected}"
            else checkNonce revm p
        | none => checkNonce revm p

end KoinosEvm.Engine
