/-
Block hashes between Ethereum and Koinos, and the requests that look a block
up by one (rpc/src/rpc.rs).

A request first finds a height and then answers from what it has of that
height. The node's replies to one request and the answers for a height are
outside: they are what `BlockBackend` holds.
-/
import KoinosEvm.Proxy.Params

namespace KoinosEvm.Proxy

-- ============================================================== the hashes

/-- `strip_koinos_hash_prefix`. -/
def stripKoinosHashPrefix (hash : Value) : Value :=
  match hash.asStr with
  | none => hash
  | some s => .string (((stripPrefix "0x1220" s).map fun rest => "0x" ++ rest).getD s)

/-- `restore_koinos_hash_prefix`. -/
def restoreKoinosHashPrefix (ethHex : String) : String :=
  if startsWith "0x1220" ethHex then ethHex
  else
    match stripPrefix "0x" ethHex with
    | some rest => "0x1220" ++ rest
    | none => "0x1220" ++ ethHex

-- ============================================================ the requests

/-- What the requests use. -/
structure BlockBackend where
  /-- The node's answers to `GET`s. -/
  rest : String → Except String Value
  /-- .. and to `get_head_info`. -/
  headInfo : Except String Value
  db : Db
  /-- `fetch_block_as_eth_object`. -/
  blockObject : UInt64 → Bool → Except RpcFailure Value
  /-- The receipts of a height, rendered. -/
  blockReceipts : UInt64 → Except RpcFailure Value
  /-- `handle_get_tx_by_hash`. -/
  txByHash : Value → Except RpcFailure Value

namespace BlockBackend

variable [HexCrate] (backend : BlockBackend)

/-- `fetch_block_height`. -/
def fetchBlockHeight (blockIdHex : String) : Option UInt64 := do
  let resp ← (backend.rest ("/block/" ++ blockIdHex)).toOption
  let header ← (← resp.get "block").get "header"
  header.getU64 "height"

/-- `fetch_block_height(state, &restore_koinos_hash_prefix(tag))`. -/
def heightOfHash (tag : String) : Option UInt64 :=
  backend.fetchBlockHeight (restoreKoinosHashPrefix tag)

/-- The height of a number or tag. -/
def heightOfTag (tag : String) : Except RpcFailure (Option UInt64) :=
  (resolveBlockNumberTag backend.headInfo tag).map some

/-- The answer for a height, `null` without one. -/
def answerAt (height : Option UInt64) (answer : UInt64 → Except RpcFailure Value) :
    Except RpcFailure Value :=
  match height with
  | none => .ok .null
  | some h => answer h

/-- The second parameter of the requests for a block. -/
def fullTxs (params : Value) : Bool :=
  match param params 1 with
  | .ok (.bool b) => b
  | _ => false

/-- `handle_get_block_by_number`. -/
def handleGetBlockByNumber (params : Value) : Except RpcFailure Value := do
  let tag ← badParams (paramStr params 0)
  answerAt (← backend.heightOfTag tag) (backend.blockObject · (fullTxs params))

/-- `handle_get_block_by_hash`. -/
def handleGetBlockByHash (params : Value) : Except RpcFailure Value := do
  let hashS ← badParams (paramStr params 0)
  answerAt (backend.heightOfHash hashS) (backend.blockObject · (fullTxs params))

/-- `handle_get_block_receipts`. -/
def handleGetBlockReceipts (params : Value) : Except RpcFailure Value := do
  let tag ← badParams (paramStr params 0)
  let height ←
    -- a 32-byte block hash, by its length
    if strLen tag = 66 ∧ startsWith "0x" tag then .ok (backend.heightOfHash tag)
    else backend.heightOfTag tag
  answerAt height backend.blockReceipts

/-- `handle_block_tx_count`. -/
def handleBlockTxCount (params : Value) (byHash : Bool) : Except RpcFailure Value := do
  let tag ← badParams (paramStr params 0)
  let height ← if byHash then .ok (backend.heightOfHash tag) else backend.heightOfTag tag
  answerAt height fun h => .ok (quantity (UInt64.ofNat (backend.db.blockTxHashes h).length))

/-- `handle_tx_by_block_and_index`. -/
def handleTxByBlockAndIndex (params : Value) (byHash : Bool) : Except RpcFailure Value := do
  let tag ← badParams (paramStr params 0)
  let idx ← badParams ((paramStr params 1).bind parseQuantity)
  let height ← if byHash then .ok (backend.heightOfHash tag) else backend.heightOfTag tag
  answerAt height fun h =>
    match (backend.db.blockTxHashes h)[idx.toNat]? with
    | some hash => backend.txByHash (.array [.string ("0x" ++ hexEncode hash.bytes)])
    | none => .ok .null

end BlockBackend

end KoinosEvm.Proxy
