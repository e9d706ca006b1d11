/-
The objects of transactions, receipts and blocks (rpc/src/rpc.rs): what
`eth_getTransactionByHash`, `eth_getTransactionReceipt`,
`eth_getBlockReceipts` and `eth_getBlockBy*` answer from the store, from the
memory of what was relayed, and from the node.

A request sees one store and one memory. A receipt that the node is asked for
is written to the store on the way; Receipts.lean has that write apart from
the look-up in front of it. The one SQL error here is the sum of a block's
gas, which overflows an `i64`; its text is a parameter. A panic in a task that
is waited for comes back as an error that every caller here treats as an
empty answer, or hands on.
-/
import KoinosEvm.Proxy.BlockHash
import KoinosEvm.Proxy.Bloom
import KoinosEvm.Proxy.CreateAddress
import KoinosEvm.Proxy.Quantities
import KoinosEvm.Proxy.TxMetaStore

namespace KoinosEvm.Proxy

-- ================================================================ the store

/-- A row as `get_tx_meta` reads it. -/
def TxRow.txMeta (row : TxRow) : TxMeta :=
  { row.toSentTx with koinosTxId := row.koinosTxId.getD [] }

/-- `get_tx_meta`. -/
def Db.getTxMeta (db : Db) (ethHash : B256) : Option TxMeta :=
  (db.txs.find? ethHash).map TxRow.txMeta

/-- An addition within the `i64`s. -/
def addI64 (m n : Int64) : Option Int64 :=
  let sum := m.toInt + n.toInt
  if -2 ^ 63 ≤ sum ∧ sum < 2 ^ 63 then some (Int64.ofInt sum) else none

/-- `SUM`, an error where a sum on the way leaves the `i64`s. -/
def sumI64 (ns : List Int64) : Option Int64 := ns.foldlM addI64 0

/-- The gas of a block's rows, as the `i64`s of the same bits. -/
def Db.blockGas (db : Db) (height : UInt64) : List Int64 :=
  (db.txs.rows.filter fun row => row.blockHeight = some height).filterMap
    fun row => row.settled.map fun s => s.gasUsed.toInt64

/-- `block_gas_used`. -/
def Db.blockGasUsed (db : Db) (height : UInt64) : Option UInt64 :=
  (sumI64 (db.blockGas height)).map fun n => (max n 0).toUInt64

-- =============================================================== the objects

variable [HexCrate]

/-- An address, or `null`. -/
def addressOrNull (addr : Option Address) : Value :=
  match addr with
  | some a => dataHex a.bytes
  | none => .null

section Objects

variable (keccak : Bytes → B256)

/-- A log of `receipt_to_json`. -/
def receiptLogToJson (hashS : String) (r : ReceiptRow) (log : LogRow) : Value :=
  .object [
    ("address", dataHex log.address),
    ("topics", .array (log.topics.map dataHex)),
    ("data", dataHex log.data),
    ("blockHash", dataHex r.blockHash),
    ("blockNumber", quantity r.blockHeight),
    ("transactionHash", .string hashS),
    ("transactionIndex", numberHex (r.txIndex.getD 0)),
    ("logIndex", numberHex log.logIndex),
    ("removed", .bool false)]

/-- The `contractAddress` of `receipt_to_json`: the one that the events name,
or that of a plain creation. -/
def receiptContract (txMeta : TxMeta) (r : ReceiptRow) : Value :=
  match r.contractAddress with
  | some addr => dataHex addr
  | none =>
      if txMeta.toAddr.isNone then
        dataHex (createAddress keccak txMeta.fromAddr txMeta.nonce).bytes
      else .null

/-- `receipt_to_json`. -/
def receiptToJson (hashS : String) (txMeta : TxMeta) (r : ReceiptRow) : Value :=
  .object [
    ("transactionHash", .string hashS),
    ("transactionIndex", numberHex (r.txIndex.getD 0)),
    ("blockHash", dataHex r.blockHash),
    ("blockNumber", quantity r.blockHeight),
    ("from", dataHex txMeta.fromAddr.bytes),
    ("to", addressOrNull txMeta.toAddr),
    ("cumulativeGasUsed", quantity r.gasUsed),
    ("gasUsed", quantity r.gasUsed),
    ("contractAddress", receiptContract keccak txMeta r),
    ("logs", .array (r.logs.map (receiptLogToJson hashS r))),
    ("logsBloom", dataHex (receiptBloom keccak r).bytes),
    ("status", .string (if r.status then "0x1" else "0x0")),
    ("type", numberHex txMeta.txType.toNat),
    ("effectiveGasPrice", .string "0x0")]

/-- Where a transaction is included, as its object says it. -/
structure Inclusion where
  blockHash : Value
  blockNumber : Value
  txIndex : Option Nat

/-- The object of `handle_get_tx_by_hash`. -/
def txToJson (hashS : String) (txMeta : TxMeta) (inc : Inclusion) : Value :=
  .object [
    ("hash", .string hashS),
    ("from", dataHex txMeta.fromAddr.bytes),
    ("to", addressOrNull txMeta.toAddr),
    ("nonce", quantity txMeta.nonce),
    ("value", quantityFromBe32 txMeta.value),
    ("input", dataHex txMeta.input),
    ("gas", quantity txMeta.gasLimit),
    -- of a type-2 transaction the price that is paid, which is none
    ("gasPrice", if txMeta.txType = 0 then quantityFromBe32 txMeta.gasPrice else quantity 0),
    ("type", numberHex txMeta.txType.toNat),
    ("chainId", (txMeta.chainId.map quantity).getD .null),
    ("blockHash", inc.blockHash),
    ("blockNumber", inc.blockNumber),
    ("transactionIndex", (inc.txIndex.map numberHex).getD .null),
    ("r", dataHex txMeta.r.bytes),
    ("s", dataHex txMeta.s.bytes),
    ("v", quantity txMeta.v)]

end Objects

-- ============================================================== the requests

/-- What the requests are answered from. -/
structure ViewBackend where
  keccak : Bytes → B256
  checks : Checks
  b64 : Base64
  /-- What SQLite says of a sum that overflows. -/
  sumError : String
  minGasPriceWei : U128
  db : Db
  txMeta : TxMetaStore
  /-- The node's answers to `GET`s. -/
  rest : String → Except String Value
  /-- .. and to `get_head_info`. -/
  headInfo : Except String Value

namespace ViewBackend

variable (backend : ViewBackend)

/-- `load_meta`. -/
def loadMeta (hash : B256) : Option TxMeta :=
  match backend.txMeta.get hash with
  | some m => some m
  | none => backend.db.getTxMeta hash

/-- `fetch_block_height`. -/
def fetchBlockHeight (blockIdHex : String) : Option UInt64 := do
  let resp ← (backend.rest ("/block/" ++ blockIdHex)).toOption
  let header ← (← resp.get "block").get "header"
  header.getU64 "height"

/-- `fetch_koinos_inclusion`. -/
def fetchKoinosInclusion (koinosTxId : Bytes) : Option Value × Option Value :=
  match backend.rest ("/transaction/" ++ ("0x1220" ++ hexEncode koinosTxId)) with
  | .error _ => (none, none)
  | .ok resp =>
      let blockHash := ((resp.get "containing_blocks").bind Value.asArray).bind List.head?
      (blockHash, ((blockHash.bind Value.asStr).bind backend.fetchBlockHeight).map quantity)

/-- Where a transaction is included: the store first, then the node. -/
def inclusion (hash : B256) (txMeta : TxMeta) : Inclusion :=
  match backend.db.getReceipt hash with
  | some r => ⟨dataHex r.blockHash, quantity r.blockHeight, some (r.txIndex.getD 0)⟩
  | none =>
      if txMeta.koinosTxId.isEmpty then ⟨.null, .null, none⟩
      else
        let (bh, bn) := backend.fetchKoinosInclusion txMeta.koinosTxId
        let blockHash := (bh.map stripKoinosHashPrefix).getD .null
        let txIndex :=
          match blockHash with
          | .null => none
          | _ => some 0
        ⟨blockHash, bn.getD .null, txIndex⟩

/-- `handle_get_tx_by_hash`. -/
def handleGetTxByHash (params : Value) : Except RpcFailure Value := do
  let hashS ← badParams (paramStr params 0)
  let hash ← badParams (parseB32 hashS)
  match backend.loadMeta hash with
  | none => return .null
  | some txMeta => return txToJson hashS txMeta (backend.inclusion hash txMeta)

/-- `fetch_receipt_from_chain`. -/
def fetchReceiptFromChain (koinosTxId : Bytes) : Except Panic (Option ReceiptRow) :=
  if koinosTxId.isEmpty then .ok none
  else
    match backend.rest ("/transaction/" ++ ("0x1220" ++ hexEncode koinosTxId)) with
    | .error _ => .ok none
    | .ok receiptJson =>
        match receiptJson.get "receipt", (receiptJson.get "containing_blocks").bind Value.asArray with
        | some receipt, some (first :: _) =>
            let blockHashKoinos := first.asStr.getD ""
            match backend.fetchBlockHeight blockHashKoinos with
            | none => .ok none
            | some height => do
                let blockHash := (hexDecode (stripMultihash blockHashKoinos)).toOption.getD []
                let ev ← decodeReceiptEvents backend.checks backend.b64
                  ((receipt.get "events").bind Value.asArray)
                return some ⟨height, blockHash, none, ev.status, ev.gasUsed, ev.contractAddress,
                  ev.logs⟩
        | _, _ => .ok none

/-- `handle_get_tx_receipt`, with the store after it. -/
def handleGetTxReceipt (params : Value) : Except Panic (Except RpcFailure (Value × Db)) :=
  let asked : Except RpcFailure (String × B256) := do
    let hashS ← badParams (paramStr params 0)
    return (hashS, ← badParams (parseB32 hashS))
  match asked with
  | .error e => .ok (.error e)
  | .ok (hashS, hash) =>
      match backend.loadMeta hash with
      | none => .ok (.ok (.null, backend.db))
      | some txMeta =>
          match backend.db.getReceipt hash with
          | some stored =>
              .ok (.ok (receiptToJson backend.keccak hashS txMeta stored, backend.db))
          | none => do
              match ← backend.fetchReceiptFromChain txMeta.koinosTxId with
              | none => return .ok (.null, backend.db)
              | some receipt =>
                  -- the row first: `set_receipt` requires it
                  let db := (backend.db.upsertTx hash txMeta).settle hash receipt
                  return .ok (receiptToJson backend.keccak hashS txMeta receipt, db)

/-- The receipts of `handle_get_block_receipts`. -/
def blockReceipts (height : UInt64) : Except RpcFailure Value :=
  .ok (.array ((backend.db.blockTxHashes height).filterMap fun h => do
    let txMeta ← backend.loadMeta h
    let r ← backend.db.getReceipt h
    return receiptToJson backend.keccak ("0x" ++ hexEncode h.bytes) txMeta r))

/-- The `transactions` of a block with `full_txs`. -/
def fullTransactions (height : UInt64) : Except RpcFailure (List Value) := do
  let objects ← (backend.db.blockTxHashes height).mapM fun h =>
    backend.handleGetTxByHash (.array [.string ("0x" ++ hexEncode h.bytes)])
  return objects.filter fun v =>
    match v with
    | .null => false
    | _ => true

/-- The `transactions` of a block. -/
def blockTransactions (height : UInt64) (fullTxs : Bool) : Except RpcFailure (List Value) :=
  if fullTxs then backend.fullTransactions height
  else .ok ((backend.db.blockTxHashes height).map fun h => dataHex h.bytes)

/-- 32 bytes of zero. -/
def zeroHash : Value :=
  .string "0x0000000000000000000000000000000000000000000000000000000000000000"

/-- `fetch_block_as_eth_object`. -/
def fetchBlockAsEthObject (height : UInt64) (fullTxs : Bool) : Except RpcFailure Value :=
  match backend.rest s!"/block/{height}" with
  | .error _ => .ok .null
  | .ok resp =>
      match resp.get "block" with
      | none => .ok .null
      | some block => do
          let header := (block.get "header").getD .null
          let blockId := stripKoinosHashPrefix ((block.get "id").getD .null)
          let prev := stripKoinosHashPrefix ((header.get "previous").getD .null)
          let timestampMs := (header.getU64 "timestamp").getD 0
          let numTxs := (((block.get "transactions").bind Value.asArray).map List.length).getD 0
          let gasUsed ← anyhow (orError (backend.db.blockGasUsed height) backend.sumError)
          let transactions ← backend.blockTransactions height fullTxs
          return .object [
            ("number", quantity height),
            ("hash", blockId),
            ("parentHash", prev),
            ("timestamp", quantity (timestampMs / 1000)),
            ("gasLimit", quantity 30000000),
            ("gasUsed", quantity gasUsed),
            ("miner", .string "0x0000000000000000000000000000000000000000"),
            ("difficulty", .string "0x0"),
            ("totalDifficulty", .string "0x0"),
            ("size", numberHex (numTxs * 200)),
            ("nonce", .string "0x0000000000000000"),
            ("sha3Uncles",
              .string "0x1dcc4de8dec75d7aab85b567b6ccd41ad312451b948a7413f0a142fd40d49347"),
            ("uncles", .array []),
            ("transactions", .array transactions),
            ("stateRoot", zeroHash),
            ("transactionsRoot", zeroHash),
            ("receiptsRoot", zeroHash),
            ("logsBloom", dataHex (blockBloom backend.keccak backend.db height).bytes),
            ("extraData", .string "0x"),
            ("baseFeePerGas", quantityU128 backend.minGasPriceWei),
            ("mixHash", zeroHash)]

/-- The requests that look a block up, answered so. -/
def blocks : BlockBackend where
  rest := backend.rest
  headInfo := backend.headInfo
  db := backend.db
  blockObject := backend.fetchBlockAsEthObject
  blockReceipts := backend.blockReceipts
  txByHash := backend.handleGetTxByHash

/-- What `eth_getLogs` is configured with here. -/
def logs (sqlite : Sqlite) (maxBlockRange maxResults : UInt64) (joinError : Panic → String) :
    LogsConfig where
  checks := backend.checks
  sqlite := sqlite
  getlogsMaxBlockRange := maxBlockRange
  getlogsMaxResults := maxResults
  joinError := joinError

end ViewBackend

end KoinosEvm.Proxy
