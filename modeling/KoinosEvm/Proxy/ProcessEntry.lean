/-
The indexer's `process_entry` and `resolve_block` (rpc/src/indexer.rs), with
the readers they use.

The node is outside: `rest` is what it answers to `GET`s while one entry is
processed. SQL errors are not modelled (Db.lean), so the one look-up in the
store always answers.
-/
import KoinosEvm.Proxy.Db
import KoinosEvm.Proxy.EthTx
import KoinosEvm.Proxy.Hex
import KoinosEvm.Proxy.Indexer

namespace KoinosEvm.Proxy

-- ============================================================== readers

/-- `s.trim_start_matches("0x")`. -/
def trimHexMarks : List Char → List Char
  | '0' :: 'x' :: rest => trimHexMarks rest
  | cs => cs

/-- `s.strip_prefix("0x1220").unwrap_or(s.trim_start_matches("0x"))`. -/
def stripMultihash (s : String) : String :=
  (stripPrefix "0x1220" s).getD (String.ofList (trimHexMarks s.toList))

/-- A hex digit of either case. -/
def hexDigit (c : Char) : Option UInt8 :=
  if '0' ≤ c ∧ c ≤ '9' then some (UInt8.ofNat (c.toNat - '0'.toNat))
  else if 'a' ≤ c ∧ c ≤ 'f' then some (UInt8.ofNat (c.toNat - 'a'.toNat + 10))
  else if 'A' ≤ c ∧ c ≤ 'F' then some (UInt8.ofNat (c.toNat - 'A'.toNat + 10))
  else none

/-- `s.parse::<u64>()`: decimal digits, perhaps behind a `+`. -/
def parseU64 (s : String) : Option UInt64 :=
  let digits : List Char :=
    match s.toList with
    | '+' :: rest => rest
    | cs => cs
  let value : Nat := digits.foldl (fun n c => 10 * n + (c.toNat - '0'.toNat)) 0
  if digits.isEmpty ∨ ¬ digits.all Char.isDigit ∨ 2 ^ 64 ≤ value then none
  else some (UInt64.ofNat value)

/-- `v.get(key).and_then(|v| v.as_str()).and_then(|s| s.parse().ok())`. -/
def Value.getU64 (v : Value) (key : String) : Option UInt64 := (v.getStr key).bind parseU64

-- ========================================================= resolve_block

/-- The store, and the process's block cache: height and timestamp by block
id. -/
structure IndexerState where
  db : Db
  blockCache : List (String × UInt64 × UInt64)

/-- `block_cache.insert(block_id, ..)`. -/
def IndexerState.cache (st : IndexerState) (blockId : String) (height ts : UInt64) :
    IndexerState :=
  { st with blockCache := (blockId, height, ts) :: st.blockCache }

variable [HexCrate]

/-- The bytes of a block id, the multihash prefix stripped; none where they
cannot be read. -/
def blockHashOf (blockId : String) : Bytes :=
  (parseData ("0x" ++ stripMultihash blockId)).toOption.getD []

/-- What `resolve_block` finds. -/
structure Resolved where
  height : UInt64
  blockId : String
  timestamp : UInt64

/-- The id of the first containing block of `GET /transaction/..`. -/
def containingBlock (txInfo : Value) : Option String :=
  (((txInfo.get "containing_blocks").bind Value.asArray).bind List.head?).bind Value.asStr

/-- Height and timestamp of `GET /block/..`. -/
def readHeader (block : Value) : Except String (UInt64 × UInt64) := do
  let header ← orError ((block.get "block").bind (·.get "header")) "block lookup missing header"
  let height ← orError (header.getU64 "height") "block header missing height"
  let timestampMs := (header.getU64 "timestamp").getD 0
  return (height, timestampMs / 1000)

/-- `resolve_block`: process cache, blocks table, node. -/
def resolveBlock (rest : String → Except String Value) (st : IndexerState)
    (koinosTxIdHex : String) : Except String (Resolved × IndexerState) := do
  let txInfo ← rest ("/transaction/" ++ koinosTxIdHex)
  let blockId ← orError (containingBlock txInfo) "transaction has no containing block yet"
  match st.blockCache.lookup blockId with
  | some (height, ts) => return (⟨height, blockId, ts⟩, st)
  | none =>
      match st.db.getBlockByHash (blockHashOf blockId) with
      | some row =>
          return (⟨row.height, blockId, row.timestamp⟩, st.cache blockId row.height row.timestamp)
      | none =>
          let (height, ts) ← readHeader (← rest ("/block/" ++ blockId))
          return (⟨height, blockId, ts⟩, st.cache blockId height ts)

-- ========================================================= process_entry

/-- `EntryOutcome`. -/
inductive EntryOutcome where
  | indexed (blockHeight : UInt64)
  | alreadyIndexed (blockHeight : UInt64)
  | notEvm
  deriving DecidableEq

/-- What is fixed for the process: the build, the configuration and the
crates. -/
structure IndexerConfig where
  checks : Checks
  b64 : Base64
  keccak : Bytes → B256
  secp : EthTx.Secp256k1
  engineAddr : String

/-- `TxMeta` of a decoded transaction. -/
def metaOf (decoded : EthTx.DecodedTx) (rawTx koinosTxId : Bytes) : TxMeta where
  fromAddr := decoded.fromAddr
  toAddr := decoded.toAddr
  nonce := decoded.nonce
  value := decoded.value
  input := decoded.data
  gasLimit := decoded.gasLimit
  gasPrice := decoded.gasPrice
  rawTx := rawTx
  txType := decoded.txType
  chainId := decoded.chainId
  r := decoded.r
  s := decoded.s
  v := decoded.v
  koinosTxId := koinosTxId

/-- `entry.trx.transaction`. -/
def entryTx (entry : Value) : Option Value :=
  (entry.get "trx").bind (·.get "transaction")

/-- The Koinos transaction id, empty where it cannot be read. -/
def entryKoinosTxId (entry : Value) : Bytes :=
  (((entryTx entry).bind (·.getStr "id")).bind
    fun s => (parseData ("0x" ++ stripMultihash s)).toOption).getD []

/-- `entry.trx.receipt`. -/
def entryReceipt (entry : Value) : Option Value :=
  (entry.get "trx").bind (·.get "receipt")

/-- The receipt as it is indexed; `index_tx` assigns the index. -/
def receiptOf (ev : DecodedEvents) (block : Resolved) : ReceiptRow where
  blockHeight := block.height
  blockHash := blockHashOf block.blockId
  txIndex := none
  status := ev.status
  gasUsed := ev.gasUsed
  contractAddress := ev.contractAddress
  logs := ev.logs

/-- The tail of `process_entry`, behind the decoder: decode the inline
receipt, resolve the block, index. -/
def indexEntry (cfg : IndexerConfig) (rest : String → Except String Value)
    (st : IndexerState) (entry : Value) (rawTx : Bytes) (decoded : EthTx.DecodedTx) :
    Except Panic (Except String (EntryOutcome × IndexerState)) :=
  match entryReceipt entry with
  | none => .ok (.error "history entry missing receipt")
  | some receipt => do
      let ev ← decodeReceiptEvents cfg.checks cfg.b64 ((receipt.get "events").bind Value.asArray)
      let koinosTxId := entryKoinosTxId entry
      match resolveBlock rest st ("0x1220" ++ hexEncode koinosTxId) with
      | .error e => return .error e
      | .ok (block, st) =>
          let (db, wrote) := st.db.indexTx (cfg.keccak rawTx) (metaOf decoded rawTx koinosTxId)
            (receiptOf ev block) block.timestamp
          let outcome :=
            if wrote then .indexed block.height else EntryOutcome.alreadyIndexed block.height
          return .ok (outcome, { st with db := db })

/-- `process_entry`. An error leaves store and cache as they were. -/
def processEntry (cfg : IndexerConfig) (rest : String → Except String Value)
    (st : IndexerState) (entry : Value) :
    Except Panic (Except String (EntryOutcome × IndexerState)) := do
  match ← entryRawTx cfg.checks cfg.b64 cfg.engineAddr entry with
  | none => return .ok (.notEvm, st)
  | some rawTx =>
      match EthTx.decodeAndRecover cfg.keccak cfg.secp rawTx with
      | .error _ => return .ok (.notEvm, st)
      | .ok decoded => indexEntry cfg rest st entry rawTx decoded

end KoinosEvm.Proxy
