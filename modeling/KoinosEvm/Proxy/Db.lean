/-
The proxy's SQLite store (rpc/src/db.rs): transactions with their
receipts, logs, blocks and the indexer's cursor.

Every operation holds the one connection's lock and is one SQL transaction,
so it is a function on the store. An SQL error leaves the store as it was
and is not modelled, but for that of a query with too many values
(`Sqlite`); the errors of the code itself are. A `u64` is stored as the
`i64` of the same bits, and read back so. Rows of `txs` are never
deleted: their order is the order of their `rowid`s. The counters of a
block and what is numbered by them are `Nat`.
-/
import KoinosEvm.Lib.Table
import KoinosEvm.Proxy.Events
import Mathlib.Data.List.Sort

namespace KoinosEvm.Proxy

open Lib

/-- What `state::TxMeta` says of a transaction but for its Koinos id. These
columns of `txs` are written once. -/
structure SentTx where
  fromAddr : Address
  toAddr : Option Address
  nonce : UInt64
  value : B256
  input : Bytes
  gasLimit : UInt64
  gasPrice : B256
  rawTx : Bytes
  txType : UInt8
  chainId : Option UInt64
  r : B256
  s : B256
  v : UInt64
  deriving DecidableEq

/-- `state::TxMeta`. -/
structure TxMeta extends SentTx where
  koinosTxId : Bytes
  deriving DecidableEq

/-- `db::ReceiptRow`. -/
structure ReceiptRow where
  blockHeight : UInt64
  blockHash : Bytes
  txIndex : Option Nat
  status : Bool
  gasUsed : UInt64
  contractAddress : Option Bytes
  logs : List LogRow
  deriving DecidableEq

-- ============================================================ the tables

/-- The receipt columns of `txs`. One write sets them all: they are NULL
together. `tx_index` alone may be NULL in a settled row. -/
structure Settled where
  blockHeight : UInt64
  blockHash : Bytes
  txIndex : Option Nat
  status : Bool
  gasUsed : UInt64
  contractAddress : Option Bytes
  deriving DecidableEq

/-- A row of `txs`. -/
structure TxRow extends SentTx where
  ethHash : B256
  koinosTxId : Option Bytes
  settled : Option Settled
  pollAttempts : Nat
  deriving DecidableEq

/-- A row of `logs`; `topics` are the columns `topic0` .. `topic3` that are
not NULL. -/
structure LogEntry where
  ethHash : B256
  blockHeight : UInt64
  blockHash : Bytes
  txIndex : Nat
  logIndex : Nat
  address : Bytes
  topics : List Bytes
  data : Bytes
  deriving DecidableEq

/-- `db::BlockRow`, a row of `blocks`. -/
structure BlockRow where
  height : UInt64
  blockHash : Bytes
  timestamp : UInt64
  txCount : Nat
  logCount : Nat
  deriving DecidableEq

/-- The table `txs`. -/
abbrev Txs := Table B256 TxRow TxRow.ethHash

/-- The table `blocks`. -/
abbrev Blocks := Table UInt64 BlockRow BlockRow.height

/-- The store. Of `meta`, the one key in use. -/
structure Db where
  txs : Txs
  logs : List LogEntry
  blocks : Blocks
  indexerCursor : Option UInt64

/-- A new store. -/
def Db.empty : Db := ⟨.empty, [], .empty, none⟩

-- ============================================================== upsert_tx

/-- `(!id.is_empty()).then_some(id)`. -/
def idColumn (id : Bytes) : Option Bytes := if id.isEmpty then none else some id

/-- An inserted row. The receipt columns default to NULL, `poll_attempts`
to 0. -/
def newRow (ethHash : B256) (txMeta : TxMeta) (settled : Option Settled) : TxRow :=
  { txMeta.toSentTx with
    ethHash := ethHash
    koinosTxId := idColumn txMeta.koinosTxId
    settled := settled
    pollAttempts := 0 }

/-- `upsert_tx`. -/
def Db.upsertTx (db : Db) (ethHash : B256) (txMeta : TxMeta) : Db :=
  { db with
    txs := db.txs.upsert (newRow ethHash txMeta none)
      (fun row => { row with koinosTxId := idColumn txMeta.koinosTxId }) fun _ => rfl }

-- ============================================================ set_receipt

/-- The receipt columns as `r` has them. -/
def settledAs (r : ReceiptRow) (txIndex : Option Nat) : Settled :=
  ⟨r.blockHeight, r.blockHash, txIndex, r.status, r.gasUsed, r.contractAddress⟩

/-- The row of the `i`th log. There are four topic columns. -/
def logEntry (ethHash : B256) (r : ReceiptRow) (txIndex logIndexBase i : Nat)
    (log : LogRow) : LogEntry where
  ethHash := ethHash
  blockHeight := r.blockHeight
  blockHash := r.blockHash
  txIndex := txIndex
  logIndex := logIndexBase + i
  address := log.address
  topics := log.topics.take 4
  data := log.data

/-- `replace_logs`. -/
def replaceLogs (logs : List LogEntry) (ethHash : B256) (r : ReceiptRow)
    (txIndex logIndexBase : Nat) : List LogEntry :=
  logs.filter (fun l => l.ethHash ≠ ethHash)
    ++ r.logs.mapIdx (logEntry ethHash r txIndex logIndexBase)

/-- `set_receipt`. -/
def Db.setReceipt (db : Db) (ethHash : B256) (r : ReceiptRow) : Except String Db :=
  match db.txs.find? ethHash with
  | none => .error "set_receipt: no txs row for this hash (persist the tx first)"
  | some _ =>
      .ok { db with
        txs := db.txs.modify ethHash
          (fun row => { row with settled := some (settledAs r none) }) fun _ => rfl
        logs := replaceLogs db.logs ethHash r 0 0 }

/-- The store after `set_receipt`: its callers log an error and go on. -/
def Db.settle (db : Db) (ethHash : B256) (r : ReceiptRow) : Db :=
  match db.setReceipt ethHash r with
  | .ok db' => db'
  | .error _ => db

-- =============================================================== index_tx

/-- The early returns of `index_tx`: the row is the indexer's, and has the
receipt's height, or a success that a failure must not replace. -/
def skips (existing : Option Settled) (r : ReceiptRow) : Bool :=
  match existing with
  | none => false
  | some s =>
      s.txIndex.isSome && (s.blockHeight == r.blockHeight || (s.status && !r.status))

/-- The receipt columns of a transaction's row. -/
def Db.settled (db : Db) (ethHash : B256) : Option Settled :=
  (db.txs.find? ethHash).bind TxRow.settled

/-- The block of a receipt, with nothing counted in it. -/
def newBlock (r : ReceiptRow) (blockTimestamp : UInt64) : BlockRow :=
  ⟨r.blockHeight, r.blockHash, blockTimestamp, 0, 0⟩

/-- `INSERT INTO blocks .. ON CONFLICT(height) DO NOTHING`. -/
def openBlock (blocks : Blocks) (r : ReceiptRow) (blockTimestamp : UInt64) : Blocks :=
  blocks.upsert (newBlock r blockTimestamp) id fun _ => rfl

/-- `SELECT tx_count, log_count FROM blocks`. -/
def counters (blocks : Blocks) (height : UInt64) : Nat × Nat :=
  match blocks.find? height with
  | none => (0, 0)
  | some b => (b.txCount, b.logCount)

/-- `UPDATE blocks SET tx_count = tx_count + 1, log_count = log_count + ..`. -/
def countTx (blocks : Blocks) (r : ReceiptRow) : Blocks :=
  blocks.modify r.blockHeight
    (fun b => { b with
      txCount := b.txCount + 1, logCount := b.logCount + r.logs.length }) fun _ => rfl

/-- The row's receipt columns and Koinos id are the indexer's. -/
def upsertIndexed (txs : Txs) (ethHash : B256) (txMeta : TxMeta) (s : Settled) : Txs :=
  txs.upsert (newRow ethHash txMeta (some s))
    (fun row => { row with
      koinosTxId := idColumn txMeta.koinosTxId, settled := some s }) fun _ => rfl

/-- The write path of `index_tx`. -/
def Db.writeIndexed (db : Db) (ethHash : B256) (txMeta : TxMeta) (r : ReceiptRow)
    (blockTimestamp : UInt64) : Db :=
  let blocks := openBlock db.blocks r blockTimestamp
  let txIndex := (counters blocks r.blockHeight).1
  let logBase := (counters blocks r.blockHeight).2
  { db with
    txs := upsertIndexed db.txs ethHash txMeta (settledAs r (some txIndex))
    logs := replaceLogs db.logs ethHash r txIndex logBase
    blocks := countTx blocks r }

/-- `index_tx`: the store after it, and whether it wrote. -/
def Db.indexTx (db : Db) (ethHash : B256) (txMeta : TxMeta) (r : ReceiptRow)
    (blockTimestamp : UInt64) : Db × Bool :=
  if skips (db.settled ethHash) r then (db, false)
  else (db.writeIndexed ethHash txMeta r blockTimestamp, true)

/-- The arguments of a call of `index_tx`. -/
structure IndexCall where
  ethHash : B256
  txMeta : TxMeta
  receipt : ReceiptRow
  timestamp : UInt64
  deriving DecidableEq

/-- The store after the call. -/
def indexOne (db : Db) (c : IndexCall) : Db :=
  (db.indexTx c.ethHash c.txMeta c.receipt c.timestamp).1

-- ================================================================ queries

/-- A log as the queries return it. -/
def LogEntry.toRow (l : LogEntry) : LogRow := ⟨l.logIndex, l.address, l.topics, l.data⟩

/-- A transaction's logs, by `log_index`. -/
def Db.logsOf (db : Db) (ethHash : B256) : List LogEntry :=
  (db.logs.filter fun l => l.ethHash = ethHash).insertionSort
    fun a b => a.logIndex ≤ b.logIndex

/-- `get_receipt`. -/
def Db.getReceipt (db : Db) (ethHash : B256) : Option ReceiptRow :=
  (db.settled ethHash).map fun s =>
    { blockHeight := s.blockHeight
      blockHash := s.blockHash
      txIndex := s.txIndex
      status := s.status
      gasUsed := s.gasUsed
      contractAddress := s.contractAddress
      logs := (db.logsOf ethHash).map LogEntry.toRow }

/-- `ORDER BY tx_index IS NULL, tx_index`. -/
def indexLe : Option Nat → Option Nat → Prop
  | some i, some j => i ≤ j
  | some _, none => True
  | none, some _ => False
  | none, none => True

instance : DecidableRel indexLe := fun a b =>
  match a, b with
  | some i, some j => inferInstanceAs (Decidable (i ≤ j))
  | some _, none => isTrue trivial
  | none, some _ => isFalse id
  | none, none => isTrue trivial

/-- The row's height, NULL in a row that is not settled. -/
def TxRow.blockHeight (row : TxRow) : Option UInt64 := row.settled.map Settled.blockHeight

/-- The row's `tx_index`. -/
def TxRow.txIndex (row : TxRow) : Option Nat := row.settled.bind Settled.txIndex

/-- `block_tx_hashes`. -/
def Db.blockTxHashes (db : Db) (height : UInt64) : List B256 :=
  let rows := db.txs.rows.filter fun row => row.blockHeight = some height
  (rows.insertionSort fun a b => indexLe a.txIndex b.txIndex).map TxRow.ethHash

/-- `block_logs`. -/
def Db.blockLogs (db : Db) (height : UInt64) : List LogRow :=
  let rows := db.logs.filter fun l => l.blockHeight = height
  (rows.insertionSort fun a b => a.logIndex ≤ b.logIndex).map LogEntry.toRow

/-- `db::LogFilter`. -/
structure LogFilter where
  fromBlock : UInt64
  toBlock : UInt64
  blockHash : Option Bytes
  addresses : List Bytes
  topics : Fin 4 → List Bytes

/-- `LogFilter::default()`. -/
def LogFilter.default : LogFilter := ⟨0, 0, none, [], fun _ => []⟩

/-- `i64::MAX as u64`. -/
def i64Max : UInt64 := 0x7fffffffffffffff

/-- The clamped bound of a height. -/
def clampHeight (h : UInt64) : Int64 := (min h i64Max).toInt64

/-- The `WHERE` of `query_logs`. A column that is NULL is in no list. -/
def LogFilter.selects (f : LogFilter) (l : LogEntry) : Bool :=
  (match f.blockHash with
    | some blockHash => l.blockHash == blockHash
    | none =>
        decide (clampHeight f.fromBlock ≤ l.blockHeight.toInt64)
          && decide (l.blockHeight.toInt64 ≤ clampHeight f.toBlock))
    && (f.addresses.isEmpty || f.addresses.contains l.address)
    && (List.finRange 4).all fun i =>
      (f.topics i).isEmpty || (l.topics[i.val]?).any fun t => (f.topics i).contains t

/-- `ORDER BY block_height, eth_hash, log_index`. -/
def queryLe (a b : LogEntry) : Prop :=
  a.blockHeight.toInt64 < b.blockHeight.toInt64 ∨
    (a.blockHeight = b.blockHeight ∧
      (a.ethHash.bytes < b.ethHash.bytes ∨ (a.ethHash = b.ethHash ∧ a.logIndex ≤ b.logIndex)))

instance : DecidableRel queryLe := fun _ _ =>
  inferInstanceAs (Decidable (_ ∨ (_ ∧ (_ ∨ (_ ∧ _)))))

/-- The rows of a query, a `LogQueryRow` being the row itself. -/
def Db.queryRows (db : Db) (f : LogFilter) (limit : Nat) : List LogEntry :=
  ((db.logs.filter f.selects).insertionSort queryLe).take limit

/-- SQLite, as far as a query depends on it: it takes so many `?`s in a
statement, by default 999 or, from 3.32 on, 32766, and refuses one with
more. -/
structure Sqlite where
  maxVariables : Nat
  default_le : 999 ≤ maxVariables
  tooMany : LogFilter → String

/-- The `?`s of `query_logs`: one for the block or two for the range, those of
the lists, and one for the limit. -/
def LogFilter.variables (f : LogFilter) : Nat :=
  (if f.blockHash.isSome then 1 else 2) + f.addresses.length
    + ((List.finRange 4).map fun i => (f.topics i).length).sum + 1

/-- `query_logs`. -/
def Db.queryLogs (sqlite : Sqlite) (db : Db) (f : LogFilter) (limit : Nat) :
    Except String (List LogEntry) :=
  if sqlite.maxVariables < f.variables then .error (sqlite.tooMany f)
  else .ok (db.queryRows f limit)

/-- `get_block_by_hash`. `height` is the `rowid`, in whose order the table
is scanned. -/
def Db.getBlockByHash (db : Db) (hash : Bytes) : Option BlockRow :=
  (db.blocks.rows.insertionSort fun a b => a.height.toInt64 ≤ b.height.toInt64).find?
    fun b => b.blockHash = hash

/-- `POLL_ATTEMPTS_CAP`. -/
def pollAttemptsCap : Nat := 200

/-- `pending_txs`: least attempts first, then the newest row. -/
def Db.pendingTxs (db : Db) (limit : Nat) : List (B256 × Bytes) :=
  let rows := db.txs.rows.filter fun row =>
    row.settled.isNone && row.koinosTxId.isSome && row.pollAttempts < pollAttemptsCap
  let ordered := rows.reverse.insertionSort fun a b => a.pollAttempts ≤ b.pollAttempts
  (ordered.take limit).map fun row => (row.ethHash, row.koinosTxId.getD [])

/-- `bump_poll_attempts`. -/
def Db.bumpPollAttempts (db : Db) (ethHash : B256) : Db :=
  { db with
    txs := db.txs.modify ethHash
      (fun row => { row with pollAttempts := row.pollAttempts + 1 }) fun _ => rfl }

/-- `set_meta(CURSOR_KEY, ..)`. -/
def Db.setCursor (db : Db) (cursor : UInt64) : Db := { db with indexerCursor := some cursor }

end KoinosEvm.Proxy
