/-
The table `logs` by its columns, and `query_logs` by the SQL that it puts
together (rpc/src/db.rs).

A height is stored as the `i64` of the same bits. A log's topics fill the
columns `topic0` .. `topic3` from the front, what is over being NULL; a reader
passes the NULLs over. What is a `LogEntry` of the store is a record here
(`toRecord`). A statement with more placeholders than SQLite takes is refused
when it is prepared.
-/
import KoinosEvm.Lib.Where
import KoinosEvm.Proxy.Db

namespace KoinosEvm.Proxy

open Lib

-- ================================================================= columns

/-- A value of SQLite that is not NULL. -/
inductive SqlValue
  | int (n : Int64)
  | blob (b : Bytes)
  deriving DecidableEq

/-- Integers come before blobs, which are compared byte by byte. -/
def SqlValue.le : SqlValue → SqlValue → Bool
  | .int m, .int n => m ≤ n
  | .int _, .blob _ => true
  | .blob _, .int _ => false
  | .blob a, .blob b => a ≤ b

instance : LE SqlValue := ⟨fun a b => a.le b = true⟩

instance : DecidableLE SqlValue := fun a b => inferInstanceAs (Decidable (a.le b = true))

theorem SqlValue.int_le {m n : Int64} : SqlValue.int m ≤ .int n ↔ m ≤ n := decide_eq_true_iff

/-- A row of `logs`. -/
structure LogRecord where
  ethHash : B256
  blockHeight : Int64
  blockHash : Bytes
  txIndex : Nat
  logIndex : Nat
  address : Bytes
  topic : Fin 4 → Option Bytes
  data : Bytes
  deriving DecidableEq

/-- The columns that `query_logs` tests. -/
inductive LogColumn
  | blockHeight
  | blockHash
  | address
  | topic (i : Fin 4)
  deriving DecidableEq

/-- A column of a row. -/
def LogRecord.column (r : LogRecord) : LogColumn → Option SqlValue
  | .blockHeight => some (.int r.blockHeight)
  | .blockHash => some (.blob r.blockHash)
  | .address => some (.blob r.address)
  | .topic i => (r.topic i).map .blob

/-- The table. -/
abbrev LogTable := List LogRecord

-- ============================================================ replace_logs

/-- The row inserted for the `i`th log. -/
def logRecord (ethHash : B256) (r : ReceiptRow) (txIndex logIndexBase i : Nat) (log : LogRow) :
    LogRecord where
  ethHash := ethHash
  blockHeight := r.blockHeight.toInt64
  blockHash := r.blockHash
  txIndex := txIndex
  logIndex := logIndexBase + i
  address := log.address
  topic := fun j => log.topics[j.val]?
  data := log.data

/-- `replace_logs`. -/
def LogTable.replaceLogs (table : LogTable) (ethHash : B256) (r : ReceiptRow)
    (txIndex logIndexBase : Nat) : LogTable :=
  table.filter (fun l => l.ethHash ≠ ethHash)
    ++ r.logs.mapIdx (logRecord ethHash r txIndex logIndexBase)

-- ============================================================== query_logs

/-- `block_hash = ?`, or the range of heights. -/
def placeClause (f : LogFilter) : Clause LogColumn SqlValue :=
  match f.blockHash with
  | some bh => Clause.empty.push (.eq .blockHash) [.blob bh] (Test.width_eq _).symm
  | none =>
      (Clause.empty.push (.ge .blockHeight) [.int (clampHeight f.fromBlock)]
        (Test.width_ge _).symm).push (.le .blockHeight) [.int (clampHeight f.toBlock)]
        (Test.width_le _).symm

/-- The clause that `query_logs` puts together. -/
def whereClause (f : LogFilter) : Clause LogColumn SqlValue :=
  (List.finRange 4).foldl (fun clause i => clause.pushIn (.topic i) ((f.topics i).map .blob))
    ((placeClause f).pushIn .address (f.addresses.map .blob))

/-- `ORDER BY block_height, eth_hash, log_index`. -/
def recordLe (a b : LogRecord) : Prop :=
  a.blockHeight < b.blockHeight ∨
    (a.blockHeight = b.blockHeight ∧
      (a.ethHash.bytes < b.ethHash.bytes ∨ (a.ethHash = b.ethHash ∧ a.logIndex ≤ b.logIndex)))

instance : DecidableRel recordLe := fun _ _ =>
  inferInstanceAs (Decidable (_ ∨ (_ ∧ (_ ∨ (_ ∧ _)))))

/-- `LIMIT ?`. A negative one is none. -/
def limitRows {α : Type} (limit : Option SqlValue) (rows : List α) : List α :=
  match limit with
  | some (.int n) => if n < 0 then rows else rows.take n.toInt.toNat
  | _ => rows

/-- The statement, run: the placeholder of `LIMIT` is the last. -/
def LogTable.select (table : LogTable) (tests : List (Test LogColumn)) (args : List SqlValue) :
    List LogRecord :=
  limitRows args[(tests.map Test.width).sum]?
    ((table.filter fun r => holdsAll r.column tests args = some true).insertionSort recordLe)

/-- A row as `query_logs` returns it. -/
def LogRecord.read (r : LogRecord) : LogEntry where
  ethHash := r.ethHash
  blockHeight := r.blockHeight.toUInt64
  blockHash := r.blockHash
  txIndex := r.txIndex
  logIndex := r.logIndex
  address := r.address
  topics := (List.finRange 4).filterMap r.topic
  data := r.data

/-- `query_logs`: the statement is prepared, then run. -/
def LogTable.queryLogs (sqlite : Sqlite) (table : LogTable) (f : LogFilter) (limit : UInt64) :
    Except String (List LogEntry) :=
  let clause := whereClause f
  let args := clause.args ++ [.int limit.toInt64]
  if sqlite.maxVariables < args.length then .error (sqlite.tooMany f)
  else .ok ((table.select clause.tests args).map LogRecord.read)

-- =============================================================== the store

/-- A row of the store by its columns. -/
def LogEntry.toRecord (l : LogEntry) : LogRecord where
  ethHash := l.ethHash
  blockHeight := l.blockHeight.toInt64
  blockHash := l.blockHash
  txIndex := l.txIndex
  logIndex := l.logIndex
  address := l.address
  topic := fun i => l.topics[i.val]?
  data := l.data

/-- `query_logs` on the store. -/
def Db.selectLogs (sqlite : Sqlite) (db : Db) (f : LogFilter) (limit : UInt64) :
    Except String (List LogEntry) :=
  LogTable.queryLogs sqlite (db.logs.map LogEntry.toRecord) f limit

end KoinosEvm.Proxy
