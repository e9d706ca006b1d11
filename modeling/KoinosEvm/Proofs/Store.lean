/-
What each operation of the store does to what the queries read: the
receipt columns of a transaction (`Db.settled`), its log rows
(`Db.logRows`) and the counters of a block. Later proofs cite these and
unfold no operation.

`applyWrite` is one write of a run.
-/
import KoinosEvm.Proxy.Db

namespace KoinosEvm.Proofs

open Lib Proxy

-- ============================================================== the writes

/-- A write to the store. -/
inductive DbWrite where
  | index (c : IndexCall)
  | upsert (ethHash : B256) (txMeta : TxMeta)
  | bump (ethHash : B256)
  | settle (ethHash : B256) (r : ReceiptRow)

/-- The store after a write. -/
def applyWrite (db : Db) : DbWrite → Db
  | .index c => indexOne db c
  | .upsert ethHash txMeta => db.upsertTx ethHash txMeta
  | .bump ethHash => db.bumpPollAttempts ethHash
  | .settle ethHash r => db.settle ethHash r

-- ======================================================= the receipt columns

section Settled

variable {db : Db} {hash k : B256} {txMeta : TxMeta} {r : ReceiptRow} {ts : UInt64}

/-- The store reads a row's receipt columns back. -/
theorem settled_of_mem {row : TxRow} (hrow : row ∈ db.txs.rows) :
    db.settled row.ethHash = row.settled := by
  unfold Db.settled
  rw [Table.find?_of_mem hrow]
  rfl

/-- A new row is not settled, an old one stays as it was. -/
theorem settled_upsertTx : (db.upsertTx hash txMeta).settled k = db.settled k := by
  unfold Db.settled Db.upsertTx
  by_cases hk : hash = k
  · rw [Table.find?_upsert_self _ hk]
    cases db.txs.find? k with
    | none => rfl
    | some row => rfl
  · rw [Table.find?_upsert_of_ne _ hk]

theorem settled_bump : (db.bumpPollAttempts hash).settled k = db.settled k := by
  unfold Db.settled Db.bumpPollAttempts
  by_cases hk : k = hash
  · subst hk
    rw [Table.find?_modify_self]
    cases db.txs.find? k with
    | none => rfl
    | some row => rfl
  · rw [Table.find?_modify_of_ne _ hk]

end Settled

-- ============================================================ the counters

section Counters

variable (blocks : Blocks) (r : ReceiptRow) (ts : UInt64) {h : UInt64}

/-- Opening a block changes no counter: a new block counts from zero. -/
theorem counters_openBlock : counters (openBlock blocks r ts) h = counters blocks h := by
  unfold counters openBlock
  by_cases hh : (newBlock r ts).height = h
  · rw [Table.find?_upsert_self _ hh]
    cases blocks.find? h with
    | none => rfl
    | some b => rfl
  · rw [Table.find?_upsert_of_ne _ hh]

theorem counters_countTx_of_ne (hh : h ≠ r.blockHeight) :
    counters (countTx blocks r) h = counters blocks h := by
  unfold counters countTx
  rw [Table.find?_modify_of_ne _ hh]

/-- An open block counts the transaction and its logs. -/
theorem counters_countTx_self :
    counters (countTx (openBlock blocks r ts) r) r.blockHeight
      = ((counters blocks r.blockHeight).1 + 1,
          (counters blocks r.blockHeight).2 + r.logs.length) := by
  have hkey : (newBlock r ts).height = r.blockHeight := rfl
  unfold counters countTx openBlock
  rw [Table.find?_modify_self, Table.find?_upsert_self _ hkey]
  cases blocks.find? r.blockHeight with
  | none => rfl
  | some b => rfl

end Counters

section UpsertIndexed

variable {hash k : B256} {txMeta : TxMeta} {s : Settled} (txs : Txs)

theorem settled_upsertIndexed_self :
    ((upsertIndexed txs hash txMeta s).find? hash).bind TxRow.settled = some s := by
  have hkey : (newRow hash txMeta (some s)).ethHash = hash := rfl
  unfold upsertIndexed
  rw [Table.find?_upsert_self _ hkey]
  cases txs.find? hash with
  | none => rfl
  | some row => rfl

theorem find?_upsertIndexed_of_ne (hk : k ≠ hash) :
    (upsertIndexed txs hash txMeta s).find? k = txs.find? k := by
  have hkey : (newRow hash txMeta (some s)).ethHash ≠ k := Ne.symm hk
  unfold upsertIndexed
  rw [Table.find?_upsert_of_ne _ hkey]

end UpsertIndexed

section WriteIndexed

variable {db : Db} {hash k : B256} {txMeta : TxMeta} {r : ReceiptRow} {ts h : UInt64}

theorem counters_writeIndexed_self :
    counters (db.writeIndexed hash txMeta r ts).blocks r.blockHeight
      = ((counters db.blocks r.blockHeight).1 + 1,
          (counters db.blocks r.blockHeight).2 + r.logs.length) :=
  counters_countTx_self db.blocks r ts

theorem counters_writeIndexed_of_ne (hh : h ≠ r.blockHeight) :
    counters (db.writeIndexed hash txMeta r ts).blocks h = counters db.blocks h :=
  (counters_countTx_of_ne _ r hh).trans (counters_openBlock _ r ts)

/-- A row that the indexer has written is numbered by the count of its block. -/
theorem settled_writeIndexed_self :
    (db.writeIndexed hash txMeta r ts).settled hash
      = some (settledAs r (some (counters db.blocks r.blockHeight).1)) := by
  rw [← counters_openBlock db.blocks r ts]
  exact settled_upsertIndexed_self db.txs

theorem settled_writeIndexed_of_ne (hk : k ≠ hash) :
    (db.writeIndexed hash txMeta r ts).settled k = db.settled k :=
  congrArg (·.bind TxRow.settled) (find?_upsertIndexed_of_ne db.txs hk)

end WriteIndexed

-- ============================================================ the log rows

section Logs

variable {hash k : B256} {r : ReceiptRow} {txIndex base : Nat} {logs : List LogEntry}

/-- A transaction's rows in a list of log rows. -/
def logRows (logs : List LogEntry) (hash : B256) : List LogEntry :=
  logs.filter fun l => l.ethHash = hash

/-- The rows `replace_logs` inserts. -/
def newLogs (hash : B256) (r : ReceiptRow) (txIndex base : Nat) : List LogEntry :=
  r.logs.mapIdx (logEntry hash r txIndex base)

theorem ethHash_of_mem_newLogs {l : LogEntry} (hl : l ∈ newLogs hash r txIndex base) :
    l.ethHash = hash := by
  obtain ⟨i, hi, rfl⟩ := List.mem_mapIdx.mp hl
  rfl

/-- `replace_logs` leaves exactly the new rows under its hash. -/
theorem logRows_replaceLogs_self :
    logRows (replaceLogs logs hash r txIndex base) hash = newLogs hash r txIndex base := by
  have hold : (logs.filter fun l => l.ethHash ≠ hash).filter (fun l => l.ethHash = hash) = [] := by
    rw [List.filter_filter, List.filter_eq_nil_iff]
    simp
  have hnew : (newLogs hash r txIndex base).filter (fun l => l.ethHash = hash)
      = newLogs hash r txIndex base := by
    refine List.filter_eq_self.mpr fun l hl => ?_
    simpa using ethHash_of_mem_newLogs hl
  unfold logRows replaceLogs
  rw [List.filter_append, hold, List.nil_append]
  exact hnew

/-- .. and the rows of other transactions alone. -/
theorem logRows_replaceLogs_of_ne (hk : k ≠ hash) :
    logRows (replaceLogs logs hash r txIndex base) k = logRows logs k := by
  have hnew : (newLogs hash r txIndex base).filter (fun l => l.ethHash = k) = [] := by
    refine List.filter_eq_nil_iff.mpr fun l hl => ?_
    simpa [ethHash_of_mem_newLogs hl] using Ne.symm hk
  unfold logRows replaceLogs
  rw [List.filter_append, List.filter_filter]
  show _ ++ (newLogs hash r txIndex base).filter _ = _
  rw [hnew, List.append_nil]
  refine List.filter_congr fun l _ => ?_
  by_cases hl : l.ethHash = k
  · simp [hl, hk]
  · simp [hl]

/-- The new rows are in the order of their index. -/
theorem newLogs_sorted :
    (newLogs hash r txIndex base).Pairwise fun a b => a.logIndex ≤ b.logIndex := by
  rw [List.pairwise_iff_getElem]
  intro i j hi hj hij
  simp only [newLogs, List.getElem_mapIdx, logEntry]
  omega

/-- They are numbered from their base. -/
theorem newLogs_logIndex :
    (newLogs hash r txIndex base).map LogEntry.logIndex
      = (List.range r.logs.length).map (base + ·) := by
  refine List.ext_getElem (by simp [newLogs]) fun i hi hi' => ?_
  simp [newLogs, logEntry]

/-- The queries read a transaction's own rows. -/
theorem logsOf_congr {db db' : Db} (h : logRows db'.logs hash = logRows db.logs hash) :
    db'.logsOf hash = db.logsOf hash := congrArg (List.insertionSort _) h

theorem getReceipt_congr {db db' : Db} (hsettled : db'.settled hash = db.settled hash)
    (hlogs : logRows db'.logs hash = logRows db.logs hash) :
    db'.getReceipt hash = db.getReceipt hash := by
  unfold Db.getReceipt
  rw [hsettled, logsOf_congr hlogs]

/-- A log apart from its index. -/
def contentOf (l : LogRow) : Bytes × List Bytes × Bytes := (l.address, l.topics, l.data)

/-- What the columns of a log's row hold of it. -/
def columnsOf (l : LogRow) : Bytes × List Bytes × Bytes := (l.address, l.topics.take 4, l.data)

/-- The rows of logs, read back. -/
theorem content_newLogs :
    ((newLogs hash r txIndex base).map LogEntry.toRow).map contentOf = r.logs.map columnsOf := by
  refine List.ext_getElem (by simp [newLogs]) fun i hi hi' => ?_
  simp [newLogs, logEntry, LogEntry.toRow, contentOf, columnsOf]

/-- A transaction's rows as `get_receipt` reads them. -/
theorem logsOf_eq (db : Db) (hrows : logRows db.logs hash = newLogs hash r txIndex base) :
    db.logsOf hash = newLogs hash r txIndex base := by
  unfold Db.logsOf
  show (logRows db.logs hash).insertionSort _ = _
  rw [hrows]
  exact newLogs_sorted.insertionSort_eq

end Logs

-- ============================================================ set_receipt

section Settle

variable {db : Db} {hash k : B256} {r : ReceiptRow}

/-- `set_receipt` finds no row and fails, or replaces the receipt columns
and the log rows. -/
theorem settle_cases :
    (db.txs.find? hash = none ∧ db.settle hash r = db)
      ∨ ((db.settle hash r).settled hash = some (settledAs r none)
        ∧ (∀ k, k ≠ hash → (db.settle hash r).settled k = db.settled k)
        ∧ (db.settle hash r).logs = replaceLogs db.logs hash r 0 0
        ∧ (db.settle hash r).blocks = db.blocks) := by
  unfold Db.settle Db.setReceipt
  cases hrow : db.txs.find? hash with
  | none => exact .inl ⟨rfl, rfl⟩
  | some row =>
      refine .inr ⟨?_, fun k hk => ?_, rfl, rfl⟩
      · unfold Db.settled
        rw [Table.find?_modify_self, hrow]
        rfl
      · unfold Db.settled
        rw [Table.find?_modify_of_ne _ hk]

theorem settled_settle_of_ne (hk : k ≠ hash) :
    (db.settle hash r).settled k = db.settled k := by
  rcases settle_cases with ⟨-, h⟩ | ⟨-, h, -⟩
  · rw [h]
  · exact h k hk

theorem logRows_settle_of_ne (hk : k ≠ hash) :
    logRows (db.settle hash r).logs k = logRows db.logs k := by
  rcases settle_cases with ⟨-, h⟩ | ⟨-, -, h, -⟩
  · rw [h]
  · rw [h]
    exact logRows_replaceLogs_of_ne hk

theorem blocks_settle : (db.settle hash r).blocks = db.blocks := by
  rcases settle_cases with ⟨-, h⟩ | ⟨-, -, -, h⟩
  · rw [h]
  · exact h

/-- A settled row stays settled, without an index. -/
theorem settled_settle_self {s : Settled} (hs : db.settled hash = some s) :
    (db.settle hash r).settled hash = some (settledAs r none) := by
  rcases settle_cases with ⟨hrow, -⟩ | ⟨h, -⟩
  · unfold Db.settled at hs
    rw [hrow] at hs
    cases hs
  · exact h

/-- A provisional row stays one. -/
theorem txIndex_settle (hold : ∀ s, db.settled hash = some s → s.txIndex = none) :
    ∀ s, (db.settle hash r).settled hash = some s → s.txIndex = none := by
  rcases settle_cases with ⟨-, h⟩ | ⟨h, -⟩
  · rw [h]
    exact hold
  · rw [h]
    rintro s hs
    cases hs
    rfl

end Settle

-- =============================================================== index_tx

section IndexTx

variable {db : Db} {hash k : B256} {txMeta : TxMeta} {r : ReceiptRow} {ts : UInt64}

/-- When `index_tx` returns early. -/
theorem skips_iff {existing : Option Settled} :
    skips existing r = true ↔ ∃ s, existing = some s ∧ s.txIndex.isSome
      ∧ (s.blockHeight = r.blockHeight ∨ (s.status = true ∧ r.status = false)) := by
  cases existing with
  | none => simp [skips]
  | some s => simp [skips]

theorem indexTx_skip (h : skips (db.settled hash) r = true) :
    db.indexTx hash txMeta r ts = (db, false) := by
  unfold Db.indexTx
  rw [if_pos h]

theorem indexTx_write (h : ¬ skips (db.settled hash) r = true) :
    db.indexTx hash txMeta r ts = (db.writeIndexed hash txMeta r ts, true) := by
  unfold Db.indexTx
  rw [if_neg h]

theorem settled_indexTx_of_ne (hk : k ≠ hash) :
    (db.indexTx hash txMeta r ts).1.settled k = db.settled k := by
  by_cases h : skips (db.settled hash) r = true
  · rw [indexTx_skip h]
  · rw [indexTx_write h]
    exact settled_writeIndexed_of_ne hk

/-- The log rows of a transaction that the indexer has written. -/
theorem logRows_writeIndexed_self :
    logRows (db.writeIndexed hash txMeta r ts).logs hash
      = newLogs hash r (counters db.blocks r.blockHeight).1
          (counters db.blocks r.blockHeight).2 := by
  rw [← counters_openBlock db.blocks r ts]
  exact logRows_replaceLogs_self

theorem logRows_writeIndexed_of_ne (hk : k ≠ hash) :
    logRows (db.writeIndexed hash txMeta r ts).logs k = logRows db.logs k :=
  logRows_replaceLogs_of_ne hk

end IndexTx

-- ================================================================ samples

/-- A transaction's metadata. -/
def sampleMeta : TxMeta where
  fromAddr := .zero 20
  toAddr := none
  nonce := 0
  value := .zero 32
  input := []
  gasLimit := 21000
  gasPrice := .zero 32
  rawTx := [0xc0]
  txType := 0
  chainId := none
  r := .zero 32
  s := .zero 32
  v := 27
  koinosTxId := [1]

/-- A receipt without logs. -/
def sampleReceipt (height : UInt64) (blockHash : Bytes) (status : Bool) : ReceiptRow :=
  ⟨height, blockHash, none, status, if status then 21000 else 0, none, []⟩

/-- SQLite as it comes. -/
def sampleSqlite : Sqlite := ⟨32766, by decide, fun _ => "too many SQL variables"⟩

end KoinosEvm.Proofs
