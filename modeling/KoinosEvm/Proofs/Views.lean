/-
The tables of the store as one picture.

Receipt columns and log rows are written together, by `set_receipt` and by
`index_tx`, and nothing else writes either. So every log row repeats the
block, and the index, of a settled row of its transaction (`Parented`), in
every state that writes lead to. What the queries answer follows from that
alone: the logs of a block are those of the receipts of its transactions
(`blockLogs_perm`), and a row that `query_logs` finds is in a receipt
(`queryLogs_receipt`). `reachable_consistent` puts it together.
-/
import KoinosEvm.Proofs.Store

namespace KoinosEvm.Proofs

open Lib Proxy

-- ============================================================= the picture

/-- A log row repeats its transaction's receipt columns; `tx_index` is 0
where theirs is NULL. -/
structure Repeats (l : LogEntry) (s : Settled) : Prop where
  blockHeight : l.blockHeight = s.blockHeight
  blockHash : l.blockHash = s.blockHash
  txIndex : l.txIndex = s.txIndex.getD 0

/-- Every log row has its transaction's row, settled and saying the same. -/
def Parented (db : Db) : Prop :=
  ∀ l ∈ db.logs, ∃ row ∈ db.txs.rows, row.ethHash = l.ethHash
    ∧ ∃ s, row.settled = some s ∧ Repeats l s

/-- The logs of a transaction's receipt. -/
def receiptLogs (db : Db) (hash : B256) : List LogRow :=
  ((db.getReceipt hash).map ReceiptRow.logs).getD []

/-- The views of a store do not contradict one another. -/
structure Consistent (db : Db) : Prop where
  parented : Parented db
  /-- A row that is not settled has no logs. -/
  pending : ∀ row ∈ db.txs.rows, row.settled = none → ∀ l ∈ db.logs, l.ethHash ≠ row.ethHash
  /-- The transactions of a block are different .. -/
  distinct : ∀ h, (db.blockTxHashes h).Nodup
  /-- .. each has its receipt, of this block .. -/
  receipts : ∀ h, ∀ hash ∈ db.blockTxHashes h,
    ∃ r, db.getReceipt hash = some r ∧ r.blockHeight = h
  /-- .. and the logs of the block are theirs. -/
  blockLogs : ∀ h, (db.blockLogs h).Perm ((db.blockTxHashes h).flatMap (receiptLogs db))
  /-- A log that is queried is in its transaction's receipt, with its block. -/
  queried : ∀ sqlite f limit rows, db.queryLogs sqlite f limit = .ok rows → ∀ l ∈ rows,
    ∃ r, db.getReceipt l.ethHash = some r ∧ l.toRow ∈ r.logs ∧ l.blockHeight = r.blockHeight
      ∧ l.blockHash = r.blockHash ∧ l.txIndex = r.txIndex.getD 0

-- ============================================================== one write

section Parented

variable {db db' : Db} {hash : B256} {r : ReceiptRow}

/-- What the rows under each hash say, by the store's own reading of their
transaction. -/
theorem parented_iff : Parented db ↔ ∀ hash, ∀ l ∈ logRows db.logs hash,
    ∃ s, db.settled hash = some s ∧ Repeats l s := by
  constructor
  · intro h hash l hl
    obtain ⟨hmem, heq⟩ := List.mem_filter.mp hl
    obtain ⟨row, hrow, hhash, s, hs, hrep⟩ := h l hmem
    refine ⟨s, ?_, hrep⟩
    rw [← of_decide_eq_true heq, ← hhash, settled_of_mem hrow]
    exact hs
  · intro h l hl
    obtain ⟨s, hs, hrep⟩ := h l.ethHash l (List.mem_filter.mpr ⟨hl, decide_eq_true rfl⟩)
    obtain ⟨row, hrow, hsettled⟩ := Option.bind_eq_some_iff.mp hs
    exact ⟨row, Table.find?_mem hrow, Table.find?_key hrow, s, hsettled, hrep⟩

/-- The rows that `replace_logs` inserts repeat the receipt. -/
theorem repeats_newLogs {i base : Nat} {txIndex : Option Nat} (hi : i = txIndex.getD 0)
    {l : LogEntry} (hl : l ∈ newLogs hash r i base) : Repeats l (settledAs r txIndex) := by
  obtain ⟨j, hj, rfl⟩ := List.mem_mapIdx.mp hl
  exact ⟨rfl, rfl, hi⟩

/-- A write that settles one transaction, and writes its log rows with it. -/
theorem parented_of_replaced {i base : Nat} {txIndex : Option Nat} (h : Parented db)
    (hi : i = txIndex.getD 0) (hsettled : db'.settled hash = some (settledAs r txIndex))
    (hlogs : logRows db'.logs hash = newLogs hash r i base)
    (hother : ∀ k, k ≠ hash → db'.settled k = db.settled k
      ∧ logRows db'.logs k = logRows db.logs k) : Parented db' := by
  rw [parented_iff] at h ⊢
  intro k l hl
  by_cases hk : k = hash
  · subst hk
    rw [hlogs] at hl
    exact ⟨_, hsettled, repeats_newLogs hi hl⟩
  · obtain ⟨hsame, hrows⟩ := hother k hk
    rw [hrows] at hl
    rw [hsame]
    exact h k l hl

/-- Every write keeps the log rows parented, also a `set_receipt` that finds
no row. -/
theorem parented_write (h : Parented db) (w : DbWrite) : Parented (applyWrite db w) := by
  cases w with
  | upsert ethHash txMeta =>
      rw [parented_iff] at h ⊢
      intro k l hl
      have hsame : (applyWrite db (.upsert ethHash txMeta)).settled k = db.settled k :=
        settled_upsertTx
      rw [hsame]
      exact h k l hl
  | bump ethHash =>
      rw [parented_iff] at h ⊢
      intro k l hl
      have hsame : (applyWrite db (.bump ethHash)).settled k = db.settled k := settled_bump
      rw [hsame]
      exact h k l hl
  | settle ethHash r =>
      show Parented (db.settle ethHash r)
      rcases @settle_cases db ethHash r with
        ⟨-, hsame⟩ | ⟨hsettled, hother, hlogs, -⟩
      · rwa [hsame]
      · have hrows : logRows (db.settle ethHash r).logs ethHash = newLogs ethHash r 0 0 := by
          rw [hlogs]
          exact logRows_replaceLogs_self
        exact parented_of_replaced h rfl hsettled hrows fun k hk =>
          ⟨hother k hk, logRows_settle_of_ne hk⟩
  | index c =>
      show Parented (db.indexTx c.ethHash c.txMeta c.receipt c.timestamp).1
      by_cases hskip : skips (db.settled c.ethHash) c.receipt = true
      · rwa [indexTx_skip hskip]
      · rw [indexTx_write hskip]
        refine parented_of_replaced h rfl settled_writeIndexed_self
          logRows_writeIndexed_self fun k hk => ?_
        exact ⟨settled_writeIndexed_of_ne hk, logRows_writeIndexed_of_ne hk⟩

theorem parented_run (ws : List DbWrite) : Parented (ws.foldl applyWrite .empty) := by
  induction ws using List.reverseRecOn with
  | nil => exact fun l hl => by cases hl
  | append_singleton ws w ih =>
      rw [List.foldl_append]
      exact parented_write ih w

end Parented

-- ============================================================= the queries

section Queries

variable {db : Db} {h : UInt64} {hash : B256}

/-- A list that is filtered by keys, key by key. -/
theorem perm_flatMap_filter {K R : Type} [DecidableEq K] (key : R → K) (rows : List R)
    {keys : List K} (hkeys : keys.Nodup) :
    (rows.filter fun r => key r ∈ keys).Perm
      (keys.flatMap fun k => rows.filter fun r => key r = k) := by
  induction keys with
  | nil => simp
  | cons k keys ih =>
      obtain ⟨hk, hnodup⟩ := List.nodup_cons.mp hkeys
      rw [List.flatMap_cons]
      refine List.Perm.trans ?_ ((ih hnodup).append_left _)
      have hsplit := List.filter_append_perm (fun r => key r = k)
        (rows.filter fun r => key r ∈ k :: keys)
      refine hsplit.symm.trans (List.Perm.of_eq ?_)
      rw [List.filter_filter, List.filter_filter]
      congr 1
      · refine List.filter_congr fun r _ => ?_
        by_cases hr : key r = k
        · simp [hr]
        · simp [hr]
      · refine List.filter_congr fun r _ => ?_
        by_cases hr : key r = k
        · simp [hr, hk]
        · simp [hr]

/-- `block_tx_hashes` has the transactions that are settled in the block. -/
theorem mem_blockTxHashes_iff :
    hash ∈ db.blockTxHashes h ↔ ∃ s, db.settled hash = some s ∧ s.blockHeight = h := by
  simp only [Db.blockTxHashes, List.mem_map, List.mem_insertionSort, List.mem_filter,
    decide_eq_true_eq]
  constructor
  · rintro ⟨row, ⟨hrow, hheight⟩, rfl⟩
    rw [settled_of_mem hrow]
    exact Option.map_eq_some_iff.mp hheight
  · rintro ⟨s, hs, hheight⟩
    obtain ⟨row, hrow, hsettled⟩ := Option.bind_eq_some_iff.mp hs
    refine ⟨row, ⟨Table.find?_mem hrow, ?_⟩, Table.find?_key hrow⟩
    rw [TxRow.blockHeight, hsettled, Option.map_some, hheight]

theorem blockTxHashes_nodup : (db.blockTxHashes h).Nodup := by
  have hperm := List.perm_insertionSort (fun a b : TxRow => indexLe a.txIndex b.txIndex)
    (db.txs.rows.filter fun row => row.blockHeight = some h)
  rw [Db.blockTxHashes, (hperm.map TxRow.ethHash).nodup_iff]
  exact db.txs.nodup.sublist (List.filter_sublist.map _)

theorem getReceipt_of_mem (hmem : hash ∈ db.blockTxHashes h) :
    ∃ r, db.getReceipt hash = some r ∧ r.blockHeight = h := by
  obtain ⟨s, hs, hheight⟩ := mem_blockTxHashes_iff.mp hmem
  exact ⟨_, by rw [Db.getReceipt, hs]; rfl, hheight⟩

/-- A settled transaction's receipt has its log rows. -/
theorem receiptLogs_perm (hmem : hash ∈ db.blockTxHashes h) :
    (receiptLogs db hash).Perm ((logRows db.logs hash).map LogEntry.toRow) := by
  obtain ⟨s, hs, -⟩ := mem_blockTxHashes_iff.mp hmem
  rw [receiptLogs, Db.getReceipt, hs]
  exact (List.perm_insertionSort _ _).map _

/-- The logs of a block are the logs of its transactions' receipts. -/
theorem blockLogs_perm (hdb : Parented db) (h : UInt64) :
    (db.blockLogs h).Perm ((db.blockTxHashes h).flatMap (receiptLogs db)) := by
  have hblock : (db.logs.filter fun l => l.blockHeight = h)
      = db.logs.filter fun l => l.ethHash ∈ db.blockTxHashes h := by
    refine List.filter_congr fun l hl => ?_
    obtain ⟨s, hs, hrep⟩ := parented_iff.mp hdb l.ethHash l
      (List.mem_filter.mpr ⟨hl, decide_eq_true rfl⟩)
    rw [hrep.blockHeight]
    simp [mem_blockTxHashes_iff, hs]
  have hrows : (db.blockLogs h).Perm
      ((db.logs.filter fun l => l.blockHeight = h).map LogEntry.toRow) :=
    (List.perm_insertionSort _ _).map LogEntry.toRow
  rw [hblock] at hrows
  have hnodup : (db.blockTxHashes h).Nodup := blockTxHashes_nodup
  have hgroups := (perm_flatMap_filter LogEntry.ethHash db.logs hnodup).map LogEntry.toRow
  rw [List.map_flatMap] at hgroups
  exact hrows.trans (hgroups.trans
    (List.Perm.flatMap_left _ fun hash hmem => (receiptLogs_perm hmem).symm))

/-- A row that `query_logs` finds is in its transaction's receipt. -/
theorem queryLogs_receipt (hdb : Parented db) {sqlite : Sqlite} {f : LogFilter} {limit : Nat}
    {rows : List LogEntry} (hquery : db.queryLogs sqlite f limit = .ok rows) {l : LogEntry}
    (hl : l ∈ rows) : ∃ r, db.getReceipt l.ethHash = some r
      ∧ l.toRow ∈ r.logs ∧ l.blockHeight = r.blockHeight ∧ l.blockHash = r.blockHash
      ∧ l.txIndex = r.txIndex.getD 0 := by
  have hrows : rows = db.queryRows f limit := by
    rw [Db.queryLogs] at hquery
    split at hquery
    next => cases hquery
    next => exact (Except.ok.inj hquery).symm
  rw [hrows] at hl
  have hrow := List.mem_of_mem_take hl
  rw [List.mem_insertionSort] at hrow
  have hmem : l ∈ logRows db.logs l.ethHash :=
    List.mem_filter.mpr ⟨(List.mem_filter.mp hrow).1, decide_eq_true rfl⟩
  obtain ⟨s, hs, hrep⟩ := parented_iff.mp hdb _ l hmem
  refine ⟨_, by rw [Db.getReceipt, hs]; rfl, List.mem_map_of_mem ?_, hrep.blockHeight,
    hrep.blockHash, hrep.txIndex⟩
  exact (List.mem_insertionSort _).mpr hmem

end Queries

-- ================================================================= the run

/-- Whatever is written to the store, in whatever order: its views are
consistent. -/
theorem reachable_consistent (ws : List DbWrite) : Consistent (ws.foldl applyWrite .empty) where
  parented := parented_run ws
  pending := by
    intro row hrow hnone l hl heq
    obtain ⟨row', hrow', hhash, s, hs, -⟩ := parented_run ws l hl
    have hsame := Table.eq_of_key hrow hrow' (heq.symm.trans hhash.symm)
    rw [← hsame, hnone] at hs
    cases hs
  distinct := fun _ => blockTxHashes_nodup
  receipts := fun _ _ hmem => getReceipt_of_mem hmem
  blockLogs := blockLogs_perm (parented_run ws)
  queried := fun _ _ _ _ hquery _ hl => queryLogs_receipt (parented_run ws) hquery hl

end KoinosEvm.Proofs
