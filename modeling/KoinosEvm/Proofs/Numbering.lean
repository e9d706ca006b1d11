/-
The numbering of a block's transactions and logs.

A transaction that the indexer writes gets the block's count as its index,
its logs get the block's log count and on; the counters are in another
table, and rows may have been written provisionally before. Where every
transaction is always reported at one height with the same logs, the order
in which the indexer first wrote the transactions of a height explains all
of it: rows, logs and counters are those of the transactions in front
(`Ordered`). A write of any kind keeps that (`Ordered.write`), so the
numbers of every block are exact after every run (`run_numbered`).
-/
import KoinosEvm.Proofs.Placement

namespace KoinosEvm.Proofs

open Lib Proxy

-- ================================================================== runs

section Runs

variable (height : B256 → UInt64) (logs : B256 → List LogRow)

/-- The write reports its transaction at its height, with its logs. -/
def Reported : DbWrite → Prop
  | .index c =>
      c.receipt.blockHeight = height c.ethHash ∧ c.receipt.logs = logs c.ethHash
  | .settle ethHash r => r.blockHeight = height ethHash ∧ r.logs = logs ethHash
  | .upsert .. | .bump .. => True

/-- `set_receipt` meets no row of the indexer. -/
def Provisional (db : Db) : DbWrite → Prop
  | .settle ethHash _ => ∀ s, db.settled ethHash = some s → s.txIndex = none
  | .index .. | .upsert .. | .bump .. => True

/-- The runs that report every transaction at one height with the same logs,
with the store they end in. -/
inductive Run : List DbWrite → Db → Prop
  | start : Run [] .empty
  | write {ws db} (w : DbWrite) : Run ws db → Reported height logs w → Provisional db w →
      Run (ws ++ [w]) (applyWrite db w)

end Runs

/-- The transaction of an `index_tx`. -/
def indexed? : DbWrite → Option B256
  | .index c => some c.ethHash
  | .upsert .. | .bump .. | .settle .. => none

/-- The transactions of a run in the order the indexer first saw them. -/
def firstIndexed (ws : List DbWrite) : List B256 := (ws.filterMap indexed?).eraseDups

/-- .. those of one height. -/
def atHeight (height : B256 → UInt64) (order : List B256) (h : UInt64) : List B256 :=
  order.filter fun hash => height hash = h

/-- The rows that the indexer has written at a height. -/
def indexedRows (db : Db) (h : UInt64) : List TxRow :=
  db.txs.rows.filter fun row => row.txIndex.isSome && row.blockHeight = some h

/-- What a log row says, apart from its index and its block's hash. -/
structure LogSays where
  blockHeight : UInt64
  txIndex : Nat
  address : Bytes
  topics : List Bytes
  data : Bytes

/-- What a row says. -/
def sayOf (l : LogEntry) : LogSays := ⟨l.blockHeight, l.txIndex, l.address, l.topics, l.data⟩

/-- The numbers of height `h` are those of `order`. -/
structure Numbered (db : Db) (logs : B256 → List LogRow) (h : UInt64)
    (order : List B256) : Prop where
  /-- One indexed row for each transaction .. -/
  count : (indexedRows db h).length = order.length
  /-- .. and its `tx_index` is its position. -/
  txIndex : ∀ hash i, (∃ s, db.settled hash = some s ∧ s.blockHeight = h ∧ s.txIndex = some i)
    ↔ order[i]? = some hash
  txCount : (counters db.blocks h).1 = order.length
  /-- In the order of the transactions, the log indexes count up. -/
  logIndex : (order.flatMap db.logsOf).map LogEntry.logIndex
    = List.range (counters db.blocks h).2
  /-- A transaction's log rows are its logs, in order. -/
  logRows : ∀ i hash, order[i]? = some hash → (db.logsOf hash).map sayOf
    = (logs hash).map fun l => ⟨h, i, l.address, l.topics.take 4, l.data⟩
  /-- `block_tx_hashes` starts with the indexed transactions. -/
  txHashes : order <+: db.blockTxHashes h

-- ========================================================== the invariant

section Order

variable {height : B256 → UInt64} {logs : B256 → List LogRow} {order : List B256}
  {db : Db} {ws : List DbWrite}

/-- How many logs the transactions have. -/
def logTotal (logs : B256 → List LogRow) (order : List B256) : Nat :=
  (order.map fun hash => (logs hash).length).sum

/-- The row and the log rows of a transaction, the `i`th of height `h`. -/
def PlacedAt (db : Db) (logs : B256 → List LogRow) (h : UInt64) (hash : B256)
    (i base : Nat) : Prop :=
  ∃ r : ReceiptRow, r.blockHeight = h ∧ r.logs = logs hash
    ∧ db.settled hash = some (settledAs r (some i))
    ∧ logRows db.logs hash = newLogs hash r i base

/-- The store's numbers follow from the order of the indexed transactions. -/
structure Ordered (height : B256 → UInt64) (logs : B256 → List LogRow) (db : Db)
    (order : List B256) : Prop where
  fresh : ∀ hash, hash ∉ order → placement (db.settled hash) = none
  placed : ∀ h i hash, (atHeight height order h)[i]? = some hash →
    PlacedAt db logs h hash i (logTotal logs ((atHeight height order h).take i))
  counts : ∀ h, counters db.blocks h
    = ((atHeight height order h).length, logTotal logs (atHeight height order h))

theorem atHeight_concat (hash : B256) (h : UInt64) :
    atHeight height (order ++ [hash]) h
      = atHeight height order h ++ if height hash = h then [hash] else [] := by
  unfold atHeight
  rw [List.filter_append, List.filter_singleton]
  simp

theorem logTotal_concat (l : List B256) (hash : B256) :
    logTotal logs (l ++ [hash]) = logTotal logs l + (logs hash).length := by
  simp [logTotal]

theorem mem_of_atHeight {h : UInt64} {i : Nat} {hash : B256}
    (hi : (atHeight height order h)[i]? = some hash) : hash ∈ order ∧ height hash = h := by
  have hmem := List.mem_of_getElem? hi
  simpa [atHeight] using hmem

/-- A transaction of the order has a position at its height. -/
theorem exists_position {hash : B256} (h : hash ∈ order) :
    ∃ i : Nat, (atHeight height order (height hash))[i]? = some hash := by
  have hmem : hash ∈ atHeight height order (height hash) := by simpa [atHeight] using h
  obtain ⟨i, hi, heq⟩ := List.getElem_of_mem hmem
  exact ⟨i, by rw [List.getElem?_eq_getElem hi, heq]⟩

/-- What a write must leave alone to leave the numbers alone. -/
theorem Ordered.frame {db' : Db} (h : Ordered height logs db order)
    (hfresh : ∀ hash, hash ∉ order → placement (db'.settled hash) = none)
    (hsettled : ∀ hash ∈ order, db'.settled hash = db.settled hash)
    (hlogs : ∀ hash ∈ order, logRows db'.logs hash = logRows db.logs hash)
    (hblocks : db'.blocks = db.blocks) : Ordered height logs db' order where
  fresh := hfresh
  placed := by
    intro height' i hash hi
    obtain ⟨r, hr, hrlogs, hs, hrows⟩ := h.placed height' i hash hi
    have hmem := (mem_of_atHeight hi).1
    exact ⟨r, hr, hrlogs, (hsettled hash hmem).trans hs, (hlogs hash hmem).trans hrows⟩
  counts := by
    intro height'
    rw [hblocks]
    exact h.counts height'

/-- The indexer's rows are in the order. -/
theorem Ordered.mem_of_settled (h : Ordered height logs db order) {hash : B256} {s : Settled}
    (hs : db.settled hash = some s) (hindex : s.txIndex ≠ none) : hash ∈ order := by
  by_contra hmem
  exact hindex (placement_eq_none.mp (h.fresh hash hmem) s hs)

/-- A transaction of the order is not written again: it is at its height. -/
theorem Ordered.skipped (h : Ordered height logs db order) {c : IndexCall}
    (hmem : c.ethHash ∈ order) (hheight : c.receipt.blockHeight = height c.ethHash) :
    skips (db.settled c.ethHash) c.receipt = true := by
  obtain ⟨i, hi⟩ := exists_position hmem
  obtain ⟨r, hr, -, hs, -⟩ := h.placed _ _ _ hi
  exact skips_iff.mpr ⟨_, hs, rfl, .inl (hr.trans hheight.symm)⟩

/-- A new transaction comes behind the others of its height. -/
theorem Ordered.index (h : Ordered height logs db order) {c : IndexCall}
    (hnew : c.ethHash ∉ order) (hheight : c.receipt.blockHeight = height c.ethHash)
    (hlogs : c.receipt.logs = logs c.ethHash) :
    Ordered height logs (db.writeIndexed c.ethHash c.txMeta c.receipt c.timestamp)
      (order ++ [c.ethHash]) where
  fresh := by
    intro hash hmem
    have hne : hash ≠ c.ethHash := fun heq => hmem (by simp [heq])
    rw [settled_writeIndexed_of_ne hne]
    exact h.fresh hash fun hmem' => hmem (List.mem_append_left _ hmem')
  placed := by
    intro height' i hash hi
    have hcount := h.counts c.receipt.blockHeight
    rw [atHeight_concat] at hi ⊢
    by_cases hlt : i < (atHeight height order height').length
    · -- the transactions in front keep their rows
      rw [List.getElem?_append_left hlt] at hi
      rw [List.take_append_of_le_length hlt.le]
      obtain ⟨r, hr, hrlogs, hs, hrows⟩ := h.placed height' i hash hi
      have hne : hash ≠ c.ethHash := fun heq => hnew (heq ▸ (mem_of_atHeight hi).1)
      exact ⟨r, hr, hrlogs, (settled_writeIndexed_of_ne hne).trans hs,
        (logRows_writeIndexed_of_ne hne).trans hrows⟩
    · rw [List.getElem?_append_right (Nat.le_of_not_lt hlt)] at hi
      by_cases hat : height c.ethHash = height'
      · rw [if_pos hat, List.getElem?_singleton] at hi
        split at hi
        next hzero =>
          cases hi
          obtain rfl : i = (atHeight height order height').length := by omega
          rw [← hheight] at hat
          subst hat
          refine ⟨c.receipt, rfl, hlogs, ?_, ?_⟩
          · rw [settled_writeIndexed_self, hcount]
          · rw [logRows_writeIndexed_self, hcount, List.take_left]
        · cases hi
      · rw [if_neg hat] at hi
        cases hi
  counts := by
    intro height'
    rw [atHeight_concat]
    by_cases hat : height' = c.receipt.blockHeight
    · subst hat
      rw [if_pos hheight.symm, counters_writeIndexed_self, h.counts, List.length_append,
        logTotal_concat, hlogs]
      rfl
    · have hat' : height c.ethHash ≠ height' := fun heq => hat (heq ▸ hheight).symm
      rw [if_neg hat', counters_writeIndexed_of_ne hat, List.append_nil, h.counts]

/-- A second occurrence is dropped. -/
theorem eraseDups_concat (xs : List B256) (x : B256) :
    (xs ++ [x]).eraseDups = if x ∈ xs then xs.eraseDups else xs.eraseDups ++ [x] := by
  rw [List.eraseDups_append]
  by_cases h : x ∈ xs
  · simp [List.removeAll, h]
  · have hnew : [x].removeAll xs = [x] := by simp [List.removeAll, h]
    rw [hnew, if_neg h]
    rfl

/-- The order after a write of the indexer. -/
theorem firstIndexed_index (c : IndexCall) :
    firstIndexed (ws ++ [.index c])
      = if c.ethHash ∈ firstIndexed ws then firstIndexed ws
        else firstIndexed ws ++ [c.ethHash] := by
  have hone : [DbWrite.index c].filterMap indexed? = [c.ethHash] := rfl
  unfold firstIndexed
  rw [List.filterMap_append, hone, eraseDups_concat]
  simp only [List.mem_eraseDups]

theorem firstIndexed_other {w : DbWrite} (h : indexed? w = none) :
    firstIndexed (ws ++ [w]) = firstIndexed ws := by
  unfold firstIndexed
  simp [h]

/-- A write keeps the numbers in the order of first indexing. -/
theorem Ordered.write {w : DbWrite} (h : Ordered height logs db (firstIndexed ws))
    (hreported : Reported height logs w) (hprovisional : Provisional db w) :
    Ordered height logs (applyWrite db w) (firstIndexed (ws ++ [w])) := by
  cases w with
  | index c =>
      obtain ⟨hheight, hlogs⟩ := hreported
      rw [firstIndexed_index]
      by_cases hmem : c.ethHash ∈ firstIndexed ws
      · rw [if_pos hmem, applyWrite, indexOne_of_skips (h.skipped hmem hheight)]
        exact h
      · have hskip : ¬ skips (db.settled c.ethHash) c.receipt = true := by
          rw [skips_iff_skippedAt, h.fresh _ hmem]
          simp [SkippedAt]
        rw [if_neg hmem, applyWrite, indexOne_of_not_skips hskip]
        exact h.index hmem hheight hlogs
  | upsert ethHash txMeta =>
      rw [firstIndexed_other rfl]
      refine h.frame (fun hash hmem => ?_) (fun hash _ => settled_upsertTx) (fun _ _ => rfl) rfl
      rw [applyWrite, settled_upsertTx]
      exact h.fresh hash hmem
  | bump ethHash =>
      rw [firstIndexed_other rfl]
      refine h.frame (fun hash hmem => ?_) (fun hash _ => settled_bump) (fun _ _ => rfl) rfl
      rw [applyWrite, settled_bump]
      exact h.fresh hash hmem
  | settle ethHash r =>
      -- the row was provisional, so it is not in the order
      have hnotMem (hash : B256) (hmem : hash ∈ firstIndexed ws) : hash ≠ ethHash := by
        rintro rfl
        obtain ⟨i, hi⟩ : ∃ i : Nat, (atHeight height (firstIndexed ws) (height hash))[i]?
            = some hash := exists_position hmem
        obtain ⟨r', -, -, hs, -⟩ := h.placed _ _ _ hi
        cases hprovisional _ hs
      rw [firstIndexed_other rfl]
      refine h.frame (fun hash hmem => ?_)
        (fun hash hmem => settled_settle_of_ne (hnotMem hash hmem))
        (fun hash hmem => logRows_settle_of_ne (hnotMem hash hmem)) blocks_settle
      by_cases heq : hash = ethHash
      · rw [heq, placement_eq_none]
        exact txIndex_settle fun x hx => placement_eq_none.mp (h.fresh _ (heq ▸ hmem)) x hx
      · rw [applyWrite, settled_settle_of_ne heq]
        exact h.fresh hash hmem

/-- Along a run, the numbers are in the order of first indexing. -/
theorem run_ordered (h : Run height logs ws db) :
    Ordered height logs db (firstIndexed ws) := by
  induction h with
  | start =>
      refine ⟨fun _ _ => rfl, fun _ i _ hi => ?_, fun _ => rfl⟩
      simp [firstIndexed, atHeight] at hi
  | write w _ hreported hprovisional ih => exact ih.write hreported hprovisional

-- ====================================================== the exact numbers

variable {h : UInt64}

/-- The row of the transaction at a position. -/
theorem Ordered.settled (hord : Ordered height logs db order) (hash : B256) (i : Nat) :
    (∃ s, db.settled hash = some s ∧ s.blockHeight = h ∧ s.txIndex = some i)
      ↔ (atHeight height order h)[i]? = some hash := by
  constructor
  · rintro ⟨s, hs, rfl, hindex⟩
    have hmem := hord.mem_of_settled hs (by simp [hindex])
    obtain ⟨j, hj⟩ : ∃ j : Nat, (atHeight height order (height hash))[j]? = some hash :=
      exists_position hmem
    obtain ⟨r, hr, -, hs', -⟩ := hord.placed _ _ _ hj
    rw [hs] at hs'
    cases hs'
    cases hindex
    show (atHeight height order r.blockHeight)[i]? = some hash
    rw [hr]
    exact hj
  · intro hi
    obtain ⟨r, hr, -, hs, -⟩ := hord.placed _ _ _ hi
    exact ⟨_, hs, hr, rfl⟩

/-- The log rows of the transaction at a position. -/
theorem Ordered.logsOf (hord : Ordered height logs db order) {hash : B256} {i : Nat}
    (hi : (atHeight height order h)[i]? = some hash) :
    ∃ r : ReceiptRow, r.blockHeight = h ∧ r.logs = logs hash
      ∧ db.logsOf hash = newLogs hash r i (logTotal logs ((atHeight height order h).take i)) := by
  obtain ⟨r, hr, hlogs, -, hrows⟩ := hord.placed _ _ _ hi
  exact ⟨r, hr, hlogs, logsOf_eq db hrows⟩

theorem newLogs_sayOf {hash : B256} {r : ReceiptRow} {txIndex base : Nat} :
    (newLogs hash r txIndex base).map sayOf
      = r.logs.map fun l => ⟨r.blockHeight, txIndex, l.address, l.topics.take 4, l.data⟩ := by
  refine List.ext_getElem (by simp [newLogs]) fun i hi hi' => ?_
  simp [newLogs, logEntry, sayOf]

/-- The logs of the first transactions of a height are numbered without a
gap. -/
theorem Ordered.logIndex_take (hord : Ordered height logs db order) (n : Nat) :
    (((atHeight height order h).take n).flatMap db.logsOf).map LogEntry.logIndex
      = List.range (logTotal logs ((atHeight height order h).take n)) := by
  induction n with
  | zero => rfl
  | succ n ih =>
      rw [List.take_add_one]
      cases hn : (atHeight height order h)[n]? with
      | none => simpa using ih
      | some hash =>
          obtain ⟨r, -, hlogs, hrows⟩ := hord.logsOf hn
          rw [Option.toList_some, List.flatMap_append, List.map_append, ih, logTotal_concat,
            List.range_add, List.flatMap_singleton, hrows, newLogs_logIndex, hlogs]

-- ------------------------------------------------------ block_tx_hashes

/-- Of a list sorted so that `p` comes first, the elements with `p` are a
prefix. -/
theorem filter_initial_of_pairwise {α : Type} {p : α → Bool} {l : List α}
    (hl : l.Pairwise fun a b => p b = true → p a = true) : l.filter p <+: l := by
  induction l with
  | nil => exact List.prefix_rfl
  | cons a l ih =>
      obtain ⟨ha, hl⟩ := List.pairwise_cons.mp hl
      by_cases hp : p a = true
      · rw [List.filter_cons_of_pos hp]
        exact List.cons_prefix_cons.mpr ⟨rfl, ih hl⟩
      · have hnil : l.filter p = [] :=
          List.filter_eq_nil_iff.mpr fun b hb hpb => hp (ha b hb hpb)
        rw [List.filter_cons_of_neg hp, hnil]
        exact List.nil_prefix

instance : Std.Total fun a b : TxRow => indexLe a.txIndex b.txIndex where
  total a b := by
    cases a.txIndex <;> cases b.txIndex <;> simp [indexLe, Nat.le_total]

instance : IsTrans TxRow fun a b => indexLe a.txIndex b.txIndex where
  trans a b c := by
    cases a.txIndex <;> cases b.txIndex <;> cases c.txIndex <;> simp [indexLe]
    exact Nat.le_trans

/-- The rows of a block as `block_tx_hashes` sorts them. -/
def sortedRows (db : Db) (h : UInt64) : List TxRow :=
  (db.txs.rows.filter fun row => row.blockHeight = some h).insertionSort
    fun a b => indexLe a.txIndex b.txIndex

/-- .. of which the indexed ones come first. -/
theorem indexed_initial (db : Db) (h : UInt64) :
    (sortedRows db h).filter (·.txIndex.isSome) <+: sortedRows db h := by
  refine filter_initial_of_pairwise ?_
  refine (List.pairwise_insertionSort _ _).imp ?_
  intro a b hab hb
  obtain ⟨j, hj⟩ := Option.isSome_iff_exists.mp hb
  cases ha : a.txIndex with
  | some i => rfl
  | none =>
      rw [ha, hj] at hab
      exact hab.elim

/-- .. and they are the indexed rows of the block. -/
theorem indexed_perm (db : Db) (h : UInt64) :
    ((sortedRows db h).filter (·.txIndex.isSome)).Perm (indexedRows db h) := by
  have hperm := (List.perm_insertionSort (fun a b : TxRow => indexLe a.txIndex b.txIndex)
    (db.txs.rows.filter fun row => row.blockHeight = some h)).filter (·.txIndex.isSome)
  rwa [List.filter_filter] at hperm

/-- The index of an indexed row. -/
def rowIndex (row : TxRow) : Nat := row.txIndex.getD 0

theorem mem_indexedRows {row : TxRow} :
    row ∈ indexedRows db h ↔ row ∈ db.txs.rows ∧ ∃ s, row.settled = some s
      ∧ s.blockHeight = h ∧ s.txIndex = some (rowIndex row) := by
  rw [indexedRows, List.mem_filter]
  refine and_congr_right fun _ => ?_
  unfold TxRow.blockHeight rowIndex TxRow.txIndex
  cases row.settled with
  | none => simp
  | some s =>
      cases hs : s.txIndex with
      | none => simp [hs]
      | some i => simp [hs]

/-- An indexed row is at its index. -/
theorem Ordered.position (hord : Ordered height logs db order) {row : TxRow}
    (hrow : row ∈ indexedRows db h) :
    (atHeight height order h)[rowIndex row]? = some row.ethHash := by
  obtain ⟨hmem, s, hs, hheight, hindex⟩ := mem_indexedRows.mp hrow
  exact (hord.settled _ _).mp ⟨s, (settled_of_mem hmem).trans hs, hheight, hindex⟩

/-- The indexes of a block's rows, in some order. -/
theorem Ordered.indexes_perm (hord : Ordered height logs db order) :
    ((indexedRows db h).map rowIndex).Perm (List.range (atHeight height order h).length) := by
  have hnodup : (indexedRows db h).Nodup := (db.txs.nodup.of_map _).filter _
  have hinj : ((indexedRows db h).map rowIndex).Nodup := by
    refine List.Nodup.map_on (fun a ha b hb hab => ?_) hnodup
    have hhash := (hord.position ha).symm.trans (hab ▸ hord.position hb)
    exact Table.eq_of_key (mem_indexedRows.mp ha).1 (mem_indexedRows.mp hb).1
      (Option.some.inj hhash)
  rw [List.perm_ext_iff_of_nodup hinj List.nodup_range]
  intro i
  rw [List.mem_map, List.mem_range]
  constructor
  · rintro ⟨row, hrow, rfl⟩
    exact (List.getElem?_eq_some_iff.mp (hord.position hrow)).1
  · intro hi
    obtain ⟨s, hs, hheight, hindex⟩ := (hord.settled (h := h) _ i).mpr (List.getElem?_eq_getElem hi)
    obtain ⟨row, hfound, hrow⟩ := Option.bind_eq_some_iff.mp hs
    have hi' : rowIndex row = i := by simp [rowIndex, TxRow.txIndex, hrow, hindex]
    refine ⟨row, mem_indexedRows.mpr ⟨Table.find?_mem hfound, s, hrow, hheight, ?_⟩, hi'⟩
    rw [hi', hindex]

/-- The indexed rows of a block, sorted, are its transactions in order. -/
theorem Ordered.sorted_hashes (hord : Ordered height logs db order) :
    ((sortedRows db h).filter (·.txIndex.isSome)).map TxRow.ethHash
      = atHeight height order h := by
  have hperm := indexed_perm db h
  have hsorted : (((sortedRows db h).filter (·.txIndex.isSome)).map rowIndex).Pairwise (· ≤ ·) := by
    rw [List.pairwise_map]
    refine ((List.pairwise_insertionSort _ _).filter _).imp_of_mem ?_
    intro a b ha hb hab
    obtain ⟨i, hi⟩ := Option.isSome_iff_exists.mp (List.mem_filter.mp ha).2
    obtain ⟨j, hj⟩ := Option.isSome_iff_exists.mp (List.mem_filter.mp hb).2
    rw [hi, hj] at hab
    have hle : i ≤ j := hab
    simpa [rowIndex, hi, hj] using hle
  -- sorted, and a permutation of the positions: the positions
  have hrange : ((sortedRows db h).filter (·.txIndex.isSome)).map rowIndex
      = List.range (atHeight height order h).length :=
    ((hperm.map rowIndex).trans hord.indexes_perm).eq_of_pairwise
      (fun _ _ _ _ => Nat.le_antisymm) hsorted List.pairwise_le_range
  have hlength := congrArg List.length hrange
  rw [List.length_map, List.length_range] at hlength
  refine List.ext_getElem (by rw [List.length_map, hlength]) fun i hi hi' => ?_
  have hlt : i < ((sortedRows db h).filter (·.txIndex.isSome)).length := hlength ▸ hi'
  have hrow := hperm.mem_iff.mp (List.getElem_mem hlt)
  have hindex : rowIndex ((sortedRows db h).filter (·.txIndex.isSome))[i] = i := by
    have hget := List.getElem_of_eq hrange (by rwa [List.length_map])
    rwa [List.getElem_map, List.getElem_range] at hget
  have hpos := hord.position hrow
  rw [hindex, List.getElem?_eq_getElem hi'] at hpos
  rw [List.getElem_map]
  exact (Option.some.inj hpos).symm

/-- The numbers follow from the order. -/
theorem Ordered.numbered (hord : Ordered height logs db order) (h : UInt64) :
    Numbered db logs h (atHeight height order h) where
  count := by
    have hlength := (hord.indexes_perm (h := h)).length_eq
    rwa [List.length_map, List.length_range] at hlength
  txIndex := hord.settled
  txCount := by rw [hord.counts]
  logIndex := by
    have htake := hord.logIndex_take (h := h) (atHeight height order h).length
    rw [List.take_length] at htake
    rw [htake, hord.counts]
  logRows := by
    intro i hash hi
    obtain ⟨r, hr, hlogs, hrows⟩ := hord.logsOf hi
    rw [hrows, newLogs_sayOf, hr, hlogs]
  txHashes := by
    rw [← hord.sorted_hashes]
    exact (indexed_initial db h).map TxRow.ethHash

end Order

/-- After every run that reports each transaction at one height with the
same logs, the numbers of every height are exact, in the order in which the
indexer first wrote its transactions. -/
theorem run_numbered (height : B256 → UInt64) (logs : B256 → List LogRow)
    (ws : List DbWrite) (db : Db) (hrun : Run height logs ws db) (h : UInt64) :
    Numbered db logs h (atHeight height (firstIndexed ws) h) :=
  (run_ordered hrun).numbered h

/-- The one log of both transactions of the sample. -/
def numberedLog : LogRow := ⟨0, [1], [], [2]⟩

/-- Their receipt. -/
def loggedReceipt : ReceiptRow := { sampleReceipt 5 [0xaa] true with logs := [numberedLog] }

/-- One transaction is settled provisionally, then both are indexed. -/
def sampleWrites : List DbWrite :=
  [.upsert (.zero 32) sampleMeta, .settle (.zero 32) loggedReceipt,
   .index ⟨⟨List.replicate 32 1, rfl⟩, sampleMeta, loggedReceipt, 0⟩,
   .index ⟨.zero 32, sampleMeta, loggedReceipt, 0⟩]

theorem sampleRun :
    Run (fun _ => 5) (fun _ => [numberedLog]) sampleWrites
      (sampleWrites.foldl applyWrite .empty) := by
  have h0 : Run (fun _ => 5) (fun _ => [numberedLog]) [] .empty := .start
  have h1 := h0.write (.upsert (.zero 32) sampleMeta) trivial trivial
  have h2 := h1.write (.settle (.zero 32) loggedReceipt) ⟨rfl, rfl⟩ fun _ hs => by cases hs
  have h3 := h2.write
    (.index ⟨⟨List.replicate 32 1, rfl⟩, sampleMeta, loggedReceipt, 0⟩) ⟨rfl, rfl⟩ trivial
  exact h3.write (.index ⟨.zero 32, sampleMeta, loggedReceipt, 0⟩) ⟨rfl, rfl⟩ trivial

/-- The provisional transaction comes second. -/
theorem sampleRun_numbered :
    Numbered (sampleWrites.foldl applyWrite .empty) (fun _ => [numberedLog]) 5
      [⟨List.replicate 32 1, rfl⟩, .zero 32] :=
  run_numbered (fun _ => 5) (fun _ => [numberedLog]) sampleWrites _ sampleRun 5

end KoinosEvm.Proofs
