/-
The push filter and the query filter.

A subscriber's filter looks at a list of topics, the query's at four columns
that may be NULL. What was stored fills the columns from the front, so the list
that a reader rebuilds has each topic at its own position, and the two ask the
same of a row. The query asks for two things more: a height that the column
holds as it is, and no more values than SQLite takes (`push_query_agree_iff`).
-/
import KoinosEvm.Proofs.Hex
import KoinosEvm.Proofs.LogTable

namespace KoinosEvm.Proofs

open Lib Proxy

-- ============================================================ the property

/-- The filter of every height. -/
def everyHeight (addresses : List Bytes) (topics : Fin 4 → List Bytes) : LogFilter :=
  ⟨0, 0xffffffffffffffff, none, addresses, topics⟩

/-- A row is pushed to the subscriber of these addresses and topics exactly if
the query for them over all heights returns it. -/
def PushQueryAgree [HexCrate] (sqlite : Sqlite) (table : LogTable) (r : LogRecord)
    (addresses : List Bytes) (topics : Fin 4 → List Bytes) : Prop :=
  ∀ limit, LeavesAll limit table.length →
    (logMatches addresses topics (wsLog r.read) = true
      ↔ ∃ rows, table.queryLogs sqlite (everyHeight addresses topics) limit = .ok rows
        ∧ r.read ∈ rows)

/-- A log has one of the addresses, and at each position one of its topics. -/
def Asked (addresses : List Bytes) (topics : Fin 4 → List Bytes) (log : LogRow) : Prop :=
  (addresses = [] ∨ log.address ∈ addresses)
    ∧ ∀ i : Fin 4, topics i = [] ∨ ∃ t ∈ topics i, log.topics[i.val]? = some t

-- =============================================================== the filters

section Filters

variable {addresses : List Bytes} {topics : Fin 4 → List Bytes}

/-- What a subscriber's filter asks of a log. -/
theorem logMatches_iff {log : WsLog} : logMatches addresses topics log = true
    ↔ (addresses = [] ∨ log.address ∈ addresses)
      ∧ ∀ i : Fin 4, topics i = [] ∨ ∃ t ∈ topics i, log.topics[i.val]? = some t := by
  have haddress : (!addresses.isEmpty && !addresses.any fun a => a == log.address) = true
      ↔ ¬ (addresses = [] ∨ log.address ∈ addresses) := by
    rw [List.any_beq', Bool.and_eq_true, Bool.not_eq_true', Bool.not_eq_true', not_or,
      ← List.contains_iff_mem, Bool.not_eq_true, ← List.isEmpty_iff, Bool.not_eq_true]
  rw [logMatches]
  split
  next hno => exact iff_of_false Bool.false_ne_true fun h => haddress.mp hno h.1
  next hyes =>
    rw [haddress, not_not] at hyes
    rw [and_iff_right hyes, List.all_eq_true]
    simp only [List.mem_finRange, forall_const]
    refine forall_congr' fun i => ?_
    split
    next hempty => exact iff_of_true rfl (Or.inl (List.isEmpty_iff.mp hempty))
    next hsome =>
      rw [or_iff_right (mt List.isEmpty_iff.mpr hsome)]
      split
      next t ht =>
        rw [List.any_beq', List.contains_iff_mem]
        constructor
        · exact fun hmem => ⟨t, hmem, ht⟩
        · rintro ⟨t', hmem, ht'⟩
          rwa [Option.some_inj.mp (ht.symm.trans ht')]
      next hnone =>
        refine iff_of_false Bool.false_ne_true ?_
        rintro ⟨t, -, ht⟩
        cases hnone.symm.trans ht

end Filters

-- ================================================================= the row

section Row

variable {table : LogTable} {hash : B256} {receipt : ReceiptRow} {txIndex base i : Nat}
  {log : LogRow} {addresses : List Bytes} {topics : Fin 4 → List Bytes}

/-- The row that a reader has of a log. -/
theorem read_logRecord : (logRecord hash receipt txIndex base i log).read
    = logEntry hash receipt txIndex base i log := by
  have hentry : (logEntry hash receipt txIndex base i log).topics.length ≤ 4 := by
    show (log.topics.take 4).length ≤ 4
    rw [List.length_take]
    exact Nat.min_le_left _ _
  rw [← toRecord_logEntry, read_toRecord hentry]

/-- No other row of the table reads the same. -/
theorem eq_of_read {r : LogRecord} (hlog : receipt.logs[i]? = some log)
    (hmem : r ∈ table.replaceLogs hash receipt txIndex base)
    (hread : r.read = (logRecord hash receipt txIndex base i log).read) :
    r = logRecord hash receipt txIndex base i log := by
  have hhash : r.ethHash = hash := congrArg LogEntry.ethHash hread
  have hindex : r.logIndex = base + i := congrArg LogEntry.logIndex hread
  rcases List.mem_append.mp hmem with hold | hnew
  · exact absurd hhash (of_decide_eq_true (List.mem_filter.mp hold).2)
  · obtain ⟨j, hj, rfl⟩ := List.mem_mapIdx.mp hnew
    have hij : j = i := Nat.add_left_cancel hindex
    subst hij
    rw [List.getElem?_eq_getElem hj, Option.some_inj] at hlog
    rw [hlog]

theorem mem_replaceLogs (hlog : receipt.logs[i]? = some log) :
    logRecord hash receipt txIndex base i log ∈ table.replaceLogs hash receipt txIndex base := by
  obtain ⟨hi, heq⟩ := List.getElem?_eq_some_iff.mp hlog
  exact List.mem_append_right _ (List.mem_mapIdx.mpr ⟨i, hi, by rw [heq]⟩)

/-- The query returns the row exactly if SQLite takes it and it asks for the
row. -/
theorem read_mem_queryLogs {sqlite : Sqlite} {f : LogFilter} {limit : UInt64}
    (hlog : receipt.logs[i]? = some log)
    (hlimit : LeavesAll limit (table.replaceLogs hash receipt txIndex base).length) :
    (∃ rows, (table.replaceLogs hash receipt txIndex base).queryLogs sqlite f limit = .ok rows
        ∧ (logRecord hash receipt txIndex base i log).read ∈ rows)
      ↔ f.variables ≤ sqlite.maxVariables
        ∧ Selected f (logRecord hash receipt txIndex base i log) := by
  have hlength : (((table.replaceLogs hash receipt txIndex base).filter
      fun r => decide (Selected f r)).insertionSort recordLe).length
      ≤ (table.replaceLogs hash receipt txIndex base).length := by
    rw [List.length_insertionSort]
    exact List.length_filter_le _ _
  rw [queryLogs_eq]
  by_cases hmany : sqlite.maxVariables < f.variables
  · rw [if_pos hmany]
    refine iff_of_false ?_ fun h => Nat.not_lt_of_le h.1 hmany
    rintro ⟨rows, hrows, -⟩
    cases hrows
  rw [if_neg hmany, limitRows_of_leavesAll (by rw [List.length_map]; exact hlimit.mono hlength),
    and_iff_right (Nat.le_of_not_lt hmany)]
  constructor
  · rintro ⟨rows, hrows, hread⟩
    rw [← Except.ok.inj hrows] at hread
    obtain ⟨r, hr, hread⟩ := List.mem_map.mp hread
    have hmem := List.mem_filter.mp ((List.mem_insertionSort recordLe).mp hr)
    rw [← eq_of_read hlog hmem.1 hread]
    exact of_decide_eq_true hmem.2
  · intro hselected
    refine ⟨_, rfl, List.mem_map_of_mem ?_⟩
    refine (List.mem_insertionSort recordLe).mpr (List.mem_filter.mpr ?_)
    exact ⟨mem_replaceLogs hlog, decide_eq_true hselected⟩

/-- The heights that the column holds as they are, are all in the range. -/
theorem placed_everyHeight :
    Placed (everyHeight addresses topics) (logRecord hash receipt txIndex base i log)
      ↔ receipt.blockHeight.toNat < 2 ^ 63 := by
  show clampHeight 0 ≤ receipt.blockHeight.toInt64
    ∧ receipt.blockHeight.toInt64 ≤ clampHeight 0xffffffffffffffff ↔ _
  have hmax : i64Max.toNat = 2 ^ 63 - 1 := rfl
  have htop : (0xffffffffffffffff : UInt64).toNat = 2 ^ 64 - 1 := rfl
  rw [Int64.le_iff_toInt_le, Int64.le_iff_toInt_le, toInt_clampHeight, toInt_clampHeight]
  rcases Nat.lt_or_ge receipt.blockHeight.toNat (2 ^ 63) with hlt | hge
  · rw [toInt_toInt64 hlt, UInt64.toNat_zero]
    omega
  · have hneg := toInt_toInt64_neg hge
    rw [UInt64.toNat_zero]
    omega

/-- What a subscriber asks of a row. -/
theorem logMatches_read [HexCrate] :
    logMatches addresses topics
        (wsLog (logRecord hash receipt txIndex base i log).read) = true
      ↔ Asked addresses topics log := by
  have htopic : ∀ j : Fin 4, (log.topics.take 4)[j.val]? = log.topics[j.val]? :=
    fun j => List.getElem?_take_of_lt j.isLt
  rw [logMatches_iff, read_logRecord]
  simp only [wsLog, logEntry, htopic]
  rfl

/-- The query asks the same, and for the height. -/
theorem selected_everyHeight :
    Selected (everyHeight addresses topics) (logRecord hash receipt txIndex base i log)
      ↔ receipt.blockHeight.toNat < 2 ^ 63 ∧ Asked addresses topics log :=
  and_congr_left fun _ => placed_everyHeight

end Row

/-- For every filter a row of `replace_logs` is pushed where the query returns
it, exactly if its height is one that the column holds as it is and SQLite
takes the filter, or the filter does not ask for the log. -/
theorem push_query_agree_iff [HexCrate] (sqlite : Sqlite) (table : LogTable) (hash : B256)
    (receipt : ReceiptRow) (txIndex base : Nat) {i : Nat} {log : LogRow}
    (hlog : receipt.logs[i]? = some log) (addresses : List Bytes) (topics : Fin 4 → List Bytes) :
    PushQueryAgree sqlite (table.replaceLogs hash receipt txIndex base)
        (logRecord hash receipt txIndex base i log) addresses topics
      ↔ (receipt.blockHeight.toNat < 2 ^ 63
          ∧ (everyHeight addresses topics).variables ≤ sqlite.maxVariables)
        ∨ ¬ Asked addresses topics log := by
  constructor
  · intro hagree
    refine or_iff_not_imp_right.mpr fun hasked => ?_
    have hreturned := (hagree 0xffffffffffffffff (Or.inr (by decide))).mp
      (logMatches_read.mpr (not_not.mp hasked))
    obtain ⟨htaken, hselected⟩ := (read_mem_queryLogs hlog (Or.inr (by decide))).mp hreturned
    exact ⟨(selected_everyHeight.mp hselected).1, htaken⟩
  · intro h limit hlimit
    rw [read_mem_queryLogs hlog hlimit, logMatches_read, selected_everyHeight]
    rcases h with ⟨hheight, htaken⟩ | hnot
    · rw [and_iff_right htaken, and_iff_right hheight]
    · exact iff_of_false hnot fun h => hnot h.2.2

/-- A block at height `h` with one log. -/
def receiptAt (h : UInt64) : ReceiptRow :=
  ⟨h, [], none, true, 0, none, [⟨0, [], [[7]], []⟩]⟩

/-- A row at height 2, with no row before it, and the filter of its topic. -/
theorem push_query_agree_low :
    PushQueryAgree sampleSqlite (LogTable.replaceLogs [] (.zero 32) (receiptAt 2) 0 0)
      (logRecord (.zero 32) (receiptAt 2) 0 0 0 ⟨0, [], [[7]], []⟩) []
      (fun i => if i = 0 then [[7], [8]] else []) :=
  (push_query_agree_iff sampleSqlite [] (.zero 32) (receiptAt 2) 0 0 rfl _ _).mpr
    (Or.inl ⟨by decide, by decide⟩)

/-- A row at height `2 ^ 63` is pushed, and in no range. -/
theorem push_query_disagree :
    ¬ PushQueryAgree sampleSqlite
      (LogTable.replaceLogs [] (.zero 32) (receiptAt 0x8000000000000000) 0 0)
      (logRecord (.zero 32) (receiptAt 0x8000000000000000) 0 0 0 ⟨0, [], [[7]], []⟩) []
      (fun _ => []) := by
  intro hagree
  have hreturned := (hagree 0xffffffffffffffff (Or.inr (by decide))).mp rfl
  obtain ⟨-, hselected⟩ := (read_mem_queryLogs rfl (Or.inr (by decide))).mp hreturned
  exact absurd (placed_everyHeight.mp hselected.1) (by decide)

end KoinosEvm.Proofs
