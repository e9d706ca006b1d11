/-
The statement that `query_logs` puts together, and what it selects.

The clause is true of a row exactly if the filter is (`holds_whereClause`):
each placeholder has its own argument, and a NULL column is in no list. It has
as many arguments as the filter says (`length_args`), which decides whether
SQLite takes it. So the query of the table is the query of the store
(`selectLogs_eq`).
-/
import KoinosEvm.Proofs.LogsFeed
import KoinosEvm.Proxy.LogTable

namespace KoinosEvm.Proofs

open Lib Proxy

-- ============================================================== the clause

section Clause

variable {f : LogFilter} {r : LogRecord} {l : LogEntry}

/-- A row is in the block or the range of a filter. -/
def Placed (f : LogFilter) (r : LogRecord) : Prop :=
  match f.blockHash with
  | some bh => r.blockHash = bh
  | none => clampHeight f.fromBlock ≤ r.blockHeight ∧ r.blockHeight ≤ clampHeight f.toBlock

theorem holds_placeClause : (placeClause f).holds r.column = some true ↔ Placed f r := by
  have hempty : (Clause.empty : Clause LogColumn SqlValue).holds r.column = some true := rfl
  have hhash : r.column .blockHash = some (.blob r.blockHash) := rfl
  have hheight : r.column .blockHeight = some (.int r.blockHeight) := rfl
  rw [placeClause, Placed]
  cases f.blockHash with
  | some bh =>
      dsimp only
      rw [Clause.holds_push, and_iff_right hempty, Test.holds_eq hhash, SqlValue.blob.injEq]
  | none =>
      dsimp only
      rw [Clause.holds_push, Clause.holds_push, and_iff_right hempty, Test.holds_ge hheight,
        Test.holds_le hheight, SqlValue.int_le, SqlValue.int_le]

/-- A column is in one of the lists that a filter has for it, if any. -/
theorem holds_topics (is : List (Fin 4)) (clause : Clause LogColumn SqlValue) :
    (is.foldl (fun clause i => clause.pushIn (.topic i) ((f.topics i).map .blob)) clause).holds
        r.column = some true
      ↔ clause.holds r.column = some true
        ∧ ∀ i ∈ is, f.topics i = [] ∨ ∃ t ∈ f.topics i, r.topic i = some t := by
  induction is generalizing clause with
  | nil => exact (and_iff_left fun _ hi => absurd hi List.not_mem_nil).symm
  | cons i is ih =>
      have htopic : (∃ t ∈ f.topics i, r.column (.topic i) = some (.blob t))
          ↔ ∃ t ∈ f.topics i, r.topic i = some t := by
        simp only [LogRecord.column, Option.map_eq_some_iff, SqlValue.blob.injEq,
          exists_eq_right]
      rw [List.foldl_cons, ih, Clause.holds_pushIn_map, htopic, List.forall_mem_cons, and_assoc]

/-- What a filter asks of a row. -/
def Selected (f : LogFilter) (r : LogRecord) : Prop :=
  Placed f r ∧ (f.addresses = [] ∨ r.address ∈ f.addresses)
    ∧ ∀ i, f.topics i = [] ∨ ∃ t ∈ f.topics i, r.topic i = some t

/-- The clause is true of the rows that the filter asks for. -/
theorem holds_whereClause : (whereClause f).holds r.column = some true ↔ Selected f r := by
  have haddress : (∃ a ∈ f.addresses, r.column .address = some (.blob a))
      ↔ r.address ∈ f.addresses := by
    simp only [LogRecord.column, Option.some_inj, SqlValue.blob.injEq, exists_eq_right']
  rw [whereClause, holds_topics, Clause.holds_pushIn_map, holds_placeClause, haddress, and_assoc,
    Selected]
  simp only [List.mem_finRange, forall_const]

/-- .. and so of the rows that the store's query selects. -/
theorem selects_iff : f.selects l = true ↔ Selected f l.toRecord := by
  rw [LogFilter.selects, Bool.and_eq_true, Bool.and_eq_true, and_assoc, Selected]
  refine and_congr ?_ (and_congr ?_ ?_)
  · rw [Placed]
    cases f.blockHash with
    | some bh => exact beq_iff_eq
    | none =>
        rw [Bool.and_eq_true, decide_eq_true_iff, decide_eq_true_iff]
        rfl
  · rw [Bool.or_eq_true, List.isEmpty_iff, List.contains_iff_mem]
    rfl
  · rw [List.all_eq_true]
    simp only [List.mem_finRange, forall_const]
    refine forall_congr' fun i => ?_
    rw [Bool.or_eq_true, List.isEmpty_iff, Option.any_eq_true]
    refine or_congr_right ?_
    simp only [List.contains_iff_mem, and_comm]
    rfl

end Clause

-- =============================================================== the query

section Query

variable {f : LogFilter} {limit : UInt64}

theorem length_placeClause :
    (placeClause f).args.length = if f.blockHash.isSome then 1 else 2 := by
  rw [placeClause]
  cases f.blockHash with
  | some bh => rfl
  | none => rfl

theorem length_topics (is : List (Fin 4)) (clause : Clause LogColumn SqlValue) :
    (is.foldl (fun clause i => clause.pushIn (.topic i) ((f.topics i).map .blob)) clause).args.length
      = clause.args.length + (is.map fun i => (f.topics i).length).sum := by
  induction is generalizing clause with
  | nil => rfl
  | cons i is ih =>
      rw [List.foldl_cons, ih, Clause.length_pushIn, List.length_map, List.map_cons, List.sum_cons,
        Nat.add_assoc]

/-- The `?`s of a statement are those its filter asks for. -/
theorem length_args : ((whereClause f).args ++ [SqlValue.int limit.toInt64]).length
    = f.variables := by
  rw [List.length_append, List.length_singleton, whereClause, length_topics, Clause.length_pushIn,
    List.length_map, length_placeClause]
  rfl

instance : DecidablePred (Selected f) := fun _ =>
  decidable_of_iff _ holds_whereClause

/-- The statement runs on the rows that are asked for; what is bound last is
the limit. -/
theorem select_eq (table : LogTable) (n : Int64) :
    table.select (whereClause f).tests ((whereClause f).args ++ [.int n])
      = limitRows (some (.int n))
          ((table.filter fun r => decide (Selected f r)).insertionSort recordLe) := by
  have hlimit : ((whereClause f).args ++ [SqlValue.int n])[
      ((whereClause f).tests.map Test.width).sum]? = some (.int n) := by
    rw [← (whereClause f).bound, List.getElem?_concat_length]
  have hholds : ∀ r : LogRecord, holdsAll r.column (whereClause f).tests
      ((whereClause f).args ++ [SqlValue.int n]) = some true ↔ Selected f r := by
    intro r
    have happend : holdsAll r.column ((whereClause f).tests ++ [])
        ((whereClause f).args ++ [SqlValue.int n]) = some true
        ↔ (whereClause f).holds r.column = some true ∧ holdsAll r.column [] _ = some true :=
      holdsAll_append (whereClause f).bound
    rw [List.append_nil] at happend
    rw [happend, holds_whereClause]
    exact and_iff_left rfl
  rw [LogTable.select, hlimit]
  congr 2
  exact List.filter_congr fun r _ => decide_eq_decide.mpr (hholds r)

theorem limitRows_map {α β : Type} (g : α → β) (v : Option SqlValue) (rows : List α) :
    (limitRows v rows).map g = limitRows v (rows.map g) := by
  unfold limitRows
  split
  · split
    · rfl
    · exact List.map_take
  · rfl

/-- A limit that the `i64` holds is one, any other is none. -/
theorem limitRows_eq {α : Type} (rows : List α) :
    limitRows (some (.int limit.toInt64)) rows
      = if limit.toNat < 2 ^ 63 then rows.take limit.toNat else rows := by
  show (if limit.toInt64 < 0 then rows else rows.take limit.toInt64.toInt.toNat) = _
  have hneg : limit.toInt64 < 0 ↔ limit.toInt64.toInt < 0 := Int64.lt_iff_toInt_lt
  rcases Nat.lt_or_ge limit.toNat (2 ^ 63) with hlt | hge
  · have hint := toInt_toInt64 hlt
    rw [if_neg (fun h => by have := hneg.mp h; omega), if_pos hlt, hint, Int.toNat_natCast]
  · rw [if_pos (hneg.mpr (toInt_toInt64_neg hge)), if_neg (Nat.not_lt_of_le hge)]

/-- A limit that leaves out none of so many rows. -/
def LeavesAll (limit : UInt64) (rows : Nat) : Prop :=
  rows ≤ limit.toNat ∨ 2 ^ 63 ≤ limit.toNat

theorem LeavesAll.mono {m n : Nat} (h : LeavesAll limit n) (hle : m ≤ n) : LeavesAll limit m :=
  h.imp_left hle.trans

theorem limitRows_of_leavesAll {α : Type} {rows : List α} (h : LeavesAll limit rows.length) :
    limitRows (some (.int limit.toInt64)) rows = rows := by
  rw [limitRows_eq]
  split
  next hlt => exact List.take_of_length_le (h.resolve_right (Nat.not_le_of_lt hlt))
  next => rfl

/-- `query_logs` of a table. -/
theorem queryLogs_eq (sqlite : Sqlite) (table : LogTable) :
    table.queryLogs sqlite f limit
      = if sqlite.maxVariables < f.variables then .error (sqlite.tooMany f)
        else .ok (limitRows (some (.int limit.toInt64))
          (((table.filter fun r => decide (Selected f r)).insertionSort recordLe).map
            LogRecord.read)) := by
  rw [LogTable.queryLogs, length_args, select_eq, limitRows_map]

end Query

-- =============================================================== the store

section Store

variable {l : LogEntry}

/-- What has been written is read back. -/
theorem read_toRecord (h : l.topics.length ≤ 4) : l.toRecord.read = l := by
  have htopics : (List.finRange 4).filterMap (fun i : Fin 4 => l.topics[i.val]?) = l.topics := by
    match htop : l.topics, h with
    | [], _ => rfl
    | [_], _ => rfl
    | [_, _], _ => rfl
    | [_, _, _], _ => rfl
    | [_, _, _, _], _ => rfl
  have hheight : l.blockHeight.toInt64.toUInt64 = l.blockHeight := UInt64.toUInt64_toInt64 _
  show LogEntry.mk _ _ _ _ _ _ _ _ = l
  rw [show l.toRecord.topic = fun i : Fin 4 => l.topics[i.val]? from rfl, htopics]
  show LogEntry.mk _ l.blockHeight.toInt64.toUInt64 _ _ _ _ _ _ = l
  rw [hheight]
  rfl

theorem queryLe_iff (a b : LogEntry) : queryLe a b ↔ recordLe a.toRecord b.toRecord := by
  have hheight : a.blockHeight = b.blockHeight
      ↔ a.blockHeight.toInt64 = b.blockHeight.toInt64 := ⟨congrArg _, toInt64_inj⟩
  rw [queryLe, hheight]
  rfl

theorem toRecord_logEntry (hash : B256) (r : ReceiptRow) (txIndex base i : Nat) (log : LogRow) :
    (logEntry hash r txIndex base i log).toRecord = logRecord hash r txIndex base i log := by
  have htopic : ∀ j : Fin 4, (log.topics.take 4)[j.val]? = log.topics[j.val]? :=
    fun j => List.getElem?_take_of_lt j.isLt
  rw [LogEntry.toRecord, logRecord, logEntry]
  simp only [htopic]

/-- `query_logs` of the store. -/
theorem selectLogs_eq (sqlite : Sqlite) {db : Db} (f : LogFilter) (limit : UInt64)
    (h : ∀ l ∈ db.logs, l.topics.length ≤ 4) :
    db.selectLogs sqlite f limit
      = if sqlite.maxVariables < f.variables then .error (sqlite.tooMany f)
        else .ok (limitRows (some (.int limit.toInt64))
          ((db.logs.filter f.selects).insertionSort queryLe)) := by
  have hfilter : (db.logs.map LogEntry.toRecord).filter (fun r => decide (Selected f r))
      = (db.logs.filter f.selects).map LogEntry.toRecord := by
    rw [List.filter_map]
    congr 1
    refine List.filter_congr fun l _ => ?_
    exact Bool.eq_iff_iff.mpr (decide_eq_true_iff.trans selects_iff.symm)
  have hread : ∀ l ∈ (db.logs.filter f.selects).insertionSort queryLe,
      (LogRecord.read ∘ LogEntry.toRecord) l = l := by
    intro l hl
    have hmem := List.mem_of_mem_filter ((List.mem_insertionSort queryLe).mp hl)
    exact read_toRecord (h l hmem)
  rw [Db.selectLogs, queryLogs_eq, hfilter,
    ← List.map_insertionSort queryLe recordLe _ _ fun a _ b _ => queryLe_iff a b, List.map_map,
    List.map_congr_left hread, List.map_id']

end Store

end KoinosEvm.Proofs
