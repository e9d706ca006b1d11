/-
What `eth_getLogs` answers.

The answer is the whole list of the rows that match, or an error. Two things
go wrong with the list. A block's rows come by the hash of their transaction
first, so they are in the order of the block only where the hashes happen to
be; and a height from `2 ^ 63` on is stored as a negative number, which no
range has and which comes before all others. Besides, with the largest limit
of results there is, the query has none left in a build without overflow
checks, and a filter with too many values is refused by SQLite. Nothing else
does (`logs_answered_iff`).
-/
import KoinosEvm.Lib.Fallible
import KoinosEvm.Proofs.Hex
import KoinosEvm.Proofs.LogTable

namespace KoinosEvm.Proofs

open Lib Proxy

-- ============================================================ the property

/-- A row is in the block or the range of a filter. -/
def InBlocks (f : LogFilter) (l : LogEntry) : Prop :=
  match f.blockHash with
  | some bh => l.blockHash = bh
  | none => f.fromBlock ≤ l.blockHeight ∧ l.blockHeight ≤ f.toBlock

/-- Its address and its topics are. -/
def Fits (f : LogFilter) (l : LogEntry) : Prop :=
  (f.addresses = [] ∨ l.address ∈ f.addresses)
    ∧ ∀ i : Fin 4, f.topics i = [] ∨ ∃ t ∈ f.topics i, l.topics[i.val]? = some t

/-- A row matches a filter. -/
def Matches (f : LogFilter) (l : LogEntry) : Prop := InBlocks f l ∧ Fits f l

instance (f : LogFilter) : DecidablePred (Matches f) := fun l =>
  have : Decidable (InBlocks f l) := by
    unfold InBlocks
    split <;> infer_instance
  inferInstanceAs (Decidable (_ ∧ (_ ∧ _)))

/-- By `(block_height, log_index)`. -/
def blockLe (a b : LogEntry) : Prop :=
  a.blockHeight < b.blockHeight ∨ (a.blockHeight = b.blockHeight ∧ a.logIndex ≤ b.logIndex)

/-- Exactly the rows that match, each once, in the order of the blocks. -/
structure FullList (db : Db) (f : LogFilter) (rows : List LogEntry) : Prop where
  perm : rows.Perm (db.logs.filter fun l => decide (Matches f l))
  once : rows.Nodup
  sorted : rows.Pairwise blockLe

section Hex

variable [HexCrate]

/-- The query returns the full list for every limit above its length (from
`2 ^ 63` on a limit is none), and the answer to a request with the filter is
the full list or an error. -/
structure LogsAnswered (cfg : LogsConfig) (db : Db) (f : LogFilter) : Prop where
  query : ∀ limit : UInt64,
    (db.logs.filter fun l => decide (Matches f l)).length < limit.toNat
        ∨ 2 ^ 63 ≤ limit.toNat →
      ∃ rows, db.selectLogs cfg.sqlite f limit = .ok rows ∧ FullList db f rows
  answer : ∀ headInfo params out, getLogsFilter cfg headInfo params = .ok f →
    handleGetLogs cfg db headInfo params = .ok out →
    ∃ rows, FullList db f rows ∧ out = .array (rows.map logRowToJson)

-- =========================================================== the condition

/-- No row that fits is at a height of the range that is stored as a negative
number; nor at the last one that is not, of a range beyond it. -/
def HeightKept (f : LogFilter) (l : LogEntry) : Prop :=
  (2 ^ 63 ≤ l.blockHeight.toNat → ¬ (f.fromBlock ≤ l.blockHeight ∧ l.blockHeight ≤ f.toBlock))
    ∧ (l.blockHeight.toNat = 2 ^ 63 - 1 →
      f.toBlock.toNat < 2 ^ 63 - 1 ∨ f.fromBlock.toNat < 2 ^ 63)

/-- Of two rows of a block the one with the smaller hash has the smaller index;
and they are not on both sides of `2 ^ 63`. -/
def OrderKept (a b : LogEntry) : Prop :=
  ¬ (a.blockHeight.toNat < 2 ^ 63 ∧ 2 ^ 63 ≤ b.blockHeight.toNat)
    ∧ (a.blockHeight = b.blockHeight → a.ethHash.bytes < b.ethHash.bytes →
      a.logIndex ≤ b.logIndex)

/-- A request has the filter. -/
def Requested (cfg : LogsConfig) (f : LogFilter) : Prop :=
  ∃ headInfo params, getLogsFilter cfg headInfo params = .ok f

/-- .. of the store and the rows that match; the filter is no longer than
SQLite takes it; and the limit of a request does not wrap. -/
structure LogsKept (cfg : LogsConfig) (db : Db) (f : LogFilter) : Prop where
  taken : f.variables ≤ cfg.sqlite.maxVariables
  heights : f.blockHash = none → ∀ l ∈ db.logs, Fits f l → HeightKept f l
  order : ∀ a ∈ db.logs, ∀ b ∈ db.logs, Matches f a → Matches f b → OrderKept a b
  limit : cfg.checks = .on ∨ cfg.getlogsMaxResults.toNat + 1 < 2 ^ 64
    ∨ ¬ Requested cfg f ∨ ∀ l ∈ db.logs, ¬ Matches f l

end Hex

-- ================================================================ the rows

section Rows

variable {f : LogFilter} {l a b : LogEntry}

theorem placed_toRecord (hrange : f.blockHash = none) : Placed f l.toRecord
    ↔ l.blockHeight.toNat < 2 ^ 63 ∧ min f.fromBlock.toNat i64Max.toNat ≤ l.blockHeight.toNat
      ∧ l.blockHeight.toNat ≤ min f.toBlock.toNat i64Max.toNat := by
  rw [Placed, hrange]
  show clampHeight f.fromBlock ≤ l.blockHeight.toInt64
    ∧ l.blockHeight.toInt64 ≤ clampHeight f.toBlock ↔ _
  rw [Int64.le_iff_toInt_le, Int64.le_iff_toInt_le, toInt_clampHeight, toInt_clampHeight]
  rcases Nat.lt_or_ge l.blockHeight.toNat (2 ^ 63) with hlt | hge
  · rw [toInt_toInt64 hlt]
    omega
  · have hneg := toInt_toInt64_neg hge
    omega

/-- The query looks where the filter says, exactly if the height is kept. -/
theorem placed_iff_inBlocks : (Placed f l.toRecord ↔ InBlocks f l)
    ↔ (f.blockHash = none → HeightKept f l) := by
  cases hblock : f.blockHash with
  | some bh =>
      rw [Placed, InBlocks, hblock]
      exact iff_of_true Iff.rfl fun hnone => absurd hnone (Option.some_ne_none bh)
  | none =>
      have hmax : i64Max.toNat = 2 ^ 63 - 1 := rfl
      have hbound := f.toBlock.toNat_lt
      rw [placed_toRecord hblock, InBlocks, hblock, forall_prop_of_true rfl, HeightKept]
      simp only [UInt64.le_iff_toNat_le, hmax]
      omega

theorem selects_iff_placed : f.selects l = true ↔ Placed f l.toRecord ∧ Fits f l :=
  selects_iff

/-- The rows that are selected are those that match, if the heights are kept. -/
theorem selects_iff_matches (h : f.blockHash = none → Fits f l → HeightKept f l) :
    f.selects l = true ↔ Matches f l := by
  rw [selects_iff_placed, Matches]
  exact and_congr_left fun hfits => placed_iff_inBlocks.mpr fun hblock => h hblock hfits

/-- The two orders agree on two rows. -/
theorem blockLe_of_queryLe (hab : OrderKept a b) (hba : OrderKept b a) (h : queryLe a b) :
    blockLe a b := by
  rcases h with hlt | ⟨heq, hhash | ⟨-, hindex⟩⟩
  · refine Or.inl (UInt64.lt_iff_toNat_lt.mpr ?_)
    have haside := hab.1
    have hbside := hba.1
    rw [Int64.lt_iff_toInt_lt] at hlt
    rcases Nat.lt_or_ge a.blockHeight.toNat (2 ^ 63) with ha | ha
    · have hb : b.blockHeight.toNat < 2 ^ 63 := by omega
      rw [toInt_toInt64 ha, toInt_toInt64 hb] at hlt
      omega
    · have hb : 2 ^ 63 ≤ b.blockHeight.toNat := by omega
      rw [toInt_toInt64_of_le ha, toInt_toInt64_of_le hb] at hlt
      omega
  · exact Or.inr ⟨heq, hab.2 heq hhash⟩
  · exact Or.inr ⟨heq, hindex⟩

/-- .. only then. -/
theorem orderKept_of_blockLe (hab : queryLe a b → blockLe a b) (hba : queryLe b a → blockLe b a) :
    OrderKept a b := by
  constructor
  · rintro ⟨ha, hb⟩
    have hbefore : queryLe b a := by
      have hneg := toInt_toInt64_neg hb
      refine Or.inl (Int64.lt_iff_toInt_lt.mpr ?_)
      rw [toInt_toInt64 ha]
      omega
    rcases hba hbefore with hlt | ⟨heq, -⟩
    · have hnat := UInt64.lt_iff_toNat_lt.mp hlt
      omega
    · rw [heq] at hb
      omega
  · intro heq hhash
    rcases hab (Or.inr ⟨heq, Or.inl hhash⟩) with hlt | ⟨-, hindex⟩
    · rw [heq] at hlt
      exact absurd hlt (UInt64.lt_irrefl _)
    · exact hindex

end Rows

-- ================================================================ the list

/-- Sorted by one order, a list is sorted by another exactly if that agrees on
its elements. -/
theorem pairwise_iff_of_sorted {α : Type} {r s : α → α → Prop} {l : List α}
    (hsorted : l.Pairwise r) (hnodup : l.Nodup)
    (hanti : ∀ a ∈ l, ∀ b ∈ l, r a b → r b a → a = b) :
    l.Pairwise s ↔ ∀ a ∈ l, ∀ b ∈ l, a ≠ b → r a b → s a b := by
  induction l with
  | nil => exact iff_of_true List.Pairwise.nil fun _ ha => absurd ha List.not_mem_nil
  | cons x l ih =>
      obtain ⟨hfirst, hrest⟩ := List.pairwise_cons.mp hsorted
      obtain ⟨hnew, hnodup⟩ := List.nodup_cons.mp hnodup
      have hih := ih hrest hnodup fun a ha b hb =>
        hanti a (List.mem_cons_of_mem x ha) b (List.mem_cons_of_mem x hb)
      rw [List.pairwise_cons, hih]
      constructor
      · rintro ⟨hx, hl⟩ a ha b hb hne hab
        rcases List.mem_cons.mp ha with rfl | ha'
        · exact hx b ((List.mem_cons.mp hb).resolve_left hne.symm)
        · rcases List.mem_cons.mp hb with rfl | hb'
          · exact absurd (hanti a ha b hb hab (hfirst a ha')) hne
          · exact hl a ha' b hb' hne hab
      · intro hall
        refine ⟨fun b hb => ?_, fun a ha b hb => ?_⟩
        · exact hall x List.mem_cons_self b (List.mem_cons_of_mem x hb)
            (fun heq => hnew (heq ▸ hb)) (hfirst b hb)
        · exact hall a (List.mem_cons_of_mem x ha) b (List.mem_cons_of_mem x hb)

section List

variable {f : LogFilter} {db : Db}

/-- The rows that the query takes, in its order. -/
def selectedRows (db : Db) (f : LogFilter) : List LogEntry :=
  (db.logs.filter f.selects).insertionSort queryLe

theorem mem_selectedRows {l : LogEntry} :
    l ∈ selectedRows db f ↔ l ∈ db.logs ∧ f.selects l = true :=
  (List.mem_insertionSort queryLe).trans List.mem_filter

theorem nodup_selectedRows (h : Keyed db.logs) : (selectedRows db f).Nodup :=
  (List.perm_insertionSort queryLe _).nodup_iff.mpr ((List.Nodup.of_map _ h).filter _)

/-- Rows that stand in each other's place are one. -/
theorem queryLe_antisymm (h : Keyed db.logs) {a b : LogEntry} (ha : a ∈ db.logs)
    (hb : b ∈ db.logs) (hab : queryLe a b) (hba : queryLe b a) : a = b := by
  rcases hab with hlt | ⟨hheight, hab⟩
  · rcases hba with hlt' | ⟨hheight, -⟩
    · exact (Int64.lt_irrefl (Int64.lt_trans hlt hlt')).elim
    · rw [hheight] at hlt
      exact (Int64.lt_irrefl hlt).elim
  rcases hba with hlt | ⟨-, hba⟩
  · rw [hheight] at hlt
    exact (Int64.lt_irrefl hlt).elim
  rcases hab with hlt | ⟨hhash, hle⟩
  · rcases hba with hlt' | ⟨hhash, -⟩
    · exact absurd (List.lt_trans hlt hlt') (List.lt_irrefl _)
    · rw [hhash] at hlt
      exact absurd hlt (List.lt_irrefl _)
  rcases hba with hlt | ⟨-, hle'⟩
  · rw [hhash] at hlt
    exact absurd hlt (List.lt_irrefl _)
  · exact h.eq ha hb hhash (Nat.le_antisymm hle hle')

/-- The rows are in the order of the blocks exactly if they are kept so. -/
theorem sorted_selectedRows (h : Keyed db.logs) : (selectedRows db f).Pairwise blockLe
    ↔ ∀ a ∈ selectedRows db f, ∀ b ∈ selectedRows db f, OrderKept a b := by
  have hmem : ∀ l ∈ selectedRows db f, l ∈ db.logs := fun l hl => (mem_selectedRows.mp hl).1
  have hanti : ∀ a ∈ selectedRows db f, ∀ b ∈ selectedRows db f,
      queryLe a b → queryLe b a → a = b :=
    fun a ha b hb => queryLe_antisymm h (hmem a ha) (hmem b hb)
  have hsorted : (selectedRows db f).Pairwise queryLe := List.pairwise_insertionSort queryLe _
  rw [pairwise_iff_of_sorted hsorted (nodup_selectedRows h) hanti]
  constructor
  · intro hall a ha b hb
    have hle : ∀ a ∈ selectedRows db f, ∀ b ∈ selectedRows db f, queryLe a b → blockLe a b := by
      intro a ha b hb hab
      by_cases heq : a = b
      · exact Or.inr ⟨congrArg _ heq, (congrArg LogEntry.logIndex heq).le⟩
      · exact hall a ha b hb heq hab
    exact orderKept_of_blockLe (hle a ha b hb) (hle b hb a ha)
  · intro hall a ha b hb _ hab
    exact blockLe_of_queryLe (hall a ha b hb) (hall b hb a ha) hab

/-- The list is full exactly if heights and order are kept. -/
theorem fullList_selectedRows (h : Keyed db.logs) :
    FullList db f (selectedRows db f)
      ↔ (f.blockHash = none → ∀ l ∈ db.logs, Fits f l → HeightKept f l)
        ∧ ∀ a ∈ db.logs, ∀ b ∈ db.logs, Matches f a → Matches f b → OrderKept a b := by
  have hrows : (∀ l ∈ db.logs, (f.selects l = true ↔ Matches f l))
      ↔ (f.blockHash = none → ∀ l ∈ db.logs, Fits f l → HeightKept f l) := by
    constructor
    · intro hall hblock l hl hfits
      have hiff := hall l hl
      rw [selects_iff_placed, Matches, and_iff_left hfits, and_iff_left hfits] at hiff
      exact placed_iff_inBlocks.mp hiff hblock
    · exact fun hall l hl => selects_iff_matches fun hblock hfits => hall hblock l hl hfits
  rw [← hrows]
  constructor
  · intro hfull
    have hiff : ∀ l ∈ db.logs, (f.selects l = true ↔ Matches f l) := by
      intro l hl
      have hperm := hfull.perm.mem_iff (a := l)
      rw [mem_selectedRows, List.mem_filter, and_iff_right hl, and_iff_right hl,
        decide_eq_true_iff] at hperm
      exact hperm
    refine ⟨hiff, fun a ha b hb hma hmb => ?_⟩
    refine (sorted_selectedRows h).mp hfull.sorted a ?_ b ?_
    · exact mem_selectedRows.mpr ⟨ha, (hiff a ha).mpr hma⟩
    · exact mem_selectedRows.mpr ⟨hb, (hiff b hb).mpr hmb⟩
  · rintro ⟨hiff, horder⟩
    have hfilter : db.logs.filter f.selects = db.logs.filter fun l => decide (Matches f l) :=
      List.filter_congr fun l hl => Bool.eq_iff_iff.mpr ((hiff l hl).trans decide_eq_true_iff.symm)
    refine ⟨?_, nodup_selectedRows h, (sorted_selectedRows h).mpr ?_⟩
    · rw [← hfilter]
      exact List.perm_insertionSort queryLe _
    · intro a ha b hb
      have hma := mem_selectedRows.mp ha
      have hmb := mem_selectedRows.mp hb
      exact horder a hma.1 b hmb.1 ((hiff a hma.1).mp hma.2) ((hiff b hmb.1).mp hmb.2)

end List

-- ============================================================== the answer

/-- There are four topic columns. -/
theorem topics_run (ws : List DbWrite) :
    ∀ l ∈ (ws.foldl applyWrite .empty).logs, l.topics.length ≤ 4 := by
  induction ws using List.reverseRecOn with
  | nil => exact fun _ hl => absurd hl List.not_mem_nil
  | append_singleton ws w ih =>
      rw [List.foldl_append]
      intro l hl
      rcases logs_applyWrite (ws.foldl applyWrite .empty) w with ⟨-, heq⟩ | ⟨_, r, _, _, -, heq⟩
      · exact ih l (heq ▸ hl)
      · have hl' : l ∈ replaceLogs _ _ _ _ _ := heq ▸ hl
        rcases List.mem_append.mp hl' with hold | hnew
        · exact ih l (List.mem_of_mem_filter hold)
        · obtain ⟨i, hi, rfl⟩ := List.mem_mapIdx.mp hnew
          show (List.take 4 _).length ≤ 4
          rw [List.length_take]
          exact Nat.min_le_left _ _

section Answer

variable {cfg : LogsConfig} {db : Db} {f : LogFilter}

/-- The query under a limit. -/
theorem selectLogs_selectedRows {sqlite : Sqlite} (h4 : ∀ l ∈ db.logs, l.topics.length ≤ 4)
    (hvars : f.variables ≤ sqlite.maxVariables) (limit : UInt64) :
    db.selectLogs sqlite f limit
      = .ok (if limit.toNat < 2 ^ 63 then (selectedRows db f).take limit.toNat
        else selectedRows db f) := by
  rw [selectLogs_eq sqlite f limit h4, if_neg (Nat.not_lt_of_le hvars), limitRows_eq]
  rfl

/-- .. and where it is refused. -/
theorem selectLogs_refused {sqlite : Sqlite} (h4 : ∀ l ∈ db.logs, l.topics.length ≤ 4)
    (hvars : sqlite.maxVariables < f.variables) (limit : UInt64) :
    db.selectLogs sqlite f limit = .error (sqlite.tooMany f) := by
  rw [selectLogs_eq sqlite f limit h4, if_pos hvars]

/-- A query that returns is not refused. -/
theorem variables_le {sqlite : Sqlite} {limit : UInt64} {rows : List LogEntry}
    (h4 : ∀ l ∈ db.logs, l.topics.length ≤ 4)
    (hquery : db.selectLogs sqlite f limit = .ok rows) : f.variables ≤ sqlite.maxVariables := by
  by_contra hmany
  rw [selectLogs_refused h4 (Nat.lt_of_not_le hmany)] at hquery
  cases hquery

variable [HexCrate]

/-- A request is answered as its filter is. -/
theorem handleGetLogs_eq {headInfo : Except String Value} {params : Value}
    (h : getLogsFilter cfg headInfo params = .ok f) :
    handleGetLogs cfg db headInfo params = answerLogs cfg db f := by
  rw [handleGetLogs, h]
  rfl

/-- An answer is of all rows that are selected, but where the limit wraps. -/
theorem answerLogs_ok (h4 : ∀ l ∈ db.logs, l.topics.length ≤ 4) {out : Value}
    (hfits : cfg.checks = .on ∨ cfg.getlogsMaxResults.toNat + 1 < 2 ^ 64)
    (h : answerLogs cfg db f = .ok out) :
    out = .array ((selectedRows db f).map logRowToJson) := by
  rw [answerLogs] at h
  split at h
  next => cases h
  next limit hlimit =>
    have hnext : limit.toNat = cfg.getlogsMaxResults.toNat + 1 := by
      refine nextU64_toNat hlimit ?_
      rcases hfits with hon | hfits
      · rw [hon] at hlimit
        exact nextU64_on hlimit
      · exact hfits
    split at h
    next => cases h
    next rows hrows =>
      rw [selectLogs_selectedRows h4 (variables_le h4 hrows), Except.ok.injEq] at hrows
      split at h
      next => cases h
      next hfew =>
        by_cases hheld : limit.toNat < 2 ^ 63
        · rw [if_pos hheld] at hrows
          rw [← hrows, List.length_take] at hfew
          rw [List.take_of_length_le (by omega)] at hrows
          rw [hrows]
          exact (Except.ok.inj h).symm
        · rw [if_neg hheld] at hrows
          rw [hrows]
          exact (Except.ok.inj h).symm

/-- .. and of none where it does. -/
theorem answerLogs_wrapped (h4 : ∀ l ∈ db.logs, l.topics.length ≤ 4)
    (hvars : f.variables ≤ cfg.sqlite.maxVariables) (hoff : cfg.checks = .off)
    (hmax : cfg.getlogsMaxResults.toNat + 1 = 2 ^ 64) :
    answerLogs cfg db f = .ok (.array []) := by
  have hzero : (cfg.getlogsMaxResults + 1).toNat = 0 := by
    rw [UInt64.toNat_add, UInt64.toNat_one, hmax, Nat.mod_self]
  have hnext : nextU64 cfg.checks cfg.getlogsMaxResults = .ok (cfg.getlogsMaxResults + 1) := by
    rw [nextU64, hoff]
    exact if_neg fun h => Checks.noConfusion h.1
  have hnone : db.selectLogs cfg.sqlite f (cfg.getlogsMaxResults + 1) = .ok [] := by
    rw [selectLogs_selectedRows h4 hvars, hzero, if_pos (by decide), List.take_zero]
  simp only [answerLogs, hnext, hnone]
  exact if_neg (Nat.not_lt_zero _)

/-- The query returns under the largest limit, and what it returns is all that is
selected. -/
theorem fullList_of_answered (h4 : ∀ l ∈ db.logs, l.topics.length ≤ 4)
    (h : LogsAnswered cfg db f) :
    f.variables ≤ cfg.sqlite.maxVariables ∧ FullList db f (selectedRows db f) := by
  obtain ⟨rows, hquery, hfull⟩ := h.query 0xffffffffffffffff (Or.inr (by decide))
  have hvars := variables_le h4 hquery
  rw [selectLogs_selectedRows h4 hvars, if_neg (by decide), Except.ok.injEq] at hquery
  rw [hquery]
  exact ⟨hvars, hfull⟩

end Answer

/-- For every store that writes lead to, the full list is what the query
returns, and the answer that or an error, exactly if SQLite takes the filter,
and the store and the request keep heights, order and limit. -/
theorem logs_answered_iff [HexCrate] (cfg : LogsConfig) (ws : List DbWrite) (f : LogFilter) :
    LogsAnswered cfg (ws.foldl applyWrite .empty) f
      ↔ LogsKept cfg (ws.foldl applyWrite .empty) f := by
  have h4 := topics_run ws
  have hfull := fullList_selectedRows (f := f) (keyed_run ws)
  constructor
  · intro h
    obtain ⟨hvars, hselected⟩ := fullList_of_answered h4 h
    obtain ⟨hheights, horder⟩ := hfull.mp hselected
    refine ⟨hvars, hheights, horder, ?_⟩
    rcases hchecks : cfg.checks with _ | _
    · exact Or.inl rfl
    refine Or.inr ?_
    rcases Nat.lt_or_ge (cfg.getlogsMaxResults.toNat + 1) (2 ^ 64) with hlt | hge
    · exact Or.inl hlt
    refine Or.inr (or_iff_not_imp_left.mpr fun hrequested l hl hmatch => ?_)
    -- the limit wraps, and the answer is the empty list
    obtain ⟨headInfo, params, hparams⟩ := not_not.mp hrequested
    have hmax : cfg.getlogsMaxResults.toNat + 1 = 2 ^ 64 :=
      Nat.le_antisymm cfg.getlogsMaxResults.toNat_lt hge
    obtain ⟨rows, hrows, hout⟩ := h.answer headInfo params _ hparams
      ((handleGetLogs_eq hparams).trans (answerLogs_wrapped h4 hvars hchecks hmax))
    have hnil : rows = [] := List.map_eq_nil_iff.mp (Value.array.inj hout).symm
    rw [hnil] at hrows
    have hmem : l ∈ ([] : List LogEntry) :=
      hrows.perm.mem_iff.mpr (List.mem_filter.mpr ⟨hl, decide_eq_true hmatch⟩)
    exact List.not_mem_nil hmem
  · intro h
    have hall := hfull.mpr ⟨h.heights, h.order⟩
    constructor
    · intro limit hlimit
      refine ⟨_, selectLogs_selectedRows h4 h.taken limit, ?_⟩
      split
      next hheld =>
        have hlength := hall.perm.length_eq
        rw [List.take_of_length_le (by omega)]
        exact hall
      next => exact hall
    · intro headInfo params out hparams hout
      rw [handleGetLogs_eq hparams] at hout
      by_cases hfits : cfg.checks = .on ∨ cfg.getlogsMaxResults.toNat + 1 < 2 ^ 64
      · exact ⟨_, hall, answerLogs_ok h4 hfits hout⟩
      · -- nothing matches, and the wrapped limit takes nothing
        obtain ⟨hon, hge⟩ := not_or.mp hfits
        have hnone := ((h.limit.resolve_left hon).resolve_left hge).resolve_left
          (not_not.mpr ⟨headInfo, params, hparams⟩)
        have hoff : cfg.checks = .off := by
          cases hchecks : cfg.checks with
          | on => exact absurd hchecks hon
          | off => rfl
        have hmax : cfg.getlogsMaxResults.toNat + 1 = 2 ^ 64 :=
          Nat.le_antisymm cfg.getlogsMaxResults.toNat_lt (Nat.le_of_not_lt hge)
        have hempty : ((ws.foldl applyWrite .empty).logs.filter fun l => decide (Matches f l))
            = [] :=
          List.filter_eq_nil_iff.mpr fun l hl hmatch => hnone l hl (of_decide_eq_true hmatch)
        have hrows : selectedRows (ws.foldl applyWrite .empty) f = [] := by
          have hperm := hall.perm
          rw [hempty] at hperm
          exact hperm.eq_nil
        rw [answerLogs_wrapped h4 h.taken hoff hmax] at hout
        refine ⟨_, hall, ?_⟩
        rw [hrows]
        exact (Except.ok.inj hout).symm

/-- Two transactions of block 5 with a log each, the first with the greater
hash. -/
def twoAtFive : List DbWrite :=
  [.index ⟨⟨List.replicate 32 2, rfl⟩, sampleMeta, loggedAtFive, 0⟩,
    .index ⟨.zero 32, sampleMeta, loggedAtFive, 0⟩]

/-- The logs of the block are returned the second one first. -/
theorem logs_misordered :
    ¬ LogsAnswered ⟨.off, sampleSqlite, 10000, 10000, fun _ => ""⟩
      (twoAtFive.foldl applyWrite .empty) ⟨5, 5, none, [], fun _ => []⟩ := by
  intro h
  have hlogs : (twoAtFive.foldl applyWrite .empty).logs
      = [logEntry ⟨List.replicate 32 2, rfl⟩ loggedAtFive 0 0 0 ⟨0, [1], [], []⟩,
        logEntry (.zero 32) loggedAtFive 1 1 0 ⟨0, [1], [], []⟩] := rfl
  have horder := ((fullList_selectedRows (keyed_run twoAtFive)).mp
    (fullList_of_answered (topics_run twoAtFive) h).2).2
  rw [hlogs] at horder
  have hkept := horder _ (List.mem_cons_of_mem _ (List.mem_singleton_self _)) _
    List.mem_cons_self (by decide) (by decide)
  exact absurd (hkept.2 rfl (by decide)) (by decide)

end KoinosEvm.Proofs
