/-
What the logs tail of the WebSocket feed loses and repeats.

The tail remembers a block height only. A log that comes into the index at a
height it has passed is not read any more (`Late`): the logs of a block come
in several writes. A page of a thousand rows may end inside a block (`Cut`). A
log broadcast from its provisional row is read again where the indexer places
it higher up (`Moved`). There is nothing else but the end of the heights
(`AtEnd`): as long as none of this happens, every log at a height passed has
been broadcast, and none twice, and a step with any of it goes wrong
(`feed_sound_when`).

What carries it is that no log waiting to be read was broadcast (`FeedInv`).
Rows come and go for one log, with the index that its block gives it. A log
is what it says and where it stands among the logs of its transaction
(`TxLog`): no two rows are of one log (`txLog_inj`).
-/
import KoinosEvm.Lib.Schedule
import KoinosEvm.Proofs.Store
import KoinosEvm.Proxy.WsFeed

namespace KoinosEvm.Proofs

open Lib Proxy

-- =============================================================== the logs

/-- A log of a transaction, wherever its row is. -/
structure TxLog where
  ethHash : B256
  position : Nat
  address : Bytes
  topics : List Bytes
  data : Bytes
  deriving DecidableEq

/-- The log of a row. -/
def txLog (logs : List LogEntry) (l : LogEntry) : TxLog where
  ethHash := l.ethHash
  position := (logRows logs l.ethHash).countP fun k => k.logIndex < l.logIndex
  address := l.address
  topics := l.topics
  data := l.data

/-- The logs of a receipt, as the index has them. -/
def placedLogs (hash : B256) (r : ReceiptRow) : List TxLog :=
  r.logs.mapIdx fun i log => ⟨hash, i, log.address, log.topics.take 4, log.data⟩

/-- The receipt whose logs a write places. -/
def receiptOf (db : Db) : DbWrite → Option (B256 × ReceiptRow)
  | .index c => if skips (db.settled c.ethHash) c.receipt then none else some (c.ethHash, c.receipt)
  | .settle hash r => (db.txs.find? hash).map fun _ => (hash, r)
  | .upsert .. | .bump _ => none

-- =============================================================== the feed

/-- The index and its tail. -/
structure FeedState where
  db : Db
  /-- The height at which the tail started. -/
  start : UInt64
  lastLogsHeight : UInt64
  /-- The logs broadcast so far. -/
  broadcast : List TxLog

/-- A write to the store, or a tick of the poller. -/
inductive FeedAct where
  | write (w : DbWrite)
  | tick

namespace FeedState

/-- The poller comes up. -/
def init (db : Db) : FeedState := ⟨db, db.maxIndexedHeight, db.maxIndexedHeight, []⟩

/-- One act. -/
def step (sqlite : Sqlite) (s : FeedState) : FeedAct → Option FeedState
  | .write w => some { s with db := applyWrite s.db w }
  | .tick =>
      let (last, rows) := s.db.pollLogs sqlite s.lastLogsHeight
      some { s with
        lastLogsHeight := last
        broadcast := s.broadcast ++ rows.map (txLog s.db.logs) }

end FeedState

/-- Nothing is lost and nothing repeated. -/
structure FeedSound (s : FeedState) : Prop where
  told : ∀ l ∈ s.db.logs, s.start < l.blockHeight → l.blockHeight ≤ s.lastLogsHeight →
    txLog s.db.logs l ∈ s.broadcast
  once : s.broadcast.Nodup

-- =========================================================== the condition

/-- A write places a log that was not broadcast at a height passed .. -/
def Late (s : FeedState) (w : DbWrite) : Prop :=
  ∃ hash r, receiptOf s.db w = some (hash, r) ∧ s.start < r.blockHeight ∧
    r.blockHeight ≤ s.lastLogsHeight ∧ ∃ t ∈ placedLogs hash r, t ∉ s.broadcast

/-- .. or one that was at a height to come. -/
def Moved (s : FeedState) (w : DbWrite) : Prop :=
  ∃ hash r, receiptOf s.db w = some (hash, r) ∧ s.lastLogsHeight < r.blockHeight ∧
    r.blockHeight.toNat < 2 ^ 63 ∧ ∃ t ∈ placedLogs hash r, t ∈ s.broadcast

/-- The rows above the height passed, as far as `i64`s go. -/
def FeedState.waiting (s : FeedState) : List LogEntry :=
  s.db.logs.filter fun l => s.lastLogsHeight < l.blockHeight ∧ l.blockHeight.toNat < 2 ^ 63

/-- There are fewer than 1000 of them below some height, and more than 1000
with those at it. -/
def Cut (s : FeedState) : Prop :=
  ∃ h : Nat, (s.waiting.countP fun l => l.blockHeight.toNat < h) < 1000 ∧
    1000 < s.waiting.countP fun l => l.blockHeight.toNat ≤ h

/-- The height passed is the last `i64`, and there is a row at it. -/
def AtEnd (s : FeedState) : Prop :=
  s.lastLogsHeight = i64Max ∧ ∃ l ∈ s.db.logs, l.blockHeight = i64Max

/-- The logs broadcast are left where they are, and others are placed above
the height passed; a tick finds its blocks whole. -/
def FeedKept (s : FeedState) : FeedAct → Prop
  | .write w => ¬ Late s w ∧ ¬ Moved s w
  | .tick => ¬ Cut s ∧ ¬ AtEnd s

/-- Some ticks behind an act a log is lost or repeated; behind a write, or one
of the ticks cuts a block. -/
def Spoils (sqlite : Sqlite) (s : FeedState) : FeedAct → Prop
  | .write w => ∃ n, ¬ Always (FeedState.step sqlite)
      (fun s a s' => FeedSound s' ∧ (a = .tick → ¬ Cut s)) s (.write w :: List.replicate n .tick)
  | .tick => ∃ n, ¬ Always (FeedState.step sqlite) (fun _ _ s' => FeedSound s') s
      (.tick :: List.replicate n .tick)

-- =============================================================== the rows

section Rows

variable {logs : List LogEntry} {hash : B256} {r : ReceiptRow} {txIndex base : Nat}
  {l m : LogEntry}

/-- `UNIQUE(eth_hash, log_index)`. -/
def Keyed (logs : List LogEntry) : Prop :=
  (logs.map fun l => (l.ethHash, l.logIndex)).Nodup

theorem Keyed.eq (h : Keyed logs) (hl : l ∈ logs) (hm : m ∈ logs) (hhash : l.ethHash = m.ethHash)
    (hindex : l.logIndex = m.logIndex) : l = m :=
  List.inj_on_of_nodup_map h hl hm (Prod.ext hhash hindex)

theorem mem_logRows : l ∈ logRows logs hash ↔ l ∈ logs ∧ l.ethHash = hash := by
  rw [logRows, List.mem_filter, decide_eq_true_iff]

theorem keyed_replaceLogs (h : Keyed logs) : Keyed (replaceLogs logs hash r txIndex base) := by
  rw [Keyed, replaceLogs, List.map_append]
  refine List.nodup_append'.mpr ⟨?_, ?_, ?_⟩
  · exact h.sublist (List.filter_sublist.map _)
  · have hindex : ((newLogs hash r txIndex base).map LogEntry.logIndex).Nodup := by
      rw [newLogs_logIndex, ← List.range'_eq_map_range]
      exact List.nodup_range'
    refine List.Nodup.of_map Prod.snd ?_
    rw [List.map_map]
    exact hindex
  · rw [List.disjoint_left]
    rintro key hold hnew
    obtain ⟨l, hl, rfl⟩ := List.mem_map.mp hold
    obtain ⟨m, hm, hkey⟩ := List.mem_map.mp hnew
    have hother := of_decide_eq_true (List.mem_filter.mp hl).2
    exact hother ((congrArg Prod.fst hkey).symm.trans (ethHash_of_mem_newLogs hm))

/-- Fewer rows come before the earlier of two. -/
theorem position_lt (hl : l ∈ logs) (hhash : l.ethHash = m.ethHash)
    (hindex : l.logIndex < m.logIndex) : (txLog logs l).position < (txLog logs m).position := by
  show (logRows logs l.ethHash).countP _ < (logRows logs m.ethHash).countP _
  rw [← hhash, List.countP_eq_length_filter, List.countP_eq_length_filter]
  have hfilter : (logRows logs l.ethHash).filter (fun k => k.logIndex < l.logIndex)
      = ((logRows logs l.ethHash).filter fun k => k.logIndex < m.logIndex).filter
        fun k => k.logIndex < l.logIndex := by
    rw [List.filter_filter]
    refine List.filter_congr fun k _ => ?_
    rw [← Bool.decide_and, decide_eq_decide]
    omega
  rw [hfilter]
  refine List.length_filter_lt_length_iff_exists.mpr ⟨l, ?_, by simp⟩
  exact List.mem_filter.mpr ⟨mem_logRows.mpr ⟨hl, rfl⟩, decide_eq_true hindex⟩

/-- No two rows are of one log. -/
theorem txLog_inj (h : Keyed logs) (hl : l ∈ logs) (hm : m ∈ logs)
    (heq : txLog logs l = txLog logs m) : l = m := by
  have hhash : l.ethHash = m.ethHash := congrArg TxLog.ethHash heq
  have hposition := congrArg TxLog.position heq
  rcases Nat.lt_trichotomy l.logIndex m.logIndex with hlt | hindex | hlt
  · exact absurd hposition (position_lt hl hhash hlt).ne
  · exact h.eq hl hm hhash hindex
  · exact absurd hposition (position_lt hm hhash.symm hlt).ne'

/-- A row that is not replaced is of the log it was of. -/
theorem txLog_replaceLogs_of_ne (hne : l.ethHash ≠ hash) :
    txLog (replaceLogs logs hash r txIndex base) l = txLog logs l := by
  rw [txLog, logRows_replaceLogs_of_ne hne]
  rfl

/-- Of a run of numbers from `base` as many as `i` are below `base + i`. -/
theorem countP_range' (base n i : Nat) :
    (List.range' base n).countP (fun k => k < base + i) = min i n := by
  induction n with
  | zero => simp
  | succ n ih =>
      rw [List.range'_concat, List.countP_append, ih, List.countP_singleton]
      split
      next hlt =>
        have := of_decide_eq_true hlt
        omega
      next hge =>
        have := of_decide_eq_false (Bool.eq_false_iff.mpr hge)
        omega

/-- The rows of a receipt are of its logs. -/
theorem txLog_newLogs :
    (newLogs hash r txIndex base).map (txLog (replaceLogs logs hash r txIndex base))
      = placedLogs hash r := by
  refine List.ext_getElem (by simp [newLogs, placedLogs]) fun i hi hi' => ?_
  have hlen : i < r.logs.length := by simpa [newLogs] using hi
  have hposition : (logRows (replaceLogs logs hash r txIndex base) hash).countP
      (fun k => k.logIndex < base + i) = i := by
    rw [logRows_replaceLogs_self]
    have hindices : (newLogs hash r txIndex base).map LogEntry.logIndex
        = List.range' base r.logs.length := by
      rw [newLogs_logIndex, List.range'_eq_map_range]
    have hcount := countP_range' base r.logs.length i
    rw [← hindices, List.countP_map] at hcount
    exact hcount.trans (Nat.min_eq_left hlen.le)
  simp only [List.getElem_map, newLogs, placedLogs, List.getElem_mapIdx, txLog, logEntry,
    hposition]

end Rows

-- ============================================================== the writes

/-- A write leaves the rows, or replaces them by those of its receipt. -/
theorem logs_applyWrite (db : Db) (w : DbWrite) :
    (receiptOf db w = none ∧ (applyWrite db w).logs = db.logs)
      ∨ ∃ hash r txIndex base, receiptOf db w = some (hash, r)
        ∧ (applyWrite db w).logs = replaceLogs db.logs hash r txIndex base := by
  cases w with
  | index c =>
      by_cases h : skips (db.settled c.ethHash) c.receipt = true
      · refine Or.inl ⟨if_pos h, ?_⟩
        rw [applyWrite, indexOne, indexTx_skip h]
      · let counted := counters (openBlock db.blocks c.receipt c.timestamp) c.receipt.blockHeight
        refine Or.inr ⟨c.ethHash, c.receipt, counted.1, counted.2, if_neg h, ?_⟩
        rw [applyWrite, indexOne, indexTx_write h]
        rfl
  | upsert ethHash txMeta => exact Or.inl ⟨rfl, rfl⟩
  | bump ethHash => exact Or.inl ⟨rfl, rfl⟩
  | settle ethHash r =>
      rw [applyWrite, Db.settle, Db.setReceipt, receiptOf]
      cases db.txs.find? ethHash with
      | none => exact Or.inl ⟨rfl, rfl⟩
      | some row => exact Or.inr ⟨ethHash, r, 0, 0, rfl, rfl⟩

theorem keyed_applyWrite {db : Db} (h : Keyed db.logs) (w : DbWrite) :
    Keyed (applyWrite db w).logs := by
  rcases logs_applyWrite db w with ⟨-, heq⟩ | ⟨hash, r, txIndex, base, -, heq⟩
  · rw [heq]
    exact h
  · rw [heq]
    exact keyed_replaceLogs h

theorem keyed_run (ws : List DbWrite) : Keyed (ws.foldl applyWrite .empty).logs := by
  induction ws using List.reverseRecOn with
  | nil => exact List.nodup_nil
  | append_singleton ws w ih =>
      rw [List.foldl_append]
      exact keyed_applyWrite ih w

-- ================================================================ the page

instance : IsTrans LogEntry queryLe where
  trans a b c := by
    rintro (hab | ⟨hab, hab'⟩) (hbc | ⟨hbc, hbc'⟩)
    · exact Or.inl (Int64.lt_trans hab hbc)
    · exact Or.inl (hbc ▸ hab)
    · exact Or.inl (hab ▸ hbc)
    · refine Or.inr ⟨hab.trans hbc, ?_⟩
      rcases hab' with hlt | ⟨heq, hle⟩
      · rcases hbc' with hlt' | ⟨heq', -⟩
        · exact Or.inl (List.lt_trans hlt hlt')
        · exact Or.inl (heq' ▸ hlt)
      · rcases hbc' with hlt' | ⟨heq', hle'⟩
        · exact Or.inl (heq ▸ hlt')
        · exact Or.inr ⟨heq.trans heq', hle.trans hle'⟩

theorem toInt64_inj {h k : UInt64} (heq : h.toInt64 = k.toInt64) : h = k := by
  rw [← UInt64.toUInt64_toInt64 h, heq, UInt64.toUInt64_toInt64]

instance : Std.Total queryLe where
  total a b := by
    rcases Int64.lt_or_le a.blockHeight.toInt64 b.blockHeight.toInt64 with hlt | hge
    · exact Or.inl (Or.inl hlt)
    rcases Int64.lt_or_eq_of_le hge with hlt | heq
    · exact Or.inr (Or.inl hlt)
    have hheight := toInt64_inj heq
    by_cases hab : a.ethHash.bytes < b.ethHash.bytes
    · exact Or.inl (Or.inr ⟨hheight.symm, Or.inl hab⟩)
    by_cases hba : b.ethHash.bytes < a.ethHash.bytes
    · exact Or.inr (Or.inr ⟨hheight, Or.inl hba⟩)
    have hhash : a.ethHash = b.ethHash := FixedBytes.ext (List.le_antisymm hba hab)
    rcases Nat.le_total a.logIndex b.logIndex with hle | hle
    · exact Or.inl (Or.inr ⟨hheight.symm, Or.inr ⟨hhash, hle⟩⟩)
    · exact Or.inr (Or.inr ⟨hheight, Or.inr ⟨hhash.symm, hle⟩⟩)

section Page

variable {db : Db} {last : UInt64} {l m : LogEntry}

/-- The rows of a tick. -/
def tailPage (db : Db) (last : UInt64) : List LogEntry := db.queryRows (tailFilter last) 1000

/-- Its query is none that SQLite refuses. -/
theorem queryLogs_tailFilter (sqlite : Sqlite) :
    db.queryLogs sqlite (tailFilter last) 1000 = .ok (tailPage db last) := by
  have hfew : (tailFilter last).variables = 3 := rfl
  have hleast := sqlite.default_le
  exact if_neg (by omega)

/-- A height that the column holds as it is. -/
theorem toInt_toInt64 {h : UInt64} (hh : h.toNat < 2 ^ 63) : h.toInt64.toInt = h.toNat := by
  show h.toBitVec.toInt = _
  have hlt : 2 * h.toBitVec.toNat < 2 ^ 64 := by
    show 2 * h.toNat < 2 ^ 64
    omega
  exact BitVec.toInt_eq_toNat_of_lt hlt

/-- .. and one that it does not. -/
theorem toInt_toInt64_of_le {h : UInt64} (hh : 2 ^ 63 ≤ h.toNat) :
    h.toInt64.toInt = (h.toNat : Int) - 2 ^ 64 := by
  show h.toBitVec.toInt = _
  have hge : ¬ 2 * h.toBitVec.toNat < 2 ^ 64 := by
    show ¬ 2 * h.toNat < 2 ^ 64
    omega
  rw [BitVec.toInt_eq_toNat_cond, if_neg hge]
  rfl

theorem toInt_toInt64_neg {h : UInt64} (hh : 2 ^ 63 ≤ h.toNat) : h.toInt64.toInt < 0 := by
  have hbound := h.toNat_lt
  rw [toInt_toInt64_of_le hh]
  omega

theorem toInt_clampHeight (h : UInt64) :
    (clampHeight h).toInt = min h.toNat i64Max.toNat := by
  have hmin : (min h i64Max).toNat = min h.toNat i64Max.toNat := by
    show (if h ≤ i64Max then h else i64Max).toNat = _
    split
    next hle => exact (Nat.min_eq_left (UInt64.le_iff_toNat_le.mp hle)).symm
    next hgt =>
      have hlt := UInt64.lt_iff_toNat_lt.mp (UInt64.not_le.mp hgt)
      exact (Nat.min_eq_right hlt.le).symm
  have hmax : i64Max.toNat = 2 ^ 63 - 1 := rfl
  rw [clampHeight, toInt_toInt64 (by omega), hmin]

/-- The rows that the tail asks for. -/
theorem selects_tailFilter : (tailFilter last).selects l = true
    ↔ min (last + 1).toNat i64Max.toNat ≤ l.blockHeight.toNat
      ∧ l.blockHeight.toNat ≤ i64Max.toNat := by
  have htopics : ((List.finRange 4).all fun i => ((tailFilter last).topics i).isEmpty
      || (l.topics[i.val]?).any fun t => ((tailFilter last).topics i).contains t) = true :=
    List.all_eq_true.mpr fun _ _ => rfl
  have hselects : (tailFilter last).selects l
      = (decide (clampHeight (last + 1) ≤ l.blockHeight.toInt64)
        && decide (l.blockHeight.toInt64 ≤ clampHeight i64Max)) := by
    rw [LogFilter.selects, htopics, Bool.and_true]
    exact Bool.and_true _
  rw [hselects, Bool.and_eq_true_iff, decide_eq_true_iff, decide_eq_true_iff,
    Int64.le_iff_toInt_le, Int64.le_iff_toInt_le, toInt_clampHeight, toInt_clampHeight]
  have hmax : i64Max.toNat = 2 ^ 63 - 1 := rfl
  rcases Nat.lt_or_ge l.blockHeight.toNat (2 ^ 63) with hlt | hge
  · rw [toInt_toInt64 hlt]
    omega
  · have := toInt_toInt64_neg hge
    omega

theorem mem_tailPage (hm : m ∈ tailPage db last) :
    m ∈ db.logs ∧ (tailFilter last).selects m = true :=
  List.mem_filter.mp ((List.mem_insertionSort queryLe).mp (List.mem_of_mem_take hm))

/-- A row of a page is an `i64` high, and above the height passed or at the last
`i64`. -/
theorem height_tailPage (hlast : last.toNat < 2 ^ 63) (hm : m ∈ tailPage db last) :
    min (last.toNat + 1) (2 ^ 63 - 1) ≤ m.blockHeight.toNat ∧ m.blockHeight.toNat < 2 ^ 63 := by
  obtain ⟨hmin, hmax⟩ := selects_tailFilter.mp (mem_tailPage hm).2
  have htop : i64Max.toNat = 2 ^ 63 - 1 := rfl
  rw [UInt64.toNat_add] at hmin
  have hone : (1 : UInt64).toNat = 1 := rfl
  omega

/-- A page has a log once. -/
theorem nodup_tailPage (h : Keyed db.logs) :
    ((tailPage db last).map (txLog db.logs)).Nodup := by
  have hnodup : (tailPage db last).Nodup := by
    refine List.Nodup.sublist (List.take_sublist _ _) ?_
    refine (List.perm_insertionSort queryLe _).nodup_iff.mpr ?_
    exact (List.Nodup.of_map _ h).filter _
  refine List.Nodup.map_on (fun l hl m hm heq => ?_) hnodup
  exact txLog_inj h (mem_tailPage hl).1 (mem_tailPage hm).1 heq

instance lawfulOrderMaxUInt64 : Std.LawfulOrderMax UInt64 :=
  .of_max_le_iff
    (fun a b c => by
      show (if a ≤ b then b else a) ≤ c ↔ _
      simp only [UInt64.le_iff_toNat_le]
      split <;> omega)
    (fun a b => by
      show (if a ≤ b then b else a) = a ∨ (if a ≤ b then b else a) = b
      split
      next => exact Or.inr rfl
      next => exact Or.inl rfl)

/-- A tick finds nothing, or broadcasts its page and goes on from the top of
it. -/
theorem pollLogs_cases (sqlite : Sqlite) (db : Db) (last : UInt64) :
    (tailPage db last = [] ∧ db.pollLogs sqlite last = (last, []))
      ∨ ∃ top ∈ tailPage db last, db.pollLogs sqlite last = (top.blockHeight, tailPage db last)
        ∧ ∀ m ∈ tailPage db last, m.blockHeight ≤ top.blockHeight := by
  have hpoll : db.pollLogs sqlite last = if (tailPage db last).isEmpty then (last, [])
      else (((tailPage db last).map LogEntry.blockHeight).max?.getD (last + 1),
        tailPage db last) := by
    rw [Db.pollLogs, queryLogs_tailFilter]
  by_cases hempty : tailPage db last = []
  · refine Or.inl ⟨hempty, ?_⟩
    rw [hpoll, hempty]
    rfl
  · refine Or.inr ?_
    have hne : (tailPage db last).map LogEntry.blockHeight ≠ [] := fun h =>
      hempty (List.map_eq_nil_iff.mp h)
    obtain ⟨height, hheight⟩ := Option.isSome_iff_exists.mp (List.isSome_max?_of_ne_nil hne)
    obtain ⟨hmem, hmax⟩ := List.max?_eq_some_iff.mp hheight
    obtain ⟨top, htop, rfl⟩ := List.mem_map.mp hmem
    refine ⟨top, htop, ?_, fun m hm => hmax _ (List.mem_map_of_mem hm)⟩
    have hfull : ¬ (tailPage db last).isEmpty = true := fun h =>
      hempty (List.isEmpty_iff.mp h)
    rw [hpoll, if_neg hfull, hheight]
    rfl

end Page

-- =============================================================== the blocks

section Blocks

variable {s : FeedState} {l top : LogEntry}

/-- The page that a tick reads now. -/
def FeedState.page (s : FeedState) : List LogEntry := tailPage s.db s.lastLogsHeight

/-- What the page is the front of. -/
def FeedState.tail (s : FeedState) : List LogEntry :=
  (s.db.logs.filter (tailFilter s.lastLogsHeight).selects).insertionSort queryLe

theorem mem_waiting : l ∈ s.waiting ↔ l ∈ s.db.logs ∧ s.lastLogsHeight < l.blockHeight
    ∧ l.blockHeight.toNat < 2 ^ 63 := by
  rw [FeedState.waiting, List.mem_filter, decide_eq_true_iff]

/-- It is what is waiting. -/
theorem perm_tail (hlast : s.lastLogsHeight.toNat < 2 ^ 63 - 1) : s.tail.Perm s.waiting := by
  have hmax : i64Max.toNat = 2 ^ 63 - 1 := rfl
  have hone : (1 : UInt64).toNat = 1 := rfl
  have hfilter : s.db.logs.filter (tailFilter s.lastLogsHeight).selects = s.waiting := by
    refine List.filter_congr fun l _ => Bool.eq_iff_iff.mpr ?_
    rw [selects_tailFilter, decide_eq_true_iff, UInt64.lt_iff_toNat_lt, UInt64.toNat_add]
    omega
  rw [← hfilter]
  exact List.perm_insertionSort queryLe _

/-- .. by height. -/
theorem sorted_tail : s.tail.Pairwise fun a b => a.blockHeight.toNat ≤ b.blockHeight.toNat := by
  have hlow : ∀ m ∈ s.tail, m.blockHeight.toNat < 2 ^ 63 := by
    intro m hm
    have hselects := (List.mem_filter.mp ((List.mem_insertionSort queryLe).mp hm)).2
    have hmax : i64Max.toNat = 2 ^ 63 - 1 := rfl
    have := (selects_tailFilter.mp hselects).2
    omega
  refine List.Pairwise.imp_of_mem ?_ (List.pairwise_insertionSort queryLe _)
  rintro a b ha hb (hlt | ⟨heq, -⟩)
  · rw [Int64.lt_iff_toInt_lt, toInt_toInt64 (hlow a ha), toInt_toInt64 (hlow b hb)] at hlt
    omega
  · rw [heq]

/-- Of the blocks that an uncut page reaches it has all rows. -/
theorem mem_page_of_le (hlast : s.lastLogsHeight.toNat < 2 ^ 63 - 1) (huncut : ¬ Cut s)
    (htop : top ∈ s.page) (hl : l ∈ s.waiting)
    (hle : l.blockHeight.toNat ≤ top.blockHeight.toNat) : l ∈ s.page := by
  by_contra hout
  have htail : l ∈ s.tail := (perm_tail hlast).mem_iff.mpr hl
  obtain ⟨hbelow, hupTo⟩ := group_cut sorted_tail htail hout htop hle
  rw [(perm_tail hlast).countP_eq] at hbelow hupTo
  exact huncut ⟨l.blockHeight.toNat, hbelow, hupTo⟩

/-- A cut page leaves out a row that is not above all of it. -/
theorem exists_of_cut (h : Keyed s.db.logs) (hlast : s.lastLogsHeight.toNat < 2 ^ 63 - 1)
    (hcut : Cut s) : ∃ top ∈ s.page, ∃ l ∈ s.waiting, l ∉ s.page
      ∧ l.blockHeight.toNat ≤ top.blockHeight.toNat := by
  obtain ⟨height, hbelow, hupTo⟩ := hcut
  rw [← (perm_tail hlast).countP_eq] at hbelow hupTo
  obtain ⟨⟨top, htop, htopHeight⟩, l, hl, hheight⟩ := exists_of_group_cut hbelow hupTo
  have hnodup : s.tail.Nodup :=
    (List.perm_insertionSort queryLe _).nodup_iff.mpr ((List.Nodup.of_map _ h).filter _)
  refine ⟨top, htop, l, (perm_tail hlast).mem_iff.mp (List.mem_of_mem_drop hl), ?_,
    hheight.trans htopHeight⟩
  intro hpage
  exact List.disjoint_take_drop hnodup le_rfl hpage hl

end Blocks

-- =============================================================== the steps

section Steps

variable {sqlite : Sqlite} {s s' : FeedState} {l : LogEntry}

/-- What the steps that meet the condition keep. -/
structure FeedInv (s : FeedState) : Prop where
  keyed : Keyed s.db.logs
  sound : FeedSound s
  /-- No log that is waiting was broadcast. -/
  fresh : ∀ l ∈ s.waiting, txLog s.db.logs l ∉ s.broadcast
  start_le : s.start ≤ s.lastLogsHeight
  last_lt : s.lastLogsHeight.toNat < 2 ^ 63

theorem maxIndexedHeight_lt (db : Db) : db.maxIndexedHeight.toNat < 2 ^ 63 := by
  rw [Db.maxIndexedHeight]
  split
  next => decide
  next h _ =>
    have hnonneg : 0 ≤ (max h 0).toInt := by
      rw [← Int64.toInt_zero, ← Int64.le_iff_toInt_le]
      show (0 : Int64) ≤ if h ≤ 0 then 0 else h
      split
      next => exact Int64.le_refl _
      next hgt => exact Int64.le_of_lt (Int64.not_le.mp hgt)
    have hlt := (max h 0).toInt_lt
    by_contra hge
    have hneg := toInt_toInt64_neg (Nat.le_of_not_lt hge)
    rw [Int64.toInt64_toUInt64] at hneg
    omega

theorem feedInv_init (ws : List DbWrite) : FeedInv (.init (ws.foldl applyWrite .empty)) where
  keyed := keyed_run ws
  sound :=
    { told := fun _ _ hstart hlast => absurd hlast (UInt64.not_le.mpr hstart)
      once := List.nodup_nil }
  fresh := fun _ _ hmem => absurd hmem List.not_mem_nil
  start_le := UInt64.le_refl _
  last_lt := maxIndexedHeight_lt _

/-- The rows of a write are new ones of the logs it places, at their height. -/
theorem placed_rows {db : Db} {w : DbWrite} {hash : B256} {r : ReceiptRow}
    (hreceipt : receiptOf db w = some (hash, r)) :
    (∀ t ∈ placedLogs hash r, ∃ l ∈ (applyWrite db w).logs, l.blockHeight = r.blockHeight
        ∧ txLog (applyWrite db w).logs l = t)
      ∧ ∀ l ∈ (applyWrite db w).logs,
        (l.blockHeight = r.blockHeight ∧ txLog (applyWrite db w).logs l ∈ placedLogs hash r)
          ∨ (l ∈ db.logs ∧ txLog (applyWrite db w).logs l = txLog db.logs l) := by
  rcases logs_applyWrite db w with ⟨hnone, -⟩ | ⟨hash', r', txIndex, base, hsome, hlogs⟩
  · cases hnone.symm.trans hreceipt
  obtain ⟨rfl, rfl⟩ := Prod.mk.inj (Option.some.inj (hsome.symm.trans hreceipt))
  have hheight : ∀ l ∈ newLogs hash' r' txIndex base, l.blockHeight = r'.blockHeight := by
    intro l hl
    obtain ⟨i, hi, rfl⟩ := List.mem_mapIdx.mp hl
    rfl
  have hplaced : (newLogs hash' r' txIndex base).map
      (txLog (replaceLogs db.logs hash' r' txIndex base)) = placedLogs hash' r' := txLog_newLogs
  rw [hlogs, ← hplaced]
  constructor
  · intro t ht
    obtain ⟨l, hl, rfl⟩ := List.mem_map.mp ht
    exact ⟨l, List.mem_append_right _ hl, hheight l hl, rfl⟩
  · intro l hl
    rcases List.mem_append.mp hl with hold | hnew
    · obtain ⟨hold, hother⟩ := List.mem_filter.mp hold
      exact Or.inr ⟨hold, txLog_replaceLogs_of_ne (of_decide_eq_true hother)⟩
    · exact Or.inl ⟨hheight l hnew, List.mem_map_of_mem hnew⟩

/-- A write that meets the condition. -/
theorem feedInv_write {w : DbWrite} (h : FeedInv s) (hlate : ¬ Late s w) (hmoved : ¬ Moved s w)
    (hstep : s.step sqlite (.write w) = some s') : FeedInv s' := by
  cases hstep
  cases hreceipt : receiptOf s.db w with
  | none =>
      -- the rows stay
      rcases logs_applyWrite s.db w with ⟨-, hlogs⟩ | ⟨hash, r, _, _, hsome, -⟩
      · refine ⟨?_, ⟨?_, h.sound.once⟩, ?_, h.start_le, h.last_lt⟩
        · exact keyed_applyWrite h.keyed w
        · show ∀ l ∈ (applyWrite s.db w).logs, _
          rw [hlogs]
          exact h.sound.told
        · intro l hl
          rw [mem_waiting] at hl
          have hl' : l ∈ s.waiting := mem_waiting.mpr (hlogs ▸ hl)
          show txLog (applyWrite s.db w).logs l ∉ s.broadcast
          rw [hlogs]
          exact h.fresh l hl'
      · cases hreceipt.symm.trans hsome
  | some placed =>
      obtain ⟨hash, r⟩ := placed
      obtain ⟨-, hrows⟩ := placed_rows hreceipt
      refine ⟨keyed_applyWrite h.keyed w, ⟨?_, h.sound.once⟩, ?_, h.start_le, h.last_lt⟩
      · intro l hl hstart hlast
        rcases hrows l hl with ⟨hheight, hplaced⟩ | ⟨hold, heq⟩
        · by_contra hout
          exact hlate ⟨hash, r, hreceipt, hheight ▸ hstart, hheight ▸ hlast, _, hplaced, hout⟩
        · rw [heq]
          exact h.sound.told l hold hstart hlast
      · intro l hl
        obtain ⟨hl, habove, hlow⟩ := mem_waiting.mp hl
        rcases hrows l hl with ⟨hheight, hplaced⟩ | ⟨hold, heq⟩
        · intro htold
          exact hmoved ⟨hash, r, hreceipt, hheight ▸ habove, hheight ▸ hlow, _, hplaced, htold⟩
        · rw [heq]
          exact h.fresh l (mem_waiting.mpr ⟨hold, habove, hlow⟩)

/-- A tick leaves the feed as it is, or broadcasts its page and goes on from
the top of it. -/
theorem tick_cases (hstep : s.step sqlite .tick = some s') :
    (s.page = [] ∧ s' = s)
      ∨ ∃ top ∈ s.page, (∀ m ∈ s.page, m.blockHeight ≤ top.blockHeight)
        ∧ s' = { s with
            lastLogsHeight := top.blockHeight
            broadcast := s.broadcast ++ s.page.map (txLog s.db.logs) } := by
  rcases pollLogs_cases sqlite s.db s.lastLogsHeight with
    ⟨hempty, hpoll⟩ | ⟨top, htop, hpoll, hmax⟩
  · simp only [FeedState.step, hpoll, List.map_nil, List.append_nil, Option.some.injEq] at hstep
    exact Or.inl ⟨hempty, hstep.symm⟩
  · simp only [FeedState.step, hpoll, Option.some.injEq] at hstep
    exact Or.inr ⟨top, htop, hmax, hstep.symm⟩

/-- Before the last height a page is of waiting rows. -/
theorem waiting_of_page (hlast : s.lastLogsHeight.toNat < 2 ^ 63 - 1) (hl : l ∈ s.page) :
    l ∈ s.waiting :=
  (perm_tail hlast).mem_iff.mp (List.mem_of_mem_take hl)

/-- A tick that meets the condition. -/
theorem feedInv_tick (h : FeedInv s) (huncut : ¬ Cut s) (hend : ¬ AtEnd s)
    (hstep : s.step sqlite .tick = some s') : FeedInv s' := by
  rcases tick_cases hstep with ⟨-, rfl⟩ | ⟨top, htop, hmax, rfl⟩
  · exact h
  obtain ⟨habove, htopLow⟩ := height_tailPage h.last_lt htop
  have hlast : s.lastLogsHeight.toNat < 2 ^ 63 - 1 := by
    -- at the last height there would be a row there
    by_contra hge
    have hmaxNat : i64Max.toNat = 2 ^ 63 - 1 := rfl
    have hlow := h.last_lt
    refine hend ⟨UInt64.toNat_inj.mp (by omega), top, (mem_tailPage htop).1, ?_⟩
    exact UInt64.toNat_inj.mp (by omega)
  have hgrows : s.lastLogsHeight < top.blockHeight := UInt64.lt_iff_toNat_lt.mpr (by omega)
  refine ⟨h.keyed, ⟨?_, ?_⟩, ?_, ?_, htopLow⟩
  · intro l hl hstart hle
    refine List.mem_append.mpr ?_
    by_cases hpassed : l.blockHeight ≤ s.lastLogsHeight
    · exact Or.inl (h.sound.told l hl hstart hpassed)
    · have hleNat := UInt64.le_iff_toNat_le.mp hle
      have hwaits : l ∈ s.waiting :=
        mem_waiting.mpr ⟨hl, UInt64.not_le.mp hpassed, lt_of_le_of_lt hleNat htopLow⟩
      exact Or.inr (List.mem_map_of_mem (mem_page_of_le hlast huncut htop hwaits hleNat))
  · refine List.nodup_append'.mpr ⟨h.sound.once, nodup_tailPage h.keyed, ?_⟩
    intro t hold hpage
    obtain ⟨m, hm, rfl⟩ := List.mem_map.mp hpage
    exact h.fresh m (waiting_of_page hlast hm) hold
  · intro l hl hmem
    obtain ⟨hl, habove, hlow⟩ := mem_waiting.mp hl
    rcases List.mem_append.mp hmem with hold | hpage
    · exact h.fresh l (mem_waiting.mpr ⟨hl, UInt64.lt_trans hgrows habove, hlow⟩) hold
    · obtain ⟨m, hm, heq⟩ := List.mem_map.mp hpage
      obtain rfl := txLog_inj h.keyed (mem_tailPage hm).1 hl heq
      exact absurd (hmax m hm) (UInt64.not_le.mpr habove)
  · exact UInt64.le_trans h.start_le (UInt64.le_of_lt hgrows)

/-- A step that meets the condition keeps the invariant. -/
theorem feedInv_step {a : FeedAct} (h : FeedInv s) (hstep : s.step sqlite a = some s')
    (hkept : FeedKept s a) : FeedInv s' := by
  cases a with
  | write w => exact feedInv_write h hkept.1 hkept.2 hstep
  | tick => exact feedInv_tick h hkept.1 hkept.2 hstep

end Steps

-- ============================================================ the exceptions

section Exceptions

variable {sqlite : Sqlite} {s s' : FeedState} {w : DbWrite}

/-- A log placed at a height passed is lost at once. -/
theorem lost_of_late (hlate : Late s w) (hstep : s.step sqlite (.write w) = some s') :
    ¬ FeedSound s' := by
  cases hstep
  obtain ⟨hash, r, hreceipt, hstart, hlast, t, ht, hout⟩ := hlate
  obtain ⟨l, hl, hheight, rfl⟩ := (placed_rows hreceipt).1 t ht
  exact fun hsound => hout (hsound.told l hl (hheight ▸ hstart) (hheight ▸ hlast))

/-- .. and so is what is cut off a page. -/
theorem lost_of_cut (h : FeedInv s) (hcut : Cut s) (hstep : s.step sqlite .tick = some s') :
    ¬ FeedSound s' := by
  have hlast : s.lastLogsHeight.toNat < 2 ^ 63 - 1 := by
    obtain ⟨height, -, hmany⟩ := hcut
    obtain ⟨l, hl, -⟩ := List.countP_pos_iff.mp (Nat.zero_lt_of_lt hmany)
    obtain ⟨-, habove, hlow⟩ := mem_waiting.mp hl
    have := UInt64.lt_iff_toNat_lt.mp habove
    omega
  obtain ⟨m, hm, l, hl, hout, hle⟩ := exists_of_cut h.keyed hlast hcut
  obtain ⟨hmem, habove, -⟩ := mem_waiting.mp hl
  rcases tick_cases hstep with ⟨hempty, -⟩ | ⟨top, htop, hmax, rfl⟩
  · rw [hempty] at hm
    cases hm
  intro hsound
  have hleTop : l.blockHeight ≤ top.blockHeight :=
    UInt64.le_trans (UInt64.le_iff_toNat_le.mpr hle) (hmax m hm)
  have hstart : s.start < l.blockHeight := UInt64.lt_of_le_of_lt h.start_le habove
  rcases List.mem_append.mp (hsound.told l hmem hstart hleTop) with hold | hpage
  · exact h.fresh l hl hold
  · obtain ⟨k, hk, heq⟩ := List.mem_map.mp hpage
    obtain rfl := txLog_inj h.keyed (mem_tailPage hk).1 hmem heq
    exact hout hk

/-- A page with a log broadcast before repeats it. -/
theorem repeated_of_page {l : LogEntry} (hl : l ∈ s.page)
    (htold : txLog s.db.logs l ∈ s.broadcast) (hstep : s.step sqlite .tick = some s') :
    ¬ FeedSound s' := by
  rcases tick_cases hstep with ⟨hempty, -⟩ | ⟨top, -, -, rfl⟩
  · rw [hempty] at hl
    cases hl
  · intro hsound
    exact (List.nodup_append'.mp hsound.once).2.2 htold (List.mem_map_of_mem hl)

/-- A row at the last height is on every page. -/
theorem page_of_atEnd {l : LogEntry} (hlast : s.lastLogsHeight = i64Max) (hl : l ∈ s.db.logs)
    (hheight : l.blockHeight = i64Max) : s.page ≠ [] := by
  intro hempty
  have hmem : l ∈ s.tail := by
    refine (List.mem_insertionSort queryLe).mpr (List.mem_filter.mpr ⟨hl, ?_⟩)
    refine selects_tailFilter.mpr ?_
    rw [hlast, hheight]
    exact ⟨Nat.min_le_right _ _, le_rfl⟩
  have hnone : s.tail.take 1000 = [] := hempty
  rcases List.take_eq_nil_iff.mp hnone with hzero | hnil
  · cases hzero
  · rw [hnil] at hmem
    cases hmem

/-- .. so that the second tick repeats what the first one read. -/
theorem repeated_of_atEnd (hend : AtEnd s) : Spoils sqlite s .tick := by
  obtain ⟨hlast, l, hl, hheight⟩ := hend
  obtain ⟨s₁, hfirst⟩ : ∃ s₁, s.step sqlite .tick = some s₁ := ⟨_, rfl⟩
  obtain ⟨s₂, hsecond⟩ : ∃ s₂, s₁.step sqlite .tick = some s₂ := ⟨_, rfl⟩
  rcases tick_cases hfirst with ⟨hempty, -⟩ | ⟨top, htop, -, heq⟩
  · exact absurd hempty (page_of_atEnd hlast hl hheight)
  have hsame : top.blockHeight = s.lastLogsHeight := by
    have hmax : i64Max.toNat = 2 ^ 63 - 1 := rfl
    have hlow : s.lastLogsHeight.toNat < 2 ^ 63 := by rw [hlast]; decide
    obtain ⟨habove, htopLow⟩ := height_tailPage hlow htop
    rw [hlast] at habove ⊢
    exact UInt64.toNat_inj.mp (by omega)
  have hpage : top ∈ s₁.page := by
    rw [heq, hsame]
    exact htop
  have htold : txLog s₁.db.logs top ∈ s₁.broadcast := by
    rw [heq]
    exact List.mem_append_right _ (List.mem_map_of_mem htop)
  refine ⟨1, fun hall => ?_⟩
  rw [always_cons_some hfirst, List.replicate_one, always_cons_some hsecond] at hall
  exact repeated_of_page hpage htold hsecond hall.2.1

/-- A log broadcast before that waits again is repeated by some tick, unless
one cuts a block. -/
theorem repeated_of_waiting (n : Nat) {l : LogEntry} (hl : l ∈ s.waiting)
    (htold : txLog s.db.logs l ∈ s.broadcast)
    (hn : l.blockHeight.toNat - s.lastLogsHeight.toNat ≤ n) :
    ¬ Always (FeedState.step sqlite) (fun s a s' => FeedSound s' ∧ (a = .tick → ¬ Cut s)) s
      (List.replicate n .tick) := by
  obtain ⟨hmem, habove, hlow⟩ := mem_waiting.mp hl
  have haboveNat := UInt64.lt_iff_toNat_lt.mp habove
  have hlast : s.lastLogsHeight.toNat < 2 ^ 63 - 1 := by omega
  induction n generalizing s with
  | zero => omega
  | succ n ih =>
      intro hall
      obtain ⟨s₁, hstep⟩ : ∃ s₁, s.step sqlite .tick = some s₁ := ⟨_, rfl⟩
      rw [List.replicate_succ, always_cons_some hstep] at hall
      obtain ⟨⟨hsound, huncut⟩, hrest⟩ := hall
      rcases tick_cases hstep with ⟨hempty, -⟩ | ⟨top, htop, -, heq⟩
      · have hnone : s.tail.take 1000 = [] := hempty
        rcases List.take_eq_nil_iff.mp hnone with hzero | hnil
        · cases hzero
        · have htail := (perm_tail hlast).mem_iff.mpr hl
          rw [hnil] at htail
          cases htail
      · by_cases hle : l.blockHeight.toNat ≤ top.blockHeight.toNat
        · have hpage := mem_page_of_le hlast (huncut rfl) htop hl hle
          exact repeated_of_page hpage htold hstep hsound
        · -- the tick stays below the row
          have hgrows := (height_tailPage (hlast.trans (by decide)) htop).1
          have hlast₁ : s₁.lastLogsHeight = top.blockHeight := by rw [heq]
          have hdb : s₁.db = s.db := by rw [heq]
          have habove₁ : s₁.lastLogsHeight < l.blockHeight := by
            rw [hlast₁]
            exact UInt64.lt_iff_toNat_lt.mpr (Nat.lt_of_not_le hle)
          have hmem₁ : l ∈ s₁.db.logs := hdb ▸ hmem
          have htold₁ : txLog s₁.db.logs l ∈ s₁.broadcast := by
            rw [heq]
            exact List.mem_append_left _ htold
          have haboveNat₁ := UInt64.lt_iff_toNat_lt.mp habove₁
          refine ih (mem_waiting.mpr ⟨hmem₁, habove₁, hlow⟩) htold₁ ?_ hmem₁ habove₁ haboveNat₁ ?_
            hrest
          · rw [hlast₁]
            omega
          · omega

/-- Every step that does not meet the condition goes wrong. -/
theorem spoils_of_not_kept {a : FeedAct} (h : FeedInv s) (hnot : ¬ FeedKept s a) :
    Spoils sqlite s a := by
  cases a with
  | write w =>
      have hstep : s.step sqlite (.write w) = some _ := rfl
      by_cases hlate : Late s w
      · refine ⟨0, fun hall => ?_⟩
        rw [always_cons_some hstep] at hall
        exact lost_of_late hlate hstep hall.1.1
      · obtain ⟨hash, r, hreceipt, habove, hlow, t, ht, htold⟩ :=
          not_not.mp fun hmoved => hnot ⟨hlate, hmoved⟩
        obtain ⟨l, hl, hheight, rfl⟩ := (placed_rows hreceipt).1 t ht
        refine ⟨l.blockHeight.toNat - s.lastLogsHeight.toNat, fun hall => ?_⟩
        rw [always_cons_some hstep] at hall
        refine repeated_of_waiting _ ?_ htold le_rfl hall.2
        exact mem_waiting.mpr ⟨hl, hheight ▸ habove, hheight ▸ hlow⟩
  | tick =>
      by_cases hcut : Cut s
      · have hstep : s.step sqlite .tick = some _ := rfl
        refine ⟨0, fun hall => ?_⟩
        rw [always_cons_some hstep] at hall
        exact lost_of_cut h hcut hstep hall.1
      · exact repeated_of_atEnd (not_not.mp fun hend => hnot ⟨hcut, hend⟩)

end Exceptions

-- ============================================================== the result

/-- A run whose steps meet the condition, in any order of writes and ticks and
from every index: the feed has lost and repeated nothing at any moment of it;
and any next step that does not meet the condition goes wrong. -/
theorem feed_sound_when (sqlite : Sqlite) (ws : List DbWrite) (acts : List FeedAct)
    (h : Always (FeedState.step sqlite) (fun s a _ => FeedKept s a)
      (.init (ws.foldl applyWrite .empty)) acts) :
    Always (FeedState.step sqlite) (fun _ _ s' => FeedSound s')
        (.init (ws.foldl applyWrite .empty)) acts
      ∧ ∀ a, ¬ FeedKept (afterAll (FeedState.step sqlite) (.init (ws.foldl applyWrite .empty)) acts)
          a →
        Spoils sqlite (afterAll (FeedState.step sqlite) (.init (ws.foldl applyWrite .empty)) acts)
          a := by
  constructor
  · refine always_imp FeedInv ?_ (feedInv_init ws) acts h
    intro s a s' hinv hstep hkept
    have hinv' := feedInv_step hinv hstep hkept
    exact ⟨hinv', hinv'.sound⟩
  · intro a hnot
    refine spoils_of_not_kept ?_ hnot
    exact inv_afterAll FeedInv (fun _ _ _ hinv hstep hkept => feedInv_step hinv hstep hkept)
      (feedInv_init ws) acts h

-- ==================================================== a tick within a block

/-- A receipt in block 5 with one log. -/
def loggedAtFive : ReceiptRow := { sampleReceipt 5 [0xaa] true with logs := [⟨0, [1], [], []⟩] }

/-- The hash of the second transaction of the block. -/
def secondHash : B256 := ⟨List.replicate 32 1, by simp⟩

/-- A transaction of block 5 is indexed. -/
def indexAtFive (hash : B256) : FeedAct := .write (.index ⟨hash, sampleMeta, loggedAtFive, 0⟩)

/-- The two transactions of the block are indexed, then the poller ticks; and
again, with the block that follows. -/
def wholeBlocks : List FeedAct :=
  [indexAtFive (.zero 32), indexAtFive secondHash, .tick,
   .write (.index ⟨⟨List.replicate 32 2, by simp⟩, sampleMeta,
     { loggedAtFive with blockHeight := 6 }, 0⟩), .tick]

section Samples

instance (s : FeedState) (w : DbWrite) : Decidable (Late s w) :=
  match h : receiptOf s.db w with
  | none => .isFalse fun ⟨_, _, hreceipt, _⟩ => nomatch h.symm.trans hreceipt
  | some (hash, r) =>
      decidable_of_iff (s.start < r.blockHeight ∧ r.blockHeight ≤ s.lastLogsHeight ∧
          ∃ t ∈ placedLogs hash r, t ∉ s.broadcast)
        ⟨fun hlate => ⟨hash, r, h, hlate⟩, fun ⟨hash', r', hreceipt, hlate⟩ => by
          obtain ⟨rfl, rfl⟩ := Prod.mk.inj (Option.some.inj (h.symm.trans hreceipt))
          exact hlate⟩

instance (s : FeedState) (w : DbWrite) : Decidable (Moved s w) :=
  match h : receiptOf s.db w with
  | none => .isFalse fun ⟨_, _, hreceipt, _⟩ => nomatch h.symm.trans hreceipt
  | some (hash, r) =>
      decidable_of_iff (s.lastLogsHeight < r.blockHeight ∧ r.blockHeight.toNat < 2 ^ 63 ∧
          ∃ t ∈ placedLogs hash r, t ∈ s.broadcast)
        ⟨fun hmoved => ⟨hash, r, h, hmoved⟩, fun ⟨hash', r', hreceipt, hmoved⟩ => by
          obtain ⟨rfl, rfl⟩ := Prod.mk.inj (Option.some.inj (h.symm.trans hreceipt))
          exact hmoved⟩

instance (s : FeedState) : Decidable (AtEnd s) := inferInstanceAs (Decidable (_ ∧ _))

/-- Up to 1000 rows are not cut. -/
theorem not_cut_of_few {s : FeedState} (h : s.waiting.length ≤ 1000) : ¬ Cut s := by
  rintro ⟨height, -, hmany⟩
  exact absurd (hmany.trans_le (List.countP_le_length.trans h)) (lt_irrefl _)

theorem wholeBlocks_kept : Always (FeedState.step sampleSqlite) (fun s a _ => FeedKept s a)
    (.init .empty) wholeBlocks := by
  refine ⟨⟨by decide, by decide⟩, ⟨by decide, by decide⟩, ⟨not_cut_of_few (by decide), by decide⟩,
    ⟨by decide, by decide⟩, ⟨not_cut_of_few (by decide), by decide⟩, trivial⟩

/-- All three logs are broadcast, each once; a third transaction of block 5
would come too late. -/
theorem wholeBlocks_sound :
    Always (FeedState.step sampleSqlite) (fun _ _ s' => FeedSound s') (.init .empty) wholeBlocks
      ∧ (afterAll (FeedState.step sampleSqlite) (.init .empty) wholeBlocks).broadcast.length = 3
      ∧ Spoils sampleSqlite (afterAll (FeedState.step sampleSqlite) (.init .empty) wholeBlocks)
          (indexAtFive ⟨List.replicate 32 3, by simp⟩) := by
  obtain ⟨hsound, hspoils⟩ := feed_sound_when sampleSqlite [] wholeBlocks wholeBlocks_kept
  refine ⟨hsound, by decide, hspoils _ fun hkept => ?_⟩
  exact hkept.1 (by decide)

end Samples

/-- The two transactions of a block are indexed, and the poller ticks in
between and behind. -/
def splitBlock : List FeedAct := [indexAtFive (.zero 32), .tick, indexAtFive secondHash, .tick]

/-- The log of the second is not broadcast. -/
theorem splitBlock_lost :
    ¬ Always (FeedState.step sampleSqlite) (fun _ _ s' => FeedSound s') (.init .empty)
      splitBlock := by
  rintro ⟨-, -, -, hlost, -⟩
  have htold := hlost.told (logEntry secondHash loggedAtFive 1 1 0 ⟨0, [1], [], []⟩) (by decide)
    (by decide) (by decide)
  exact absurd htold (by decide)

end KoinosEvm.Proofs
