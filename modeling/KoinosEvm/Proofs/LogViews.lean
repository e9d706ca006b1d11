/-
`eth_getLogs` answers with the log objects of the receipts.

A log object is rendered twice: by `log_row_to_json` from a row of the log
table, and by `receipt_to_json` from a receipt and a log of it. A row repeats
the receipt columns of its transaction in every store that writes lead to
(`Parented`), so the two are one object (`logRowToJson_receipt`). So whatever
is asked for, an answer of `eth_getLogs` is made of log objects of receipts;
and asked for the logs of one height it has those of the block's receipts, all
of them, each as often as there (`getLogs_receipts`).
-/
import KoinosEvm.Proofs.TxViews

namespace KoinosEvm.Proofs

open Lib Proxy

/-- The log objects of a receipt object. -/
def logsIn (receipt : Value) : List Value := ((receipt.get "logs").bind Value.asArray).getD []

-- ================================================================= one log

section Row

variable [HexCrate] {backend : ViewBackend} {l : LogEntry} {h : UInt64} {e : Entry}

/-- The receipt of a row's transaction has the row's object. -/
theorem logRowToJson_receipt (hdb : Parented backend.db) (he : e ∈ entriesAt backend h)
    (hl : l ∈ logRows backend.db.logs e.hash) :
    logRowToJson l = receiptLogToJson e.hashS e.receipt l.toRow := by
  obtain ⟨-, -, hreceipt⟩ := entryAt_some (entryAt_hash he).1
  obtain ⟨s, hs, hrep⟩ := parented_iff.mp hdb e.hash l hl
  obtain ⟨s', hs', hr⟩ := Option.map_eq_some_iff.mp hreceipt
  rw [hs] at hs'
  cases hs'
  have hhash : l.ethHash = e.hash := of_decide_eq_true (List.mem_filter.mp hl).2
  unfold logRowToJson receiptLogToJson
  rw [hrep.blockHash, hrep.blockHeight, hrep.txIndex, hhash, ← hr]
  rfl

/-- The log objects of a transaction are its rows, rendered. -/
theorem logObjects_perm (hdb : Parented backend.db) (he : e ∈ entriesAt backend h) :
    e.logObjects.Perm ((logRows backend.db.logs e.hash).map logRowToJson) := by
  obtain ⟨-, -, hreceipt⟩ := entryAt_some (entryAt_hash he).1
  obtain ⟨s, hs, hr⟩ := Option.map_eq_some_iff.mp hreceipt
  have hlogs : e.receipt.logs = (backend.db.logsOf e.hash).map LogEntry.toRow := by rw [← hr]
  have hrender : (logRows backend.db.logs e.hash).map logRowToJson
      = ((logRows backend.db.logs e.hash).map LogEntry.toRow).map
          (receiptLogToJson e.hashS e.receipt) := by
    rw [List.map_map]
    exact List.map_congr_left fun l hl => logRowToJson_receipt hdb he hl
  rw [Entry.logObjects, hlogs, hrender]
  exact ((List.perm_insertionSort _ _).map _).map _

omit [HexCrate] in
/-- A row's transaction is settled at the row's height. -/
theorem mem_blockTxHashes_of_row (hdb : Parented backend.db) (hl : l ∈ backend.db.logs) :
    l.ethHash ∈ backend.db.blockTxHashes l.blockHeight := by
  obtain ⟨s, hs, hrep⟩ := parented_iff.mp hdb l.ethHash l
    (List.mem_filter.mpr ⟨hl, decide_eq_true rfl⟩)
  exact mem_blockTxHashes_iff.mpr ⟨s, hs, hrep.blockHeight.symm⟩

/-- Each row of the table is in a receipt. -/
theorem row_in_receipt (hdb : Parented backend.db) (hl : l ∈ backend.db.logs) :
    ∃ e ∈ entriesAt backend l.blockHeight, e.hash = l.ethHash ∧ logRowToJson l ∈ e.logObjects := by
  have hmem := mem_blockTxHashes_of_row hdb hl
  rw [← hash_entriesAt] at hmem
  obtain ⟨e, he, hhash⟩ := List.mem_map.mp hmem
  refine ⟨e, he, hhash, (logObjects_perm hdb he).mem_iff.mpr (List.mem_map_of_mem ?_)⟩
  exact List.mem_filter.mpr ⟨hl, decide_eq_true hhash.symm⟩

/-- The rows of a height are those of the block's receipts. -/
theorem blockRows_perm (hdb : Parented backend.db) (h : UInt64) :
    ((backend.db.logs.filter fun l => l.blockHeight = h).map logRowToJson).Perm
      ((entriesAt backend h).flatMap Entry.logObjects) := by
  have hrows : (backend.db.logs.filter fun l => l.blockHeight = h)
      = backend.db.logs.filter fun l => l.ethHash ∈ backend.db.blockTxHashes h := by
    apply List.filter_congr
    intro l hl
    obtain ⟨s, hs, hrep⟩ := parented_iff.mp hdb l.ethHash l
      (List.mem_filter.mpr ⟨hl, decide_eq_true rfl⟩)
    rw [hrep.blockHeight]
    simp [mem_blockTxHashes_iff, hs]
  have hnodup : (backend.db.blockTxHashes h).Nodup := blockTxHashes_nodup
  have hgroups := (perm_flatMap_filter LogEntry.ethHash backend.db.logs hnodup).map logRowToJson
  rw [hrows]
  refine hgroups.trans ?_
  rw [← hash_entriesAt, List.flatMap_map, List.map_flatMap]
  exact List.Perm.flatMap_left _ fun e he => (logObjects_perm hdb he).symm

end Row

-- ============================================================ the requests

/-- The parameters that ask for the logs of one height. -/
def oneHeight (h : UInt64) : Value :=
  .array [.object [("fromBlock", quantity h), ("toBlock", quantity h)]]

/-- Their filter. -/
def heightFilter (h : UInt64) : LogFilter := ⟨h, h, none, [], fun _ => []⟩

section Requests

variable {cfg : LogsConfig} {headInfo : Except String Value} {h : UInt64}

theorem startsWith_mark (s : String) : startsWith "0x" ("0x" ++ s) = true := by
  rw [startsWith, stripPrefix_append]
  rfl

theorem mark_ne_word (s : String) {word : String} (hword : startsWith "0x" word = false) :
    "0x" ++ s ≠ word := by
  rintro rfl
  rw [startsWith_mark] at hword
  cases hword

/-- A number is read as one. -/
theorem resolveBlockTag_quantity (n head : UInt64) :
    resolveBlockTag (quantity n) head = .ok n := by
  have hnamed : ∀ s : String, ¬ ("0x" ++ s = "latest" ∨ "0x" ++ s = "pending"
      ∨ "0x" ++ s = "safe" ∨ "0x" ++ s = "finalized") := by
    rintro s (hs | hs | hs | hs)
    · exact mark_ne_word s (by decide) hs
    · exact mark_ne_word s (by decide) hs
    · exact mark_ne_word s (by decide) hs
    · exact mark_ne_word s (by decide) hs
  rw [quantity, resolveBlockTag, if_neg (hnamed _), if_neg (mark_ne_word _ (by decide)),
    if_pos (startsWith_mark _)]
  exact parseQuantity_quantity n

theorem heightRange_oneHeight {range : UInt64 × UInt64}
    (hrange : heightRange cfg headInfo
      (.object [("fromBlock", quantity h), ("toBlock", quantity h)]) = .ok range) :
    range = (h, h) := by
  have hneeds : needsHead (some (quantity h)) = false := by
    show (!startsWith "0x" _) = false
    rw [startsWith_mark]
    rfl
  have hfrom : (Value.object [("fromBlock", quantity h), ("toBlock", quantity h)]).get "fromBlock"
      = some (quantity h) := rfl
  have hto : (Value.object [("fromBlock", quantity h), ("toBlock", quantity h)]).get "toBlock"
      = some (quantity h) := rfl
  unfold heightRange at hrange
  simp only [hfrom, hto, hneeds, Option.getD_some, resolveBlockTag_quantity, badParams,
    Bool.or_self, Bool.false_eq_true, if_false] at hrange
  obtain ⟨head, -, hrange⟩ := bind_ok hrange
  obtain ⟨fromBlock, hfromBlock, hrange⟩ := bind_ok hrange
  obtain ⟨toBlock, htoBlock, hrange⟩ := bind_ok hrange
  cases hfromBlock
  cases htoBlock
  split at hrange
  next => cases hrange
  next =>
    split at hrange
    next => cases hrange
    next => exact (Except.ok.inj hrange).symm

/-- It takes the rows of the height, where that is an `i64`. -/
theorem selects_heightFilter (hh : h.toNat < 2 ^ 63) (l : LogEntry) :
    (heightFilter h).selects l = decide (l.blockHeight = h) := by
  have hclamp : clampHeight h = h.toInt64 := by
    apply Int64.toInt_inj.mp
    have hmax : i64Max.toNat = 2 ^ 63 - 1 := rfl
    rw [toInt_clampHeight, toInt_toInt64 hh]
    omega
  have hselects : (heightFilter h).selects l = true
      ↔ clampHeight h ≤ l.blockHeight.toInt64 ∧ l.blockHeight.toInt64 ≤ clampHeight h := by
    simp only [LogFilter.selects, heightFilter, List.isEmpty_nil, Bool.true_or, Bool.and_true,
      List.all_eq_true, implies_true, Bool.and_eq_true, and_true]
    exact and_congr decide_eq_true_iff decide_eq_true_iff
  rw [Bool.eq_iff_iff, hselects, hclamp, decide_eq_true_iff]
  constructor
  · rintro ⟨hle, hge⟩
    exact toInt64_inj (Int64.le_antisymm hge hle)
  · rintro rfl
    exact ⟨Int64.le_refl _, Int64.le_refl _⟩

variable [HexCrate]

/-- The filter that `eth_getLogs` reads there. -/
theorem getLogsFilter_oneHeight {f : LogFilter}
    (hf : getLogsFilter cfg headInfo (oneHeight h) = .ok f) : f = heightFilter h := by
  have hread : getLogsFilter cfg headInfo (oneHeight h) = (do
      let range ← heightRange cfg headInfo
        (.object [("fromBlock", quantity h), ("toBlock", quantity h)])
      return ⟨range.1, range.2, none, [], fun _ => []⟩) := rfl
  rw [hread] at hf
  obtain ⟨range, hrange, hf⟩ := bind_ok hf
  rw [heightRange_oneHeight hrange] at hf
  exact (Except.ok.inj hf).symm

/-- An object of an answer is a row of the table, rendered. -/
theorem row_of_answer {db : Db} {f : LogFilter} {objs : List Value} {obj : Value}
    (h4 : ∀ l ∈ db.logs, l.topics.length ≤ 4)
    (hanswer : answerLogs cfg db f = .ok (.array objs)) (hobj : obj ∈ objs) :
    ∃ l ∈ db.logs, logRowToJson l = obj := by
  rw [answerLogs] at hanswer
  split at hanswer
  next => cases hanswer
  next limit _ =>
    split at hanswer
    next => cases hanswer
    next rows hrows =>
      rw [selectLogs_selectedRows h4 (variables_le h4 hrows), Except.ok.injEq] at hrows
      split at hanswer
      next => cases hanswer
      next =>
        cases hanswer
        obtain ⟨l, hl, rfl⟩ := List.mem_map.mp hobj
        rw [← hrows] at hl
        have hselected : l ∈ selectedRows db f := by
          split at hl
          next => exact List.mem_of_mem_take hl
          next => exact hl
        exact ⟨l, (mem_selectedRows.mp hselected).1, rfl⟩

end Requests

-- ============================================================== the answers

/-- What was written to the store, whatever the memory holds and the node
answers. An answer of `eth_getLogs`, to any parameters, is made of log objects
of receipts: each is in the receipt that `eth_getTransactionReceipt` answers
for the transaction it names. Asked for the logs of one height below `2 ^ 63`
it has, in some order, exactly those of `eth_getBlockReceipts`, unless their
limit wraps around. -/
theorem getLogs_receipts [HexCrate] (backend : ViewBackend) (ws : List DbWrite) (sqlite : Sqlite)
    (maxBlockRange maxResults : UInt64) (joinError : Panic → String) :
    let b := { backend with db := ws.foldl applyWrite .empty }
    let getLogs := handleGetLogs (b.logs sqlite maxBlockRange maxResults joinError) b.db b.headInfo
    (∀ params objs, getLogs params = .ok (.array objs) → ∀ obj ∈ objs, ∃ hashS receipt,
      obj.get "transactionHash" = some (.string hashS)
        ∧ b.handleGetTxReceipt (.array [.string hashS]) = .ok (.ok (receipt, b.db))
        ∧ obj ∈ logsIn receipt) ∧
    (∀ h objs, h.toNat < 2 ^ 63 → b.checks = .on ∨ maxResults.toNat + 1 < 2 ^ 64 →
      getLogs (oneHeight h) = .ok (.array objs) → ∃ receipts,
        b.blockReceipts h = .ok (.array receipts) ∧ objs.Perm (receipts.flatMap logsIn)) := by
  intro b getLogs
  have hdb : Parented b.db := parented_run ws
  have h4 : ∀ l ∈ b.db.logs, l.topics.length ≤ 4 := topics_run ws
  refine ⟨?_, ?_⟩
  · intro params objs hanswer obj hobj
    obtain ⟨f, -, hanswer⟩ := bind_ok hanswer
    obtain ⟨l, hl, rfl⟩ := row_of_answer h4 hanswer hobj
    obtain ⟨e, he, hhash, hmem⟩ := row_in_receipt hdb hl
    refine ⟨e.hashS, e.receiptObject b.keccak, ?_, handleGetTxReceipt_entry he [], hmem⟩
    rw [Entry.hashS, hhash]
    rfl
  · intro h objs hh hfits hanswer
    obtain ⟨f, hf, hanswer⟩ := bind_ok hanswer
    cases getLogsFilter_oneHeight hf
    have hobjs := answerLogs_ok h4 hfits hanswer
    cases hobjs
    refine ⟨_, blockReceipts_entries b h, ?_⟩
    rw [List.flatMap_map]
    have hrows : b.db.logs.filter (heightFilter h).selects
        = b.db.logs.filter fun l => l.blockHeight = h :=
      List.filter_congr fun l _ => selects_heightFilter hh l
    have hsorted : ((selectedRows b.db (heightFilter h)).map logRowToJson).Perm
        ((b.db.logs.filter fun l => l.blockHeight = h).map logRowToJson) := by
      rw [selectedRows, hrows]
      exact (List.perm_insertionSort _ _).map _
    exact hsorted.trans (blockRows_perm hdb h)

-- =================================================================== a block

/-- A backend over a store, and a node that has block 5. -/
def sampleView (db : Db) : ViewBackend where
  keccak := fun bs => ⟨(bs ++ List.replicate 32 0).take 32, by simp⟩
  checks := .on
  b64 := ⟨fun _ => none, fun _ => none⟩
  sumError := ""
  minGasPriceWei := 0
  db := db
  txMeta := .new 1 1
  rest := fun path =>
    if path = "/block/5" then .ok (.object [("block", .object [])]) else .error ""
  headInfo := .error ""

/-- Its answer about the logs of block 5, with two transactions indexed. -/
def logsAtFive : Except RpcFailure Value :=
  handleGetLogs ((sampleView .empty).logs sampleSqlite 10000 10000 fun _ => "")
    (twoAtFive.foldl applyWrite .empty) (.error "") (oneHeight 5)

/-- Two log objects, each in the receipt of its transaction, are all that the
receipts of the block have. -/
theorem logsAtFive_receipts : ∃ objs receipts, logsAtFive = .ok (.array objs) ∧ objs.length = 2
    ∧ (∀ obj ∈ objs, ∃ hashS receipt, obj.get "transactionHash" = some (.string hashS)
      ∧ (sampleView (twoAtFive.foldl applyWrite .empty)).handleGetTxReceipt (.array [.string hashS])
        = .ok (.ok (receipt, twoAtFive.foldl applyWrite .empty))
      ∧ obj ∈ logsIn receipt)
    ∧ (sampleView (twoAtFive.foldl applyWrite .empty)).blockReceipts 5 = .ok (.array receipts)
    ∧ objs.Perm (receipts.flatMap logsIn) := by
  obtain ⟨hall, hheight⟩ := getLogs_receipts (sampleView .empty) twoAtFive sampleSqlite 10000 10000
    fun _ => ""
  have htwo : (logsAtFive.toOption.bind Value.asArray).map List.length = some 2 := by
    decide +kernel
  obtain ⟨objs, hobjs, hlen⟩ := Option.map_eq_some_iff.mp htwo
  have hanswer : logsAtFive = .ok (.array objs) := by
    cases hres : logsAtFive with
    | error e =>
        rw [hres] at hobjs
        cases hobjs
    | ok v =>
        rw [hres] at hobjs
        cases v <;> cases hobjs
        rfl
  obtain ⟨receipts, hreceipts, hperm⟩ := hheight 5 objs (by decide) (Or.inl rfl) hanswer
  exact ⟨objs, receipts, hanswer, hlen, hall (oneHeight 5) objs hanswer, hreceipts, hperm⟩

end KoinosEvm.Proofs
