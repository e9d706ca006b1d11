/-
A transaction from the contract's call to the receipt a client reads.

A submission that returned was a step of the ledger (`submit_ledger`), and
its events spell the step's outcome. The node keeps them in the receipt of
the Koinos transaction that carried the call. There are two ways from there
to `eth_getTransactionReceipt`: the indexer decodes a history entry and
writes a row (`indexedReceipt_tells`), or the proxy asks the node about a
transaction it relayed itself and has no row of yet
(`pendingReceipt_tells`). Both answer with the outcome of the ledger's step,
log by log (`Tells`): what carries both is that a receipt row with the
outcome's columns is told so, wherever it comes from (`RowTells.view`).
-/
import KoinosEvm.Proofs.Duplicates
import KoinosEvm.Proofs.EntryCoverage
import KoinosEvm.Proofs.ForeignEvents
import KoinosEvm.Proofs.Ledger
import KoinosEvm.Proofs.RawTxExtraction
import KoinosEvm.Proofs.SubmitTxJson
import KoinosEvm.Proofs.TxViews

namespace KoinosEvm.Proofs

open Engine Lib Proxy

-- ============================================================ what is told

section Told

variable [HexCrate]

/-- A log, as a receipt object has it. -/
structure TellsLog (log : Log) (v : Value) : Prop where
  address : v.get "address" = some (dataHex log.address.bytes)
  topics : v.get "topics" = some (.array (log.topics.map fun t => dataHex t.bytes))
  data : v.get "data" = some (dataHex log.data.bytes)

/-- A receipt object tells the outcome of a transaction of that block, with
its index there and that of its first log. -/
structure Tells (o : TxOutcome) (height : UInt64) (txIndex logBase : Nat) (v : Value) :
    Prop where
  blockNumber : v.get "blockNumber" = some (quantity height)
  transactionIndex : v.get "transactionIndex" = some (numberHex txIndex)
  status : v.get "status" = some (.string (if o.result.success then "0x1" else "0x0"))
  gasUsed : v.get "gasUsed" = some (quantity o.result.gasUsed)
  contractAddress : ∀ addr, o.result.contractAddress = some addr →
    v.get "contractAddress" = some (dataHex addr.bytes)
  logs : ∃ ls, v.get "logs" = some (.array ls) ∧ List.Forall₂ TellsLog o.logs ls ∧
    ls.map (fun l => l.get "logIndex")
      = (List.range o.logs.length).map fun i => some (numberHex (logBase + i))

/-- What the columns of a log's row hold of it. -/
def logContent (log : Log) : Bytes × List Bytes × Bytes :=
  (log.address.bytes, log.topics.map FixedBytes.bytes, log.data.bytes)

/-- A row with the outcome's columns. -/
structure RowTells (o : TxOutcome) (height : UInt64) (txIndex logBase : Nat) (r : ReceiptRow) :
    Prop where
  blockHeight : r.blockHeight = height
  txIndex : r.txIndex.getD 0 = txIndex
  status : r.status = o.result.success
  gasUsed : r.gasUsed = o.result.gasUsed
  contractAddress : r.contractAddress = o.result.contractAddress.map FixedBytes.bytes
  logs : r.logs.map contentOf = o.logs.map logContent
  logIndex : r.logs.map LogRow.logIndex = (List.range r.logs.length).map (logBase + ·)

variable {o : TxOutcome} {height : UInt64} {txIndex logBase : Nat} {r : ReceiptRow}

theorem tellsLog_row {log : Log} {row : LogRow} (h : contentOf row = logContent log)
    (hashS : String) : TellsLog log (receiptLogToJson hashS r row) := by
  injection h with haddress h
  injection h with htopics hdata
  refine ⟨?_, ?_, ?_⟩
  · exact congrArg (fun bs => some (dataHex bs)) haddress
  · have hmap : row.topics.map dataHex = log.topics.map fun t => dataHex t.bytes := by
      rw [htopics, List.map_map]
      rfl
    exact congrArg (fun vs => some (Value.array vs)) hmap
  · exact congrArg (fun bs => some (dataHex bs)) hdata

/-- Its receipt object tells the outcome, whatever the metadata. -/
theorem RowTells.view (h : RowTells o height txIndex logBase r) (keccak : Bytes → B256)
    (hashS : String) (txMeta : TxMeta) :
    Tells o height txIndex logBase (receiptToJson keccak hashS txMeta r) where
  blockNumber := congrArg (fun n => some (quantity n)) h.blockHeight
  transactionIndex := congrArg (fun n => some (numberHex n)) h.txIndex
  status := by
    rw [← h.status]
    rfl
  gasUsed := congrArg (fun n => some (quantity n)) h.gasUsed
  contractAddress := by
    intro addr haddr
    have hrow : r.contractAddress = some addr.bytes := by rw [h.contractAddress, haddr]; rfl
    have hvalue : receiptContract keccak txMeta r = dataHex addr.bytes := by
      rw [receiptContract, hrow]
    exact congrArg some hvalue
  logs := by
    refine ⟨r.logs.map (receiptLogToJson hashS r), rfl, ?_, ?_⟩
    swap
    · have hlen : o.logs.length = r.logs.length := by
        have hmapped := congrArg List.length h.logs
        rw [List.length_map, List.length_map] at hmapped
        exact hmapped.symm
      have hindices := congrArg (List.map fun n => some (numberHex n)) h.logIndex
      rw [List.map_map, List.map_map] at hindices
      rw [List.map_map, hlen]
      exact hindices
    have hpairs : List.Forall₂ (fun log row => contentOf row = logContent log) o.logs r.logs := by
      have heq : List.Forall₂ Eq (o.logs.map logContent) (r.logs.map contentOf) := by
        rw [List.forall₂_eq_eq_eq]
        exact h.logs.symm
      rw [List.forall₂_map_left_iff, List.forall₂_map_right_iff] at heq
      exact heq.imp fun _ _ => Eq.symm
    rw [List.forall₂_map_right_iff]
    exact hpairs.imp fun _ _ hrow => tellsLog_row hrow hashS

end Told

-- ============================================================== the decoder

/-- What the decoder makes of an outcome's events. -/
def TxOutcome.decoded (o : TxOutcome) : DecodedEvents where
  status := o.result.success
  gasUsed := o.result.gasUsed
  contractAddress := o.result.contractAddress.map FixedBytes.bytes
  logs := numbered 0 (o.logs.map logParts)

/-- The rows it numbers, by their place. -/
theorem numbered_eq_mapIdx (i : Nat) (parts : List LogParts) :
    numbered i parts
      = parts.mapIdx fun k p => ⟨i + k, p.address, p.topics, p.logData⟩ := by
  induction parts generalizing i with
  | nil => rfl
  | cons p rest ih =>
      rw [numbered, List.mapIdx_cons, ih]
      congr 1
      refine congrArg (fun f => List.mapIdx f rest) ?_
      funext k q
      rw [show i + 1 + k = i + (k + 1) by omega]

section Decoded

variable (o : TxOutcome)

theorem content_decoded : o.decoded.logs.map contentOf = o.logs.map logContent := by
  show (numbered 0 (o.logs.map logParts)).map contentOf = _
  rw [numbered_eq_mapIdx]
  refine List.ext_getElem (by simp) fun i hi hi' => ?_
  simp [contentOf, logContent, logParts]

theorem logIndex_decoded :
    o.decoded.logs.map LogRow.logIndex = (List.range o.decoded.logs.length).map (0 + ·) := by
  show (numbered 0 (o.logs.map logParts)).map LogRow.logIndex
    = (List.range (numbered 0 (o.logs.map logParts)).length).map (0 + ·)
  rw [numbered_eq_mapIdx]
  refine List.ext_getElem (by simp) fun i hi hi' => ?_
  simp

/-- A log has at most four topics, so the columns hold them all. -/
theorem topics_decoded : ∀ l ∈ o.decoded.logs, l.topics.length ≤ 4 := by
  intro l hl
  have hmem : contentOf l ∈ o.logs.map logContent := by
    rw [← content_decoded]
    exact List.mem_map_of_mem hl
  obtain ⟨log, -, heq⟩ := List.mem_map.mp hmem
  injection heq with _ heq
  injection heq with htopics _
  rw [← htopics, List.length_map]
  exact log.topics_le

/-- The decoded events, as a receipt of that block. -/
theorem rowTells_decoded {r : ReceiptRow} {height : UInt64} {txIndex logBase : Nat}
    (hheight : r.blockHeight = height) (htx : r.txIndex.getD 0 = txIndex)
    (hstatus : r.status = o.decoded.status) (hgas : r.gasUsed = o.decoded.gasUsed)
    (hcontract : r.contractAddress = o.decoded.contractAddress)
    (hlogs : r.logs.map contentOf = o.decoded.logs.map contentOf)
    (hindex : r.logs.map LogRow.logIndex = (List.range r.logs.length).map (logBase + ·)) :
    RowTells o height txIndex logBase r :=
  ⟨hheight, htx, hstatus, hgas, hcontract, hlogs.trans (content_decoded o), hindex⟩

variable {o}

/-- The receipt of a call with the outcome's events decodes to the outcome. -/
theorem decodeReceipt_outcome {b64 : Base64} {tr : List HostEv} {data : Bytes}
    {events : Option (List Value)} (checks : Checks)
    (hreceipt : Receipt b64 tr (.error (.success data)) events)
    (hev : eventsOf tr = o.events) : decodeReceiptEvents checks b64 events = .ok o.decoded := by
  obtain ⟨evs, rfl, hrendered⟩ := hreceipt
  rw [hev] at hrendered
  exact decodeReceiptEvents_rendered checks hrendered

end Decoded

-- ================================================================ the call

section Call

variable {chain : Chain} {build : Build} {revm : Revm} {rlp : AlloyRlp}
  {store store' : Store} {tr : List HostEv} {data : Bytes}

/-- The arguments that the proxy submits a raw transaction with. -/
theorem carries_submitArgs (raw : WasmBuf) :
    ∀ f ∈ [((1, .lengthDelimited raw.bytes) : Engine.Proto.Field)], Carries f := by
  intro f hf
  rw [List.mem_singleton.mp hf]
  exact ⟨Nat.one_ne_zero, by decide, lt_trans raw.fits (by decide)⟩

theorem fieldsOf_submitArgs (raw : WasmBuf) :
    Engine.Proto.fieldsOf (buildSubmitRawTxArgs raw.bytes)
      = [(1, .lengthDelimited raw.bytes)] := by
  have hwire := fieldsOf_wire (carries_submitArgs raw)
  rwa [List.flatMap_singleton, ← buildSubmitRawTxArgs_eq] at hwire

theorem stripRawTx_submitArgs (raw : WasmBuf) :
    stripRawTx (buildSubmitRawTxArgs raw.bytes) = raw.bytes := by
  rw [stripRawTx_eq, fieldsOf_submitArgs]
  rfl

/-- A call of them that exited with success was a step of the ledger, and
has the events of its outcome. -/
theorem submitted_outcome (hevm : build.evm = true) {raw : WasmBuf}
    (hexec : Exec (start build revm rlp) tr (.error (.success data)))
    (hobeys : Obeys chain ⟨Engine.EP_SUBMIT_RAW_TX, buildSubmitRawTxArgs raw.bytes⟩ store tr
      store') :
    ∃ o, LedgerStep chain.crypto revm rlp (chain.world store) raw.bytes o
        (chain.world store') ∧
      data = encodeResult o.result ∧ eventsOf tr = o.events := by
  obtain ⟨t, r, hrun, hobeys, hexit, hev⟩ := start_exits hexec hobeys
  rw [dispatch_submit hevm] at hrun
  cases r with
  | error x =>
      obtain ⟨msg, rfl⟩ := submit_aborts hrun
      cases hexit
  | ok reply =>
      injection hexit with hexit
      obtain ⟨o, hstep, hsays, hreply⟩ := submit_ledger hrun hobeys
      rw [stripRawTx_submitArgs] at hstep
      exact ⟨o, hstep, hexit.trans hreply, hev.trans hsays⟩

end Call

-- ============================================================= the indexer

/-- The arguments of the entry's submission, as `process_entry` finds
them. -/
def entryArgs (cfg : IndexerConfig) (entry : Value) : Option Bytes := do
  let tx ← entryTx entry
  let ops := ((tx.get "operations").bind Value.asArray).getD []
  let call ← (ops.filterMap (·.get "call_contract")).find? (isSubmitCall cfg.engineAddr)
  decodeB64Lax cfg.b64 (← call.getStr "args")

theorem entryRawTx_of_args {cfg : IndexerConfig} {entry : Value} {args : Bytes}
    (h : entryArgs cfg entry = some args) :
    entryRawTx cfg.checks cfg.b64 cfg.engineAddr entry = indexedRawTx cfg.checks args := by
  unfold entryArgs at h
  obtain ⟨tx, htx, h⟩ := Option.bind_eq_some_iff.mp h
  obtain ⟨call, hcall, h⟩ := Option.bind_eq_some_iff.mp h
  obtain ⟨text, htext, h⟩ := Option.bind_eq_some_iff.mp h
  unfold entryTx at htx
  unfold entryRawTx
  simp only [htx, hcall, htext, h, Option.bind_some]

/-- The indexer finds the raw transaction that was submitted. -/
theorem indexedRawTx_submitArgs (checks : Checks) (raw : WasmBuf) :
    indexedRawTx checks (buildSubmitRawTxArgs raw.bytes) = .ok (some raw.bytes) := by
  have hlen : (buildSubmitRawTxArgs raw.bytes).length < 2 ^ 63 := by
    have hwire := length_wire_le (1, .lengthDelimited raw.bytes)
    rw [← buildSubmitRawTxArgs_eq] at hwire
    have hraw := raw.fits
    simp only [toProto] at hwire
    omega
  have hitems : itemsOf checks (buildSubmitRawTxArgs raw.bytes)
      = [.ok (toProto (1, .lengthDelimited raw.bytes))] := by
    have hread := @itemsOf_wire checks _ (carries_submitArgs raw)
    rw [List.flatMap_singleton, ← buildSubmitRawTxArgs_eq] at hread
    exact hread hlen
  rw [indexedRawTx, hitems]
  rfl

section Indexed

variable {cfg : IndexerConfig} {rest : String → Except String Value} {st st' : IndexerState}
  {entry : Value} {height : UInt64} {raw : WasmBuf} {o : TxOutcome}

/-- What the indexer writes for such an entry: the outcome, as its own row,
numbered from what the block has counted. -/
theorem indexed_row [HexCrate]
    (hargs : entryArgs cfg entry = some (buildSubmitRawTxArgs raw.bytes))
    (hdecoded : decodeReceiptEvents cfg.checks cfg.b64 (entryEvents entry) = .ok o.decoded)
    (hindexed : processEntry cfg rest st entry = .ok (.ok (.indexed height, st'))) :
    ∃ r, st'.db.getReceipt (cfg.keccak raw.bytes) = some r ∧ r.txIndex.isSome ∧
      RowTells o height (counters st.db.blocks height).1 (counters st.db.blocks height).2 r := by
  rcases processEntry_ok hindexed with ⟨hno, -, -⟩ | ⟨e, hout, rfl⟩
  · cases hno
  have hraw : e.rawTx = raw.bytes := by
    have hfound := e.decodes.1
    rw [entryRawTx_of_args hargs, indexedRawTx_submitArgs] at hfound
    injection hfound with hfound
    injection hfound with hfound
    exact hfound.symm
  have hev : e.ev = o.decoded := by
    have hread := e.events
    rw [hdecoded] at hread
    injection hread with hread
    exact hread.symm
  -- it reports `indexed`, so it wrote
  have hskip : ¬ skips (st.db.settled e.call.ethHash) e.call.receipt = true := by
    intro hskip
    rw [Handled.outcome, if_pos hskip] at hout
    cases hout
  rw [Handled.outcome, if_neg hskip] at hout
  injection hout with hheight
  have hcounts : counters st.db.blocks e.call.receipt.blockHeight
      = counters st.db.blocks height := by
    rw [hheight]
    rfl
  have hwritten : e.next.db
      = st.db.writeIndexed e.call.ethHash e.call.txMeta e.call.receipt e.call.timestamp :=
    indexOne_of_not_skips hskip
  have hhash : e.call.ethHash = cfg.keccak raw.bytes := congrArg cfg.keccak hraw
  rw [hwritten, ← hhash, Db.getReceipt, settled_writeIndexed_self,
    logsOf_eq _ logRows_writeIndexed_self]
  refine ⟨_, rfl, rfl, ?_⟩
  have hlogs : e.call.receipt.logs = o.decoded.logs := congrArg DecodedEvents.logs hev
  have htopics : ∀ l ∈ e.call.receipt.logs, l.topics.length ≤ 4 := by
    rw [hlogs]
    exact topics_decoded o
  refine rowTells_decoded o hheight.symm (congrArg Prod.fst hcounts)
    (congrArg DecodedEvents.status hev) (congrArg DecodedEvents.gasUsed hev)
    (congrArg DecodedEvents.contractAddress hev) ?_ ?_
  · rw [content_newLogs, columnsOf_eq htopics, hlogs]
  · have hlen : (newLogs e.call.ethHash e.call.receipt (counters st.db.blocks height).1
        (counters st.db.blocks height).2).length = e.call.receipt.logs.length :=
      List.length_mapIdx
    rw [hcounts, List.map_map, List.length_map, hlen]
    exact newLogs_logIndex

/-- A later write that is about another transaction, or re-indexes this one
at its height. -/
def Spares (hash : B256) (height : UInt64) : DbWrite → Prop
  | .index c => c.ethHash = hash → c.receipt.blockHeight = height
  | .settle k _ => k ≠ hash
  | .upsert .. | .bump _ => True

/-- Such writes leave an indexer's row alone. -/
theorem spares_row {db : Db} {hash : B256} {s : Settled} {w : DbWrite}
    (hs : db.settled hash = some s) (hfinal : s.txIndex.isSome)
    (hw : Spares hash s.blockHeight w) :
    (applyWrite db w).settled hash = db.settled hash ∧
      logRows (applyWrite db w).logs hash = logRows db.logs hash := by
  cases w with
  | index c =>
      by_cases hskip : skips (db.settled c.ethHash) c.receipt = true
      · rw [applyWrite, indexOne_of_skips hskip]
        exact ⟨rfl, rfl⟩
      · have hne : hash ≠ c.ethHash := by
          intro heq
          refine hskip (skips_iff.mpr ⟨s, ?_, hfinal, Or.inl (hw heq.symm).symm⟩)
          rw [← heq]
          exact hs
        rw [applyWrite, indexOne_of_not_skips hskip]
        exact ⟨settled_writeIndexed_of_ne hne, logRows_writeIndexed_of_ne hne⟩
  | upsert k txMeta => exact ⟨settled_upsertTx, rfl⟩
  | bump k => exact ⟨settled_bump, rfl⟩
  | settle k r => exact ⟨settled_settle_of_ne hw.symm, logRows_settle_of_ne hw.symm⟩

/-- .. and so does any number of them. -/
theorem spares_run {hash : B256} {s : Settled} (hfinal : s.txIndex.isSome) :
    ∀ {ws : List DbWrite} {db : Db}, db.settled hash = some s →
      (∀ w ∈ ws, Spares hash s.blockHeight w) →
      (ws.foldl applyWrite db).getReceipt hash = db.getReceipt hash := by
  intro ws
  induction ws with
  | nil => exact fun _ _ => rfl
  | cons w ws ih =>
      intro db hs hws
      rw [List.forall_mem_cons] at hws
      obtain ⟨hsettled, hlogs⟩ := spares_row hs hfinal hws.1
      rw [List.foldl_cons, ih (hsettled.trans hs) hws.2]
      exact getReceipt_congr hsettled hlogs

end Indexed

/-- A receipt the store has is answered from it. -/
theorem handleGetTxReceipt_stored [HexCrate] {backend : ViewBackend} {hash : B256} {r : ReceiptRow}
    {hashS : String} (hr : backend.db.getReceipt hash = some r)
    (hhash : parseB32 hashS = .ok hash) (more : List Value) :
    ∃ txMeta, backend.loadMeta hash = some txMeta ∧
      backend.handleGetTxReceipt (.array (.string hashS :: more))
        = .ok (.ok (receiptToJson backend.keccak hashS txMeta r, backend.db)) := by
  have hsettled : ∃ s, backend.db.settled hash = some s := by
    obtain ⟨s, hs, -⟩ := Option.map_eq_some_iff.mp hr
    exact ⟨s, hs⟩
  obtain ⟨s, hs⟩ := hsettled
  obtain ⟨e, he, -⟩ := entryAt_of_mem (mem_blockTxHashes_iff.mpr ⟨s, hs, rfl⟩)
  obtain ⟨-, hmeta, -⟩ := entryAt_some he
  have hstr : paramStr (.array (.string hashS :: more)) 0 = .ok hashS := rfl
  refine ⟨e.txMeta, hmeta, ?_⟩
  unfold ViewBackend.handleGetTxReceipt
  simp only [hstr, badParams, hhash, bind, Except.bind, pure, Except.pure, hmeta, hr]

section Reported

variable [HexCrate] {chain : Chain} {build : Build} {revm : Revm} {rlp : AlloyRlp}
  {store store' : Store} {tr : List HostEv} {data : Bytes} {raw : WasmBuf} {height : UInt64}
  {backend : ViewBackend}

end Reported

-- ============================================================ on demand

section Persisted

variable {db : Db} {hash : B256} {txMeta : TxMeta} {r : ReceiptRow} {o : TxOutcome}

/-- A transaction that is persisted has a row. -/
theorem find?_upsertTx_self :
    ∃ row, (db.upsertTx hash txMeta).txs.find? hash = some row ∧
      (row = newRow hash txMeta none ∨ ∃ old, db.txs.find? hash = some old ∧
        row = { old with koinosTxId := idColumn txMeta.koinosTxId }) := by
  have hkey : (newRow hash txMeta none).ethHash = hash := rfl
  unfold Db.upsertTx
  rw [Table.find?_upsert_self _ hkey]
  cases hrow : db.txs.find? hash with
  | none => exact ⟨_, rfl, Or.inl rfl⟩
  | some old => exact ⟨_, rfl, Or.inr ⟨old, rfl, rfl⟩⟩

/-- A receipt without an index, whose log rows are its logs, is read back as
it was stored. -/
theorem getReceipt_persisted (hindex : r.txIndex = none)
    (hlogs : (newLogs hash r 0 0).map LogEntry.toRow = r.logs) :
    ((db.upsertTx hash txMeta).settle hash r).getReceipt hash = some r := by
  obtain ⟨row, hrow, -⟩ := @find?_upsertTx_self db hash txMeta
  rcases @settle_cases (db.upsertTx hash txMeta) hash r with
    ⟨hnone, -⟩ | ⟨hsettled, -, hrows, -⟩
  · rw [hrow] at hnone
    cases hnone
  · have hown : logRows ((db.upsertTx hash txMeta).settle hash r).logs hash
        = newLogs hash r 0 0 := by
      rw [hrows]
      exact logRows_replaceLogs_self
    rw [Db.getReceipt, hsettled, logsOf_eq _ hown]
    simp only [Option.map_some, settledAs, hlogs, ← hindex]

/-- The log rows of decoded events are the logs again. -/
theorem newLogs_decoded (h : r.logs = o.decoded.logs) :
    (newLogs hash r 0 0).map LogEntry.toRow = r.logs := by
  have htopics : ∀ l ∈ r.logs, l.topics.length ≤ 4 := by
    rw [h]
    exact topics_decoded o
  have hnumbers : r.logs = (o.logs.map logParts).mapIdx
      fun i p => ⟨0 + i, p.address, p.topics, p.logData⟩ := by
    rw [h, ← numbered_eq_mapIdx]
    rfl
  refine List.ext_getElem (by simp [newLogs]) fun i hi hi' => ?_
  have hindex : r.logs[i].logIndex = i := by
    simp only [hnumbers, List.getElem_mapIdx, Nat.zero_add]
  have hrow : ((newLogs hash r 0 0).map LogEntry.toRow)[i]
      = ⟨i, r.logs[i].address, r.logs[i].topics.take 4, r.logs[i].data⟩ := by
    simp [newLogs, logEntry, LogEntry.toRow]
  rw [hrow, List.take_of_length_le (htopics _ (List.getElem_mem hi'))]
  exact congrArg (fun n => LogRow.mk n r.logs[i].address r.logs[i].topics r.logs[i].data)
    hindex.symm

end Persisted

section Pending

variable [HexCrate] {backend : ViewBackend} {hash : B256} {txMeta : TxMeta} {height : UInt64}
  {events : Option (List Value)} {o : TxOutcome}

/-- The node has the Koinos transaction in a block of that height, with
these events in its receipt. -/
def Included (backend : ViewBackend) (koinosTxId : Bytes) (height : UInt64)
    (events : Option (List Value)) : Prop :=
  ∃ reply receipt first others,
    backend.rest ("/transaction/" ++ ("0x1220" ++ hexEncode koinosTxId)) = .ok reply ∧
    reply.get "receipt" = some receipt ∧
    (reply.get "containing_blocks").bind Value.asArray = some (first :: others) ∧
    backend.fetchBlockHeight (first.asStr.getD "") = some height ∧
    (receipt.get "events").bind Value.asArray = events

/-- What `fetch_receipt_from_chain` makes of it. -/
theorem fetchReceipt_included {koinosTxId : Bytes} (hid : koinosTxId ≠ [])
    (hincluded : Included backend koinosTxId height events)
    (hdecoded : decodeReceiptEvents backend.checks backend.b64 events = .ok o.decoded) :
    ∃ r, backend.fetchReceiptFromChain koinosTxId = .ok (some r) ∧ r.txIndex = none ∧
      r.logs = o.decoded.logs ∧ RowTells o height 0 0 r := by
  obtain ⟨reply, receipt, first, others, hreply, hreceipt, hblocks, hheight, rfl⟩ := hincluded
  have hnonempty : ¬ koinosTxId.isEmpty = true := by
    rw [List.isEmpty_iff]
    exact hid
  refine ⟨⟨height, (hexDecode (stripMultihash (first.asStr.getD ""))).toOption.getD [], none,
    o.decoded.status, o.decoded.gasUsed, o.decoded.contractAddress, o.decoded.logs⟩, ?_, rfl, rfl,
    rowTells_decoded o rfl rfl rfl rfl rfl rfl (logIndex_decoded o)⟩
  unfold ViewBackend.fetchReceiptFromChain
  rw [if_neg hnonempty, hreply]
  simp only [hreceipt, hblocks, hheight, hdecoded]
  rfl

omit [HexCrate] in
/-- The metadata of a transaction is found again once it is persisted. -/
theorem loadMeta_persisted (hmeta : backend.loadMeta hash = some txMeta)
    (hid : txMeta.koinosTxId ≠ []) (r : ReceiptRow) (rest : String → Except String Value) :
    ViewBackend.loadMeta
      { backend with db := (backend.db.upsertTx hash txMeta).settle hash r, rest := rest } hash
        = some txMeta := by
  have hcolumn : idColumn txMeta.koinosTxId = some txMeta.koinosTxId := by
    rw [idColumn, if_neg]
    rw [List.isEmpty_iff]
    exact hid
  unfold ViewBackend.loadMeta at hmeta ⊢
  cases hmem : backend.txMeta.get hash with
  | some m =>
      rw [hmem] at hmeta
      exact hmeta
  | none =>
      rw [hmem] at hmeta
      show Db.getTxMeta ((backend.db.upsertTx hash txMeta).settle hash r) hash = some txMeta
      obtain ⟨row, hrow, hwhich⟩ := @find?_upsertTx_self backend.db hash txMeta
      have hsettled : ((backend.db.upsertTx hash txMeta).settle hash r).txs.find? hash
          = some { row with settled := some (settledAs r none) } := by
        have hfind := @Table.find?_modify_self _ _ _ _
          (fun row : TxRow => { row with settled := some (settledAs r none) }) (fun _ => rfl)
          (backend.db.upsertTx hash txMeta).txs hash
        rw [hrow] at hfind
        rw [Db.settle, Db.setReceipt, hrow]
        exact hfind
      rw [Db.getTxMeta, hsettled]
      rcases hwhich with rfl | ⟨old, hold, rfl⟩
      · simp only [Option.map_some, TxRow.txMeta, newRow, hcolumn, Option.getD_some]
      · -- the row was the one the metadata came from
        rw [Db.getTxMeta, hold] at hmeta
        injection hmeta with hmeta
        subst hmeta
        show some ({ old.toSentTx with
          koinosTxId := (idColumn old.txMeta.koinosTxId).getD [] } : TxMeta) = some old.txMeta
        rw [hcolumn]
        rfl

variable {chain : Chain} {build : Build} {revm : Revm} {rlp : AlloyRlp}
  {store store' : Store} {tr : List HostEv} {data : Bytes} {raw : WasmBuf}

end Pending

-- =========================================================== one transfer

/-- The sample transfer, signed. -/
def relayedRaw : WasmBuf := ⟨canonicalRaw zeroTransfer, by decide +kernel⟩

/-- The call that submits it has the arguments that the proxy writes. -/
theorem submitZeroTransfer_args :
    submitZeroTransfer = ⟨Engine.EP_SUBMIT_RAW_TX, buildSubmitRawTxArgs relayedRaw.bytes⟩ := by
  decide +kernel

/-- What the call returns. -/
def relayedReply : Bytes := encodeEvmResult true [] 21000 none

theorem relayed_exec : Exec (start evmBuild transferRevm strictRlp)
    (servedRun submitZeroTransfer emptyStore).trace (.error (.success relayedReply)) := by
  have hexec : Exec (start evmBuild transferRevm strictRlp)
      (servedRun submitZeroTransfer emptyStore).trace
      (servedRun submitZeroTransfer emptyStore).outcome := by
    unfold servedRun
    exact run_exec _ _ _
  rwa [show (servedRun submitZeroTransfer emptyStore).outcome = .error (.success relayedReply) by
    decide +kernel] at hexec

theorem relayed_obeys : Obeys sampleChain
    ⟨Engine.EP_SUBMIT_RAW_TX, buildSubmitRawTxArgs relayedRaw.bytes⟩ emptyStore
    (servedRun submitZeroTransfer emptyStore).trace
    (servedRun submitZeroTransfer emptyStore).state := by
  have hlen : ∀ e ∈ (servedRun submitZeroTransfer emptyStore).trace,
      e.2.out.length < 2 ^ 32 := by decide +kernel
  rw [← submitZeroTransfer_args]
  unfold servedRun at hlen ⊢
  exact run_obeys _ _ hlen

/-- A base64 engine for the two texts of the transfer's receipt. -/
def relayedBase64 : Base64 where
  urlSafeNoPad := fun s =>
    if s = "args" then some (buildSubmitRawTxArgs relayedRaw.bytes)
    else if s = "result" then some (encodeResultEvent true 21000 none)
    else none
  standard := fun _ => none

/-- Its one event, as the node renders it. -/
def relayedEvent : Value := .object [("name", .string "evm.result"), ("data", .string "result")]

theorem relayed_receipt : Receipt relayedBase64 (servedRun submitZeroTransfer emptyStore).trace
    (.error (.success relayedReply)) (some [relayedEvent]) := by
  refine ⟨_, rfl, ?_⟩
  rw [show eventsOf (servedRun submitZeroTransfer emptyStore).trace
    = [resultEvent true 21000 none] by decide +kernel]
  exact .cons ⟨by decide +kernel, by decide +kernel⟩ .nil

/-- The indexer's configuration, and the transfer's history entry. -/
def relayedConfig : IndexerConfig := { sampleConfig with b64 := relayedBase64 }

def relayedEntry : Value := sampleEntry [submitOp "args"] [relayedEvent]

/-- A node that has the transfer in one block of height 5. -/
def relayedNode : String → Except String Value := fun _ =>
  .ok (.object
    [("receipt", .object [("events", .array [relayedEvent])]),
     ("containing_blocks", .array [.string "0xaa"]),
     ("block", .object [("header", .object [("height", .string "5")])])])

/-- A backend over a store. -/
def relayedBackend (db : Db) : ViewBackend where
  keccak := relayedConfig.keccak
  checks := .off
  b64 := relayedBase64
  sumError := ""
  minGasPriceWei := 0
  db := db
  txMeta := .new 1 1
  rest := relayedNode
  headInfo := .error ""

/-- What an operation that did not panic or fail came to. -/
def doneOf {α : Type} : Except Panic (Except String α) → Option α
  | .ok (.ok a) => some a
  | .ok (.error _) | .error _ => none

theorem eq_of_doneOf {α : Type} {r : Except Panic (Except String α)} {a : α}
    (h : doneOf r = some a) : r = .ok (.ok a) := by
  cases r with
  | error p => cases h
  | ok r =>
      cases r with
      | error e => cases h
      | ok b =>
          cases h
          rfl

/-- The metadata of the transfer, as the relay keeps it. -/
def relayedMeta : TxMeta where
  fromAddr := zeroTransfer.sender
  toAddr := zeroTransfer.toAddr
  nonce := zeroTransfer.nonce
  value := .zero 32
  input := []
  gasLimit := zeroTransfer.gasLimit
  gasPrice := .zero 32
  rawTx := relayedRaw.bytes
  txType := 0
  chainId := zeroTransfer.chainId
  r := .zero 32
  s := .zero 32
  v := 0
  koinosTxId := [1]

/-- .. and the store that has it. -/
def relayedDb : Db := Db.empty.upsertTx (relayedConfig.keccak relayedRaw.bytes) relayedMeta

end KoinosEvm.Proofs
