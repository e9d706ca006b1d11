/-
The operations of a history entry and the rows of the index.

A Koinos transaction may call the engine any number of times, each call with
a raw transaction of its own, while its receipt has one list of events.
`process_entry` takes the first raw transaction it finds and every event. So
an operation has its row exactly in two cases (`entry_covered_iff`): its raw
transaction is the one that is written, and all events together decode to
what its own do; or it is another, and the row was already there.
-/
import KoinosEvm.Engine.Messages
import KoinosEvm.Proofs.ProcessEntry

namespace KoinosEvm.Proofs

open Engine Proxy

-- ============================================================ the entry

/-- A call of the engine's `submit_raw_tx`. -/
def isEngineSubmit (engineAddr : String) (cc : Value) : Bool :=
  (cc.get "entry_point").bind Value.asU64 == some epSubmitRawTx
    && cc.getStr "contract_id" == some engineAddr

/-- The `submit_raw_tx` operations of an entry. -/
def submitOps (engineAddr : String) (entry : Value) : List Value :=
  let ops := (((entryTx entry).bind (·.get "operations")).bind Value.asArray).getD []
  (ops.filterMap (·.get "call_contract")).filter (isEngineSubmit engineAddr)

/-- The raw transaction that the engine runs for an operation. -/
def opRawTx (b64 : Base64) (op : Value) : Bytes :=
  stripRawTx (((op.getStr "args").bind (decodeB64Lax b64)).getD [])

/-- A history entry, with the operation that emitted each of its events:
the `i`th call of the engine, or none of them. A receipt without a list of
events has none. -/
structure EngineEntry where
  entry : Value
  emitted : List (Option Nat × Value)
  events : (entryEvents entry).getD [] = emitted.map Prod.snd

/-- The events of one operation. -/
def EngineEntry.opEvents (e : EngineEntry) (i : Nat) : List Value :=
  (e.emitted.filter fun x => x.1 = some i).map Prod.snd

-- ========================================================== the property

/-- What the index keeps of a decoded receipt. -/
structure Kept where
  status : Bool
  gasUsed : UInt64
  logs : List (Bytes × List Bytes × Bytes)
  deriving DecidableEq

/-- .. of decoded events. -/
def keptOf (ev : DecodedEvents) : Kept := ⟨ev.status, ev.gasUsed, ev.logs.map columnsOf⟩

/-- .. and of the stored receipt. -/
def keptIn (stored : ReceiptRow) : Kept :=
  ⟨stored.status, stored.gasUsed, stored.logs.map contentOf⟩

/-- The store's row for `hash` is decoded from `events`. -/
def ShowsEvents (cfg : IndexerConfig) (db : Db) (hash : B256) (events : List Value) : Prop :=
  ∃ ev, decodeReceiptEvents cfg.checks cfg.b64 (some events) = .ok ev
    ∧ (db.getReceipt hash).map keptIn = some (keptOf ev)

/-- Every operation of the entry has its row. -/
def Covered (cfg : IndexerConfig) (db : Db) (e : EngineEntry) : Prop :=
  ∀ i op, (submitOps cfg.engineAddr e.entry)[i]? = some op →
    ShowsEvents cfg db (cfg.keccak (opRawTx cfg.b64 op)) (e.opEvents i)

-- ========================================================= the condition

section Hex

variable [HexCrate]

/-- The indexer extracts the raw transaction with this hash from the entry,
and `index_tx` does not turn it away. -/
def WritesRow (cfg : IndexerConfig) (rest : String → Except String Value) (st : IndexerState)
    (entry : Value) (hash : B256) : Prop :=
  ∃ h : Handled cfg rest st entry, cfg.keccak h.rawTx = hash
    ∧ ¬ skips (st.db.settled hash) h.call.receipt = true

/-- Two lists of events decode to the same row. -/
def SameDecoded (cfg : IndexerConfig) (events events' : List Value) : Prop :=
  ∃ ev ev', decodeReceiptEvents cfg.checks cfg.b64 (some events) = .ok ev
    ∧ decodeReceiptEvents cfg.checks cfg.b64 (some events') = .ok ev' ∧ keptOf ev = keptOf ev'

/-- The operation's raw transaction is the one written, and the other events
do not show in it; or its row is there already. -/
def RowReady (cfg : IndexerConfig) (rest : String → Except String Value) (st : IndexerState)
    (e : EngineEntry) (i : Nat) (op : Value) : Prop :=
  let hash := cfg.keccak (opRawTx cfg.b64 op)
  (WritesRow cfg rest st e.entry hash ∧ SameDecoded cfg (e.emitted.map Prod.snd) (e.opEvents i))
    ∨ (¬ WritesRow cfg rest st e.entry hash ∧ ShowsEvents cfg st.db hash (e.opEvents i))

-- ============================================================ the result

section Covered

variable {cfg : IndexerConfig} {rest : String → Except String Value} {st st' : IndexerState}
  {e : EngineEntry} {out : EntryOutcome} {hash : B256}

/-- A written row shows all events of the entry. -/
theorem kept_writeIndexed (db : Db) {c : IndexCall} {ev : DecodedEvents} {block : Resolved}
    (hc : c.receipt = receiptOf ev block) :
    ((db.writeIndexed c.ethHash c.txMeta c.receipt c.timestamp).getReceipt c.ethHash).map keptIn
      = some (keptOf ev) := by
  unfold Db.getReceipt
  rw [settled_writeIndexed_self, logsOf_eq _ logRows_writeIndexed_self]
  simp only [Option.map_some, keptIn, keptOf, content_newLogs, settledAs]
  rw [hc]
  rfl

/-- A row that is not written is as it was. -/
theorem getReceipt_of_not_writes (h : Handled cfg rest st e.entry)
    (hno : ¬ (cfg.keccak h.rawTx = hash ∧ ¬ skips (st.db.settled hash) h.call.receipt = true)) :
    (indexOne st.db h.call).getReceipt hash = st.db.getReceipt hash := by
  by_cases hskip : skips (st.db.settled h.call.ethHash) h.call.receipt = true
  · rw [indexOne_of_skips hskip]
  · have hne : hash ≠ h.call.ethHash := fun heq => hno ⟨heq.symm, heq ▸ hskip⟩
    rw [indexOne_of_not_skips hskip]
    exact getReceipt_congr (settled_writeIndexed_of_ne hne) (logRows_writeIndexed_of_ne hne)

omit [HexCrate] in
/-- No list of events decodes as an empty one. -/
theorem decodeReceiptEvents_getD (checks : Checks) (b64 : Base64) (events : Option (List Value)) :
    decodeReceiptEvents checks b64 events = decodeReceiptEvents checks b64 (some (events.getD [])) := by
  cases events with
  | none => rfl
  | some events => rfl

/-- After an entry was handled, a row shows events as before, or the row is
written and the events decode as all of the entry's do. -/
theorem showsEvents_iff (h : Handled cfg rest st e.entry) (events : List Value) :
    ShowsEvents cfg (indexOne st.db h.call) hash events
      ↔ (WritesRow cfg rest st e.entry hash ∧ SameDecoded cfg (e.emitted.map Prod.snd) events)
        ∨ (¬ WritesRow cfg rest st e.entry hash ∧ ShowsEvents cfg st.db hash events) := by
  have hwrites : WritesRow cfg rest st e.entry hash
      ↔ cfg.keccak h.rawTx = hash ∧ ¬ skips (st.db.settled hash) h.call.receipt = true :=
    ⟨fun ⟨h', hw⟩ => h'.eq h ▸ hw, fun hw => ⟨h, hw⟩⟩
  by_cases hw : cfg.keccak h.rawTx = hash ∧ ¬ skips (st.db.settled hash) h.call.receipt = true
  · obtain ⟨rfl, hskip⟩ := hw
    have hall := h.events
    rw [decodeReceiptEvents_getD, e.events] at hall
    have hreceipt : h.call.receipt = receiptOf h.ev h.block := rfl
    have hkept := kept_writeIndexed st.db hreceipt
    unfold ShowsEvents SameDecoded
    rw [indexOne_of_not_skips hskip]
    show (∃ ev, _ ∧ ((st.db.writeIndexed h.call.ethHash _ _ _).getReceipt
      h.call.ethHash).map keptIn = _) ↔ _
    rw [hkept]
    constructor
    · rintro ⟨ev, hev, heq⟩
      exact .inl ⟨hwrites.mpr ⟨rfl, hskip⟩, h.ev, ev, hall, hev, Option.some.inj heq⟩
    · rintro (⟨-, ev, ev', hev, hev', heq⟩ | ⟨hno, -⟩)
      · rw [hall] at hev
        cases hev
        exact ⟨ev', hev', congrArg some heq⟩
      · exact absurd (hwrites.mpr ⟨rfl, hskip⟩) hno
  · have hno : ¬ WritesRow cfg rest st e.entry hash := fun h' => hw (hwrites.mp h')
    unfold ShowsEvents
    rw [getReceipt_of_not_writes h hw]
    simp [hno]

/-- After `process_entry` succeeds, every operation has its row exactly if
each was the one to write, with all events decoding as its own, or had its
row before. -/
theorem entry_covered_iff (cfg : IndexerConfig) (rest : String → Except String Value)
    (st st' : IndexerState) (e : EngineEntry) (out : EntryOutcome)
    (hok : processEntry cfg rest st e.entry = .ok (.ok (out, st'))) :
    Covered cfg st'.db e
      ↔ ∀ i op, (submitOps cfg.engineAddr e.entry)[i]? = some op →
          RowReady cfg rest st e i op := by
  unfold Covered
  refine forall_congr' fun i => forall_congr' fun op => forall_congr' fun hop => ?_
  rcases processEntry_ok hok with ⟨-, rfl, hnone⟩ | ⟨h, -, rfl⟩
  · -- nothing decodes, so nothing is written
    have hno (hash : B256) : ¬ WritesRow cfg rest st' e.entry hash :=
      fun ⟨h, _⟩ => hnone _ _ h.decodes
    simp [RowReady, hno]
  · exact showsEvents_iff h (e.opEvents i)

end Covered

end Hex

-- ======================================================== two operations

/-- A legacy transaction without a payload. -/
def legacyRaw (nonce : UInt8) : Bytes :=
  [0xc9, nonce, 0x80, 0x80, 0x80, 0x80, 0x80, 0x1b, 0x80, 0x80]

/-- A process with a base64 engine for three texts, and a hash and a
recovery that tell the two transactions apart. -/
def sampleConfig : IndexerConfig where
  checks := .off
  b64 := {
    urlSafeNoPad := fun s =>
      if s = "first" then some (0x0a :: 10 :: legacyRaw 1)
      else if s = "second" then some (0x0a :: 10 :: legacyRaw 2)
      else if s = "success" then some [0x08, 0x01]
      else none
    standard := fun _ => none }
  keccak := fun bs => ⟨List.replicate 32 (bs.getD 1 0), List.length_replicate⟩
  secp := ⟨fun _ _ _ => .ok (.zero 65)⟩
  engineAddr := "engine"

/-- A call of `submit_raw_tx`. -/
def submitOp (args : String) : Value :=
  .object [("call_contract", .object
    [("contract_id", .string "engine"), ("entry_point", .number 7), ("args", .string args)])]

/-- The engine's result event. -/
def resultOk : Value := .object [("name", .string "evm.result"), ("data", .string "success")]

/-- An entry with these operations and events. -/
def sampleEntry (ops events : List Value) : Value :=
  .object [("trx", .object
    [("transaction", .object [("operations", .array ops)]),
     ("receipt", .object [("events", .array events)])])]

/-- A node that has every transaction in one block of height 5. -/
def sampleNode : String → Except String Value := fun _ =>
  .ok (.object
    [("containing_blocks", .array [.string "0xaa"]),
     ("block", .object [("header", .object [("height", .string "5")])])])

/-- One operation, with its event. -/
def oneOp : EngineEntry :=
  ⟨sampleEntry [submitOp "first"] [resultOk], [(some 0, resultOk)], rfl⟩

/-- Two operations, each with its event. -/
def twoOps : EngineEntry :=
  ⟨sampleEntry [submitOp "first", submitOp "second"] [resultOk, resultOk],
    [(some 0, resultOk), (some 1, resultOk)], rfl⟩

/-- What an empty indexer makes of an entry, if it succeeds. -/
def sampleRun? (e : EngineEntry) : Option (EntryOutcome × IndexerState) :=
  match processEntry sampleConfig sampleNode ⟨.empty, []⟩ e.entry with
  | .ok (.ok x) => some x
  | _ => none

theorem processEntry_of_sampleRun? {e : EngineEntry} {x : EntryOutcome × IndexerState}
    (h : sampleRun? e = some x) :
    processEntry sampleConfig sampleNode ⟨.empty, []⟩ e.entry = .ok (.ok x) := by
  unfold sampleRun? at h
  split at h
  next heq =>
    cases h
    exact heq
  · cases h

theorem oneOp_covered_iff :
    ∃ st', processEntry sampleConfig sampleNode ⟨.empty, []⟩ oneOp.entry
        = .ok (.ok (.indexed 5, st'))
      ∧ (Covered sampleConfig st'.db oneOp
        ↔ ∀ i op, (submitOps "engine" oneOp.entry)[i]? = some op →
            RowReady sampleConfig sampleNode ⟨.empty, []⟩ oneOp i op) := by
  have hrun : (sampleRun? oneOp).map Prod.fst = some (.indexed 5) := by decide +kernel
  obtain ⟨⟨out, st'⟩, hsome, rfl⟩ := Option.map_eq_some_iff.mp hrun
  have hok := processEntry_of_sampleRun? hsome
  exact ⟨st', hok, entry_covered_iff _ _ _ _ _ _ hok⟩

/-- Both operations decode, the entry succeeds, and the second has no
row. -/
theorem twoOps_not_covered :
    (∀ op ∈ submitOps "engine" twoOps.entry, ∃ decoded,
        EthTx.decodeAndRecover sampleConfig.keccak sampleConfig.secp
          (opRawTx sampleConfig.b64 op) = .ok decoded)
      ∧ ∃ out st', processEntry sampleConfig sampleNode ⟨.empty, []⟩ twoOps.entry
          = .ok (.ok (out, st'))
        ∧ ¬ Covered sampleConfig st'.db twoOps := by
  constructor
  · have hall : (submitOps "engine" twoOps.entry).all (fun op =>
        (EthTx.decodeAndRecover sampleConfig.keccak sampleConfig.secp
          (opRawTx sampleConfig.b64 op)).toOption.isSome) = true := by decide +kernel
    intro op hop
    have hsome := List.all_eq_true.mp hall op hop
    cases hdecode : EthTx.decodeAndRecover sampleConfig.keccak sampleConfig.secp
        (opRawTx sampleConfig.b64 op) with
    | ok decoded => exact ⟨decoded, rfl⟩
    | error e =>
        rw [hdecode] at hsome
        cases hsome
  · have hrun : (sampleRun? twoOps).map
        (fun x => (x.2.db.getReceipt (sampleConfig.keccak (legacyRaw 2))).isSome)
          = some false := by decide +kernel
    obtain ⟨⟨out, st'⟩, hsome, hnone⟩ := Option.map_eq_some_iff.mp hrun
    refine ⟨out, st', processEntry_of_sampleRun? hsome, fun hcovered => ?_⟩
    have hop : (submitOps "engine" twoOps.entry)[1]? = some (.object
        [("contract_id", .string "engine"), ("entry_point", .number 7),
          ("args", .string "second")]) := by rfl
    have hraw : opRawTx sampleConfig.b64 (.object
        [("contract_id", .string "engine"), ("entry_point", .number 7),
          ("args", .string "second")]) = legacyRaw 2 := by decide +kernel
    obtain ⟨ev, -, hshown⟩ := hcovered 1 _ hop
    rw [hraw] at hshown
    simp only [Option.isSome_eq_false_iff, Option.isNone_iff_eq_none] at hnone
    rw [hnone] at hshown
    cases hshown

end KoinosEvm.Proofs
