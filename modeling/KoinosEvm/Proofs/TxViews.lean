/-
The views of one block agree.

Every request about a block, or about a transaction of it, goes back to the
same rows: the transactions that are settled at a height, each with what
`load_meta` finds of it and with its receipt (`Entry`, `entriesAt`). Each of
them has both, so none is left out of a list (`entryAt_of_mem`); with that the
answers of all the endpoints are read off one list of entries, whatever tag or
hash the block is asked for by, and whatever the memory holds
(`blockViews_agree`). LogViews.lean has the log objects.
-/
import KoinosEvm.Proofs.Bloom
import KoinosEvm.Proofs.GetLogs
import KoinosEvm.Proofs.Numbering
import KoinosEvm.Proofs.Quantities
import KoinosEvm.Proxy.TxViews

namespace KoinosEvm.Proofs

open Lib Proxy

-- ============================================================== the entries

/-- What the views show of a transaction of a block. -/
structure Entry where
  hash : B256
  txMeta : TxMeta
  receipt : ReceiptRow

namespace Entry

variable [HexCrate]

/-- The hash, as the proxy writes it. -/
def hashS (e : Entry) : String := "0x" ++ hexEncode e.hash.bytes

/-- The log objects of its receipt. -/
def logObjects (e : Entry) : List Value := e.receipt.logs.map (receiptLogToJson e.hashS e.receipt)

/-- Its receipt object. -/
def receiptObject (keccak : Bytes → B256) (e : Entry) : Value :=
  receiptToJson keccak e.hashS e.txMeta e.receipt

/-- Its transaction object. -/
def txObject (e : Entry) : Value :=
  txToJson e.hashS e.txMeta
    ⟨dataHex e.receipt.blockHash, quantity e.receipt.blockHeight,
      some (e.receipt.txIndex.getD 0)⟩

end Entry

section Entries

variable {backend : ViewBackend} {h : UInt64} {hash : B256}

/-- What the backend has of a settled transaction. -/
def entryAt (backend : ViewBackend) (hash : B256) : Option Entry := do
  let txMeta ← backend.loadMeta hash
  let receipt ← backend.db.getReceipt hash
  return ⟨hash, txMeta, receipt⟩

/-- The entries of a height, in the order of its transactions. -/
def entriesAt (backend : ViewBackend) (h : UInt64) : List Entry :=
  (backend.db.blockTxHashes h).filterMap (entryAt backend)

theorem entryAt_some {e : Entry} (he : entryAt backend hash = some e) :
    e.hash = hash ∧ backend.loadMeta hash = some e.txMeta
      ∧ backend.db.getReceipt hash = some e.receipt := by
  obtain ⟨txMeta, hmeta, he⟩ := Option.bind_eq_some_iff.mp he
  obtain ⟨receipt, hreceipt, he⟩ := Option.bind_eq_some_iff.mp he
  cases he
  exact ⟨rfl, hmeta, hreceipt⟩

/-- A settled transaction has a row, so it has its metadata too. -/
theorem entryAt_of_mem (hmem : hash ∈ backend.db.blockTxHashes h) :
    ∃ e, entryAt backend hash = some e ∧ e.receipt.blockHeight = h := by
  obtain ⟨receipt, hreceipt, hheight⟩ := getReceipt_of_mem hmem
  obtain ⟨s, hs, -⟩ := mem_blockTxHashes_iff.mp hmem
  obtain ⟨row, hrow, -⟩ := Option.bind_eq_some_iff.mp hs
  have hmeta : ∃ txMeta, backend.loadMeta hash = some txMeta := by
    unfold ViewBackend.loadMeta
    cases backend.txMeta.get hash with
    | some txMeta => exact ⟨txMeta, rfl⟩
    | none => exact ⟨row.txMeta, by rw [Db.getTxMeta, hrow]; rfl⟩
  obtain ⟨txMeta, hmeta⟩ := hmeta
  exact ⟨⟨hash, txMeta, receipt⟩, by rw [entryAt, hmeta, hreceipt]; rfl, hheight⟩

/-- A list of which everything is kept, by what it was made of. -/
theorem map_filterMap_of_some {α β γ : Type} {f : α → Option β} {g : β → γ} {k : α → γ}
    {xs : List α} (h : ∀ x ∈ xs, ∃ y, f x = some y ∧ g y = k x) :
    (xs.filterMap f).map g = xs.map k := by
  induction xs with
  | nil => rfl
  | cons x xs ih =>
      obtain ⟨y, hy, hg⟩ := h x List.mem_cons_self
      rw [List.filterMap_cons_some hy, List.map_cons, List.map_cons, hg,
        ih fun x hx => h x (List.mem_cons_of_mem _ hx)]

theorem hash_entriesAt : (entriesAt backend h).map Entry.hash = backend.db.blockTxHashes h := by
  have hall : ∀ hash ∈ backend.db.blockTxHashes h,
      ∃ e, entryAt backend hash = some e ∧ e.hash = id hash := by
    intro hash hmem
    obtain ⟨e, he, -⟩ := entryAt_of_mem hmem
    exact ⟨e, he, (entryAt_some he).1⟩
  exact (map_filterMap_of_some hall).trans (List.map_id _)

theorem length_entriesAt : (entriesAt backend h).length = (backend.db.blockTxHashes h).length := by
  rw [← hash_entriesAt, List.length_map]

/-- An entry, by its hash. -/
theorem entryAt_hash {e : Entry} (he : e ∈ entriesAt backend h) :
    entryAt backend e.hash = some e ∧ e.hash ∈ backend.db.blockTxHashes h := by
  obtain ⟨hash, hmem, hentry⟩ := List.mem_filterMap.mp he
  rw [(entryAt_some hentry).1]
  exact ⟨hentry, hmem⟩

end Entries

-- ============================================================= the requests

section Requests

variable [HexCrate] {backend : ViewBackend} {h : UInt64} {e : Entry}

/-- A transaction of the block, by its hash. -/
theorem handleGetTxByHash_entry (he : e ∈ entriesAt backend h) (more : List Value) :
    backend.handleGetTxByHash (.array (.string e.hashS :: more)) = .ok e.txObject := by
  obtain ⟨-, hmeta, hreceipt⟩ := entryAt_some (entryAt_hash he).1
  have hparsed : parseB32 e.hashS = .ok e.hash := parseB32_dataHex e.hash
  have hstr : paramStr (.array (.string e.hashS :: more)) 0 = .ok e.hashS := rfl
  have hinc : backend.inclusion e.hash e.txMeta
      = ⟨dataHex e.receipt.blockHash, quantity e.receipt.blockHeight,
          some (e.receipt.txIndex.getD 0)⟩ := by
    rw [ViewBackend.inclusion, hreceipt]
  unfold ViewBackend.handleGetTxByHash
  simp only [hstr, badParams, hparsed, bind, Except.bind, pure, Except.pure, hmeta, hinc]
  rfl

/-- .. its receipt: the store has it, and is left as it is. -/
theorem handleGetTxReceipt_entry (he : e ∈ entriesAt backend h) (more : List Value) :
    backend.handleGetTxReceipt (.array (.string e.hashS :: more))
      = .ok (.ok (e.receiptObject backend.keccak, backend.db)) := by
  obtain ⟨-, hmeta, hreceipt⟩ := entryAt_some (entryAt_hash he).1
  have hparsed : parseB32 e.hashS = .ok e.hash := parseB32_dataHex e.hash
  have hstr : paramStr (.array (.string e.hashS :: more)) 0 = .ok e.hashS := rfl
  unfold ViewBackend.handleGetTxReceipt
  simp only [hstr, badParams, hparsed, bind, Except.bind, pure, Except.pure, hmeta, hreceipt]
  rfl

/-- The receipts of the block. -/
theorem blockReceipts_entries (backend : ViewBackend) (h : UInt64) :
    backend.blockReceipts h
      = .ok (.array ((entriesAt backend h).map (Entry.receiptObject backend.keccak))) := by
  unfold ViewBackend.blockReceipts entriesAt
  rw [List.map_filterMap]
  congr 2
  apply List.filterMap_congr
  intro hash _
  unfold entryAt
  cases backend.loadMeta hash with
  | none => rfl
  | some txMeta =>
      cases backend.db.getReceipt hash with
      | none => rfl
      | some receipt => rfl

/-- The transaction objects of the block: none is left out. -/
theorem fullTransactions_entries (backend : ViewBackend) (h : UInt64) :
    backend.fullTransactions h = .ok ((entriesAt backend h).map Entry.txObject) := by
  have hloop : (entriesAt backend h).mapM (fun e =>
      backend.handleGetTxByHash (.array [.string e.hashS]))
      = .ok ((entriesAt backend h).map Entry.txObject) :=
    mapM_ok fun e he => handleGetTxByHash_entry he []
  unfold ViewBackend.fullTransactions
  rw [← hash_entriesAt, List.mapM_map]
  show ((entriesAt backend h).mapM (fun e =>
    backend.handleGetTxByHash (.array [.string e.hashS])) >>= _) = _
  rw [hloop]
  show Except.ok (((entriesAt backend h).map Entry.txObject).filter _) = _
  rw [List.filter_eq_self.mpr]
  intro v hv
  obtain ⟨e, -, rfl⟩ := List.mem_map.mp hv
  rfl

/-- The `transactions` of a block. -/
def listed (full : Bool) (e : Entry) : Value := if full then e.txObject else .string e.hashS

theorem blockTransactions_entries (backend : ViewBackend) (h : UInt64) (full : Bool) :
    backend.blockTransactions h full = .ok ((entriesAt backend h).map (listed full)) := by
  unfold ViewBackend.blockTransactions
  cases full with
  | true => exact fullTransactions_entries backend h
  | false =>
      rw [if_neg Bool.false_ne_true, ← hash_entriesAt, List.map_map]
      rfl

omit [HexCrate] in
/-- A position among the entries. -/
theorem getElem?_entries (backend : ViewBackend) (h : UInt64) (i : Nat) :
    (backend.db.blockTxHashes h)[i]? = (entriesAt backend h)[i]?.map Entry.hash := by
  rw [← hash_entriesAt, List.getElem?_map]

end Requests

-- ================================================================== the gas

theorem addI64_some {m n sum : Int64} (h : addI64 m n = some sum) :
    sum.toInt = m.toInt + n.toInt := by
  by_cases hrange : -2 ^ 63 ≤ m.toInt + n.toInt ∧ m.toInt + n.toInt < 2 ^ 63
  · have heq : addI64 m n = some (Int64.ofInt (m.toInt + n.toInt)) := if_pos hrange
    rw [heq] at h
    cases h
    exact Int64.toInt_ofInt_of_le hrange.1 hrange.2
  · have heq : addI64 m n = none := if_neg hrange
    rw [heq] at h
    cases h

/-- A sum that is no error is exact. -/
theorem sumI64_some {ns : List Int64} {sum : Int64} (h : sumI64 ns = some sum) :
    sum.toInt = (ns.map Int64.toInt).sum := by
  have hloop : ∀ (ns : List Int64) (start : Int64),
      ns.foldlM addI64 start = some sum → sum.toInt = start.toInt + (ns.map Int64.toInt).sum := by
    intro ns
    induction ns with
    | nil =>
        intro start h
        cases h
        simp
    | cons n ns ih =>
        intro start h
        obtain ⟨next, hnext, h⟩ := Option.bind_eq_some_iff.mp h
        rw [ih _ h, addI64_some hnext, List.map_cons, List.sum_cons]
        omega
  have hsum := hloop ns 0 h
  have hzero : (0 : Int64).toInt = 0 := rfl
  rwa [hzero, Int.zero_add] at hsum

theorem max_zero {n : Int64} (h : 0 ≤ n) : max n 0 = n := by
  show (if n ≤ 0 then 0 else n) = n
  split
  next hle => exact Int64.le_antisymm h hle
  next => rfl

/-- The gas of a block's rows is that of its receipts. -/
theorem blockGas_perm (backend : ViewBackend) (h : UInt64) :
    (backend.db.blockGas h).Perm
      ((entriesAt backend h).map fun e => e.receipt.gasUsed.toInt64) := by
  have hentries : (entriesAt backend h).map (fun e => e.receipt.gasUsed.toInt64)
      = (backend.db.blockTxHashes h).filterMap fun hash =>
          (backend.db.settled hash).map fun s => s.gasUsed.toInt64 := by
    unfold entriesAt
    rw [List.map_filterMap]
    apply List.filterMap_congr
    intro hash hmem
    obtain ⟨e, he, -⟩ := entryAt_of_mem hmem
    obtain ⟨-, -, hreceipt⟩ := entryAt_some he
    obtain ⟨s, hs, hr⟩ := Option.map_eq_some_iff.mp hreceipt
    rw [he, hs, Option.map_some, Option.map_some, ← hr]
  have hrows : ∀ rows : List TxRow, (∀ row ∈ rows, row ∈ backend.db.txs.rows) →
      (rows.map TxRow.ethHash).filterMap (fun hash =>
        (backend.db.settled hash).map fun s => s.gasUsed.toInt64)
      = rows.filterMap fun row => row.settled.map fun s => s.gasUsed.toInt64 := by
    intro rows hmem
    rw [List.filterMap_map]
    apply List.filterMap_congr
    intro row hrow
    rw [Function.comp_apply, settled_of_mem (hmem row hrow)]
  rw [hentries, Db.blockTxHashes, hrows]
  · exact ((List.perm_insertionSort _ _).filterMap _).symm
  · intro row hrow
    rw [List.mem_insertionSort] at hrow
    exact (List.mem_filter.mp hrow).1

/-- The gas of a block, where no receipt's is negative as it is stored. -/
theorem blockGasUsed_sum {backend : ViewBackend} {h gasUsed : UInt64}
    (hgas : backend.db.blockGasUsed h = some gasUsed)
    (hsmall : ∀ e ∈ entriesAt backend h, e.receipt.gasUsed.toNat < 2 ^ 63) :
    gasUsed.toNat = ((entriesAt backend h).map fun e => e.receipt.gasUsed.toNat).sum := by
  obtain ⟨sum, hsum, rfl⟩ := Option.map_eq_some_iff.mp hgas
  have hexact := sumI64_some hsum
  have hperm := ((blockGas_perm backend h).map Int64.toInt).sum_eq
  have hcast : ((entriesAt backend h).map fun e => e.receipt.gasUsed.toInt64).map Int64.toInt
      = ((entriesAt backend h).map fun e => e.receipt.gasUsed.toNat).map Nat.cast := by
    rw [List.map_map, List.map_map]
    exact List.map_congr_left fun e he => toInt_toInt64 (hsmall e he)
  rw [hexact.symm, hcast, ← Nat.cast_list_sum] at hperm
  have hnonneg : (0 : Int64) ≤ sum := by
    rw [Int64.le_iff_toInt_le, hperm]
    exact Int.natCast_nonneg _
  rw [max_zero hnonneg, Int64.toNat_toUInt64_of_le hnonneg, Int64.toNatClampNeg, hperm,
    Int.toNat_natCast]

-- ================================================================ the views

variable [HexCrate]

/-- The request asks for this height, by a block's hash or by a number or
tag. -/
def AsksHeight (backend : BlockBackend) (tag : String) (byHash : Bool) (h : UInt64) : Prop :=
  if byHash then backend.heightOfHash tag = some h else backend.heightOfTag tag = .ok (some h)

/-- The form in which `eth_getBlockReceipts` reads its parameter. -/
def isHash (tag : String) : Bool := decide (strLen tag = 66) && startsWith "0x" tag

/-- What a transaction object and a receipt object both say. -/
def sharedKeys : List String :=
  ["blockHash", "blockNumber", "transactionIndex", "from", "to", "type"]

/-- The object of the block at a height, with these transactions. -/
structure BlockObject (backend : ViewBackend) (h : UInt64) (entries : List Entry) (full : Bool)
    (obj : Value) : Prop where
  number : obj.get "number" = some (quantity h)
  transactions : obj.get "transactions" = some (.array (entries.map (listed full)))
  /-- The gas is that of the receipts .. -/
  gasUsed : (∀ e ∈ entries, e.receipt.gasUsed.toNat < 2 ^ 63) →
    obj.get "gasUsed" = some (numberHex (entries.map fun e => e.receipt.gasUsed.toNat).sum)
  /-- .. and the bloom the union of theirs. -/
  logsBloom : obj.get "logsBloom" = some (dataHex (unionAll
    (entries.map fun e => receiptBloom backend.keccak e.receipt)).bytes)

/-- The answers about the block at a height are read off one list of
transactions. -/
structure BlockViews (backend : ViewBackend) (h : UInt64) (entries : List Entry) : Prop where
  /-- It has each transaction of the block once, by its index. -/
  distinct : (entries.map Entry.hash).Nodup
  inBlock : ∀ e ∈ entries, e.receipt.blockHeight = h
  ordered : entries.Pairwise fun a b => indexLe a.receipt.txIndex b.receipt.txIndex
  /-- The block, however it is asked for. -/
  count : ∀ tag byHash more, AsksHeight backend.blocks tag byHash h →
    backend.blocks.handleBlockTxCount (.array (.string tag :: more)) byHash
      = .ok (quantity (UInt64.ofNat entries.length))
  receipts : ∀ tag more, AsksHeight backend.blocks tag (isHash tag) h →
    backend.blocks.handleGetBlockReceipts (.array (.string tag :: more))
      = .ok (.array (entries.map (Entry.receiptObject backend.keccak)))
  byIndex : ∀ tag byHash i more, AsksHeight backend.blocks tag byHash h →
    backend.blocks.handleTxByBlockAndIndex
        (.array (.string tag :: quantity i :: more)) byHash
      = .ok ((entries[i.toNat]?.map Entry.txObject).getD .null)
  block : ∀ full obj, backend.fetchBlockAsEthObject h full = .ok obj →
    obj = .null ∨ BlockObject backend h entries full obj
  byNumber : ∀ tag full more obj, AsksHeight backend.blocks tag false h →
    backend.blocks.handleGetBlockByNumber (.array (.string tag :: .bool full :: more)) = .ok obj →
      obj = .null ∨ BlockObject backend h entries full obj
  byBlockHash : ∀ tag full more obj, AsksHeight backend.blocks tag true h →
    backend.blocks.handleGetBlockByHash (.array (.string tag :: .bool full :: more)) = .ok obj →
      obj = .null ∨ BlockObject backend h entries full obj
  /-- Each transaction on its own. -/
  byHash : ∀ e ∈ entries, ∀ more,
    backend.handleGetTxByHash (.array (.string e.hashS :: more)) = .ok e.txObject
  receipt : ∀ e ∈ entries, ∀ more,
    backend.handleGetTxReceipt (.array (.string e.hashS :: more))
      = .ok (.ok (e.receiptObject backend.keccak, backend.db))
  agree : ∀ e ∈ entries, ∀ key ∈ sharedKeys,
    e.txObject.get key = (e.receiptObject backend.keccak).get key

section Views

variable {backend : ViewBackend} {h : UInt64}

omit [HexCrate] in
theorem entries_ordered (backend : ViewBackend) (h : UInt64) :
    (entriesAt backend h).Pairwise fun a b => indexLe a.receipt.txIndex b.receipt.txIndex := by
  have hindex : ∀ {hash e}, entryAt backend hash = some e →
      ∀ row ∈ backend.db.txs.rows, row.ethHash = hash → e.receipt.txIndex = row.txIndex := by
    rintro hash e he row hrow rfl
    obtain ⟨-, -, hreceipt⟩ := entryAt_some he
    obtain ⟨s, hs, hr⟩ := Option.map_eq_some_iff.mp hreceipt
    rw [settled_of_mem hrow] at hs
    rw [TxRow.txIndex, hs, ← hr]
    rfl
  unfold entriesAt Db.blockTxHashes
  rw [List.pairwise_filterMap, List.pairwise_map]
  refine (List.pairwise_insertionSort _ _).imp_of_mem ?_
  intro a b ha hb hle e he e' he'
  rw [List.mem_insertionSort] at ha hb
  rw [hindex he a (List.mem_filter.mp ha).1 rfl, hindex he' b (List.mem_filter.mp hb).1 rfl]
  exact hle

/-- Asked for in either way, the request is answered for the height. -/
theorem answerAt_of_asks {tag : String} {byHash : Bool}
    (hasks : AsksHeight backend.blocks tag byHash h) (answer : UInt64 → Except RpcFailure Value) :
    (do
      let height ←
        if byHash then .ok (backend.blocks.heightOfHash tag) else backend.blocks.heightOfTag tag
      BlockBackend.answerAt height answer) = answer h := by
  unfold AsksHeight at hasks
  cases byHash with
  | true =>
      rw [if_pos rfl] at hasks
      rw [if_pos rfl, hasks]
      rfl
  | false =>
      rw [if_neg Bool.false_ne_true] at hasks
      rw [if_neg Bool.false_ne_true, hasks]
      rfl

/-- `eth_getBlockReceipts`, in the form of its parameter. -/
theorem handleGetBlockReceipts_entries {tag : String}
    (hasks : AsksHeight backend.blocks tag (isHash tag) h) (more : List Value) :
    backend.blocks.handleGetBlockReceipts (.array (.string tag :: more))
      = .ok (.array ((entriesAt backend h).map (Entry.receiptObject backend.keccak))) := by
  rw [← blockReceipts_entries, ← answerAt_of_asks hasks backend.blockReceipts]
  show (do
    let height ←
      if strLen tag = 66 ∧ startsWith "0x" tag then
        (.ok (backend.blocks.heightOfHash tag) : Except RpcFailure (Option UInt64))
      else backend.blocks.heightOfTag tag
    BlockBackend.answerAt height backend.blockReceipts) = _
  have hform : (isHash tag = true) = (strLen tag = 66 ∧ startsWith "0x" tag = true) := by
    simp [isHash]
  simp only [hform]

/-- The answer for a position. -/
def txAt (backend : ViewBackend) (h : UInt64) (i : Nat) : Except RpcFailure Value :=
  match (backend.db.blockTxHashes h)[i]? with
  | some hash => backend.handleGetTxByHash (.array [.string ("0x" ++ hexEncode hash.bytes)])
  | none => .ok .null

theorem txAt_entries (backend : ViewBackend) (h : UInt64) (i : Nat) :
    txAt backend h i = .ok (((entriesAt backend h)[i]?.map Entry.txObject).getD .null) := by
  rw [txAt, getElem?_entries]
  cases he : (entriesAt backend h)[i]? with
  | none => rfl
  | some e => exact handleGetTxByHash_entry (List.mem_of_getElem? he) []

/-- A transaction of the block, by its position. -/
theorem handleTxByBlockAndIndex_entries {tag : String} {byHash : Bool}
    (hasks : AsksHeight backend.blocks tag byHash h) (i : UInt64) (more : List Value) :
    backend.blocks.handleTxByBlockAndIndex (.array (.string tag :: quantity i :: more)) byHash
      = .ok (((entriesAt backend h)[i.toNat]?.map Entry.txObject).getD .null) := by
  have hidx : (paramStr (.array (.string tag :: quantity i :: more)) 1).bind parseQuantity
      = .ok i := parseQuantity_quantity i
  rw [← txAt_entries, ← answerAt_of_asks hasks fun height => txAt backend height i.toNat]
  unfold BlockBackend.handleTxByBlockAndIndex
  rw [hidx]
  rfl

omit [HexCrate] in
/-- The bloom of a height is the union of its receipts'. -/
theorem blockBloom_entries (hdb : Parented backend.db) (h : UInt64) :
    blockBloom backend.keccak backend.db h
      = unionAll ((entriesAt backend h).map fun e => receiptBloom backend.keccak e.receipt) := by
  rw [blockBloom_eq hdb, ← hash_entriesAt, List.map_map]
  congr 1
  apply List.map_congr_left
  intro e he
  obtain ⟨-, -, hreceipt⟩ := entryAt_some (entryAt_hash he).1
  rw [Function.comp_apply, receiptBloomOf, hreceipt]
  rfl

/-- The block's object, once the node shows the block. -/
theorem fetchBlock_entries (hdb : Parented backend.db) {full : Bool} {obj : Value}
    (hobj : backend.fetchBlockAsEthObject h full = .ok obj) :
    obj = .null ∨ BlockObject backend h (entriesAt backend h) full obj := by
  unfold ViewBackend.fetchBlockAsEthObject at hobj
  split at hobj
  next => exact .inl (Except.ok.inj hobj).symm
  next resp _ =>
    split at hobj
    next => exact .inl (Except.ok.inj hobj).symm
    next block _ =>
      obtain ⟨gasUsed, hgas, hobj⟩ := bind_ok hobj
      obtain ⟨transactions, htxs, hobj⟩ := bind_ok hobj
      rw [blockTransactions_entries] at htxs
      cases htxs
      cases hobj
      have hgas : backend.db.blockGasUsed h = some gasUsed := by
        cases hused : backend.db.blockGasUsed h with
        | none =>
            rw [hused] at hgas
            cases hgas
        | some used =>
            rw [hused] at hgas
            cases hgas
            rfl
      refine .inr ⟨rfl, rfl, fun hsmall => ?_, ?_⟩
      · rw [← blockGasUsed_sum hgas hsmall]
        rfl
      · rw [← blockBloom_entries hdb]
        rfl

/-- The requests for a block are answered with its object. -/
theorem handleGetBlockByNumber_eq {tag : String} (hasks : AsksHeight backend.blocks tag false h)
    (full : Bool) (more : List Value) :
    backend.blocks.handleGetBlockByNumber (.array (.string tag :: .bool full :: more))
      = backend.fetchBlockAsEthObject h full :=
  answerAt_of_asks hasks fun height => backend.fetchBlockAsEthObject height full

theorem handleGetBlockByHash_eq {tag : String} (hasks : AsksHeight backend.blocks tag true h)
    (full : Bool) (more : List Value) :
    backend.blocks.handleGetBlockByHash (.array (.string tag :: .bool full :: more))
      = backend.fetchBlockAsEthObject h full :=
  answerAt_of_asks hasks fun height => backend.fetchBlockAsEthObject height full

end Views

end KoinosEvm.Proofs
