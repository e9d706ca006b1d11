/-
What `process_entry` does with a history entry.

`Handled` lists what it reads on the way to `index_tx`; an entry that it
passes over has no raw transaction that it can find and decode
(`processEntry_ok`). The block it finds may come from three places;
`resolveBlock_ok` says which, and that only the cache changes.
-/
import KoinosEvm.Lib.Fallible
import KoinosEvm.Proxy.ProcessEntry
import KoinosEvm.Proofs.Hex
import KoinosEvm.Proofs.Placement

namespace KoinosEvm.Proofs

open Lib Proxy

-- ========================================================= resolve_block

/-- The cache after a block was found elsewhere. -/
def Cached (st st' : IndexerState) (block : Resolved) : Prop :=
  st' = st.cache block.blockId block.height block.timestamp

variable [HexCrate]

/-- Where `resolve_block` finds a block. -/
inductive ResolvedFrom (rest : String → Except String Value) (st : IndexerState)
    (id : String) : Resolved → IndexerState → Prop
  | cache {txInfo block} (htx : rest ("/transaction/" ++ id) = .ok txInfo)
      (hid : containingBlock txInfo = some block.blockId)
      (hcache : st.blockCache.lookup block.blockId = some (block.height, block.timestamp)) :
      ResolvedFrom rest st id block st
  | table {txInfo block row st'} (htx : rest ("/transaction/" ++ id) = .ok txInfo)
      (hid : containingBlock txInfo = some block.blockId)
      (hrow : st.db.getBlockByHash (blockHashOf block.blockId) = some row)
      (hheight : row.height = block.height) (hst : Cached st st' block) :
      ResolvedFrom rest st id block st'
  | node {txInfo reply block st'} (htx : rest ("/transaction/" ++ id) = .ok txInfo)
      (hid : containingBlock txInfo = some block.blockId)
      (hreply : rest ("/block/" ++ block.blockId) = .ok reply)
      (hheader : Proxy.readHeader reply = .ok (block.height, block.timestamp))
      (hst : Cached st st' block) :
      ResolvedFrom rest st id block st'

section Resolve

variable {rest : String → Except String Value} {st st' : IndexerState} {id : String}
  {block : Resolved}

theorem resolveBlock_ok (h : resolveBlock rest st id = .ok (block, st')) :
    ResolvedFrom rest st id block st' := by
  unfold resolveBlock at h
  obtain ⟨txInfo, htx, h⟩ := bind_ok h
  obtain ⟨blockId, hid, h⟩ := bind_ok h
  have hid := orError_ok hid
  split at h
  next height ts hcache =>
    cases h
    exact .cache htx hid hcache
  next =>
    split at h
    next row hrow =>
      cases h
      exact .table htx hid hrow rfl rfl
    next =>
      obtain ⟨reply, hreply, h⟩ := bind_ok h
      obtain ⟨⟨height, ts⟩, hheader, h⟩ := bind_ok h
      cases h
      exact .node htx hid hreply hheader rfl

/-- Finding a block does not touch the store. -/
theorem ResolvedFrom.db_eq (h : ResolvedFrom rest st id block st') : st'.db = st.db := by
  cases h with
  | cache => rfl
  | table _ _ _ _ hst | node _ _ _ _ hst =>
      rw [hst]
      rfl

end Resolve

-- ========================================================= process_entry

section Process

variable {cfg : IndexerConfig} {rest : String → Except String Value}
  {st st' : IndexerState} {entry : Value} {out : EntryOutcome}

/-- The entry's raw transaction is found and decoded. -/
def EntryDecodes (cfg : IndexerConfig) (entry : Value) (rawTx : Bytes)
    (decoded : EthTx.DecodedTx) : Prop :=
  entryRawTx cfg.checks cfg.b64 cfg.engineAddr entry = .ok (some rawTx)
    ∧ EthTx.decodeAndRecover cfg.keccak cfg.secp rawTx = .ok decoded

/-- The events of the entry's receipt. -/
def entryEvents (entry : Value) : Option (List Value) :=
  ((entryReceipt entry).bind (·.get "events")).bind Value.asArray

/-- The path of the entry's Koinos transaction at the node. -/
def entryTxPath (entry : Value) : String := "0x1220" ++ hexEncode (entryKoinosTxId entry)

/-- What `process_entry` reads of an entry that it indexes. -/
structure Handled (cfg : IndexerConfig) (rest : String → Except String Value)
    (st : IndexerState) (entry : Value) where
  rawTx : Bytes
  decoded : EthTx.DecodedTx
  ev : DecodedEvents
  block : Resolved
  /-- The state once the block is resolved. -/
  found : IndexerState
  decodes : EntryDecodes cfg entry rawTx decoded
  events : decodeReceiptEvents cfg.checks cfg.b64 (entryEvents entry) = .ok ev
  resolved : resolveBlock rest st (entryTxPath entry) = .ok (block, found)

/-- The call of `index_tx` for the entry. -/
def Handled.call (h : Handled cfg rest st entry) : IndexCall where
  ethHash := cfg.keccak h.rawTx
  txMeta := metaOf h.decoded h.rawTx (entryKoinosTxId entry)
  receipt := receiptOf h.ev h.block
  timestamp := h.block.timestamp

/-- The state after the entry. -/
def Handled.next (h : Handled cfg rest st entry) : IndexerState :=
  { h.found with db := indexOne st.db h.call }

/-- The height `process_entry` reports, and whether it wrote. -/
def Handled.outcome (h : Handled cfg rest st entry) : EntryOutcome :=
  if skips (st.db.settled h.call.ethHash) h.call.receipt then .alreadyIndexed h.block.height
  else .indexed h.block.height

/-- An entry is read in one way. -/
theorem Handled.eq (h h' : Handled cfg rest st entry) : h = h' := by
  obtain ⟨rawTx, decoded, ev, block, found, ⟨hraw, hdecode⟩, hevents, hresolved⟩ := h
  obtain ⟨rawTx', decoded', ev', block', found', ⟨hraw', hdecode'⟩, hevents', hresolved'⟩ := h'
  obtain rfl : rawTx = rawTx' := by
    rw [hraw] at hraw'
    exact Option.some.inj (Except.ok.inj hraw')
  obtain rfl : decoded = decoded' := Except.ok.inj (hdecode.symm.trans hdecode')
  obtain rfl : ev = ev' := Except.ok.inj (hevents.symm.trans hevents')
  obtain ⟨rfl, rfl⟩ : block = block' ∧ found = found' :=
    Prod.mk.inj (Except.ok.inj (hresolved.symm.trans hresolved'))
  rfl

theorem indexEntry_ok {rawTx : Bytes} {decoded : EthTx.DecodedTx}
    (hdecodes : EntryDecodes cfg entry rawTx decoded)
    (h : indexEntry cfg rest st entry rawTx decoded = .ok (.ok (out, st'))) :
    ∃ e : Handled cfg rest st entry, out = e.outcome ∧ st' = e.next := by
  unfold indexEntry at h
  split at h
  · cases h
  next receipt hreceipt =>
    obtain ⟨ev, hev, h⟩ := bind_ok h
    have hevents : decodeReceiptEvents cfg.checks cfg.b64 (entryEvents entry) = .ok ev := by
      unfold entryEvents
      rw [hreceipt]
      exact hev
    dsimp only at h
    split at h
    · cases h
    next block found hresolve =>
      refine ⟨⟨rawTx, decoded, ev, block, found, hdecodes, hevents, hresolve⟩, ?_⟩
      rw [(resolveBlock_ok hresolve).db_eq] at h
      unfold Handled.outcome Handled.next Handled.call indexOne
      by_cases hskip : skips (st.db.settled (cfg.keccak rawTx)) (receiptOf ev block) = true
      · rw [indexTx_skip hskip] at h
        rw [if_pos hskip, indexTx_skip hskip]
        cases h
        exact ⟨rfl, rfl⟩
      · rw [indexTx_write hskip] at h
        rw [if_neg hskip, indexTx_write hskip]
        cases h
        exact ⟨rfl, rfl⟩

/-- An entry is passed over, without a raw transaction that can be found and
decoded, or indexed. -/
theorem processEntry_ok (h : processEntry cfg rest st entry = .ok (.ok (out, st'))) :
    (out = .notEvm ∧ st' = st ∧ ∀ rawTx decoded, ¬ EntryDecodes cfg entry rawTx decoded)
      ∨ ∃ e : Handled cfg rest st entry, out = e.outcome ∧ st' = e.next := by
  unfold processEntry at h
  obtain ⟨found, hraw, h⟩ := bind_ok h
  cases found with
  | none =>
      cases h
      refine .inl ⟨rfl, rfl, ?_⟩
      rintro rawTx decoded ⟨hraw', -⟩
      rw [hraw] at hraw'
      cases hraw'
  | some rawTx =>
      cases hdecode : EthTx.decodeAndRecover cfg.keccak cfg.secp rawTx with
      | error e =>
          simp only [hdecode] at h
          cases h
          refine .inl ⟨rfl, rfl, ?_⟩
          rintro rawTx' decoded ⟨hraw', hdecode'⟩
          rw [hraw] at hraw'
          cases hraw'
          rw [hdecode] at hdecode'
          cases hdecode'
      | ok decoded =>
          simp only [hdecode] at h
          exact .inr (indexEntry_ok ⟨hraw, hdecode⟩ h)

end Process

end KoinosEvm.Proofs
