/-
The `logsBloom` of receipts and blocks, as their objects show it.

A receipt's object has the bloom of its logs, the block's object the union of
its receipts' (`block_showsBloom`): each of the two is computed from another
query, and the store has the same logs for both. So a log of the table is
missed by neither (`blooms_exact`).
-/
import KoinosEvm.Proofs.LogViews

namespace KoinosEvm.Proofs

open Lib Proxy

/-- An object says that this is its bloom. -/
def ShowsBloom [HexCrate] (obj : Value) (bloom : Bloom) : Prop :=
  obj.get "logsBloom" = some (dataHex bloom.bytes)

/-- What the receipts and the block of a height show: each receipt its own
bloom, the block the union of them, if the node has the block and the gas can
be summed up; and no row of the table is missed. -/
structure BloomsShown [HexCrate] (backend : ViewBackend) (h : UInt64) (receipts : List Value)
    (blooms : List Bloom) : Prop where
  /-- They are the receipts of the block's transactions .. -/
  answered : backend.blockReceipts h = .ok (.array receipts)
  hashes : receipts.map (·.get "transactionHash")
    = (backend.db.blockTxHashes h).map fun hash => some (dataHex hash.bytes)
  /-- .. each with its bloom. -/
  shown : List.Forall₂ ShowsBloom receipts blooms
  block : ∀ full obj, backend.fetchBlockAsEthObject h full = .ok obj →
    obj = .null ∨ ShowsBloom obj (unionAll blooms)
  fetched : ∀ resp block gasUsed full, backend.rest s!"/block/{h}" = .ok resp →
    resp.get "block" = some block → backend.db.blockGasUsed h = some gasUsed →
    ∃ obj, backend.fetchBlockAsEthObject h full = .ok obj ∧ ShowsBloom obj (unionAll blooms)
  covers : ∀ l ∈ backend.db.logs, l.blockHeight = h → ∀ i < 2048,
    LogHits backend.keccak l.toRow i → HasBloomBit (unionAll blooms) i
      ∧ ∃ receipt ∈ receipts, receipt.get "transactionHash" = some (dataHex l.ethHash.bytes)
        ∧ ∃ bloom, ShowsBloom receipt bloom ∧ HasBloomBit bloom i

section Objects

variable [HexCrate] {backend : ViewBackend} {h : UInt64}

/-- The blooms of a block's receipts. -/
def entryBlooms (backend : ViewBackend) (h : UInt64) : List Bloom :=
  (entriesAt backend h).map fun e => receiptBloom backend.keccak e.receipt

/-- A block that the node has is shown, with the union of them. -/
theorem block_showsBloom (hdb : Parented backend.db) {resp block : Value} {gasUsed : UInt64}
    (full : Bool) (hresp : backend.rest s!"/block/{h}" = .ok resp)
    (hblock : resp.get "block" = some block) (hgas : backend.db.blockGasUsed h = some gasUsed) :
    ∃ obj, backend.fetchBlockAsEthObject h full = .ok obj
      ∧ ShowsBloom obj (unionAll (entryBlooms backend h)) := by
  unfold ViewBackend.fetchBlockAsEthObject
  rw [hresp]
  simp only [hblock, hgas, blockTransactions_entries]
  refine ⟨_, rfl, ?_⟩
  rw [entryBlooms, ← blockBloom_entries hdb]
  rfl

/-- A row of the table is in the union and in its own receipt's bloom. -/
theorem entryBlooms_cover (hdb : Parented backend.db) {l : LogEntry} (hl : l ∈ backend.db.logs)
    {i : Nat} (hi : i < 2048) (hhit : LogHits backend.keccak l.toRow i) :
    HasBloomBit (unionAll (entryBlooms backend l.blockHeight)) i
      ∧ ∃ e ∈ entriesAt backend l.blockHeight, e.hash = l.ethHash
        ∧ HasBloomBit (receiptBloom backend.keccak e.receipt) i := by
  obtain ⟨e, he, hhash, -⟩ := row_in_receipt hdb hl
  refine ⟨?_, e, he, hhash, ?_⟩
  · rw [entryBlooms, ← blockBloom_entries hdb]
    exact blockBloom_covers _ hl hi hhit
  · have hcovers := receiptBloom_covers hdb hl hi hhit
    obtain ⟨-, -, hreceipt⟩ := entryAt_some (entryAt_hash he).1
    rw [receiptBloomOf, ← hhash, hreceipt] at hcovers
    exact hcovers

/-- What is shown at a height of a store that writes lead to. -/
theorem bloomsShown_entries (hdb : Parented backend.db) :
    BloomsShown backend h ((entriesAt backend h).map (Entry.receiptObject backend.keccak))
      (entryBlooms backend h) where
  answered := blockReceipts_entries backend h
  hashes := by
    rw [← hash_entriesAt, List.map_map, List.map_map]
    rfl
  shown := by
    rw [entryBlooms, List.forall₂_map_left_iff, List.forall₂_map_right_iff, List.forall₂_same]
    exact fun _ _ => rfl
  block := by
    intro full obj hobj
    exact (fetchBlock_entries hdb hobj).imp_right BlockObject.logsBloom
  fetched := fun _ _ _ full hresp hblock hgas => block_showsBloom hdb full hresp hblock hgas
  covers := by
    rintro l hl rfl i hi hhit
    obtain ⟨hunion, e, he, hhash, hbit⟩ := entryBlooms_cover hdb hl hi hhit
    refine ⟨hunion, _, List.mem_map_of_mem he, ?_, _, rfl, hbit⟩
    rw [← hhash]
    rfl

end Objects

/-- Blooms are exact unions: of any logs, in any order and any grouping; and
whatever was written to the store, the object of a block shows the union of
what the objects of its receipts show, which misses no log. -/
theorem blooms_exact [HexCrate] (backend : ViewBackend) :
    (∀ logs, ∀ i < 2048, HasBloomBit (bloomOf backend.keccak logs) i
        ↔ ∃ log ∈ logs, LogHits backend.keccak log i)
      ∧ (∀ logs logs', (∀ log, log ∈ logs ↔ log ∈ logs') →
          bloomOf backend.keccak logs = bloomOf backend.keccak logs')
      ∧ (∀ groups : List (List LogRow),
          unionAll (groups.map (bloomOf backend.keccak)) = bloomOf backend.keccak groups.flatten)
      ∧ ∀ (ws : List DbWrite) (h : UInt64), ∃ receipts blooms,
          BloomsShown { backend with db := ws.foldl applyWrite .empty } h receipts blooms := by
  refine ⟨?_, fun _ _ => bloomOf_congr, bloomOf_flatten, ?_⟩
  · intro logs i hi
    exact hasBit_bloomOf logs hi
  · intro ws h
    exact ⟨_, _, bloomsShown_entries (parented_run ws)⟩

/-- Block 5 with two transactions of one log each: the block and both receipts
show a bloom that has the logs' address in it. -/
theorem blooms_exact_atFive : ∃ obj union,
    (sampleView (twoAtFive.foldl applyWrite .empty)).fetchBlockAsEthObject 5 true = .ok obj
    ∧ ShowsBloom obj union ∧ HasBloomBit union 256
    ∧ ∃ receipts, (sampleView (twoAtFive.foldl applyWrite .empty)).blockReceipts 5
        = .ok (.array receipts) ∧ receipts.length = 2
      ∧ ∃ receipt ∈ receipts, ∃ bloom, ShowsBloom receipt bloom ∧ HasBloomBit bloom 256 := by
  obtain ⟨-, -, -, hall⟩ := blooms_exact (sampleView .empty)
  obtain ⟨receipts, blooms, hshown⟩ := hall twoAtFive 5
  have hgas : (twoAtFive.foldl applyWrite .empty).blockGasUsed 5 = some 42000 := by decide +kernel
  obtain ⟨obj, hobj, hbloom⟩ := hshown.fetched _ _ _ true rfl rfl hgas
  have hrow : logEntry (.zero 32) loggedAtFive 1 1 0 ⟨0, [1], [], []⟩
      ∈ (twoAtFive.foldl applyWrite .empty).logs := by decide
  obtain ⟨hunion, receipt, hmem, -, hreceipt⟩ := hshown.covers _ hrow rfl 256 (by decide)
    (Or.inl ⟨0, by decide, by decide⟩)
  have hlen : receipts.length = 2 := by
    have := congrArg List.length hshown.hashes
    rw [List.length_map, List.length_map] at this
    rw [this]
    decide +kernel
  exact ⟨obj, _, hobj, hbloom, hunion, receipts, hshown.answered, hlen, receipt, hmem, hreceipt⟩

end KoinosEvm.Proofs
