/-
What `index_tx` does with a successful receipt, whatever the store has for
the transaction: nothing, a provisional receipt, or an indexed one in the
same block, in another block of that height or at another height.

The early return compares heights only. Afterwards the store shows the
receipt's block unless the row was indexed at its height in a sibling block,
and there it keeps the sibling's hash (`indexTx_follows_iff`).
-/
import KoinosEvm.Proofs.Store

namespace KoinosEvm.Proofs

open Lib Proxy

/-- `get_receipt` has the block of `r`. -/
def ShowsBlock (db : Db) (hash : B256) (r : ReceiptRow) : Prop :=
  ∃ stored ∈ db.getReceipt hash,
    stored.blockHeight = r.blockHeight ∧ stored.blockHash = r.blockHash

instance (db : Db) (hash : B256) (r : ReceiptRow) : Decidable (ShowsBlock db hash r) :=
  inferInstanceAs (Decidable (∃ stored ∈ db.getReceipt hash, _))

/-- The row is the indexer's, in the block of `r`. -/
def IndexedIn (db : Db) (hash : B256) (r : ReceiptRow) : Prop :=
  ∃ s, db.settled hash = some s ∧ s.txIndex.isSome
    ∧ s.blockHeight = r.blockHeight ∧ s.blockHash = r.blockHash

/-- The row is the indexer's, at the height of `r` but in another block. -/
def IndexedInSibling (db : Db) (hash : B256) (r : ReceiptRow) : Prop :=
  ∃ s, db.settled hash = some s ∧ s.txIndex.isSome
    ∧ s.blockHeight = r.blockHeight ∧ s.blockHash ≠ r.blockHash

/-- After `index_tx`, `get_receipt` has the block of `r`, and `index_tx`
wrote unless the row was indexed in that block. -/
def Follows (db : Db) (hash : B256) (txMeta : TxMeta) (r : ReceiptRow) (ts : UInt64) : Prop :=
  ShowsBlock (db.indexTx hash txMeta r ts).1 hash r
    ∧ ((db.indexTx hash txMeta r ts).2 = false → IndexedIn db hash r)

/-- The receipt's block is that of the receipt columns. -/
theorem showsBlock_iff {db : Db} {hash : B256} {r : ReceiptRow} :
    ShowsBlock db hash r ↔ ∃ s, db.settled hash = some s
      ∧ s.blockHeight = r.blockHeight ∧ s.blockHash = r.blockHash := by
  unfold ShowsBlock Db.getReceipt
  cases db.settled hash with
  | none => simp
  | some s => simp

/-- The index follows a successful receipt, except away from a sibling
block. -/
theorem indexTx_follows_iff (db : Db) (hash : B256) (txMeta : TxMeta) (r : ReceiptRow)
    (ts : UInt64) (hstatus : r.status = true) :
    Follows db hash txMeta r ts ↔ ¬ IndexedInSibling db hash r := by
  unfold Follows
  by_cases h : skips (db.settled hash) r = true
  · -- the early return: a success is never the rejected duplicate
    obtain ⟨s, hs, hindexed, hwhy⟩ := skips_iff.mp h
    have hheight : s.blockHeight = r.blockHeight := by
      rcases hwhy with hheight | ⟨-, hfail⟩
      · exact hheight
      · rw [hstatus] at hfail
        cases hfail
    rw [indexTx_skip h]
    constructor
    · rintro ⟨hshows, -⟩ ⟨s', hs', -, -, hne⟩
      obtain ⟨s'', hs'', -, heq⟩ := showsBlock_iff.mp hshows
      rw [hs'] at hs''
      cases hs''
      exact hne heq
    · intro hsibling
      have hhash : s.blockHash = r.blockHash := by
        by_contra hne
        exact hsibling ⟨s, hs, hindexed, hheight, hne⟩
      exact ⟨showsBlock_iff.mpr ⟨s, hs, hheight, hhash⟩,
        fun _ => ⟨s, hs, hindexed, hheight, hhash⟩⟩
  · rw [indexTx_write h]
    constructor
    · rintro - ⟨s, hs, hindexed, hheight, -⟩
      exact h (skips_iff.mpr ⟨s, hs, hindexed, .inl hheight⟩)
    · rintro -
      refine ⟨showsBlock_iff.mpr ?_, fun hwrote => by cases hwrote⟩
      exact ⟨_, settled_writeIndexed_self, rfl, rfl⟩

-- ================================================================ samples

/-- A store that has indexed one transaction, in block `0xaa` of height 5. -/
def indexedAtFive : Db :=
  (Db.empty.indexTx (.zero 32) sampleMeta (sampleReceipt 5 [0xaa] true) 0).1

/-- A transaction that moves to another height. -/
theorem indexTx_follows_moved :
    Follows indexedAtFive (.zero 32) sampleMeta (sampleReceipt 6 [0xbb] true) 0 := by
  refine (indexTx_follows_iff _ _ _ _ _ rfl).mpr ?_
  rintro ⟨s, hs, -, hheight, -⟩
  have h : indexedAtFive.settled (.zero 32)
      = some (settledAs (sampleReceipt 5 [0xaa] true) (some 0)) := rfl
  rw [h] at hs
  cases hs
  cases hheight

/-- The same transaction in block `0xbb` of the same height: the store keeps
the hash of `0xaa`. -/
theorem indexTx_keeps_sibling :
    (sampleReceipt 5 [0xbb] true).status = true
      ∧ ¬ Follows indexedAtFive (.zero 32) sampleMeta (sampleReceipt 5 [0xbb] true) 0 := by
  refine ⟨rfl, ?_⟩
  rintro ⟨hshows, -⟩
  revert hshows
  decide

end KoinosEvm.Proofs
