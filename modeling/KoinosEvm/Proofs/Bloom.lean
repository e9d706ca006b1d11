/-
What is in a log bloom, and whose logs are in a block's.

A bloom is the set of its bits (`bloom_ext`). Folding `union` over logs
gives the positions of their elements and no other (`hasBit_bloomOf`), so
neither order nor grouping matters (`bloomOf_congr`, `bloomOf_flatten`).
The log table has for a block the logs of its transactions' receipts
(Proofs/Views.lean), in another order and other groups: that is all there
is between a block's bloom and those of its receipts
(`blockBloom_eq`). What the objects show of them is in
Proofs/BlockBlooms.lean.
-/
import KoinosEvm.Proofs.Views
import KoinosEvm.Proxy.Bloom

namespace KoinosEvm.Proofs

open Lib Proxy

-- ============================================================= positions

/-- The `pair`th 11-bit position of a hash. -/
def bloomPosition (hash : B256) (pair : Nat) : Nat :=
  ((hash.bytes.getD (2 * pair) 0).toNat * 256 + (hash.bytes.getD (2 * pair + 1) 0).toNat) % 2048

theorem pairIndex_toNat (hash : B256) (pair : Nat) :
    (pairIndex hash pair).toNat = bloomPosition hash pair := by
  rw [pairIndex, bloomPosition, UInt16.toNat_and, UInt16.toNat_or, UInt16.toNat_shiftLeft]
  generalize hash.bytes.getD (2 * pair) 0 = high
  generalize hash.bytes.getD (2 * pair + 1) 0 = low
  have hhigh := high.toNat_lt
  have hlow := low.toNat_lt
  simp only [UInt8.toNat_toUInt16, UInt16.reduceToNat, Nat.reduceMod]
  have hor : high.toNat <<< 8 % 2 ^ 16 ||| low.toNat = high.toNat * 256 + low.toNat := by
    rw [Nat.shiftLeft_eq, Nat.mod_eq_of_lt (by omega), Nat.mul_comm,
      ← Nat.two_pow_add_eq_or_of_lt hlow]
  rw [hor, show (2047 : Nat) = 2 ^ 11 - 1 by rfl, Nat.and_two_pow_sub_one_eq_mod]

section Keccak

variable {keccak : Bytes → B256}

/-- An element hits a position. -/
def Hits (keccak : Bytes → B256) (element : Bytes) (i : Nat) : Prop :=
  ∃ pair < 3, bloomPosition (keccak element) pair = i

/-- A log hits a position with its address or a topic. -/
def LogHits (keccak : Bytes → B256) (log : LogRow) (i : Nat) : Prop :=
  Hits keccak log.address i ∨ ∃ topic ∈ log.topics, Hits keccak topic i

-- ================================================================= bits

variable {b other : Bloom} {i : Nat}

theorem bloom_bits (b : Bloom) : 8 * b.bytes.length = 2048 := by
  rw [b.len]
  rfl

/-- Bit `i`: in the byte `255 - i / 8`, at `i % 8`. -/
def HasBloomBit (b : Bloom) (i : Nat) : Prop :=
  (b.bytes.getD (255 - i / 8) 0).toNat.testBit (i % 8) = true

theorem hasBloomBit_iff : HasBloomBit b i ↔ HasBit b.bytes i := by
  rw [HasBloomBit, HasBit, b.len]
  rfl

/-- A bloom is the set of its bits. -/
theorem bloom_ext (h : ∀ i < 2048, HasBloomBit b i ↔ HasBloomBit other i) : b = other := by
  apply FixedBytes.ext
  apply eq_of_hasBit (by rw [b.len, other.len])
  rw [bloom_bits]
  simpa only [hasBloomBit_iff] using h

theorem hasBit_default : ¬ HasBloomBit Bloom.default i := by
  rw [hasBloomBit_iff]
  exact not_hasBit_zeros _ _

theorem hasBit_union (hi : i < 2048) :
    HasBloomBit (b.union other) i ↔ HasBloomBit b i ∨ HasBloomBit other i := by
  rw [hasBloomBit_iff, hasBloomBit_iff, hasBloomBit_iff]
  exact hasBit_orBytes (by rw [b.len, other.len]) (by rwa [bloom_bits])

theorem hasBit_mark {idx : UInt16} (hidx : idx.toNat < 2048) (hi : i < 2048) :
    HasBloomBit (b.mark idx) i ↔ HasBloomBit b i ∨ idx.toNat = i := by
  rw [hasBloomBit_iff, hasBloomBit_iff, Bloom.mark,
    hasBit_setBit (by rwa [bloom_bits]) (by rwa [bloom_bits]), or_comm, eq_comm]

/-- An element adds its three positions. -/
theorem hasBit_accrue (element : Bytes) (hi : i < 2048) :
    HasBloomBit (b.accrue keccak element) i ↔ HasBloomBit b i ∨ Hits keccak element i := by
  have hround : ∀ (b : Bloom) (pair : Nat),
      HasBloomBit (b.mark (pairIndex (keccak element) pair)) i
        ↔ HasBloomBit b i ∨ bloomPosition (keccak element) pair = i := by
    intro b pair
    rw [← pairIndex_toNat]
    refine hasBit_mark ?_ hi
    rw [pairIndex_toNat]
    exact Nat.mod_lt _ (by omega)
  have hloop :=
    hasBit_foldl HasBloomBit (fun pair i => bloomPosition (keccak element) pair = i) hround
    (List.range 3) b
  rw [Bloom.accrue, hloop]
  simp [Hits]

theorem hasBit_logBloom (log : LogRow) (hi : i < 2048) :
    HasBloomBit (logBloom keccak log.address log.topics) i ↔ LogHits keccak log i := by
  have hround : ∀ (b : Bloom) (topic : Bytes), HasBloomBit (b.accrue keccak topic) i
      ↔ HasBloomBit b i ∨ Hits keccak topic i := fun b topic => hasBit_accrue topic hi
  have hloop := hasBit_foldl HasBloomBit (Hits keccak) hround log.topics
    (Bloom.default.accrue keccak log.address)
  rw [logBloom, hloop, hasBit_accrue _ hi, LogHits]
  simp [hasBit_default]

/-- The bits of a union over logs are what the logs hit. -/
theorem hasBit_bloomOf (logs : List LogRow) (hi : i < 2048) :
    HasBloomBit (bloomOf keccak logs) i ↔ ∃ log ∈ logs, LogHits keccak log i := by
  have hround : ∀ (b : Bloom) (log : LogRow),
      HasBloomBit (b.union (logBloom keccak log.address log.topics)) i
        ↔ HasBloomBit b i ∨ LogHits keccak log i := by
    intro b log
    rw [hasBit_union hi, hasBit_logBloom log hi]
  have hloop := hasBit_foldl HasBloomBit (LogHits keccak) hround logs .default
  rw [bloomOf, hloop]
  simp [hasBit_default]

-- ==================================================== order and grouping

/-- Only which logs there are matters. -/
theorem bloomOf_congr {logs logs' : List LogRow} (h : ∀ log, log ∈ logs ↔ log ∈ logs') :
    bloomOf keccak logs = bloomOf keccak logs' := by
  apply bloom_ext
  intro i hi
  rw [hasBit_bloomOf _ hi, hasBit_bloomOf _ hi]
  simp only [h]

/-- The union of blooms, in the order they come. -/
def unionAll (blooms : List Bloom) : Bloom := blooms.foldl Bloom.union .default

theorem hasBit_unionAll (blooms : List Bloom) (hi : i < 2048) :
    HasBloomBit (unionAll blooms) i ↔ ∃ bloom ∈ blooms, HasBloomBit bloom i := by
  have hround : ∀ b other : Bloom,
      HasBloomBit (b.union other) i ↔ HasBloomBit b i ∨ HasBloomBit other i :=
    fun b other => hasBit_union hi
  have hloop := hasBit_foldl HasBloomBit HasBloomBit hround blooms .default
  rw [unionAll, hloop]
  simp [hasBit_default]

/-- Groups of logs, each folded on its own, union to the bloom of all. -/
theorem bloomOf_flatten (groups : List (List LogRow)) :
    unionAll (groups.map (bloomOf keccak)) = bloomOf keccak groups.flatten := by
  apply bloom_ext
  intro i hi
  rw [hasBit_unionAll _ hi, hasBit_bloomOf _ hi]
  simp only [List.mem_map, exists_exists_and_eq_and, hasBit_bloomOf _ hi, List.mem_flatten]
  constructor
  · intro h
    obtain ⟨group, hgroup, log, hlog, hhit⟩ := h
    exact ⟨log, ⟨group, hgroup, hlog⟩, hhit⟩
  · intro h
    obtain ⟨log, ⟨group, hgroup, hlog⟩, hhit⟩ := h
    exact ⟨group, hgroup, log, hlog, hhit⟩

-- ================================================================ blocks

/-- The bloom of a transaction's receipt, empty if it has none. -/
def receiptBloomOf (keccak : Bytes → B256) (db : Db) (hash : B256) : Bloom :=
  ((db.getReceipt hash).map (receiptBloom keccak)).getD .default

theorem receiptBloomOf_eq (db : Db) (hash : B256) :
    receiptBloomOf keccak db hash = bloomOf keccak (receiptLogs db hash) := by
  rw [receiptBloomOf, receiptLogs]
  cases db.getReceipt hash with
  | none => rfl
  | some r => rfl

/-- The block's bloom is the union of its receipts'. -/
theorem blockBloom_eq {db : Db} (hdb : Parented db) (height : UInt64) :
    blockBloom keccak db height
      = unionAll ((db.blockTxHashes height).map (receiptBloomOf keccak db)) := by
  have hgroups : (db.blockTxHashes height).map (receiptBloomOf keccak db)
      = ((db.blockTxHashes height).map (receiptLogs db)).map (bloomOf keccak) := by
    rw [List.map_map]
    exact List.map_congr_left fun hash _ => receiptBloomOf_eq db hash
  rw [hgroups, bloomOf_flatten, blockBloom, ← List.flatMap_def]
  exact bloomOf_congr fun log => (blockLogs_perm hdb height).mem_iff

/-- A row of the log table is in its block's bloom .. -/
theorem blockBloom_covers (db : Db) {l : LogEntry} (hl : l ∈ db.logs) (hi : i < 2048)
    (hhit : LogHits keccak l.toRow i) :
    HasBloomBit (blockBloom keccak db l.blockHeight) i := by
  apply (hasBit_bloomOf _ hi).mpr
  refine ⟨l.toRow, List.mem_map_of_mem ?_, hhit⟩
  rw [List.mem_insertionSort]
  exact List.mem_filter.mpr ⟨hl, decide_eq_true rfl⟩

/-- .. and in its transaction's receipt's. -/
theorem receiptBloom_covers {db : Db} (hdb : Parented db) {l : LogEntry} (hl : l ∈ db.logs)
    (hi : i < 2048) (hhit : LogHits keccak l.toRow i) :
    HasBloomBit (receiptBloomOf keccak db l.ethHash) i := by
  have hrow : l ∈ logRows db.logs l.ethHash := List.mem_filter.mpr ⟨hl, decide_eq_true rfl⟩
  obtain ⟨s, hs, -⟩ := parented_iff.mp hdb l.ethHash l hrow
  have hmem : l.ethHash ∈ db.blockTxHashes s.blockHeight :=
    mem_blockTxHashes_iff.mpr ⟨s, hs, rfl⟩
  rw [receiptBloomOf_eq, hasBit_bloomOf _ hi]
  exact ⟨l.toRow, (receiptLogs_perm hmem).mem_iff.mpr (List.mem_map_of_mem hrow), hhit⟩

end Keccak

end KoinosEvm.Proofs
