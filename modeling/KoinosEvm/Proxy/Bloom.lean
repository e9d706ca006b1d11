/-
Log blooms (rpc/src/bloom.rs) and where the answers take them from: a
receipt's from its own logs, a block's from the log table. Keccak-256 is
a parameter.
-/
import KoinosEvm.Lib.Bitmap
import KoinosEvm.Proxy.Db

namespace KoinosEvm.Proxy

open Lib

/-- `BLOOM_BYTES`. -/
def BLOOM_BYTES : Nat := 256

/-- `Bloom`. -/
abbrev Bloom := FixedBytes BLOOM_BYTES

/-- `Bloom::default()`. -/
def Bloom.default : Bloom := .zero BLOOM_BYTES

section Keccak

variable (keccak : Bytes → B256)

/-- The `u16` index of a pair of hash bytes, masked to 11 bits. -/
def pairIndex (hash : B256) (pair : Nat) : UInt16 :=
  (((hash.bytes.getD (2 * pair) 0).toUInt16 <<< 8)
    ||| (hash.bytes.getD (2 * pair + 1) 0).toUInt16) &&& 0x7ff

/-- `self.0[byte] |= 1 << (idx % 8)`, `byte` being counted from the end. -/
def Bloom.mark (b : Bloom) (idx : UInt16) : Bloom :=
  ⟨setBit b.bytes idx.toNat, by rw [length_setBit, b.len]⟩

/-- `accrue`. -/
def Bloom.accrue (b : Bloom) (element : Bytes) : Bloom :=
  let hash := keccak element
  (List.range 3).foldl (fun b pair => b.mark (pairIndex hash pair)) b

/-- `union`. -/
def Bloom.union (b other : Bloom) : Bloom :=
  ⟨orBytes b.bytes other.bytes, by rw [length_orBytes (by rw [b.len, other.len]), b.len]⟩

/-- `log_bloom`. -/
def logBloom (address : Bytes) (topics : List Bytes) : Bloom :=
  topics.foldl (Bloom.accrue keccak) (Bloom.default.accrue keccak address)

/-- `for log in .. { bloom.union(&log_bloom(&log.address, &log.topics)) }`. -/
def bloomOf (logs : List LogRow) : Bloom :=
  logs.foldl (fun bloom log => bloom.union (logBloom keccak log.address log.topics)) .default

/-- The bloom of `receipt_to_json`. -/
def receiptBloom (r : ReceiptRow) : Bloom := bloomOf keccak r.logs

/-- The bloom of `fetch_block_as_eth_object`. -/
def blockBloom (db : Db) (height : UInt64) : Bloom := bloomOf keccak (db.blockLogs height)

end Keccak

end KoinosEvm.Proxy
