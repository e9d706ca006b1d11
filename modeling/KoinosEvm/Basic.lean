/-
The machine data of the model: byte strings, byte vectors that fit the
target's address space, fixed-width byte arrays and wide integers.

`u64` is `UInt64`, so wrap-around is the type's own; a `usize` is a `Nat`
wherever the only lengths in play are lengths of real buffers, and its
width is written out (`% 2 ^ 64`) at the one place where it matters
(`ProtoIter.next`, Proxy/EngineProto.lean). A `&[u8]` or `Vec<u8>` is a
`List UInt8`. Where a statement needs that a buffer is one the machine
can hold, it takes a `Buf`, whose bound is Rust's own: no allocation
exceeds `isize::MAX` bytes.
-/
import Mathlib.Algebra.Group.Int.Defs
import Mathlib.Algebra.GroupWithZero.Nat
import Mathlib.Data.FinEnum
import Mathlib.Data.List.Basic

namespace KoinosEvm

/-- A `Vec<u8>` or `&[u8]`. -/
abbrev Bytes := List UInt8

/-- A byte string that fits a target whose `isize::MAX` is below
`2 ^ bits`. -/
structure Buf (bits : Nat) where
  bytes : Bytes
  fits : bytes.length < 2 ^ bits
  deriving DecidableEq

/-- A buffer of the proxy's 64-bit target. -/
abbrev NativeBuf := Buf 63

/-- A buffer of the engine's wasm32 target. -/
abbrev WasmBuf := Buf 31

/-- `[u8; n]`. -/
structure FixedBytes (n : Nat) where
  bytes : Bytes
  len : bytes.length = n
  deriving DecidableEq

/-- An Ethereum address. -/
abbrev Address := FixedBytes 20

/-- A 32-byte word: hashes, topics, storage keys. -/
abbrev B256 := FixedBytes 32

/-- `u128`. -/
abbrev U128 := BitVec 128

/-- `U256`. -/
abbrev U256 := BitVec 256

namespace FixedBytes

variable {n : Nat}

/-- `[0u8; n]`. -/
def zero (n : Nat) : FixedBytes n := ⟨List.replicate n 0, List.length_replicate⟩

/-- `from_slice` where the caller has checked the length. -/
def ofBytes? (n : Nat) (bs : Bytes) : Option (FixedBytes n) :=
  if h : bs.length = n then some ⟨bs, h⟩ else none

@[simp] theorem ofBytes?_bytes (a : FixedBytes n) :
    ofBytes? n a.bytes = some a := by
  simp [ofBytes?, a.len]

theorem ofBytes?_eq_some {bs : Bytes} {a : FixedBytes n}
    (h : ofBytes? n bs = some a) : bs = a.bytes := by
  unfold ofBytes? at h
  split at h
  · injection h with h
    rw [← h]
  · cases h

@[ext] theorem ext {a b : FixedBytes n} (h : a.bytes = b.bytes) : a = b := by
  cases a
  cases b
  simpa using h

end FixedBytes

end KoinosEvm
