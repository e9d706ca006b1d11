/-
The crypto seam of the engine's parser, as the syscalls fill it
(engine/src/tx.rs, the bodies without `host-crypto`).

Both bodies go through two syscall wrappers, `sys::hash` and
`sys::recover_public_key`; `CryptoSys` names them in an arbitrary monad,
and `syscallCrypto` is the seam the parser runs on.
-/
import KoinosEvm.Engine.Tx

namespace KoinosEvm.Engine

/-- `HASH_SHA2_256`. -/
def HASH_SHA2_256 : UInt64 := 0x12

/-- `HASH_KECCAK_256`. -/
def HASH_KECCAK_256 : UInt64 := 0x1b

/-- `HASH_RIPEMD_160`. -/
def HASH_RIPEMD_160 : UInt64 := 0x1053

/-- `DSA_ECDSA_SECP256K1`. -/
def DSA_ECDSA_SECP256K1 : UInt64 := 0

/-- The two syscall wrappers of koinos.rs the crypto code calls. -/
structure CryptoSys (m : Type → Type) where
  /-- `sys::hash`: the multihash, empty on failure. -/
  hash : UInt64 → Bytes → m Bytes
  /-- `sys::recover_public_key`: the key, empty on failure. -/
  recoverPublicKey : UInt64 → Bytes → Bytes → Bool → m Bytes

/-- `to_be_bytes::<32>()`. -/
def beBytes32 (v : U256) : B256 := ⟨Lib.beBytes 32 v.toNat, Lib.length_beBytes 32 v.toNat⟩

/-- A slice of known position and length. -/
def slice (n start : Nat) (bs : Bytes) (h : start + n ≤ bs.length) : FixedBytes n :=
  ⟨(bs.drop start).take n, by
    rw [List.length_take, List.length_drop]
    omega⟩

variable {m : Type → Type} [Monad m] (sys : CryptoSys m)

/-- `keccak256`. -/
def keccak256 (data : Bytes) : ExceptT TxParseError m B256 := do
  let multihash ← sys.hash HASH_KECCAK_256 data
  if h : multihash.length < 34 then throw .hashFailure
  else
    -- multihash = [0x1b, 0x20, ..32 bytes..]
    return slice 32 2 multihash (by omega)

/-- The compact signature of the host: header, `r`, `s`. -/
def hostSignature (r s : U256) (yParity : UInt8) : Bytes :=
  (31 + yParity) :: ((beBytes32 r).bytes ++ (beBytes32 s).bytes)

/-- The digest as a keccak-256 multihash. -/
def hostDigest (msgHash : B256) : Bytes := 0x1b :: 0x20 :: msgHash.bytes

/-- The curve point in the host's reply: 65 bytes with the uncompressed
tag, or the 64 bytes behind it. -/
def pubkeyXy (pubkey : Bytes) : Option Bytes :=
  if pubkey.length < 64 then none
  else if pubkey.head? = some 0x04 ∧ pubkey.length = 65 then some pubkey.tail
  else if pubkey.length = 64 then some pubkey
  else none

/-- `recover_sender`. -/
def recoverSender (msgHash : B256) (r s : U256) (yParity : UInt8) :
    ExceptT TxParseError m Address := do
  let pubkey ← sys.recoverPublicKey DSA_ECDSA_SECP256K1 (hostSignature r s yParity)
    (hostDigest msgHash) false
  match pubkeyXy pubkey with
  | none => throw .recoveryFailure
  | some xy =>
      -- EVM address = keccak256(pubkey_xy)[12..32]
      let multihash ← sys.hash HASH_KECCAK_256 xy
      if h : multihash.length < 34 then throw .hashFailure
      else return slice 20 (2 + 12) multihash (by omega)

/-- The seam as the production build has it. -/
def syscallCrypto : Crypto m where
  keccak256 := keccak256 sys
  recoverSender := recoverSender sys

end KoinosEvm.Engine
