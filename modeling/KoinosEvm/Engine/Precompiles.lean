/-
The precompiles the engine overrides (engine/src/precompiles.rs), on the
host's hash and recovery syscalls. Input lengths are those of buffers in
32-bit memory, so the gas sums stay in `u64`.
-/
import KoinosEvm.Engine.Koinos
import KoinosEvm.Engine.Revm

namespace KoinosEvm.Engine

/-- `len.div_ceil(32)`. -/
def wordsOf (input : Bytes) : Nat := (input.length + 31) / 32

/-- The answer of `ec_recover` to any signature that does not recover. -/
def ecRecoverEmpty : PrecompileOutput := ⟨3000, []⟩

/-- `ec_recover`. -/
def ecRecover (input : Bytes) (gasLimit : UInt64) :
    HostM (Except PrecompileError PrecompileOutput) := do
  if gasLimit < 3000 then return .error .outOfGas
  else
    -- the first 128 bytes, padded with zeros
    let padded := input.take 128 ++ List.replicate (128 - input.length) 0
    let hash := padded.take 32
    let v := (padded.drop 32).take 32
    let rs := padded.drop 64
    let vByte := v.getLastD 0
    -- `v` is a 32-byte integer, 27 or 28
    if !(v.take 31).all (· == 0) then return .ok ecRecoverEmpty
    else if vByte ≠ 27 ∧ vByte ≠ 28 then return .ok ecRecoverEmpty
    else
      let yParity := vByte - 27
      let pubkey ← Sys.recoverPublicKey DSA_ECDSA_SECP256K1 ((31 + yParity) :: rs)
        (0x1b :: 0x20 :: hash) false
      if pubkey.length < 64 then return .ok ecRecoverEmpty
      else
        let xy := if pubkey.head? = some 0x04 then pubkey.tail else pubkey
        let multihash ← Sys.hash HASH_KECCAK_256 xy
        if multihash.length < 34 then return .ok ecRecoverEmpty
        else
          return .ok ⟨3000, List.replicate 12 0 ++ (multihash.drop 14).take 20⟩

/-- `sha256_run`. -/
def sha256Run (input : Bytes) (gasLimit : UInt64) :
    HostM (Except PrecompileError PrecompileOutput) := do
  let gas := UInt64.ofNat (60 + 12 * wordsOf input)
  if gasLimit < gas then return .error .outOfGas
  else
    let result ← Sys.hash HASH_SHA2_256 input
    if 34 ≤ result.length then return .ok ⟨gas, (result.drop 2).take 32⟩
    else return .error (.other "sha256 system call failed")

/-- `ripemd160_run`. -/
def ripemd160Run (input : Bytes) (gasLimit : UInt64) :
    HostM (Except PrecompileError PrecompileOutput) := do
  let gas := UInt64.ofNat (600 + 120 * wordsOf input)
  if gasLimit < gas then return .error .outOfGas
  else
    let result ← Sys.hash HASH_RIPEMD_160 input
    if 22 ≤ result.length then
      return .ok ⟨gas, List.replicate 12 0 ++ result.drop (result.length - 20)⟩
    else return .error (.other "ripemd160 system call failed")

/-- `identity_run`. -/
def identityRun (input : Bytes) (gasLimit : UInt64) :
    HostM (Except PrecompileError PrecompileOutput) :=
  let gas := UInt64.ofNat (15 + 3 * wordsOf input)
  if gasLimit < gas then return .error .outOfGas
  else return .ok ⟨gas, input⟩

/-- `register_koinos_precompiles`. -/
def runPrecompile : Precompile → Bytes → UInt64 →
    HostM (Except PrecompileError PrecompileOutput)
  | .ecRecover => ecRecover
  | .sha256 => sha256Run
  | .ripemd160 => ripemd160Run
  | .identity => identityRun

end KoinosEvm.Engine
