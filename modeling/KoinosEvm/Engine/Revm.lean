/-
What the engine uses of `revm`.

The interpreter itself is a parameter: `Revm.transact` is a program over
the `Database` trait and the precompiles the engine overrides, which it
may call in any order and as often as it likes, and which ends with an
error, with a result and a change set, or in a panic. `transact_commit` is
`transact` followed by `commit` on the change set (Engine/Database.lean),
as revm documents it, so an error commits nothing.
-/
import KoinosEvm.Engine.Messages
import KoinosEvm.Lib.Interact

namespace KoinosEvm.Engine

/-- `AccountInfo`; a `Bytecode` is its original bytes. -/
structure AccountInfo where
  balance : U256
  nonce : UInt64
  codeHash : B256
  code : Option Bytes
  deriving DecidableEq

/-- `Account`: the flags are those of its status, the storage maps slots
to present values, in the order the map is iterated. -/
structure Account where
  info : AccountInfo
  storage : List (U256 × U256)
  storage_nodup : (storage.map Prod.fst).Nodup
  touched : Bool
  selfdestructed : Bool
  created : Bool

/-- `HashMap<Address, Account>`, in the order it is iterated. -/
structure EvmState where
  accounts : List (Address × Account)
  nodup : (accounts.map Prod.fst).Nodup

/-- `Output`. -/
inductive Output where
  | call (data : WasmBuf)
  | create (data : WasmBuf) (address : Option Address)

/-- `ExecutionResult`, the fields the engine reads. -/
inductive ExecutionResult where
  | success (gasUsed : UInt64) (logs : List Log) (output : Output)
  | revert (gasUsed : UInt64) (output : WasmBuf)
  | halt (gasUsed : UInt64)

/-- `EVMError<KoinosDbError>`: the engine prints it and nothing else. -/
structure EvmError where
  debug : String

/-- `KoinosDbError`. -/
inductive KoinosDbError where
  | readError
  | writeError
  | invalidData
  deriving DecidableEq

/-- `PrecompileErrors::Error`. -/
inductive PrecompileError where
  | outOfGas
  | other (msg : String)
  deriving DecidableEq

/-- `PrecompileOutput`. -/
structure PrecompileOutput where
  gasUsed : UInt64
  bytes : Bytes
  deriving DecidableEq

/-- The precompiles `register_koinos_precompiles` installs. -/
inductive Precompile where
  | ecRecover
  | sha256
  | ripemd160
  | identity
  deriving DecidableEq

/-- `CfgEnv`, at `SpecId::CANCUN`. -/
structure CfgEnv where
  chainId : UInt64

/-- `BlockEnv`. -/
structure BlockEnv where
  number : U256
  timestamp : U256
  basefee : U256
  gasLimit : U256
  coinbase : Address
  difficulty : U256

/-- `TxKind`. -/
inductive TxKind where
  | call (toAddr : Address)
  | create

/-- `TxEnv`, the fields the engine sets. -/
structure TxEnv where
  caller : Address
  gasLimit : UInt64
  gasPrice : U256
  transactTo : TxKind
  value : U256
  data : Bytes
  nonce : Option UInt64
  chainId : Option UInt64

/-- The calls revm makes: the `Database` trait and the overridden
precompiles. -/
inductive DbOp where
  | basic (address : Address)
  | codeByHash (codeHash : B256)
  | storage (address : Address) (index : U256)
  | blockHash (number : UInt64)
  | precompile (p : Precompile) (input : Bytes) (gasLimit : UInt64)

/-- What they return. -/
def DbRes : DbOp → Type
  | .basic _ => Except KoinosDbError (Option AccountInfo)
  | .codeByHash _ => Except KoinosDbError Bytes
  | .storage _ _ => Except KoinosDbError U256
  | .blockHash _ => Except KoinosDbError B256
  | .precompile _ _ _ => Except PrecompileError PrecompileOutput

/-- A panic inside revm. -/
inductive RevmPanic where
  | panic

/-- The interpreter. -/
structure Revm where
  transact : CfgEnv → BlockEnv → TxEnv →
    Lib.Prog DbOp DbRes RevmPanic (Except EvmError (ExecutionResult × EvmState))

end KoinosEvm.Engine
