/-
The engine's state: the object spaces (engine/src/state.rs), the account
codec, and the `Database` and `DatabaseCommit` implementations over them
(engine/src/database.rs).

Every space carries the contract id as its zone, and every constructor
asks the host for it anew.
-/
import KoinosEvm.Engine.Koinos
import KoinosEvm.Engine.Revm

namespace KoinosEvm.Engine

open Proto

-- ========================================================== the spaces

/-- `SPACE_ACCOUNTS`. -/
def SPACE_ACCOUNTS : UInt32 := 0

/-- `SPACE_CODE`. -/
def SPACE_CODE : UInt32 := 1

/-- `SPACE_STORAGE`. -/
def SPACE_STORAGE : UInt32 := 2

/-- `SPACE_TEST`. -/
def SPACE_TEST : UInt32 := 100

/-- `contract_zone`. -/
def contractZone : HostM Bytes := do
  let zone ← Sys.getContractId
  if zone.isEmpty then
    Sys.log "FATAL: get_contract_id returned empty"
    Sys.exitError "get_contract_id failed"
  else return zone

/-- `engine_space`. -/
def engineSpace (id : UInt32) : HostM ObjectSpace := do
  return { system := false, zone := ← contractZone, id := id }

/-- `accounts_space`. -/
def accountsSpace : HostM ObjectSpace := engineSpace SPACE_ACCOUNTS

/-- `code_space`. -/
def codeSpace : HostM ObjectSpace := engineSpace SPACE_CODE

/-- `storage_space`. -/
def storageSpace : HostM ObjectSpace := engineSpace SPACE_STORAGE

/-- `test_space`. -/
def testSpace : HostM ObjectSpace := engineSpace SPACE_TEST

/-- `storage_key`. -/
def storageKey (address : Address) (slot : B256) : Bytes := address.bytes ++ slot.bytes

-- ============================================================ accounts

/-- `KECCAK_EMPTY`. -/
def KECCAK_EMPTY : B256 :=
  ⟨Lib.beBytes 32 0xc5d2460186f7233c927e7db2dcc703c0e500b653ca82273b7bfad8045d85a470,
    Lib.length_beBytes 32 _⟩

/-- `serialize_account`. -/
def serializeAccount (info : AccountInfo) : Bytes :=
  encodeVarintField 1 info.nonce ++ encodeBytesField 2 (beBytes32 info.balance).bytes
    ++ encodeBytesField 3 info.codeHash.bytes

/-- One field of
`EvmAccount { uint64 nonce = 1; bytes balance = 2; bytes code_hash = 3; }`. -/
def accountField (info : AccountInfo) (f : Field) : AccountInfo :=
  match f with
  | (1, v) =>
      match getVarint v with
      | some v => { info with nonce := v }
      | none => info
  | (2, v) =>
      match getBytes v with
      | some bs => if bs.length = 32 then { info with balance := u256FromBeSlice bs } else info
      | none => info
  | (3, v) =>
      match (getBytes v).bind (FixedBytes.ofBytes? 32) with
      | some h => { info with codeHash := h }
      | none => info
  | _ => info

/-- `deserialize_account`, which always returns `Some`. -/
def deserializeAccount (data : Bytes) : Option AccountInfo :=
  some ((fieldsOf data).foldl accountField ⟨0, 0, KECCAK_EMPTY, none⟩)

-- ========================================================= the database

/-- `Database::basic`. -/
def basic (address : Address) : HostM (Except KoinosDbError (Option AccountInfo)) := do
  let space ← accountsSpace
  match ← Sys.getObject space address.bytes with
  | some data =>
      match deserializeAccount data with
      | some info => return .ok (some info)
      | none => return .error .invalidData
  | none => return .ok none

/-- `Database::code_by_hash`. -/
def codeByHash (codeHash : B256) : HostM (Except KoinosDbError Bytes) := do
  if codeHash = KECCAK_EMPTY then return .ok []
  else
    let space ← codeSpace
    match ← Sys.getObject space codeHash.bytes with
    | some data => return .ok data
    | none => return .ok []

/-- `Database::storage`. -/
def storage (address : Address) (index : U256) : HostM (Except KoinosDbError U256) := do
  let space ← storageSpace
  match ← Sys.getObject space (storageKey address (beBytes32 index)) with
  | some data => if data.length = 32 then return .ok (u256FromBeSlice data) else return .ok 0
  | none => return .ok 0

/-- `Database::block_hash`: zero at every height. -/
def blockHash (_number : UInt64) : HostM (Except KoinosDbError B256) :=
  return .ok (FixedBytes.zero 32)

-- =============================================================== commit

/-- One slot of the storage loop of `commit`. -/
def commitSlot (space : ObjectSpace) (address : Address) (slot value : U256) : HostM Unit :=
  let key := storageKey address (beBytes32 slot)
  if value = 0 then Sys.removeObject space key
  else Sys.putObject space key (beBytes32 value).bytes

/-- The code write of `commit`, where the account carries code. -/
def commitCode (space : ObjectSpace) (info : AccountInfo) : HostM Unit :=
  match info.code with
  | some bytecode =>
      if !bytecode.isEmpty && info.codeHash ≠ KECCAK_EMPTY then
        Sys.putObject space info.codeHash.bytes bytecode
      else pure ()
  | none => pure ()

/-- One account of the loop of `commit`. -/
def commitAccount (accounts code slots : ObjectSpace) (address : Address)
    (account : Account) : HostM Unit :=
  if !account.touched then pure ()
  else if account.selfdestructed then Sys.removeObject accounts address.bytes
  else do
    Sys.putObject accounts address.bytes (serializeAccount account.info)
    commitCode code account.info
    account.storage.forM fun (slot, value) => commitSlot slots address slot value

/-- `DatabaseCommit::commit`. -/
def commit (changes : EvmState) : HostM Unit := do
  let accounts ← accountsSpace
  let code ← codeSpace
  let slots ← storageSpace
  changes.accounts.forM fun (address, account) =>
    commitAccount accounts code slots address account

end KoinosEvm.Engine
