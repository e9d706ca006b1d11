/-
The front of the indexer's `process_entry` (rpc/src/indexer.rs): from a
history entry to the raw transaction it indexes.
-/
import KoinosEvm.Proxy.EngineProto
import KoinosEvm.Proxy.Json

namespace KoinosEvm.Proxy

/-- `EP_SUBMIT_RAW_TX`. -/
def epSubmitRawTx : Nat := 0x00000007

/-- The `find` predicate of the innermost closure. -/
def isRawTxField (f : ProtoField) : Bool := f.field == 1 && f.wtype == 2

/-- `.flatten().find(..).map(|f| f.payload.to_vec())`. -/
def firstRawTx (items : List ProtoItem) : Except Panic (Option Bytes) := do
  let hit ← findFlatten isRawTxField items
  return hit.map ProtoField.payload

/-- The innermost closure, `SubmitRawTxArgs { bytes raw_tx = 1 }`: the
first field 1 of wire type 2. -/
def indexedRawTx (checks : Checks) (args : Bytes) : Except Panic (Option Bytes) :=
  firstRawTx (itemsOf checks args)

/-- The `find` predicate over `call_contract` operations: the entry
point, and the engine's address where a contract id is present. -/
def isSubmitCall (engineAddr : String) (cc : Value) : Bool :=
  (cc.get "entry_point").bind Value.asU64 == some epSubmitRawTx
    && (match cc.getStr "contract_id" with
        | none => true
        | some c => c == engineAddr)

/-- The raw transaction of a history entry, `none` where `process_entry`
answers `NotEvm`. -/
def entryRawTx (checks : Checks) (b64 : Base64) (engineAddr : String)
    (entry : Value) : Except Panic (Option Bytes) :=
  match (entry.get "trx").bind (·.get "transaction") with
  | none => .ok none
  | some tx =>
      let ops := ((tx.get "operations").bind Value.asArray).getD []
      let calls := ops.filterMap (·.get "call_contract")
      let args := (calls.find? (isSubmitCall engineAddr)).bind (·.getStr "args")
        |>.bind (decodeB64Lax b64)
      match args with
      | none => .ok none
      | some args => indexedRawTx checks args

end KoinosEvm.Proxy
