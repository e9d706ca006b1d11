/-
The receipt decoder (rpc/src/rpc.rs, `decode_receipt_events`): one pass
over the `events` array of a Koinos receipt, shared by the indexer
(`process_entry`) and the on-demand path (`fetch_receipt_from_chain`).
-/
import KoinosEvm.Proxy.EngineProto
import KoinosEvm.Proxy.Json

namespace KoinosEvm.Proxy

/-- `db::LogRow`. -/
structure LogRow where
  logIndex : Nat
  address : Bytes
  topics : List Bytes
  data : Bytes
  deriving DecidableEq

/-- `DecodedEvents`. -/
structure DecodedEvents where
  status : Bool
  gasUsed : UInt64
  contractAddress : Option Bytes
  logs : List LogRow
  deriving DecidableEq

/-- What `decode_receipt_events` starts from: success, no gas, no
address, no logs. -/
def DecodedEvents.initial : DecodedEvents := ⟨true, 0, none, []⟩

/-- One field of
`EvmResultEvent { bool success=1, uint64 gas_used=2, bytes contract_address=3 }`. -/
def resultField (out : DecodedEvents) (f : ProtoField) : DecodedEvents :=
  match f.field, f.wtype with
  | 1, 0 => if f.varint = 0 then { out with status := false } else out
  | 2, 0 => { out with gasUsed := f.varint }
  | 3, 2 =>
      if f.payload.length = 20 then
        { out with contractAddress := some f.payload }
      else out
  | _, _ => out

/-- The three locals of the `evm.log` arm. -/
structure LogParts where
  address : Bytes
  topics : List Bytes
  logData : Bytes
  deriving DecidableEq

/-- One field of
`EvmLog { bytes address=1, repeated bytes topics=2, bytes data=3 }`. -/
def logField (acc : LogParts) (f : ProtoField) : LogParts :=
  match f.field, f.wtype with
  | 1, 2 => if f.payload.length = 20 then { acc with address := f.payload } else acc
  | 2, 2 => { acc with topics := acc.topics ++ [f.payload] }
  | 3, 2 => { acc with logData := f.payload }
  | _, _ => acc

/-- The loop state: the result so far and the next log's index. -/
structure EventScan where
  out : DecodedEvents
  logIndex : Nat
  deriving DecidableEq

/-- The loop body of `decode_receipt_events`. An event whose data is not
base64 is skipped. -/
def scanEvent (checks : Checks) (b64 : Base64) (st : EventScan) (ev : Value) :
    Except Panic EventScan := do
  let name := (ev.getStr "name").getD ""
  let dataB64 := (ev.getStr "data").getD ""
  if name = "evm.result" then
    match decodeB64Lax b64 dataB64 with
    | none => return st
    | some bytes =>
        let out ← forFlatten resultField st.out (itemsOf checks bytes)
        return { st with out := out }
  else if name = "evm.log" then
    match decodeB64Lax b64 dataB64 with
    | none => return st
    | some bytes =>
        let parts ← forFlatten logField ⟨[], [], []⟩ (itemsOf checks bytes)
        let row : LogRow := ⟨st.logIndex, parts.address, parts.topics, parts.logData⟩
        return ⟨{ st.out with logs := st.out.logs ++ [row] }, st.logIndex + 1⟩
  else return st

/-- `decode_receipt_events`. -/
def decodeReceiptEvents (checks : Checks) (b64 : Base64)
    (events : Option (List Value)) : Except Panic DecodedEvents :=
  match events with
  | none => .ok .initial
  | some events => do
      let st ← events.foldlM (scanEvent checks b64) ⟨.initial, 0⟩
      return st.out

end KoinosEvm.Proxy
