/-
The messages of the engine's entry points (engine/src/engine.rs): the
arguments it reads and the results and event payloads it writes. The
handlers around them are in Engine/Handlers.lean.
-/
import KoinosEvm.Engine.Proto

namespace KoinosEvm.Engine

open Proto

-- =========================================================== arguments

/-- The first loop of `handle_submit_raw_tx`: strip the wrapper
`SubmitRawTxArgs { bytes raw_tx = 1; }`, the last field 1 winning. -/
def stripRawTx (args : Bytes) : Bytes :=
  (fieldsOf args).foldl (fun rawTx (fieldNum, fieldVal) =>
    if fieldNum = 1 then (getBytes fieldVal).getD rawTx else rawTx) []

-- ============================================================= results

/-- `encode_evm_result`. -/
def encodeEvmResult (success : Bool) (output : Bytes) (gasUsed : UInt64)
    (contractAddress : Option Address) : Bytes :=
  encodeBoolField 1 success ++ encodeBytesField 2 output
    ++ encodeVarintField 3 gasUsed
    ++ (match contractAddress with
        | some addr => encodeBytesField 4 addr.bytes
        | none => [])

/-- A log as revm reports it: at most four topics (LOG0 to LOG4), the
data in the engine's memory. -/
structure Log where
  address : Address
  topics : List B256
  topics_le : topics.length ≤ 4
  data : WasmBuf

/-- The payload `emit_logs` builds for one log:
`EvmLog { bytes address = 1; repeated bytes topics = 2; bytes data = 3; }`. -/
def encodeLog (log : Log) : Bytes :=
  encodeBytesField 1 log.address.bytes
    ++ log.topics.flatMap (fun topic => encodeBytesField 2 topic.bytes)
    ++ encodeBytesField 3 log.data.bytes

/-- The payload of `emit_evm_result_event`. Field 1 is written even when
it is 0: the receipt decoder reads a missing one as success. -/
def encodeResultEvent (success : Bool) (gasUsed : UInt64)
    (contractAddress : Option Address) : Bytes :=
  encodeTag 1 wireVarint ++ encodeVarint (if success then 1 else 0)
    ++ encodeVarintField 2 gasUsed
    ++ (match contractAddress with
        | some addr => encodeBytesField 3 addr.bytes
        | none => [])

end KoinosEvm.Engine
