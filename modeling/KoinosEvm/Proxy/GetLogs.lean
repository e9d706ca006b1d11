/-
`eth_getLogs` (rpc/src/rpc.rs): the filter of a request, and the answer from
the log index.

A panic in the task that queries the store comes back as an error; its text is
a parameter.
-/
import KoinosEvm.Proxy.LogTable
import KoinosEvm.Proxy.Params
import KoinosEvm.Proxy.RunCycle

namespace KoinosEvm.Proxy

/-- What the handler is configured with, and the text from outside. -/
structure LogsConfig where
  checks : Checks
  sqlite : Sqlite
  getlogsMaxBlockRange : UInt64
  getlogsMaxResults : UInt64
  joinError : Panic → String

/-- `resolve_block_tag`. -/
def resolveBlockTag (tag : Value) (head : UInt64) : Except String UInt64 :=
  match tag with
  | .string s =>
      if s = "latest" ∨ s = "pending" ∨ s = "safe" ∨ s = "finalized" then .ok head
      else if s = "earliest" then .ok 1
      else if startsWith "0x" s then parseQuantity s
      else .error s!"unsupported block tag: {s}"
  | .number n => orError ((Value.number n).asU64.map UInt64.ofNat) "block number out of range"
  | _ => .error "invalid block tag"

-- ============================================================== the filter

/-- A text, an array of texts, or `null` for any. -/
def alternatives (parse : String → Except String Bytes) (notText invalid : String) :
    Value → Except RpcFailure (List Bytes)
  | .null => .ok []
  | .string s => do return [← badParams (parse s)]
  | .array alts => alts.mapM fun alt => do
      let s ← badParams (orError alt.asStr notText)
      badParams (parse s)
  | _ => badParams (.error invalid)

section Filter

variable [HexCrate]

/-- `parse_address(s)?.to_vec()`. -/
def addressBytes (s : String) : Except String Bytes :=
  (parseAddress s).map FixedBytes.bytes

/-- `parse_b32(s)?.to_vec()`. -/
def b32Bytes (s : String) : Except String Bytes := (parseB32 s).map FixedBytes.bytes

/-- `parse_address_topic_filter`. -/
def parseAddressTopicFilter (filterObj : Value) :
    Except RpcFailure (List Bytes × (Fin 4 → List Bytes)) := do
  let addresses ← alternatives addressBytes "address entries must be strings"
    "invalid 'address' filter" ((filterObj.get "address").getD .null)
  let topics ←
    match (filterObj.get "topics").getD .null with
    | .null => .ok []
    | .array arr =>
        if 4 < arr.length then badParams (.error "more than 4 topic positions")
        else arr.mapM (alternatives b32Bytes "topic entries must be strings"
          "invalid topic filter")
    | _ => badParams (.error "'topics' must be an array")
  return (addresses, fun i => topics[i.val]?.getD [])

/-- A field that is there and not `null`. -/
def isSet (filterObj : Value) (key : String) : Bool :=
  match filterObj.get key with
  | none | some .null => false
  | some _ => true

/-- A bound that takes the head to resolve. -/
def needsHead : Option Value → Bool
  | none | some .null => true
  | some (.string s) => !startsWith "0x" s
  | some _ => false

/-- How many blocks a range has, as far as a `u64` can say. -/
def blockRange (fromBlock toBlock : UInt64) : UInt64 :=
  if toBlock < fromBlock ∨ toBlock - fromBlock = 0xffffffffffffffff then 0xffffffffffffffff
  else toBlock - fromBlock + 1

/-- The heights of a request without `blockHash`. -/
def heightRange (cfg : LogsConfig) (headInfo : Except String Value) (filterObj : Value) :
    Except RpcFailure (UInt64 × UInt64) := do
  let fromV := filterObj.get "fromBlock"
  let toV := filterObj.get "toBlock"
  let head ← if needsHead fromV || needsHead toV then headHeight headInfo else .ok 0
  let fromBlock ← badParams (resolveBlockTag (fromV.getD (.string "latest")) head)
  let toBlock ← badParams (resolveBlockTag (toV.getD (.string "latest")) head)
  if toBlock < fromBlock then badParams (.error "fromBlock > toBlock")
  else
    let range := blockRange fromBlock toBlock
    let most := cfg.getlogsMaxBlockRange
    if most < range then
      .error ⟨some (-32005),
        s!"block range too large: {range} blocks (max {most}); narrow the range"⟩
    else return (fromBlock, toBlock)

/-- The `LogFilter` of a request. -/
def getLogsFilter (cfg : LogsConfig) (headInfo : Except String Value) (params : Value) :
    Except RpcFailure LogFilter := do
  let filterObj ← badParams (param params 0)
  match filterObj with
  | .object _ =>
      let (addresses, topics) ← parseAddressTopicFilter filterObj
      match filterObj.get "blockHash" with
      | some (.string s) =>
          let blockHash ← badParams (b32Bytes s)
          if isSet filterObj "fromBlock" || isSet filterObj "toBlock" then
            badParams (.error "blockHash is mutually exclusive with fromBlock/toBlock")
          else return ⟨0, 0, some blockHash, addresses, topics⟩
      | none | some .null =>
          let (fromBlock, toBlock) ← heightRange cfg headInfo filterObj
          return ⟨fromBlock, toBlock, none, addresses, topics⟩
      | some _ => badParams (.error "invalid 'blockHash'")
  | _ => badParams (.error "filter must be an object")

end Filter

-- ============================================================== the answer

variable [HexCrate]

/-- Bytes as JSON-RPC writes them. -/
def dataHex (bytes : Bytes) : Value := .string ("0x" ++ hexEncode bytes)

/-- A number as JSON-RPC writes it. -/
def numberHex (n : Nat) : Value := .string ("0x" ++ String.ofList (Nat.toDigits 16 n))

/-- `log_row_to_json`. -/
def logRowToJson (row : LogEntry) : Value :=
  .object [
    ("address", dataHex row.address),
    ("topics", .array (row.topics.map dataHex)),
    ("data", dataHex row.data),
    ("blockHash", dataHex row.blockHash),
    ("blockNumber", quantity row.blockHeight),
    ("transactionHash", dataHex row.ethHash.bytes),
    ("transactionIndex", numberHex row.txIndex),
    ("logIndex", numberHex row.logIndex),
    ("removed", .bool false)]

/-- The end of `handle_get_logs`: the query, with one row more than may be
answered. -/
def answerLogs (cfg : LogsConfig) (db : Db) (f : LogFilter) : Except RpcFailure Value :=
  let most := cfg.getlogsMaxResults
  match nextU64 cfg.checks most with
  | .error panic => .error ⟨none, "getLogs join error: " ++ cfg.joinError panic⟩
  | .ok limit =>
      match db.selectLogs cfg.sqlite f limit with
      | .error e => .error ⟨none, e⟩
      | .ok rows =>
          if most.toNat < rows.length then
            .error ⟨some (-32005), s!"query returned more than {most} results; narrow the filter"⟩
          else .ok (.array (rows.map logRowToJson))

/-- `handle_get_logs`. -/
def handleGetLogs (cfg : LogsConfig) (db : Db) (headInfo : Except String Value)
    (params : Value) : Except RpcFailure Value := do
  let f ← getLogsFilter cfg headInfo params
  answerLogs cfg db f

end KoinosEvm.Proxy
