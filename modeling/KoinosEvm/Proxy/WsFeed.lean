/-
The logs tail of the WebSocket feed (`run_pollers` of rpc/src/ws.rs), and the
filter of its subscribers.

A tick reads the index once, under the store's lock; the height and the
channel it then changes are the poller's own, so that a tick is one step
among the writes. The heads it also pushes do not look at the index. A query
that fails changes nothing.
-/
import KoinosEvm.Proxy.GetLogs

namespace KoinosEvm.Proxy

/-- `max_indexed_height`. -/
def Db.maxIndexedHeight (db : Db) : UInt64 :=
  match (db.logs.map fun l => l.blockHeight.toInt64).max? with
  | none => 0
  | some h => (max h 0).toUInt64

/-- The filter of the tail: all logs above a height. -/
def tailFilter (lastLogsHeight : UInt64) : LogFilter :=
  { LogFilter.default with fromBlock := lastLogsHeight + 1, toBlock := i64Max }

/-- A tick: `last_logs_height` after it, and the rows it broadcasts. -/
def Db.pollLogs (sqlite : Sqlite) (db : Db) (lastLogsHeight : UInt64) :
    UInt64 × List LogEntry :=
  match db.queryLogs sqlite (tailFilter lastLogsHeight) 1000 with
  | .error _ => (lastLogsHeight, [])
  | .ok rows =>
      if rows.isEmpty then (lastLogsHeight, [])
      else ((rows.map LogEntry.blockHeight).max?.getD (lastLogsHeight + 1), rows)

-- ============================================================== the filter

variable [HexCrate]

/-- `WsLog`. -/
structure WsLog where
  address : Bytes
  topics : List Bytes
  rendered : Value

/-- A row as it is broadcast. -/
def wsLog (row : LogEntry) : WsLog := ⟨row.address, row.topics, logRowToJson row⟩

/-- `log_matches`. -/
def logMatches (addresses : List Bytes) (topics : Fin 4 → List Bytes) (log : WsLog) : Bool :=
  if !addresses.isEmpty && !addresses.any (fun a => a == log.address) then false
  else (List.finRange 4).all fun i =>
    if (topics i).isEmpty then true
    else
      match log.topics[i.val]? with
      | some t => (topics i).any fun alt => alt == t
      | none => false

end KoinosEvm.Proxy
