/-
What the server of the proxy asks of the rest of it (rpc/src/main.rs,
rpc/src/ws.rs).

A task of the server is a program over `ServerOp`: it takes tokens of the
rate limiter, has a method answered by its handler, and, for a WebSocket,
waits for the next input, sends, takes a subscription number and goes through
its subscriptions. Between two of these anything may happen in other tasks. A
handler that panics ends its task.
-/
import KoinosEvm.Lib.Interact
import KoinosEvm.Proxy.RateLimit
import KoinosEvm.Proxy.StateReads
import KoinosEvm.Proxy.WsFeed

namespace KoinosEvm.Proxy

open Lib

-- =============================================================== methods

/-- The methods with a handler. -/
inductive Method where
  | feeHistory
  | web3Sha3
  | blockNumber
  | getBalance
  | getTransactionCount
  | getCode
  | getStorageAt
  | call
  | sendRawTransaction
  | getTransactionReceipt
  | getTransactionByHash
  | getLogs
  | estimateGas
  | getBlockByNumber
  | getBlockByHash
  | getBlockReceipts
  | getBlockTransactionCount (byHash : Bool)
  | getTransactionByBlockAndIndex (byHash : Bool)
  deriving DecidableEq

-- ========================================================= subscriptions

/-- `SubKind`. -/
inductive SubKind where
  | newHeads
  | logs (addresses : List Bytes) (topics : Fin 4 → List Bytes)

/-- An entry of `subs`. -/
structure Sub where
  id : String
  kind : SubKind

/-- `WsEvent`. -/
inductive WsEvent where
  | newHead (head : Value)
  | logs (logs : List WsLog)

/-- What the `select!` of a connection ends with: a text, as it is parsed,
another message that is no `Close`, the end of the socket, an event, that
events were lost, or the end of the channel. -/
inductive WsInput where
  | text (parsed : Option Value)
  | other
  | hangup
  | event (ev : WsEvent)
  | lagged (skipped : UInt64)
  | channelClosed

-- ============================================================== programs

/-- What a task asks. -/
inductive ServerOp where
  /-- `rate_limiter.allow`. -/
  | allow (client : IpAddr) (cost : UInt64)
  /-- The handler of a method. -/
  | handle (m : Method) (params : Value)
  /-- The `select!` of a connection. -/
  | recv
  /-- `socket.send`. -/
  | send (msg : Value)
  /-- `SUB_COUNTER.fetch_add(1)`. -/
  | nextSub
  /-- The order in which a `HashMap` hands out its entries. -/
  | iterate (subs : List Sub)

/-- .. and what it is told. The limiter also says when it answered, which no
task looks at. -/
def ServerRes : ServerOp → Type
  | .allow .. => Bool × Nat
  | .handle .. => Except Panic (Except HandlerError Value)
  | .recv => WsInput
  | .send _ => Bool
  | .nextSub => UInt64
  | .iterate _ => List Sub

/-- A task of the server. -/
abbrev ServerM : Type → Type := Prog ServerOp ServerRes Panic

/-- A call of the rate limiter. -/
def allow (client : IpAddr) (cost : UInt64) : ServerM Bool := do
  let answer : Bool × Nat ← Prog.ask (ServerOp.allow client cost)
  return answer.1

/-- A call of a handler. -/
def callHandler (m : Method) (params : Value) : ServerM (Except HandlerError Value) := do
  let reply : Except Panic (Except HandlerError Value) ← Prog.ask (ServerOp.handle m params)
  match reply with
  | .ok answer => return answer
  | .error p => .halt p

/-- `socket.send`, and whether it went out. -/
def send (msg : Value) : ServerM Bool := Prog.ask (ServerOp.send msg)

-- ================================================================ the rest

/-- What the tasks share: the rate limiter, the time of its last answer, and
`SUB_COUNTER`. -/
structure ServerState where
  limiter : RateLimiter
  now : Nat
  subCounter : UInt64

/-- An input that fits in memory. -/
def WsInput.Fits : WsInput → Prop
  | .text (some (.array reqs)) => reqs.length < 2 ^ 64
  | _ => True

/-- The rest of the proxy serves a call. Handlers, peers and the order of a
`HashMap` are not known. -/
inductive ServerStep : ServerState → Ev ServerOp ServerRes → ServerState → Prop
  | allow {s : ServerState} {client : IpAddr} {cost : UInt64} {now : Nat} (h : s.now ≤ now) :
      ServerStep s
        ⟨ServerOp.allow client cost,
          (((s.limiter.allow now client cost).1, now) : Bool × Nat)⟩
        { s with limiter := (s.limiter.allow now client cost).2, now := now }
  | handle {s : ServerState} {m : Method} {params : Value}
      (reply : Except Panic (Except HandlerError Value)) :
      ServerStep s ⟨ServerOp.handle m params, reply⟩ s
  | recv {s : ServerState} (input : WsInput) (h : input.Fits) :
      ServerStep s ⟨ServerOp.recv, input⟩ s
  | send {s : ServerState} {msg : Value} (sent : Bool) : ServerStep s ⟨ServerOp.send msg, sent⟩ s
  | nextSub {s : ServerState} :
      ServerStep s ⟨ServerOp.nextSub, s.subCounter⟩ { s with subCounter := s.subCounter + 1 }
  | iterate {s : ServerState} {subs : List Sub} (order : List Sub) (h : order.Perm subs) :
      ServerStep s ⟨ServerOp.iterate subs, order⟩ s

end KoinosEvm.Proxy
