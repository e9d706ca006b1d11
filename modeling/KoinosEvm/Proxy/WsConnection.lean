/-
A WebSocket connection (rpc/src/ws.rs): JSON-RPC as in a post,
`eth_subscribe` and `eth_unsubscribe`, and the notifications of the pollers'
events.

A connection is a task (Server.lean) that owns its subscriptions. Its loop
has no end of its own: `connectionLoop` is its first `turns` turns, for any
number of them.
-/
import KoinosEvm.Lib.Table
import KoinosEvm.Lib.Tasks
import KoinosEvm.Proxy.JsonRpc

namespace KoinosEvm.Proxy

open Lib

/-- `subs`. -/
abbrev Subs : Type := Table String Sub Sub.id

variable [HexCrate]

-- ============================================================= subscribing

/-- `v.get(i)`, of an array. -/
def Value.item (v : Value) (i : Nat) : Option Value := v.asArray.bind fun xs => xs[i]?

/-- The `i`th parameter as a text, empty if it is none. -/
def textParam (params : Value) (i : Nat) : String := ((params.item i).bind Value.asStr).getD ""

/-- `{}` of an error. -/
def RpcFailure.display (f : RpcFailure) : String :=
  match f.code with
  | some code => f.message ++ " (code " ++ toString code ++ ")"
  | none => f.message

/-- The kind that a request subscribes to. -/
def subscriptionKind (cfg : ServerConfig) (params : Value) : Except String SubKind :=
  let kind := textParam params 0
  if kind = "newHeads" then .ok .newHeads
  else if kind = "logs" then
    match parseAddressTopicFilter ((params.item 1).getD (.object [])) with
    | .ok (addresses, topics) => .ok (.logs addresses topics)
    | .error f => .error ("invalid logs filter: " ++ f.display)
  else
    .error ("unsupported subscription kind: " ++ cfg.debug kind
      ++ " (supported: newHeads, logs)")

/-- `format!("0x{:x}", n)`. -/
def subIdOf (n : UInt64) : String := "0x" ++ String.ofList (Nat.toDigits 16 n.toNat)

/-- `subs.insert`. -/
def Subs.insert (subs : Subs) (id : String) (kind : SubKind) : Subs :=
  subs.upsert ⟨id, kind⟩ (fun sub => { sub with kind := kind }) fun _ => rfl

/-- The parameters of a request. -/
def paramsOf (req : Value) : Value := (req.get "params").getD (.array [])

/-- `eth_subscribe`. -/
def subscribe (cfg : ServerConfig) (subs : Subs) (req : Value) : ServerM (Option Value × Subs) :=
  match subscriptionKind cfg (paramsOf req) with
  | .error text => return (some (errorResponse (requestId req) (-32602) text), subs)
  | .ok kind => do
      let n : UInt64 ← Prog.ask ServerOp.nextSub
      return (some (resultResponse (requestId req) (.string (subIdOf n))),
        subs.insert (subIdOf n) kind)

/-- The subscription that a request ends. -/
def unsubscribed (req : Value) : String :=
  (((req.get "params").bind fun p => p.item 0).bind Value.asStr).getD ""

/-- `eth_unsubscribe`. -/
def unsubscribe (subs : Subs) (req : Value) : Option Value × Subs :=
  (some (resultResponse (requestId req) (.bool (subs.find? (unsubscribed req)).isSome)),
    subs.erase (unsubscribed req))

/-- The method of a request, empty if it has none. -/
def methodOf (req : Value) : String := (req.getStr "method").getD ""

/-- `handle_request`, and the subscriptions after it. -/
def handleRequest (cfg : ServerConfig) (subs : Subs) (req : Value) :
    ServerM (Option Value × Subs) :=
  if methodOf req = "eth_subscribe" then subscribe cfg subs req
  else if methodOf req = "eth_unsubscribe" then return unsubscribe subs req
  else do
    let response ← dispatch cfg req
    return (response, subs)

/-- The requests of a batch, one after another. -/
def handleRequests (cfg : ServerConfig) : Subs → List Value → ServerM (List Value × Subs)
  | subs, [] => return ([], subs)
  | subs, req :: reqs => do
      let (response, subs) ← handleRequest cfg subs req
      let (rest, subs) ← handleRequests cfg subs reqs
      return (response.toList ++ rest, subs)

-- ================================================================ notifying

/-- `subscription_msg`. -/
def subscriptionMsg (subId : String) (result : Value) : Value :=
  .object [("jsonrpc", .string "2.0"), ("method", .string "eth_subscription"),
    ("params", .object [("subscription", .string subId), ("result", result)])]

/-- A loop that ends with the first failure of its body. -/
def eachOk {α : Type} (body : α → ServerM Bool) : List α → ServerM Bool
  | [] => return true
  | x :: xs => do
      if ← body x then eachOk body xs else return false

/-- The body of the loop of `push_event` over the subscriptions. -/
def pushTo (ev : WsEvent) (sub : Sub) : ServerM Bool :=
  match ev, sub.kind with
  | .newHead head, .newHeads => send (subscriptionMsg sub.id head)
  | .logs logs, .logs addresses topics =>
      eachOk (fun log =>
        if logMatches addresses topics log then send (subscriptionMsg sub.id log.rendered)
        else return true) logs
  | _, _ => return true

/-- `push_event`, and whether everything went out. -/
def pushEvent (subs : Subs) (ev : WsEvent) : ServerM Bool := do
  let entries : List Sub ← Prog.ask (ServerOp.iterate subs.rows)
  eachOk (pushTo ev) entries

-- ============================================================ a connection

/-- The cost of a text. -/
def textCost (parsed : Value) : UInt64 :=
  match parsed.asArray with
  | some reqs => lenOf reqs
  | none => 1

/-- A message is sent, and the connection goes on if it went out. -/
def sendOrEnd (subs : Subs) (msg : Value) : ServerM (Option Subs) := do
  if ← send msg then return some subs else return none

/-- The responses to an admitted text. -/
def serveText (cfg : ServerConfig) (subs : Subs) : Value → ServerM (Option Value × Subs)
  | .array reqs => do
      let (out, subs) ← handleRequests cfg subs reqs
      return (if out.isEmpty then none else some (.array out), subs)
  | single => handleRequest cfg subs single

/-- A text. -/
def onText (cfg : ServerConfig) (client : IpAddr) (subs : Subs) (parsed : Value) :
    ServerM (Option Subs) := do
  if ← allow client (textCost parsed) then
    let (response, subs) ← serveText cfg subs parsed
    match response with
    | some response => sendOrEnd subs response
    | none => return some subs
  else sendOrEnd subs (limitExceededResponse .null "rate limit exceeded")

/-- A turn of the loop: the subscriptions after it, or its `break`. -/
def turn (cfg : ServerConfig) (client : IpAddr) (subs : Subs) : WsInput → ServerM (Option Subs)
  | .text none => sendOrEnd subs (invalidRequestResponse .null "parse error")
  | .text (some parsed) => onText cfg client subs parsed
  | .other => return some subs
  | .hangup => return none
  | .event ev => do
      if ← pushEvent subs ev then return some subs else return none
  | .lagged _ => return some subs
  | .channelClosed => return none

/-- The first turns of the loop of `connection`. -/
def connectionLoop (cfg : ServerConfig) (client : IpAddr) : Nat → Subs → ServerM Unit
  | 0, _ => return ()
  | turns + 1, subs => do
      let input : WsInput ← Prog.ask ServerOp.recv
      match ← turn cfg client subs input with
      | some subs => connectionLoop cfg client turns subs
      | none => return ()

/-- `connection`. -/
def connection (cfg : ServerConfig) (client : IpAddr) (turns : Nat) : ServerM Unit :=
  connectionLoop cfg client turns .empty

/-- `handle_ws`. -/
def handleWs (cfg : ServerConfig) (peer : IpAddr) (headers : Headers) (turns : Nat) : ServerM Unit :=
  connection cfg (effectiveClientIp cfg peer headers) turns

-- =============================================================== the server

/-- What comes in: a post, or a WebSocket, of which some turns are seen. -/
inductive Incoming where
  | post (peer : IpAddr) (headers : Headers) (payload : Value)
  | socket (peer : IpAddr) (headers : Headers) (turns : Nat)

/-- The task for it. That of a WebSocket ends without a reply. -/
def taskOf (cfg : ServerConfig) : Incoming → ServerM (Option (Status × Value))
  | .post peer headers payload => do
      return some (← handleRpc cfg peer headers payload)
  | .socket peer headers turns => do
      handleWs cfg peer headers turns
      return none

/-- The tasks for all that comes in, before any of them has begun. -/
def startServer {ι : Type} (cfg : ServerConfig) (rps burst : UInt64) (incoming : ι → Incoming) :
    Tasks ServerOp ServerRes Panic (Option (Status × Value)) ServerState ι where
  shared := ⟨RateLimiter.new rps burst, 0, 1⟩
  left := fun i => taskOf cfg (incoming i)

end KoinosEvm.Proxy
