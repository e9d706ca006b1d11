/-
The JSON-RPC front of the proxy: `dispatch` (rpc/src/rpc.rs), `handle_rpc`
(rpc/src/main.rs) and `effective_client_ip` (rpc/src/limit.rs).

A post is a task of the server (Server.lean). Methods with a fixed answer
are answered here; the others have a handler. The parser of IP addresses and
the `{:?}` of a text are the standard library's.
-/
import KoinosEvm.Proxy.Server

namespace KoinosEvm.Proxy

open Lib

-- ============================================================= responses

/-- A result. -/
def resultResponse (id result : Value) : Value :=
  .object [("jsonrpc", .string "2.0"), ("id", id), ("result", result)]

/-- `error_response`. -/
def errorResponse (id : Value) (code : Int) (message : String) : Value :=
  .object [("jsonrpc", .string "2.0"), ("id", id),
    ("error", .object [("code", .number code), ("message", .string message)])]

/-- `invalid_request_response`. -/
def invalidRequestResponse (id : Value) (msg : String) : Value := errorResponse id (-32600) msg

/-- `limit_exceeded_response`. -/
def limitExceededResponse (id : Value) (msg : String) : Value := errorResponse id (-32005) msg

variable [HexCrate]

/-- The response to an EVM revert. -/
def revertResponse (id : Value) (output : Bytes) : Value :=
  .object [("jsonrpc", .string "2.0"), ("id", id),
    ("error", .object [("code", .number 3), ("message", .string "execution reverted"),
      ("data", .string ("0x" ++ hexEncode output))])]

/-- The response to what a handler came to. -/
def answerResponse (id : Value) : Except HandlerError Value → Value
  | .ok value => resultResponse id value
  | .error (.revert output) => revertResponse id output
  | .error (.failure f) =>
      match f.code with
      | some code => errorResponse id code f.message
      | none =>
          if NodeClient.mentions1013 f.message then
            errorResponse id (-32005)
              ("node read-compute limit exceeded (Koinos -1013): " ++ f.message)
          else errorResponse id (-32000) f.message

-- =============================================================== methods

/-- What a method name stands for. -/
inductive Routed where
  | done (value : Value)
  | handled (m : Method)
  | unsupported

/-- The configuration of the server, and what it takes of the standard
library. -/
structure ServerConfig where
  evmChainId : UInt64
  minGasPriceWei : U128
  rpcMaxBatch : UInt64
  trustProxyHeaders : Bool
  /-- `s.parse::<IpAddr>()`. -/
  parseIp : String → Option IpAddr
  /-- `{:?}` of a text. -/
  debug : String → String

/-- The `match` of `dispatch`. -/
def route (cfg : ServerConfig) (method : String) : Routed :=
  match method with
  | "eth_chainId" => .done (quantity cfg.evmChainId)
  | "net_version" => .done (.string (toString cfg.evmChainId.toNat))
  | "web3_clientVersion" => .done (.string "koinos-evm-rpc/0.1.0")
  | "eth_gasPrice" => .done (quantityU128 cfg.minGasPriceWei)
  | "eth_maxPriorityFeePerGas" => .done (quantity 0)
  | "eth_feeHistory" => .handled .feeHistory
  | "eth_syncing" => .done (.bool false)
  | "eth_accounts" => .done (.array [])
  | "net_listening" => .done (.bool true)
  | "net_peerCount" => .done (.string "0x1")
  | "eth_getUncleCountByBlockHash" => .done (.string "0x0")
  | "eth_getUncleCountByBlockNumber" => .done (.string "0x0")
  | "eth_getUncleByBlockHashAndIndex" => .done .null
  | "eth_getUncleByBlockNumberAndIndex" => .done .null
  | "web3_sha3" => .handled .web3Sha3
  | "eth_blockNumber" => .handled .blockNumber
  | "eth_getBalance" => .handled .getBalance
  | "eth_getTransactionCount" => .handled .getTransactionCount
  | "eth_getCode" => .handled .getCode
  | "eth_getStorageAt" => .handled .getStorageAt
  | "eth_call" => .handled .call
  | "eth_sendRawTransaction" => .handled .sendRawTransaction
  | "eth_getTransactionReceipt" => .handled .getTransactionReceipt
  | "eth_getTransactionByHash" => .handled .getTransactionByHash
  | "eth_getLogs" => .handled .getLogs
  | "eth_estimateGas" => .handled .estimateGas
  | "eth_getBlockByNumber" => .handled .getBlockByNumber
  | "eth_getBlockByHash" => .handled .getBlockByHash
  | "eth_getBlockReceipts" => .handled .getBlockReceipts
  | "eth_getBlockTransactionCountByNumber" => .handled (.getBlockTransactionCount false)
  | "eth_getBlockTransactionCountByHash" => .handled (.getBlockTransactionCount true)
  | "eth_getTransactionByBlockNumberAndIndex" =>
      .handled (.getTransactionByBlockAndIndex false)
  | "eth_getTransactionByBlockHashAndIndex" => .handled (.getTransactionByBlockAndIndex true)
  | _ => .unsupported

-- =============================================================== dispatch

/-- `req.is_object()`. -/
def Value.isObject : Value → Bool
  | .object _ => true
  | _ => false

/-- The id that responses to the request carry. -/
def requestId (req : Value) : Value := (req.get "id").getD .null

/-- A response, unless the request is a notification. -/
def respond (req response : Value) : Option Value :=
  if (req.get "id").isSome then some response else none

/-- `dispatch`. -/
def dispatch (cfg : ServerConfig) (req : Value) : ServerM (Option Value) :=
  if !req.isObject then
    return some (errorResponse .null (-32600) "request must be an object")
  else
    match req.getStr "method" with
    | none => return respond req (errorResponse (requestId req) (-32600) "missing method")
    | some method =>
        let params := (req.get "params").getD (.array [])
        match route cfg method with
        | .done value => return respond req (resultResponse (requestId req) value)
        | .handled m => do
            let answer ← callHandler m params
            return respond req (answerResponse (requestId req) answer)
        | .unsupported =>
            return respond req (errorResponse (requestId req) (-32601)
              ("method not supported: " ++ method))

/-- The responses to a batch, request by request. -/
def dispatchAll (cfg : ServerConfig) : List Value → ServerM (List Value)
  | [] => return []
  | req :: reqs => do
      let response ← dispatch cfg req
      let rest ← dispatchAll cfg reqs
      return response.toList ++ rest

-- ============================================================= the client

/-- The headers of a request, by name: the first value of each. -/
abbrev Headers : Type := String → Option Bytes

/-- `v.to_str().ok()`: visible ASCII and tabs. -/
def headerText (value : Bytes) : Option String :=
  if value.all fun b => (32 ≤ b && b < 127) || b == 9 then
    some (String.ofList (value.map fun b => Char.ofNat b.toNat))
  else none

/-- White space in such a text. -/
def isBlank (c : Char) : Bool := c == ' ' || c == '\t'

/-- `s.trim()`. -/
def trimBlanks (cs : List Char) : List Char :=
  ((cs.dropWhile isBlank).reverse.dropWhile isBlank).reverse

/-- `s.split(',').map(str::trim).filter(|p| !p.is_empty()).next_back()`. -/
def lastHop (text : String) : Option String :=
  (((text.toList.splitOn ',').map trimBlanks).filter fun hop => !hop.isEmpty).getLast?.map
    String.ofList

/-- `ip.is_loopback()`: `127.0.0.0/8` and `::1`. -/
def IpAddr.isLoopback : IpAddr → Bool
  | .v4 octets => octets >>> 24 == 127
  | .v6 octets => octets == 1

/-- `effective_client_ip`. -/
def effectiveClientIp (cfg : ServerConfig) (peer : IpAddr) (headers : Headers) : IpAddr :=
  if !cfg.trustProxyHeaders || !peer.isLoopback then peer
  else
    let realIp := ((headers "x-real-ip").bind headerText).bind fun s =>
      cfg.parseIp (String.ofList (trimBlanks s.toList))
    let forwarded := (((headers "x-forwarded-for").bind headerText).bind lastHop).bind cfg.parseIp
    match realIp with
    | some ip => ip
    | none => forwarded.getD peer

-- ============================================================= handle_rpc

/-- `StatusCode`, of those in use. -/
inductive Status where
  | ok
  | tooManyRequests
  deriving DecidableEq

/-- `reqs.len()`. -/
def lenOf (reqs : List Value) : UInt64 := UInt64.ofNat reqs.length

/-- The tokens a payload costs. -/
def costOf : Value → UInt64
  | .array reqs => lenOf reqs
  | _ => 1

/-- The end of `handle_rpc`, for a payload that is admitted. -/
def serve (cfg : ServerConfig) (payload : Value) : ServerM (Status × Value) :=
  match payload with
  | .array [] => return (.ok, invalidRequestResponse .null "empty batch")
  | .array reqs => do
      let out ← dispatchAll cfg reqs
      return (.ok, .array out)
  | single => do
      match ← dispatch cfg single with
      | some response => return (.ok, response)
      | none => return (.ok, .null)

/-- The payload is a batch of more requests than are served at once. -/
def overCap (cfg : ServerConfig) : Value → Bool
  | .array reqs => cfg.rpcMaxBatch.toNat < reqs.length
  | _ => false

/-- `handle_rpc`. -/
def handleRpc (cfg : ServerConfig) (peer : IpAddr) (headers : Headers) (payload : Value) :
    ServerM (Status × Value) := do
  let client := effectiveClientIp cfg peer headers
  if overCap cfg payload then
    let _ ← allow client 1
    let count := (payload.asArray.getD []).length
    let most := cfg.rpcMaxBatch.toNat
    return (.ok, limitExceededResponse .null s!"batch too large: {count} requests (max {most})")
  else if ← allow client (costOf payload) then serve cfg payload
  else return (.tooManyRequests, limitExceededResponse .null "rate limit exceeded")

end KoinosEvm.Proxy
