/-
What a client of the JSON-RPC front is told.

A request that is no notification is answered once, with its own id and with
either a result or an error; what its handler came to is what it is told. A
batch is its requests one after another (`ServesAll`): the responses come in
the order of the requests that are due one, every method with a handler has
it called once, notifications too, and no request is told another's answer.
A payload that is refused has no handler called. The limiter is asked first
and once, so that everything after that is paid for.
-/
import KoinosEvm.Proofs.Hex
import KoinosEvm.Proxy.JsonRpc

namespace KoinosEvm.Proofs

open Lib Proxy

-- ================================================================ the calls

/-- A handler's call and its answer. -/
structure HandlerCall where
  method : Method
  params : Value
  answer : Except HandlerError Value

/-- The answered call that an event is. -/
def handlerCall : Ev ServerOp ServerRes → Option HandlerCall
  | ⟨.handle m params, reply⟩ =>
      match (reply : Except Panic (Except HandlerError Value)) with
      | .ok answer => some ⟨m, params, answer⟩
      | .error _ => none
  | _ => none

/-- The answered calls of a trace. -/
def handlerCalls (tr : List (Ev ServerOp ServerRes)) : List HandlerCall :=
  tr.filterMap handlerCall

theorem handlerCalls_append (xs ys : List (Ev ServerOp ServerRes)) :
    handlerCalls (xs ++ ys) = handlerCalls xs ++ handlerCalls ys :=
  List.filterMap_append

/-- The call that a request makes, if its method has a handler. -/
def workOf (cfg : ServerConfig) (req : Value) : Option (Method × Value) :=
  if req.isObject then
    (req.getStr "method").bind fun method =>
      match route cfg method with
      | .handled m => some (m, (req.get "params").getD (.array []))
      | _ => none
  else none

-- ============================================================= the responses

/-- A response of JSON-RPC 2.0 to a request of this id. -/
structure IsResponse (id v : Value) : Prop where
  version : v.getStr "jsonrpc" = some "2.0"
  echoes : v.get "id" = some id
  noMethod : v.get "method" = none
  oneOf : (v.get "result").isSome = !(v.get "error").isSome
  error : ∀ e, v.get "error" = some e →
    ∃ code message, e.get "code" = some (.number code) ∧ e.getStr "message" = some message

theorem isResponse_result (id result : Value) : IsResponse id (resultResponse id result) where
  version := rfl
  echoes := rfl
  noMethod := rfl
  oneOf := rfl
  error e he := by cases he

theorem isResponse_error (id : Value) (code : Int) (message : String) :
    IsResponse id (errorResponse id code message) where
  version := rfl
  echoes := rfl
  noMethod := rfl
  oneOf := rfl
  error e he := by
    cases he
    exact ⟨code, message, rfl, rfl⟩

section Served

variable [HexCrate]

theorem isResponse_revert (id : Value) (output : Bytes) :
    IsResponse id (revertResponse id output) where
  version := rfl
  echoes := rfl
  noMethod := rfl
  oneOf := rfl
  error e he := by
    cases he
    exact ⟨3, "execution reverted", rfl, rfl⟩

theorem isResponse_answer (id : Value) (answer : Except HandlerError Value) :
    IsResponse id (answerResponse id answer) := by
  unfold answerResponse
  split
  · exact isResponse_result id _
  · exact isResponse_revert id _
  · split
    · exact isResponse_error id _ _
    · split
      · exact isResponse_error id _ _
      · exact isResponse_error id _ _

-- =============================================================== one request

/-- A request that is due a response. What is no object is due one too. -/
def isDue (req : Value) : Bool := !req.isObject || (req.get "id").isSome

/-- A request is served: its handler is called once, if it has one, and it is
told what the handler came to, if it is due a response. -/
structure ServesOne (cfg : ServerConfig) (req : Value) (calls : List HandlerCall)
    (out : Option Value) : Prop where
  work : calls.map (fun c => (c.method, c.params)) = (workOf cfg req).toList
  due : out.isSome = isDue req
  response : ∀ v, out = some v → IsResponse (requestId req) v
  told : ∀ v, out = some v → ∀ c ∈ calls, v = answerResponse (requestId req) c.answer

section Request

variable {cfg : ServerConfig} {req : Value}

omit [HexCrate] in
theorem exec_callHandler {m : Method} {params : Value} {tr : List (Ev ServerOp ServerRes)}
    {answer : Except HandlerError Value} (h : Exec (callHandler m params) tr (.ok answer)) :
    handlerCalls tr = [⟨m, params, answer⟩] := by
  obtain ⟨reply, tr₁, tr₂, hask, hrest, rfl⟩ := exec_bind_ok.mp h
  obtain ⟨_, rfl, hreply⟩ := exec_ask.mp hask
  cases hreply
  cases reply with
  | error p => cases hrest
  | ok a =>
      obtain ⟨rfl, ha⟩ := exec_ret.mp hrest
      cases ha
      rfl

omit [HexCrate] in
theorem respond_isSome (hobj : req.isObject = true) (v : Value) :
    (respond req v).isSome = isDue req := by
  rw [respond, isDue, hobj]
  split
  next h => simp [h]
  next h => simp [Bool.eq_false_iff.mpr h]

omit [HexCrate] in
theorem eq_of_respond {v w : Value} (h : respond req v = some w) : w = v := by
  rw [respond] at h
  split at h
  · exact (Option.some.inj h).symm
  · cases h

/-- A response that takes no handler. -/
theorem answers_direct {v : Value} (hobj : req.isObject = true) (hwork : workOf cfg req = none)
    (hv : IsResponse (requestId req) v) : ServesOne cfg req [] (respond req v) where
  work := by rw [hwork]; rfl
  due := respond_isSome hobj v
  response w hw := by
    rw [eq_of_respond hw]
    exact hv
  told _ _ c hc := by cases hc

/-- What `dispatch` does with a request. -/
theorem dispatch_answers {tr : List (Ev ServerOp ServerRes)} {out : Option Value}
    (h : Exec (dispatch cfg req) tr (.ok out)) : ServesOne cfg req (handlerCalls tr) out := by
  unfold dispatch at h
  by_cases hobj : req.isObject = true
  · rw [if_neg (by rw [hobj]; decide)] at h
    cases hmethod : req.getStr "method" with
    | none =>
        rw [hmethod] at h
        obtain ⟨rfl, hout⟩ := exec_ret.mp h
        cases hout
        have hwork : workOf cfg req = none := by rw [workOf, if_pos hobj, hmethod]; rfl
        exact answers_direct hobj hwork (isResponse_error _ _ _)
    | some method =>
        rw [hmethod] at h
        cases hroute : route cfg method with
        | done value =>
            simp only [hroute] at h
            obtain ⟨rfl, hout⟩ := exec_ret.mp h
            cases hout
            have hwork : workOf cfg req = none := by
              rw [workOf, if_pos hobj, hmethod, Option.bind_some, hroute]
            exact answers_direct hobj hwork (isResponse_result _ _)
        | unsupported =>
            simp only [hroute] at h
            obtain ⟨rfl, hout⟩ := exec_ret.mp h
            cases hout
            have hwork : workOf cfg req = none := by
              rw [workOf, if_pos hobj, hmethod, Option.bind_some, hroute]
            exact answers_direct hobj hwork (isResponse_error _ _ _)
        | handled m =>
            simp only [hroute] at h
            obtain ⟨answer, tr₁, tr₂, hcall, hret, rfl⟩ := exec_bind_ok.mp h
            obtain ⟨rfl, hout⟩ := exec_ret.mp hret
            cases hout
            rw [List.append_nil, exec_callHandler hcall]
            refine ⟨?_, respond_isSome hobj _, ?_, ?_⟩
            · rw [workOf, if_pos hobj, hmethod, Option.bind_some, hroute]
              rfl
            · intro v hv
              rw [eq_of_respond hv]
              exact isResponse_answer _ _
            · intro v hv c hc
              rw [eq_of_respond hv, List.mem_singleton.mp hc]
  · have hno : req.isObject = false := Bool.eq_false_iff.mpr hobj
    rw [if_pos (by rw [hno]; rfl)] at h
    obtain ⟨rfl, hout⟩ := exec_ret.mp h
    cases hout
    have hid : requestId req = .null := by
      rw [requestId]
      cases req with
      | object fields => exact absurd rfl hobj
      | _ => rfl
    refine ⟨?_, ?_, ?_, ?_⟩
    · rw [workOf, if_neg hobj]
      rfl
    · rw [isDue, hno]
      rfl
    · intro v hv
      cases hv
      rw [hid]
      exact isResponse_error _ _ _
    · intro v _ c hc
      cases hc

end Request

-- =================================================================== a batch

/-- Requests are served one after another. -/
inductive ServesAll (cfg : ServerConfig) : List Value → List HandlerCall → List Value → Prop
  | nil : ServesAll cfg [] [] []
  | cons {req : Value} {reqs : List Value} {calls calls' : List HandlerCall}
      {out : Option Value} {outs : List Value} :
      ServesOne cfg req calls out → ServesAll cfg reqs calls' outs →
      ServesAll cfg (req :: reqs) (calls ++ calls') (out.toList ++ outs)

section Batch

variable {cfg : ServerConfig} {reqs : List Value} {calls : List HandlerCall}
  {outs : List Value}

/-- The responses are those to the requests that are due one, in order. -/
theorem ServesAll.ids (h : ServesAll cfg reqs calls outs) :
    outs.map (fun v => v.get "id") = (reqs.filter isDue).map fun req => some (requestId req) := by
  induction h with
  | nil => rfl
  | @cons req reqs _ _ out outs hreq _ ih =>
      rw [List.map_append, ih]
      cases out with
      | none =>
          have hdue : isDue req = false := hreq.due.symm
          rw [List.filter_cons_of_neg (by rw [hdue]; decide)]
          rfl
      | some v =>
          have hdue : isDue req = true := hreq.due.symm
          rw [List.filter_cons_of_pos hdue, List.map_cons, ← (hreq.response v rfl).echoes]
          rfl

/-- Every handler is called for its own request, in order. -/
theorem ServesAll.work (h : ServesAll cfg reqs calls outs) :
    calls.map (fun c => (c.method, c.params)) = reqs.filterMap (workOf cfg) := by
  induction h with
  | nil => rfl
  | @cons req reqs _ _ _ _ hreq _ ih =>
      rw [List.map_append, hreq.work, ih]
      cases hwork : workOf cfg req with
      | none => rw [List.filterMap_cons_none hwork]; rfl
      | some work => rw [List.filterMap_cons_some hwork]; rfl

theorem dispatchAll_answers {tr : List (Ev ServerOp ServerRes)}
    (h : Exec (dispatchAll cfg reqs) tr (.ok outs)) :
    ServesAll cfg reqs (handlerCalls tr) outs := by
  induction reqs generalizing tr outs with
  | nil =>
      obtain ⟨rfl, hout⟩ := exec_ret.mp h
      cases hout
      exact .nil
  | cons req reqs ih =>
      obtain ⟨out, tr₁, tr₂, hreq, hrest, rfl⟩ := exec_bind_ok.mp h
      obtain ⟨outs', tr₃, tr₄, hall, hret, rfl⟩ := exec_bind_ok.mp hrest
      obtain ⟨rfl, hout⟩ := exec_ret.mp hret
      cases hout
      rw [List.append_nil, handlerCalls_append]
      exact .cons (dispatch_answers hreq) (ih hall)

end Batch

-- ==================================================================== a post

/-- Why a payload is not served. -/
def refusal (cfg : ServerConfig) (granted : Bool) (payload : Value) : Option (Status × Int) :=
  if overCap cfg payload then some (.ok, -32005)
  else if !granted then some (.tooManyRequests, -32005)
  else if payload.asArray.any (·.isEmpty) then some (.ok, -32600)
  else none

/-- The requests of a payload. -/
def requestsOf : Value → List Value
  | .array reqs => reqs
  | single => [single]

/-- The body of the reply to a payload: the responses to a batch, or the one
to a single request, `null` if there is none. -/
def bodyOf : Value → List Value → Value
  | .array _, outs => .array outs
  | _, outs => outs.headD .null

/-- What a post is charged. -/
def charged (cfg : ServerConfig) (payload : Value) : UInt64 :=
  if overCap cfg payload then 1 else costOf payload

section Post

variable {cfg : ServerConfig} {payload : Value}

omit [HexCrate] in
theorem exec_allow {client : IpAddr} {cost : UInt64} {tr : List (Ev ServerOp ServerRes)}
    {granted : Bool} (h : Exec (allow client cost) tr (.ok granted)) :
    ∃ now : Nat, tr = [⟨ServerOp.allow client cost, ((granted, now) : Bool × Nat)⟩] := by
  obtain ⟨answer, tr₁, tr₂, hask, hret, rfl⟩ := exec_bind_ok.mp h
  obtain ⟨_, rfl, hanswer⟩ := exec_ask.mp hask
  cases hanswer
  obtain ⟨rfl, hgranted⟩ := exec_ret.mp hret
  cases hgranted
  exact ⟨answer.2, rfl⟩

/-- An empty batch. -/
theorem serve_empty {tr : List (Ev ServerOp ServerRes)} {reply : Status × Value}
    (hempty : payload.asArray.any (·.isEmpty) = true)
    (h : Exec (serve cfg payload) tr (.ok reply)) :
    tr = [] ∧ reply = (.ok, invalidRequestResponse .null "empty batch") := by
  cases payload with
  | array reqs =>
      cases reqs with
      | nil =>
          obtain ⟨rfl, hreply⟩ := exec_ret.mp h
          exact ⟨rfl, Except.ok.inj hreply⟩
      | cons req reqs => cases hempty
  | _ => cases hempty

/-- A payload that is served. -/
theorem serve_answers {tr : List (Ev ServerOp ServerRes)} {reply : Status × Value}
    (hsome : payload.asArray.any (·.isEmpty) = false)
    (h : Exec (serve cfg payload) tr (.ok reply)) :
    reply.1 = .ok ∧ ∃ outs, reply.2 = bodyOf payload outs
      ∧ ServesAll cfg (requestsOf payload) (handlerCalls tr) outs := by
  have hsingle : ∀ {req : Value} {tr : List (Ev ServerOp ServerRes)} {out : Option Value},
      Exec (dispatch cfg req) tr (.ok out) →
      ServesAll cfg [req] (handlerCalls tr) out.toList := by
    intro req tr out hdispatch
    have hall := ServesAll.cons (dispatch_answers hdispatch) .nil
    rwa [List.append_nil, List.append_nil] at hall
  cases payload with
  | array reqs =>
      cases reqs with
      | nil => cases hsome
      | cons req reqs =>
          obtain ⟨outs, tr₁, tr₂, hall, hret, rfl⟩ := exec_bind_ok.mp h
          obtain ⟨rfl, hreply⟩ := exec_ret.mp hret
          cases hreply
          rw [List.append_nil]
          exact ⟨rfl, outs, rfl, dispatchAll_answers hall⟩
  | _ =>
      obtain ⟨out, tr₁, tr₂, hdispatch, hrest, rfl⟩ := exec_bind_ok.mp h
      cases out with
      | none =>
          obtain ⟨rfl, hreply⟩ := exec_ret.mp hrest
          cases hreply
          rw [List.append_nil]
          exact ⟨rfl, [], rfl, hsingle hdispatch⟩
      | some v =>
          obtain ⟨rfl, hreply⟩ := exec_ret.mp hrest
          cases hreply
          rw [List.append_nil]
          exact ⟨rfl, [v], rfl, hsingle hdispatch⟩

/-- The first event of a post is its charge, and what comes after it is the
service of the payload, unless it is refused. -/
def RpcConforms (cfg : ServerConfig) (client : IpAddr) (payload : Value)
    (tr : List (Ev ServerOp ServerRes)) (reply : Status × Value) : Prop :=
  ∃ (granted : Bool) (now : Nat) (rest : List (Ev ServerOp ServerRes)),
    tr = ⟨ServerOp.allow client (charged cfg payload), ((granted, now) : Bool × Nat)⟩ :: rest
    ∧ (∀ status code, refusal cfg granted payload = some (status, code) →
        rest = [] ∧ reply.1 = status ∧ ∃ text, reply.2 = errorResponse .null code text)
    ∧ (refusal cfg granted payload = none →
        reply.1 = .ok ∧ ∃ outs, reply.2 = bodyOf payload outs
          ∧ ServesAll cfg (requestsOf payload) (handlerCalls rest) outs
          ∧ (outs.map fun v => v.get "id")
            = ((requestsOf payload).filter isDue).map (fun req => some (requestId req))
          ∧ ((handlerCalls rest).map fun c => (c.method, c.params))
            = (requestsOf payload).filterMap (workOf cfg))

/-- A reply to a payload that is not served. -/
theorem conforms_refused {client : IpAddr} (granted : Bool) (now : Nat)
    {tr : List (Ev ServerOp ServerRes)} {status : Status} {code : Int} {text : String}
    (htr : tr = [⟨ServerOp.allow client (charged cfg payload), ((granted, now) : Bool × Nat)⟩])
    (hwhy : refusal cfg granted payload = some (status, code)) :
    RpcConforms cfg client payload tr (status, errorResponse .null code text) := by
  refine ⟨granted, now, [], htr, ?_, ?_⟩
  · intro status' code' h
    rw [hwhy] at h
    cases h
    exact ⟨rfl, rfl, text, rfl⟩
  · intro h
    rw [hwhy] at h
    cases h

end Post

end Served

-- =================================================================== a sample

/-- A server in front of which there is no proxy. -/
def sampleServer : ServerConfig where
  evmChainId := 1
  minGasPriceWei := 0
  rpcMaxBatch := 100
  trustProxyHeaders := false
  parseIp := fun _ => none
  debug := fun s => s

/-- A request for the height, a notification of it, and one for the chain. -/
def sampleBatch : Value :=
  .array [
    .object [("id", .number 1), ("method", .string "eth_blockNumber")],
    .object [("method", .string "eth_blockNumber")],
    .object [("id", .number 2), ("method", .string "eth_chainId")]]

/-- The rest of the proxy: nothing is refused, and the height is seven. -/
def sampleRest : (op : ServerOp) → Unit → ServerRes op × Unit
  | .allow .., _ => ((true, 0), ())
  | .handle .., _ => (.ok (.ok (.string "0x7")), ())
  | .recv, _ => (.hangup, ())
  | .send _, _ => (true, ())
  | .nextSub, _ => ((1 : UInt64), ())
  | .iterate subs, _ => (subs, ())

/-- The post of the sample. -/
def samplePost : ServerM (Status × Value) :=
  handleRpc sampleServer (.v4 1) (fun _ => none) sampleBatch

end KoinosEvm.Proofs
