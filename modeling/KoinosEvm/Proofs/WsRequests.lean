/-
What the requests of a WebSocket make of its subscriptions.

A subscription lives from the request that made it to the one that ends it
(`afterRequests`), and a connection's table is that (`serveText_ok`), a
request at a time. No request has a notification sent: what it is answered is
a response, which has no method.
-/
import KoinosEvm.Proofs.RpcAdmission

namespace KoinosEvm.Proofs

open Lib Proxy

-- ============================================================ notifications

/-- The notification that a message is: its subscription and its result. -/
def noteOf (msg : Value) : Option (String × Value) :=
  if msg.getStr "method" = some "eth_subscription" then
    (msg.get "params").bind fun params =>
      (params.getStr "subscription").bind fun s => (params.get "result").map fun v => (s, v)
  else none

/-- The notification that an event sends. -/
def sentNote : Ev ServerOp ServerRes → Option (String × Value)
  | ⟨.send msg, _⟩ => noteOf msg
  | _ => none

/-- The result that an event sends in the name of a subscription. -/
def noteTo (s : String) (e : Ev ServerOp ServerRes) : Option Value :=
  (sentNote e).bind fun note => if note.1 = s then some note.2 else none

/-- What is sent in the name of a subscription. -/
def notesTo (s : String) (events : List (Ev ServerOp ServerRes)) : List Value :=
  events.filterMap (noteTo s)

/-- The number that an event hands out. -/
def numberOf : Ev ServerOp ServerRes → Option UInt64
  | ⟨.nextSub, n⟩ => some n
  | _ => none

/-- The subscription numbers that events hand out. -/
def numbersOf (events : List (Ev ServerOp ServerRes)) : List UInt64 := events.filterMap numberOf

-- ======================================================= no notification

section NoNotes

variable {events more : List (Ev ServerOp ServerRes)} {s : String}

theorem notesTo_append : notesTo s (events ++ more) = notesTo s events ++ notesTo s more :=
  List.filterMap_append

theorem numbersOf_append : numbersOf (events ++ more) = numbersOf events ++ numbersOf more :=
  List.filterMap_append

/-- No event sends a notification. -/
def NoNotes (events : List (Ev ServerOp ServerRes)) : Prop := ∀ e ∈ events, sentNote e = none

theorem NoNotes.notesTo (h : NoNotes events) (s : String) : notesTo s events = [] := by
  apply List.filterMap_eq_nil_iff.mpr
  intro e he
  rw [noteTo, h e he]
  rfl

theorem NoNotes.append (h : NoNotes events) (h' : NoNotes more) : NoNotes (events ++ more) := by
  intro e he
  rcases List.mem_append.mp he with he | he
  · exact h e he
  · exact h' e he

/-- Calls that neither send nor wait for an input. -/
def isSilent : ServerOp → Bool
  | .send _ => false
  | .recv => false
  | _ => true

theorem quiet_of_silent (h : ∀ e ∈ events, isSilent e.1 = true) : NoNotes events := by
  intro e he
  have hsilent := h e he
  obtain ⟨op, r⟩ := e
  cases op with
  | send msg => cases hsilent
  | _ => rfl

end NoNotes

-- =============================================================== the table

/-- A subscription after some requests, which are given these numbers. -/
def afterRequests [HexCrate] (cfg : ServerConfig) (s : String) :
    Option SubKind → List Value → List UInt64 → Option SubKind
  | live, [], _ => live
  | live, req :: reqs, numbers =>
      if methodOf req = "eth_subscribe" then
        match subscriptionKind cfg (paramsOf req) with
        | .ok kind =>
            afterRequests cfg s (if numbers.head?.map subIdOf = some s then some kind else live)
              reqs numbers.tail
        | .error _ => afterRequests cfg s live reqs numbers
      else if methodOf req = "eth_unsubscribe" then
        afterRequests cfg s (if unsubscribed req = s then none else live) reqs numbers
      else afterRequests cfg s live reqs numbers

section Requests

variable {cfg : ServerConfig} {subs subs' : Subs} {req : Value} {s : String}
  {tr : List (Ev ServerOp ServerRes)}

/-- The kind of a subscription. -/
def kindOf (subs : Subs) (s : String) : Option SubKind := (subs.find? s).map Sub.kind

theorem kindOf_insert (subs : Subs) (id s : String) (kind : SubKind) :
    kindOf (subs.insert id kind) s = if id = s then some kind else kindOf subs s := by
  split
  next h =>
    subst h
    rw [kindOf, Subs.insert, Table.find?_upsert_self subs rfl]
    cases subs.find? id with
    | none => rfl
    | some sub => rfl
  next h => rw [kindOf, Subs.insert, Table.find?_upsert_of_ne subs h, kindOf]

theorem kindOf_erase (subs : Subs) (id s : String) :
    kindOf (subs.erase id) s = if id = s then none else kindOf subs s := by
  split
  next h => rw [kindOf, h, Table.find?_erase_self, Option.map_none]
  next h => rw [kindOf, Table.find?_erase_of_ne subs (Ne.symm h), kindOf]

theorem uses_callHandler (m : Method) (params : Value) :
    Uses (fun op => isHandle op = true) (fun _ => True) (callHandler m params) := by
  refine uses_bind (uses_ask rfl) fun reply => ?_
  cases reply with
  | ok answer => exact uses_pure _
  | error p => trivial

theorem silent_of_handle {op : ServerOp} (h : isHandle op = true) : isSilent op = true := by
  cases op with
  | handle m params => rfl
  | _ => cases h

/-- A response is no notification. -/
theorem noteOf_response {id v : Value} (h : IsResponse id v) : noteOf v = none := by
  rw [noteOf, Value.getStr, h.noMethod, if_neg]
  intro hnone
  cases hnone

theorem noteOf_result (id v : Value) : noteOf (resultResponse id v) = none :=
  noteOf_response (isResponse_result id v)

theorem noteOf_error (id : Value) (code : Int) (text : String) :
    noteOf (errorResponse id code text) = none :=
  noteOf_response (isResponse_error id code text)

-- ============================================================== one request

variable [HexCrate]

theorem handles_dispatch (server : ServerConfig) (req : Value) :
    Uses (fun op => isHandle op = true) (fun _ => True) (dispatch server req) := by
  unfold dispatch
  split
  · exact uses_pure _
  · split
    · exact uses_pure _
    · split
      · exact uses_pure _
      · exact uses_bind (uses_callHandler _ _) fun _ => uses_pure _
      · exact uses_pure _

theorem numbersOf_dispatch {server : ServerConfig} {o : Except Panic (Option Value)}
    (h : Exec (dispatch server req) tr o) : numbersOf tr = [] := by
  apply List.filterMap_eq_nil_iff.mpr
  intro e he
  have hhandle := exec_uses h (handles_dispatch server req) e he
  obtain ⟨op, r⟩ := e
  cases op with
  | handle m params => rfl
  | _ => cases hhandle

theorem uses_handleRequest (subs : Subs) (req : Value) :
    Uses (fun op => isSilent op = true) (fun _ => True) (handleRequest cfg subs req) := by
  unfold handleRequest
  split
  · unfold subscribe
    split
    · exact uses_pure _
    · exact uses_bind (uses_ask rfl) fun _ => uses_pure _
  · split
    · exact uses_pure _
    · have hdispatch := (handles_dispatch cfg req).mono fun _ => silent_of_handle
      exact uses_bind hdispatch fun _ => uses_pure _

/-- A request makes of the subscriptions what it says, and is told so by no
notification. -/
theorem handleRequest_ok {out : Option Value}
    (h : Exec (handleRequest cfg subs req) tr (.ok (out, subs'))) :
    (∀ v, out = some v → noteOf v = none) ∧
      ∀ s reqs numbers, afterRequests cfg s (kindOf subs s) (req :: reqs) (numbersOf tr ++ numbers)
        = afterRequests cfg s (kindOf subs' s) reqs numbers := by
  unfold handleRequest at h
  by_cases hsub : methodOf req = "eth_subscribe"
  · rw [if_pos hsub] at h
    unfold subscribe at h
    cases hkind : subscriptionKind cfg (paramsOf req) with
    | error text =>
        simp only [hkind] at h
        obtain ⟨rfl, hout⟩ := exec_ret.mp h
        cases hout
        refine ⟨?_, ?_⟩
        · intro v hv
          cases hv
          exact noteOf_error _ _ _
        · intro s reqs numbers
          rw [afterRequests, if_pos hsub, hkind]
          rfl
    | ok kind =>
        simp only [hkind] at h
        obtain ⟨n, tr₁, tr₂, hask, hret, rfl⟩ := exec_bind_ok.mp h
        obtain ⟨_, rfl, hn⟩ := exec_ask.mp hask
        cases hn
        obtain ⟨rfl, hout⟩ := exec_ret.mp hret
        cases hout
        refine ⟨?_, ?_⟩
        · intro v hv
          cases hv
          exact noteOf_result _ _
        · intro s reqs numbers
          have hnumbers : numbersOf ([⟨ServerOp.nextSub, n⟩] ++ []) ++ numbers = n :: numbers := rfl
          rw [kindOf_insert, hnumbers, afterRequests, if_pos hsub, hkind]
          simp
  · rw [if_neg hsub] at h
    by_cases hunsub : methodOf req = "eth_unsubscribe"
    · rw [if_pos hunsub] at h
      obtain ⟨rfl, hout⟩ := exec_ret.mp h
      cases hout
      refine ⟨?_, ?_⟩
      · intro v hv
        cases hv
        exact noteOf_result _ _
      · intro s reqs numbers
        rw [kindOf_erase, afterRequests, if_neg hsub, if_pos hunsub]
        rfl
    · rw [if_neg hunsub] at h
      obtain ⟨response, tr₁, tr₂, hdispatch, hret, rfl⟩ := exec_bind_ok.mp h
      obtain ⟨rfl, hout⟩ := exec_ret.mp hret
      cases hout
      refine ⟨?_, ?_⟩
      · intro v hv
        exact noteOf_response ((dispatch_answers hdispatch).response v hv)
      · intro s reqs numbers
        rw [List.append_nil, numbersOf_dispatch hdispatch, afterRequests, if_neg hsub,
          if_neg hunsub]
        rfl

-- ================================================================== a text

theorem uses_handleRequests (subs : Subs) (reqs : List Value) :
    Uses (fun op => isSilent op = true) (fun _ => True) (handleRequests cfg subs reqs) := by
  induction reqs generalizing subs with
  | nil => exact uses_pure _
  | cons req reqs ih =>
      refine uses_bind (uses_handleRequest subs req) fun after => ?_
      exact uses_bind (ih after.2) fun _ => uses_pure _

theorem handleRequests_ok {reqs : List Value} {out : List Value}
    (h : Exec (handleRequests cfg subs reqs) tr (.ok (out, subs'))) (s : String)
    (numbers : List UInt64) :
    afterRequests cfg s (kindOf subs s) reqs (numbersOf tr ++ numbers) = kindOf subs' s := by
  induction reqs generalizing subs subs' tr out numbers with
  | nil =>
      obtain ⟨rfl, hout⟩ := exec_ret.mp h
      cases hout
      rw [afterRequests]
  | cons req reqs ih =>
      obtain ⟨⟨response, subs₁⟩, tr₁, tr₂, hreq, hrest, rfl⟩ := exec_bind_ok.mp h
      obtain ⟨⟨rest, subs₂⟩, tr₃, tr₄, hall, hret, rfl⟩ := exec_bind_ok.mp hrest
      obtain ⟨rfl, hout⟩ := exec_ret.mp hret
      cases hout
      rw [List.append_nil, numbersOf_append, List.append_assoc, (handleRequest_ok hreq).2]
      exact ih hall numbers

theorem uses_serveText (subs : Subs) (parsed : Value) :
    Uses (fun op => isSilent op = true) (fun _ => True) (serveText cfg subs parsed) := by
  cases parsed with
  | array reqs => exact uses_bind (uses_handleRequests subs reqs) fun _ => uses_pure _
  | null => exact uses_handleRequest subs .null
  | bool b => exact uses_handleRequest subs (.bool b)
  | number n => exact uses_handleRequest subs (.number n)
  | string text => exact uses_handleRequest subs (.string text)
  | object fields => exact uses_handleRequest subs (.object fields)

/-- The subscriptions after a text that is served. -/
theorem serveText_ok {parsed : Value} {out : Option Value}
    (h : Exec (serveText cfg subs parsed) tr (.ok (out, subs'))) :
    (∀ v, out = some v → noteOf v = none) ∧
      ∀ s numbers, afterRequests cfg s (kindOf subs s) (requestsOf parsed)
        (numbersOf tr ++ numbers) = kindOf subs' s := by
  have hsingle : ∀ {req : Value}, Exec (handleRequest cfg subs req) tr (.ok (out, subs')) →
      (∀ v, out = some v → noteOf v = none) ∧
        ∀ s numbers, afterRequests cfg s (kindOf subs s) [req] (numbersOf tr ++ numbers)
          = kindOf subs' s := by
    intro req hreq
    refine ⟨(handleRequest_ok hreq).1, ?_⟩
    intro s numbers
    rw [(handleRequest_ok hreq).2, afterRequests]
  cases parsed with
  | array reqs =>
      obtain ⟨⟨outs, subs₁⟩, tr₁, tr₂, hall, hret, rfl⟩ := exec_bind_ok.mp h
      obtain ⟨rfl, hout⟩ := exec_ret.mp hret
      cases hout
      refine ⟨?_, ?_⟩
      · intro v hv
        split at hv
        · cases hv
        · cases hv
          rfl
      · intro s numbers
        rw [List.append_nil]
        exact handleRequests_ok hall s numbers
  | null => exact hsingle h
  | bool b => exact hsingle h
  | number n => exact hsingle h
  | string text => exact hsingle h
  | object fields => exact hsingle h

end Requests

end KoinosEvm.Proofs
