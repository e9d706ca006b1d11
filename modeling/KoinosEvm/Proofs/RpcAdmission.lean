/-
What the rate limiter lets through to the handlers.

Posts and WebSockets are tasks that share one limiter (Lib/Tasks). Every task
asks it before it has anything handled, and has no more handled than was
asked for: a task is funded by what it is admitted (`taskOf_funded`). What is
admitted is metered (`limiter_metered`), so the handlers that run for one
address are bounded over any window of admissions, in whatever order the
tasks make their calls, and no handler runs that was not admitted.
-/
import KoinosEvm.Proofs.JsonRpc
import KoinosEvm.Proofs.RateLimit
import KoinosEvm.Proxy.WsConnection

namespace KoinosEvm.Proofs

open Lib Proxy

-- =============================================================== the tariff

/-- The call of the limiter that an event is. -/
def limiterCall : Ev ServerOp ServerRes → Option RateLimiter.Call
  | ⟨.allow client cost, answer⟩ => some ⟨(answer : Bool × Nat).2, client, cost⟩
  | _ => none

/-- What an answer of the limiter admits. -/
def admits : Ev ServerOp ServerRes → Option Nat
  | ⟨.allow _ cost, answer⟩ => some (if (answer : Bool × Nat).1 then max cost.toNat 1 else 0)
  | _ => none

/-- The calls of handlers. -/
def isHandle : ServerOp → Bool
  | .handle .. => true
  | _ => false

/-- What the limiter admits pays for the handlers. -/
def admission : Tariff ServerOp ServerRes := ⟨admits, isHandle⟩

/-- The inputs of the connections fit in memory. -/
def InputsFit : Ev ServerOp ServerRes → Prop
  | ⟨.recv, input⟩ => WsInput.Fits input
  | _ => True

theorem inputsFit_of_serves {s t : ServerState} {e : Ev ServerOp ServerRes}
    (h : ServerStep s e t) : InputsFit e := by
  cases h with
  | recv input h => exact h
  | _ => trivial

-- ================================================================== the tasks

section Tasks

/-- Programs that neither pay nor use. -/
abbrev Free {α : Type} (p : ServerM α) : Prop := Costs admission InputsFit 0 p

theorem free_send (msg : Value) : Free (send msg) :=
  costs_ask (fun _ => rfl) fun h => by cases h

theorem free_eachOk {β : Type} {body : β → ServerM Bool} (hbody : ∀ x, Free (body x))
    (xs : List β) : Free (eachOk body xs) := by
  induction xs with
  | nil => exact costs_pure _
  | cons x xs ih =>
      refine (hbody x).bind fun sent => ?_
      cases sent with
      | true => exact ih
      | false => exact costs_pure _

theorem free_pushTo (ev : WsEvent) (sub : Sub) : Free (pushTo ev sub) := by
  unfold pushTo
  split
  · exact free_send _
  · refine free_eachOk (fun log => ?_) _
    split
    · exact free_send _
    · exact costs_pure _
  · exact costs_pure _

theorem free_pushEvent (subs : Subs) (ev : WsEvent) : Free (pushEvent subs ev) := by
  have hask : Free (Prog.ask (ServerOp.iterate subs.rows) : ServerM _) :=
    costs_ask (fun _ => rfl) fun h => by cases h
  exact hask.bind fun entries => free_eachOk (free_pushTo ev) entries

theorem free_sendOrEnd (subs : Subs) (msg : Value) : Free (sendOrEnd subs msg) := by
  refine (free_send msg).bind fun sent => ?_
  cases sent with
  | true => exact costs_pure _
  | false => exact costs_pure _

theorem costs_callHandler (m : Method) (params : Value) :
    Costs admission InputsFit 1 (callHandler m params) := by
  have hask : Costs admission InputsFit 1 (Prog.ask (ServerOp.handle m params) : ServerM _) :=
    costs_ask (fun _ => rfl) fun _ => Nat.one_pos
  refine hask.bind fun reply => ?_
  cases reply with
  | ok answer => exact costs_pure _
  | error p => trivial

/-- The limiter is asked, and what it admits is enough for the rest. -/
theorem funds_allow {α : Type} {client : IpAddr} {cost : UInt64} {k : Bool → ServerM α}
    (hyes : Funds admission InputsFit (max cost.toNat 1) (k true))
    (hno : Funds admission InputsFit 0 (k false)) :
    Funds admission InputsFit 0 (allow client cost >>= k) := by
  have hcall : allow client cost >>= k
      = Prog.call (ServerOp.allow client cost) fun answer : Bool × Nat => k answer.1 := rfl
  rw [hcall]
  refine ⟨fun h => Bool.noConfusion h, ?_⟩
  rintro ⟨granted, now⟩ -
  cases granted with
  | true => exact hyes
  | false => exact hno

theorem requestsOf_le (payload : Value) (hfits : ∀ reqs, payload = .array reqs →
    reqs.length < 2 ^ 64) : (requestsOf payload).length ≤ max (costOf payload).toNat 1 := by
  cases payload with
  | array reqs =>
      have hlen : (lenOf reqs).toNat = reqs.length := by
        rw [lenOf, UInt64.toNat_ofNat', Nat.mod_eq_of_lt (hfits reqs rfl)]
      show reqs.length ≤ max (lenOf reqs).toNat 1
      rw [hlen]
      exact Nat.le_max_left _ _
  | _ => exact Nat.le_max_right _ _

variable [HexCrate] {cfg : ServerConfig}

theorem costs_dispatch (req : Value) : Costs admission InputsFit 1 (dispatch cfg req) := by
  unfold dispatch
  split
  · exact costs_pure _
  · split
    · exact costs_pure _
    · split
      · exact costs_pure _
      · exact (costs_callHandler _ _).bind fun _ => costs_pure _
      · exact costs_pure _

theorem costs_dispatchAll (reqs : List Value) :
    Costs admission InputsFit reqs.length (dispatchAll cfg reqs) := by
  induction reqs with
  | nil => exact costs_pure _
  | cons req reqs ih =>
      rw [List.length_cons, Nat.add_comm]
      refine costs_bind (costs_dispatch req) fun response => ?_
      exact ih.bind fun _ => costs_pure _

/-- A payload that is served. -/
theorem costs_serve (payload : Value) :
    Costs admission InputsFit (requestsOf payload).length (serve cfg payload) := by
  cases payload with
  | array reqs =>
      cases reqs with
      | nil => exact costs_pure _
      | cons req reqs => exact (costs_dispatchAll (req :: reqs)).bind fun _ => costs_pure _
  | _ =>
      refine (costs_dispatch _).bind fun response => ?_
      cases response with
      | some v => exact costs_pure _
      | none => exact costs_pure _

/-- A post. -/
theorem funds_handleRpc (peer : IpAddr) (headers : Headers) (payload : Value) :
    Funds admission InputsFit 0 (handleRpc cfg peer headers payload) := by
  unfold handleRpc
  by_cases hover : overCap cfg payload = true
  · rw [if_pos hover]
    have hpure : ∀ reply : Status × Value,
        Funds admission InputsFit 0 (pure reply : ServerM _) := fun _ => trivial
    exact funds_allow ((hpure _).mono (Nat.zero_le _)) (hpure _)
  · rw [if_neg hover]
    have hfits : ∀ reqs, payload = .array reqs → reqs.length < 2 ^ 64 := by
      intro reqs hreqs
      subst hreqs
      have hcap : reqs.length ≤ cfg.rpcMaxBatch.toNat := by
        simpa [overCap] using hover
      exact hcap.trans_lt cfg.rpcMaxBatch.toNat_lt
    exact funds_allow ((costs_serve payload).mono (requestsOf_le payload hfits)).funds trivial

-- ============================================================ a connection

theorem costs_subscribe (subs : Subs) (req : Value) :
    Costs admission InputsFit 1 (subscribe cfg subs req) := by
  unfold subscribe
  split
  · exact costs_pure _
  · have hask : Costs admission InputsFit 1 (Prog.ask ServerOp.nextSub : ServerM _) :=
      costs_ask (fun _ => rfl) fun _ => Nat.one_pos
    exact hask.bind fun _ => costs_pure _

theorem costs_handleRequest (subs : Subs) (req : Value) :
    Costs admission InputsFit 1 (handleRequest cfg subs req) := by
  unfold handleRequest
  split
  · exact costs_subscribe subs req
  · split
    · exact costs_pure _
    · exact (costs_dispatch req).bind fun _ => costs_pure _

theorem costs_handleRequests (subs : Subs) (reqs : List Value) :
    Costs admission InputsFit reqs.length (handleRequests cfg subs reqs) := by
  induction reqs generalizing subs with
  | nil => exact costs_pure _
  | cons req reqs ih =>
      rw [List.length_cons, Nat.add_comm]
      refine costs_bind (costs_handleRequest subs req) fun after => ?_
      exact (ih after.2).bind fun _ => costs_pure _

/-- A text that is admitted. -/
theorem costs_serveText (subs : Subs) (parsed : Value) :
    Costs admission InputsFit (requestsOf parsed).length (serveText cfg subs parsed) := by
  cases parsed with
  | array reqs => exact (costs_handleRequests subs reqs).bind fun _ => costs_pure _
  | null => exact costs_handleRequest subs .null
  | bool b => exact costs_handleRequest subs (.bool b)
  | number n => exact costs_handleRequest subs (.number n)
  | string text => exact costs_handleRequest subs (.string text)
  | object fields => exact costs_handleRequest subs (.object fields)

/-- A turn that begins with nothing paid for. -/
theorem funds_turn (client : IpAddr) (subs : Subs) (input : WsInput) (hfits : input.Fits) :
    Funds admission InputsFit 0 (turn cfg client subs input) := by
  cases input with
  | text parsed =>
      cases parsed with
      | none => exact (free_sendOrEnd subs _).funds
      | some parsed =>
          have hlen : (requestsOf parsed).length ≤ max (textCost parsed).toNat 1 := by
            have hcost : textCost parsed = costOf parsed := by
              cases parsed with
              | _ => rfl
            rw [hcost]
            refine requestsOf_le parsed fun reqs hreqs => ?_
            subst hreqs
            exact hfits
          refine funds_allow ?_ (free_sendOrEnd subs _).funds
          refine ((costs_serveText subs parsed).mono hlen).funds.bind fun served => ?_
          obtain ⟨response, subs'⟩ := served
          cases response with
          | some response => exact (free_sendOrEnd subs' response).funds
          | none => trivial
  | event ev =>
      refine (free_pushEvent subs ev).funds.bind fun sent => ?_
      cases sent with
      | true => trivial
      | false => trivial
  | other => trivial
  | hangup => trivial
  | lagged skipped => trivial
  | channelClosed => trivial

theorem funds_connectionLoop (client : IpAddr) (turns : Nat) (subs : Subs) :
    Funds admission InputsFit 0 (connectionLoop cfg client turns subs) := by
  induction turns generalizing subs with
  | zero => trivial
  | succ turns ih =>
      refine ⟨fun h => Bool.noConfusion h, ?_⟩
      intro input hinput
      refine (funds_turn client subs input hinput).bind fun next => ?_
      cases next with
      | some subs' => exact ih subs'
      | none => trivial

/-- Whatever comes in, its task is funded by what it is admitted. -/
theorem taskOf_funded (incoming : Incoming) :
    Funds admission InputsFit 0 (taskOf cfg incoming) := by
  cases incoming with
  | post peer headers payload =>
      exact (funds_handleRpc peer headers payload).bind fun _ => trivial
  | socket peer headers turns =>
      exact (funds_connectionLoop _ turns .empty).bind fun _ => trivial

end Tasks

-- ================================================================ the limiter

/-- The calls of the limiter among events. -/
def limiterCalls (events : List (Ev ServerOp ServerRes)) : List RateLimiter.Call :=
  events.filterMap limiterCall

/-- The call is for an address, in the `T` seconds from `lo` on. -/
def isWithin (ip : IpAddr) (lo T : ℚ) (c : RateLimiter.Call) : Bool :=
  decide (c.ip = ip ∧ lo ≤ asSecsF64 c.now ∧ asSecsF64 c.now ≤ lo + T)

/-- The event is such a call. -/
def admittedIn (ip : IpAddr) (lo T : ℚ) (e : Ev ServerOp ServerRes) : Bool :=
  (limiterCall e).any (isWithin ip lo T)

section Limiter

variable {s t : ServerState} {events : List (Ev ServerOp ServerRes)}

/-- The limiter answers one call after another, at times that do not go
back. -/
theorem limiter_run (h : History ServerStep s events t) :
    (limiterCalls events).Pairwise (fun c c' => c.now ≤ c'.now)
      ∧ ∀ c ∈ limiterCalls events, s.now ≤ c.now := by
  induction h with
  | nil => exact ⟨.nil, fun c hc => by cases hc⟩
  | cons hstep _ ih =>
      obtain ⟨hordered, hfrom⟩ := ih
      cases hstep with
      | @allow client cost now hnow =>
          refine ⟨List.pairwise_cons.mpr ⟨hfrom, hordered⟩, ?_⟩
          intro c hc
          rcases List.mem_cons.mp hc with rfl | hc
          · exact hnow
          · exact hnow.trans (hfrom c hc)
      | _ => exact ⟨hordered, hfrom⟩

/-- An answer of the limiter pays what the call is granted. -/
theorem answer_pays (ip : IpAddr) (lo T : ℚ) (l : RateLimiter) (c : RateLimiter.Call)
    {e : Ev ServerOp ServerRes}
    (he : e = ⟨ServerOp.allow c.ip c.cost,
      (((l.allow c.now c.ip c.cost).1, c.now) : Bool × Nat)⟩) :
    (((if admittedIn ip lo T e then (admission.pays e).getD 0 else 0 : Nat)) : ℚ)
      = if c.ip = ip ∧ lo ≤ asSecsF64 c.now ∧ asSecsF64 c.now ≤ lo + T then (l.call c).2
        else 0 := by
  subst he
  have hwithin : admittedIn ip lo T ⟨ServerOp.allow c.ip c.cost,
      (((l.allow c.now c.ip c.cost).1, c.now) : Bool × Nat)⟩ = isWithin ip lo T c := rfl
  have hgrant : (l.call c).2
      = if (l.allow c.now c.ip c.cost).1 then RateLimiter.charge c.cost else 0 := rfl
  rw [hwithin, hgrant, isWithin]
  by_cases hin : c.ip = ip ∧ lo ≤ asSecsF64 c.now ∧ asSecsF64 c.now ≤ lo + T
  · rw [if_pos hin, decide_eq_true hin, if_pos rfl]
    show (((if _ then _ else _ : Nat)) : ℚ) = _
    split
    · rfl
    · exact Nat.cast_zero
  · rw [if_neg hin, decide_eq_false hin]
    exact Nat.cast_zero

/-- What is paid in a run is what the limiter grants. -/
theorem paid_granted (ip : IpAddr) (lo T : ℚ) (h : History ServerStep s events t) :
    (paidFor admission (admittedIn ip lo T) events : ℚ)
      = s.limiter.admitted ip lo T (limiterCalls events) := by
  induction h with
  | nil => exact Nat.cast_zero
  | @cons s u t e events hstep _ ih =>
      rw [paidFor, Nat.cast_add, ih]
      cases hstep with
      | @allow client cost now hnow =>
          rw [answer_pays ip lo T s.limiter ⟨now, client, cost⟩ rfl]
          rfl
      | _ =>
          rw [show limiterCalls _ = limiterCalls events from rfl]
          exact zero_add _

end Limiter

-- ============================================================== the handlers

section Handlers

variable {ι : Type}

/-- How many handlers a run calls. -/
def handlersRun (run : List (ι × Ev ServerOp ServerRes)) : Nat :=
  (run.filter fun e => isHandle e.2.1).length

variable [DecidableEq ι]

/-- How many of them it calls in tasks whose last call of the limiter was for
an address, in the `T` seconds from `lo` on. -/
def handlersFor (ip : IpAddr) (lo T : ℚ) (run : List (ι × Ev ServerOp ServerRes)) : Nat :=
  paidUses admission (admittedIn ip lo T) (fun _ => false) run

end Handlers

-- =================================================================== a sample

/-- The events of two tasks, in the order of a schedule. -/
def interleave {α : Type} : List Bool → List α → List α → List (Bool × α)
  | false :: turns, x :: xs, ys => (false, x) :: interleave turns xs ys
  | true :: turns, xs, y :: ys => (true, y) :: interleave turns xs ys
  | _, _, _ => []

/-- The rest of the proxy: the inputs, the answers of the limiter, and the
next subscription. -/
def scriptedRest : (op : ServerOp) → List WsInput × List Bool × UInt64 →
    ServerRes op × (List WsInput × List Bool × UInt64)
  | .recv, (inputs, s) => (inputs.headD .hangup, (inputs.tail, s))
  | .allow .., (inputs, grants, s) => ((grants.headD true, 0), (inputs, grants.tail, s))
  | .handle .., s => (.ok (.ok (.string "0x7")), s)
  | .send _, s => (true, s)
  | .nextSub, (inputs, grants, n) => (n, (inputs, grants, n + 1))
  | .iterate subs, s => (subs, s)

/-- What a task does over it. -/
def scriptedEvents (incoming : Incoming) (inputs : List WsInput) (grants : List Bool)
    (next : UInt64) : List (Ev ServerOp ServerRes) :=
  ((taskOf sampleServer incoming).run scriptedRest (inputs, grants, next)).trace

theorem scriptedEvents_runs (incoming : Incoming) (inputs : List WsInput) (grants : List Bool)
    (next : UInt64) :
    ∃ q, Runs (taskOf sampleServer incoming) (scriptedEvents incoming inputs grants next) q :=
  runs_of_exec (run_exec scriptedRest _ _)

/-- A batch is posted, and the same client asks twice over a WebSocket. -/
def sampleIncoming : Bool → Incoming
  | false => .post (.v4 1) (fun _ => none) sampleBatch
  | true => .socket (.v4 1) (fun _ => none) 2

def askHeight : WsInput :=
  .text (some (.object [("id", .number 1), ("method", .string "eth_blockNumber")]))

/-- What the tasks do, where the second question is one too many. -/
def postEvents : List (Ev ServerOp ServerRes) := scriptedEvents (sampleIncoming false) [] [true] 1

def socketEvents : List (Ev ServerOp ServerRes) :=
  scriptedEvents (sampleIncoming true) [askHeight, askHeight] [true, false] 1

/-- The batch comes in between the two questions. -/
def meteredRun : List (Bool × Ev ServerOp ServerRes) :=
  interleave [true, true, false, true, false, true, false, true, true, true] postEvents
    socketEvents

/-- The limiter: four tokens, and one more each second. -/
def sampleLimiter : RateLimiter := .new 1 4

/-- It charges the client. -/
def drained (l : RateLimiter) (cost : UInt64) : RateLimiter := (l.allow 0 (.v4 1) cost).2

theorem allowed_serves {l : RateLimiter} {n cost : UInt64} {granted : Bool}
    (h : (l.allow 0 (.v4 1) cost).1 = granted) :
    ServerStep ⟨l, 0, n⟩ ⟨ServerOp.allow (.v4 1) cost, ((granted, 0) : Bool × Nat)⟩
      ⟨drained l cost, 0, n⟩ := by
  rw [← h]
  exact .allow le_rfl

theorem meteredRun_runs : ∃ t, History (TaskStep ServerStep)
    (startServer sampleServer 1 4 sampleIncoming) meteredRun t := by
  have hhost : History ServerStep ⟨sampleLimiter, 0, 1⟩ (meteredRun.map Prod.snd)
      ⟨drained (drained (drained sampleLimiter 1) 3) 1, 0, 1⟩ :=
    .cons (.recv _ trivial) (.cons (allowed_serves (by decide +kernel))
      (.cons (allowed_serves (by decide +kernel)) (.cons (.handle _) (.cons (.handle _)
      (.cons (.send _) (.cons (.handle _) (.cons (.recv _ trivial)
      (.cons (allowed_serves (by decide +kernel)) (.cons (.send _) .nil)))))))))
  refine tasks_of_runs hhost fun i => ?_
  cases i with
  | false => exact scriptedEvents_runs (sampleIncoming false) [] [true] 1
  | true => exact scriptedEvents_runs (sampleIncoming true) [askHeight, askHeight] [true, false] 1

end KoinosEvm.Proofs
