/-
The head poller of the WebSocket feed (`run_pollers` of rpc/src/ws.rs).

What the node answers to a tick is outside: its `get_head_info`, and what
`fetch_block_as_eth_object` comes to for each height. A panic ends the poller;
what it has pushed stays pushed.
-/
import KoinosEvm.Proxy.Params
import KoinosEvm.Proxy.RunCycle

namespace KoinosEvm.Proxy

/-- The answers to a tick. -/
structure HeadTick where
  headInfo : Except String Value
  /-- `fetch_block_as_eth_object(&state, h, false)`. -/
  block : UInt64 → Except RpcFailure Value

/-- The height that a tick observes. -/
def HeadTick.head (t : HeadTick) : Option UInt64 := (headHeight t.headInfo).toOption

/-- A header: the block without its `transactions`. -/
def withoutTransactions : Value → Value
  | .object fields => .object (fields.filter fun field => field.1 ≠ "transactions")
  | block => block

/-- The poller, and the headers it has pushed, oldest first. -/
structure HeadPoller where
  lastHead : UInt64
  pushed : List (UInt64 × Value)

namespace HeadPoller

/-- Before the first tick. -/
def init : HeadPoller := ⟨0, []⟩

/-- The heights pushed. -/
def heightsPushed (p : HeadPoller) : List UInt64 := p.pushed.map Prod.fst

/-- The heights of `from..=height`. -/
def heights (first : Nat) (height : UInt64) : List UInt64 :=
  (List.range' first (height.toNat + 1 - first)).map UInt64.ofNat

/-- The loop over the heights. -/
def pushHeads (block : UInt64 → Except RpcFailure Value) :
    List UInt64 → HeadPoller → HeadPoller
  | [], p => p
  | h :: hs, p =>
      match block h with
      | .ok .null => pushHeads block hs p -- not visible yet
      | .ok obj => pushHeads block hs ⟨h, p.pushed ++ [(h, withoutTransactions obj)]⟩
      | .error _ => p

/-- `last_head` once a head is there: the first is not replayed. -/
def observed (p : HeadPoller) (height : UInt64) : UInt64 :=
  if p.lastHead = 0 then height else p.lastHead

/-- A tick. -/
def tick (checks : Checks) (p : HeadPoller) (t : HeadTick) : Except Panic HeadPoller :=
  match t.head with
  | none => .ok p
  | some height => do
      let lastHead := p.observed height
      let next ← nextU64 checks lastHead
      -- the catch-up of a tick is capped
      let first := max next.toNat (height.toNat - 10)
      return pushHeads t.block (heights first height) { p with lastHead := lastHead }

/-- The poller after the ticks. -/
def run (checks : Checks) : HeadPoller → List HeadTick → HeadPoller
  | p, [] => p
  | p, t :: ts =>
      match p.tick checks t with
      | .ok p' => run checks p' ts
      | .error _ => p

end HeadPoller

end KoinosEvm.Proxy
