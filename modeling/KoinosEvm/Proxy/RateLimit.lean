/-
The rate limiter (`RateLimiter` of rpc/src/limit.rs): a bucket of tokens for
each client address.

An `Instant` is in nanoseconds. The tokens are exact rationals where the
source has `f64`.
-/
import Mathlib.Data.Rat.Defs
import KoinosEvm.Lib.Table
import KoinosEvm.Lib.TokenBucket

namespace KoinosEvm.Proxy

open Lib

/-- `IpAddr`, its octets as one number. -/
inductive IpAddr
  | v4 (octets : BitVec 32)
  | v6 (octets : BitVec 128)
  deriving DecidableEq

/-- `MAX_BUCKETS`. -/
def maxBuckets : Nat := 10000

/-- `IDLE_SWEEP_SECS`. -/
def idleSweepSecs : Nat := 60

/-- `Duration::as_secs`, whole seconds. -/
def asSecs (nanos : Nat) : Nat := nanos / 1000000000

/-- `Duration::as_secs_f64`. -/
def asSecsF64 (nanos : Nat) : ℚ := nanos / 1000000000

/-- `Bucket`, under its address. -/
structure Bucket where
  ip : IpAddr
  tokens : ℚ
  lastRefill : Nat

/-- `RateLimiter`. -/
structure RateLimiter where
  buckets : Table IpAddr Bucket Bucket.ip
  rps : ℚ
  burst : ℚ

namespace RateLimiter

/-- `new`. A burst below `rps` is raised to it, and to one. -/
def new (rps burst : UInt64) : RateLimiter :=
  ⟨.empty, rps.toNat, (max burst.toNat (max rps.toNat 1) : Nat)⟩

/-- `enabled`. -/
def enabled (limiter : RateLimiter) : Bool := 0 < limiter.rps

/-- The `retain` of `allow`: what has not been idle for long. -/
def sweep (limiter : RateLimiter) (now : Nat) : RateLimiter :=
  { limiter with
    buckets := limiter.buckets.retain fun b => asSecs (now - b.lastRefill) < idleSweepSecs }

/-- The map is full, and the address is not in it. -/
def full (limiter : RateLimiter) (ip : IpAddr) : Bool :=
  maxBuckets ≤ limiter.buckets.rows.length && (limiter.buckets.find? ip).isNone

/-- The bucket of an address, a full one if it has none, refilled. -/
def refilled (limiter : RateLimiter) (now : Nat) (ip : IpAddr) : ℚ :=
  let bucket := (limiter.buckets.find? ip).getD ⟨ip, limiter.burst, now⟩
  refill limiter.burst limiter.rps bucket.tokens (asSecsF64 (now - bucket.lastRefill))

/-- The end of `allow`: takes the tokens if they are there. -/
def take (limiter : RateLimiter) (now : Nat) (ip : IpAddr) (cost : ℚ) : Bool × RateLimiter :=
  let tokens := limiter.refilled now ip
  let left := if cost ≤ tokens then tokens - cost else tokens
  (cost ≤ tokens,
    { limiter with
      buckets := limiter.buckets.upsert ⟨ip, left, now⟩
        (fun b => { b with tokens := left, lastRefill := now }) fun _ => rfl })

/-- `(cost.max(1)) as f64`. -/
def charge (cost : UInt64) : ℚ := (max cost.toNat 1 : Nat)

/-- `allow`, at the time `now`. -/
def allow (limiter : RateLimiter) (now : Nat) (ip : IpAddr) (cost : UInt64) :
    Bool × RateLimiter :=
  if limiter.enabled then
    if limiter.full ip then
      let swept := limiter.sweep now
      -- still full of clients that are not idle: refuse a new one
      if maxBuckets ≤ swept.buckets.rows.length then (false, swept)
      else swept.take now ip (charge cost)
    else limiter.take now ip (charge cost)
  else (true, limiter)

-- ==================================================================== calls

/-- A call of `allow`. -/
structure Call where
  now : Nat
  ip : IpAddr
  cost : UInt64

/-- A call, and what it admits. -/
def call (limiter : RateLimiter) (c : Call) : RateLimiter × ℚ :=
  let answer := limiter.allow c.now c.ip c.cost
  (answer.2, if answer.1 then charge c.cost else 0)

/-- The limiter after the calls. -/
def afterCalls (limiter : RateLimiter) (calls : List Call) : RateLimiter :=
  calls.foldl (fun l c => (l.call c).1) limiter

/-- The total cost admitted for an address in the `T` seconds from `lo` on. -/
def admitted (limiter : RateLimiter) (ip : IpAddr) (lo T : ℚ) (calls : List Call) : ℚ :=
  granted call (fun c => c.ip = ip ∧ lo ≤ asSecsF64 c.now ∧ asSecsF64 c.now ≤ lo + T) limiter
    calls

end RateLimiter

end KoinosEvm.Proxy
