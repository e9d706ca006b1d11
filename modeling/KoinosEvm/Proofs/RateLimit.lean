/-
What the rate limiter admits.

An address has a level at any time: its bucket refilled, or a full bucket if
it has none. A call pays what it admits from the level, and the level gains
`rps` tokens a second, so the limiter is a metered system (Lib/TokenBucket)
as long as no bucket is dropped before it is full. The sweep drops what has
been idle for 60 seconds: that is full exactly if the burst is no more than
60 seconds of refill (`rate_bounded_iff`).
-/
import Mathlib.Algebra.Order.Ring.Rat
import Mathlib.Data.Rat.Cast.Order
import Mathlib.Tactic.FieldSimp
import KoinosEvm.Proxy.RateLimit

namespace KoinosEvm.Proofs

open Lib Proxy

-- ==================================================================== times

theorem asSecsF64_nonneg (nanos : Nat) : 0 ≤ asSecsF64 nanos := by
  rw [asSecsF64]
  positivity

theorem asSecsF64_le {a b : Nat} : asSecsF64 a ≤ asSecsF64 b ↔ a ≤ b := by
  rw [asSecsF64, asSecsF64, div_le_div_iff_of_pos_right (by norm_num), Nat.cast_le]

theorem asSecsF64_sub {a b : Nat} (h : a ≤ b) :
    asSecsF64 (b - a) = asSecsF64 b - asSecsF64 a := by
  rw [asSecsF64, Nat.cast_sub h, sub_div]
  rfl

/-- What has been idle for 60 whole seconds has been so for 60 seconds. -/
theorem idle_le {nanos : Nat} (h : ¬ asSecs nanos < idleSweepSecs) : 60 ≤ asSecsF64 nanos := by
  have hnanos : 60 * 1000000000 ≤ nanos := by
    rw [asSecs, idleSweepSecs] at h
    omega
  have hcast : ((60 * 1000000000 : Nat) : ℚ) ≤ nanos := Nat.cast_le.mpr hnanos
  rw [asSecsF64, le_div_iff₀ (by norm_num)]
  exact_mod_cast hcast

-- =================================================================== levels

/-- The limiter at a time: no bucket is over the burst, none is younger. -/
structure LimiterInv (rate cap : ℚ) (l : RateLimiter) (t : ℚ) : Prop where
  rps : l.rps = rate
  burst : l.burst = cap
  tokens : ∀ b ∈ l.buckets.rows, 0 ≤ b.tokens ∧ b.tokens ≤ cap
  before : ∀ b ∈ l.buckets.rows, asSecsF64 b.lastRefill ≤ t

/-- The tokens an address has at a time. -/
def levelOf (rate cap : ℚ) (ip : IpAddr) (l : RateLimiter) (t : ℚ) : ℚ :=
  match l.buckets.find? ip with
  | none => cap
  | some b => refill cap rate b.tokens (t - asSecsF64 b.lastRefill)

section Levels

variable {rate cap : ℚ} {l : RateLimiter} {t : ℚ} {ip : IpAddr}

theorem levelOf_none (h : l.buckets.find? ip = none) : levelOf rate cap ip l t = cap := by
  rw [levelOf, h]

theorem levelOf_some {b : Bucket} (h : l.buckets.find? ip = some b) :
    levelOf rate cap ip l t = refill cap rate b.tokens (t - asSecsF64 b.lastRefill) := by
  rw [levelOf, h]

theorem levelOf_le_cap : levelOf rate cap ip l t ≤ cap := by
  cases hfind : l.buckets.find? ip with
  | none => exact (levelOf_none hfind).le
  | some b =>
      rw [levelOf_some hfind]
      exact refill_le_cap

theorem levelOf_nonneg (hrate : 0 ≤ rate) (hcap : 0 ≤ cap) (h : LimiterInv rate cap l t) :
    0 ≤ levelOf rate cap ip l t := by
  cases hfind : l.buckets.find? ip with
  | none =>
      rw [levelOf_none hfind]
      exact hcap
  | some b =>
      have hmem := Table.find?_mem hfind
      rw [levelOf_some hfind]
      exact refill_nonneg hcap hrate (h.tokens b hmem).1 (sub_nonneg.mpr (h.before b hmem))

theorem levelOf_rises {t' : ℚ} (hrate : 0 ≤ rate) (ht : t ≤ t') :
    levelOf rate cap ip l t' ≤ levelOf rate cap ip l t + (t' - t) * rate := by
  have hmore : 0 ≤ t' - t := sub_nonneg.mpr ht
  cases hfind : l.buckets.find? ip with
  | none =>
      rw [levelOf_none hfind, levelOf_none hfind]
      exact le_add_of_nonneg_right (mul_nonneg hmore hrate)
  | some b =>
      have hsplit : t' - asSecsF64 b.lastRefill = t - asSecsF64 b.lastRefill + (t' - t) := by
        ring
      rw [levelOf_some hfind, levelOf_some hfind, hsplit]
      exact refill_add_le hrate hmore

theorem LimiterInv.later {t' : ℚ} (h : LimiterInv rate cap l t) (ht : t ≤ t') :
    LimiterInv rate cap l t' :=
  ⟨h.rps, h.burst, h.tokens, fun b hb => (h.before b hb).trans ht⟩

end Levels

-- ================================================================ the sweep

section Sweep

variable {rate cap : ℚ} {l : RateLimiter} {now : Nat} {ip : IpAddr}

theorem LimiterInv.sweep (h : LimiterInv rate cap l (asSecsF64 now)) :
    LimiterInv rate cap (l.sweep now) (asSecsF64 now) :=
  ⟨h.rps, h.burst, fun b hb => h.tokens b (List.mem_of_mem_filter hb),
    fun b hb => h.before b (List.mem_of_mem_filter hb)⟩

/-- What is swept was full, if 60 seconds fill a bucket. -/
theorem levelOf_sweep (ip : IpAddr) (hrate : 0 ≤ rate) (hfills : cap ≤ 60 * rate)
    (h : LimiterInv rate cap l (asSecsF64 now)) :
    levelOf rate cap ip (l.sweep now) (asSecsF64 now) ≤ levelOf rate cap ip l (asSecsF64 now) := by
  cases hfind : l.buckets.find? ip with
  | none =>
      rw [levelOf_none hfind]
      exact levelOf_le_cap
  | some b =>
      have hmem := Table.find?_mem hfind
      by_cases hidle : asSecs (now - b.lastRefill) < idleSweepSecs
      · have hkept : (l.sweep now).buckets.find? ip = some b := by
          have hrow : b ∈ (l.sweep now).buckets.rows :=
            List.mem_filter.mpr ⟨hmem, decide_eq_true hidle⟩
          rw [← Table.find?_key hfind]
          exact Table.find?_of_mem hrow
        rw [levelOf_some hkept, levelOf_some hfind]
      · have hago := idle_le hidle
        rw [asSecsF64_sub (asSecsF64_le.mp (h.before b hmem))] at hago
        have hfull : cap ≤ (asSecsF64 now - asSecsF64 b.lastRefill) * rate :=
          hfills.trans (mul_le_mul_of_nonneg_right hago hrate)
        rw [levelOf_some hfind, refill_full (h.tokens b hmem).1 hfull]
        exact levelOf_le_cap

end Sweep

-- ================================================================= the take

section Take

variable {rate cap : ℚ} {l : RateLimiter} {now : Nat} {ip : IpAddr} {cost : ℚ}

/-- An address without a bucket has the whole burst. -/
theorem refilled_new (hfind : l.buckets.find? ip = none) : l.refilled now ip = l.burst := by
  have hnow : asSecsF64 (now - now) = 0 := by
    rw [Nat.sub_self, asSecsF64, Nat.cast_zero, zero_div]
  simp only [RateLimiter.refilled, hfind, Option.getD_none, hnow]
  exact refill_zero le_rfl

theorem refilled_eq (h : LimiterInv rate cap l (asSecsF64 now)) :
    l.refilled now ip = levelOf rate cap ip l (asSecsF64 now) := by
  cases hfind : l.buckets.find? ip with
  | none => rw [refilled_new hfind, h.burst, levelOf_none hfind]
  | some b =>
      have hago := asSecsF64_sub (asSecsF64_le.mp (h.before b (Table.find?_mem hfind)))
      simp only [RateLimiter.refilled, hfind, Option.getD_some, hago]
      rw [h.burst, h.rps, levelOf_some hfind]

/-- What a take leaves of the level. -/
def leftOver (rate cap : ℚ) (l : RateLimiter) (now : Nat) (ip : IpAddr) (cost : ℚ) : ℚ :=
  if cost ≤ levelOf rate cap ip l (asSecsF64 now)
  then levelOf rate cap ip l (asSecsF64 now) - cost
  else levelOf rate cap ip l (asSecsF64 now)

theorem leftOver_le (hcost : 0 ≤ cost) :
    leftOver rate cap l now ip cost ≤ levelOf rate cap ip l (asSecsF64 now) := by
  rw [leftOver]
  split
  · exact sub_le_self _ hcost
  · exact le_rfl

theorem leftOver_le_cap (hcost : 0 ≤ cost) : leftOver rate cap l now ip cost ≤ cap :=
  (leftOver_le hcost).trans levelOf_le_cap

theorem leftOver_nonneg (hrate : 0 ≤ rate) (hcap : 0 ≤ cap)
    (h : LimiterInv rate cap l (asSecsF64 now)) : 0 ≤ leftOver rate cap l now ip cost := by
  rw [leftOver]
  split
  next hle => exact sub_nonneg.mpr hle
  next => exact levelOf_nonneg hrate hcap h

theorem take_eq (h : LimiterInv rate cap l (asSecsF64 now)) :
    l.take now ip cost
      = (decide (cost ≤ levelOf rate cap ip l (asSecsF64 now)),
          { l with
            buckets := l.buckets.upsert ⟨ip, leftOver rate cap l now ip cost, now⟩
              (fun b => { b with
                tokens := leftOver rate cap l now ip cost, lastRefill := now })
              fun _ => rfl }) := by
  rw [RateLimiter.take, refilled_eq h]
  rfl

/-- The bucket that a take leaves. -/
theorem find?_take_self (ip : IpAddr) (cost : ℚ) (h : LimiterInv rate cap l (asSecsF64 now)) :
    ∃ b, (l.take now ip cost).2.buckets.find? ip = some b
      ∧ b.tokens = leftOver rate cap l now ip cost ∧ b.lastRefill = now := by
  rw [take_eq h]
  refine ⟨_, Table.find?_upsert_self l.buckets rfl, ?_⟩
  cases l.buckets.find? ip with
  | none => exact ⟨rfl, rfl⟩
  | some b => exact ⟨rfl, rfl⟩

/-- A new address has its bucket put in. -/
theorem rows_take_new (hfind : l.buckets.find? ip = none) :
    ∃ left, (l.take now ip cost).2.buckets.rows = l.buckets.rows ++ [⟨ip, left, now⟩] :=
  ⟨_, Table.rows_upsert_of_none hfind⟩

theorem LimiterInv.take (hrate : 0 ≤ rate) (hcap : 0 ≤ cap) (hcost : 0 ≤ cost)
    (h : LimiterInv rate cap l (asSecsF64 now)) :
    LimiterInv rate cap (l.take now ip cost).2 (asSecsF64 now) := by
  have hlow : 0 ≤ leftOver rate cap l now ip cost := leftOver_nonneg hrate hcap h
  have hhigh : leftOver rate cap l now ip cost ≤ cap := leftOver_le_cap hcost
  rw [take_eq h]
  refine ⟨h.rps, h.burst, ?_, ?_⟩
  · exact Table.forall_upsert h.tokens ⟨hlow, hhigh⟩ fun _ _ => ⟨hlow, hhigh⟩
  · exact Table.forall_upsert h.before le_rfl fun _ _ => le_rfl

/-- A take pays what it admits from the level of its address. -/
theorem levelOf_take_self (hcost : 0 ≤ cost) (h : LimiterInv rate cap l (asSecsF64 now)) :
    (if (l.take now ip cost).1 then cost else 0)
        + levelOf rate cap ip (l.take now ip cost).2 (asSecsF64 now)
      = levelOf rate cap ip l (asSecsF64 now) := by
  obtain ⟨b, hfind, htokens, hlast⟩ := find?_take_self ip cost h
  have hle : leftOver rate cap l now ip cost ≤ cap := leftOver_le_cap hcost
  rw [levelOf_some hfind, htokens, hlast, sub_self, refill_zero hle, take_eq h, leftOver]
  by_cases hpaid : cost ≤ levelOf rate cap ip l (asSecsF64 now)
  · simp only [hpaid, decide_true, if_true]
    ring
  · simp only [hpaid, decide_false, if_false, Bool.false_eq_true]
    ring

/-- .. and changes no other. -/
theorem levelOf_take_of_ne {ip' : IpAddr} (hne : ip ≠ ip') {t : ℚ} :
    levelOf rate cap ip' (l.take now ip cost).2 t = levelOf rate cap ip' l t := by
  have hfind : (l.take now ip cost).2.buckets.find? ip' = l.buckets.find? ip' :=
    Table.find?_upsert_of_ne l.buckets hne
  rw [levelOf, levelOf, hfind]

end Take

-- ================================================================= the calls

theorem charge_nonneg (cost : UInt64) : 0 ≤ RateLimiter.charge cost := Nat.cast_nonneg _

section Allow

variable {rate cap : ℚ} {l : RateLimiter} {now : Nat} {ip : IpAddr} {cost : UInt64}

/-- What a call does: it sweeps and refuses, or it takes from the map, swept or
not, where there is room for the address. -/
theorem allow_cases (hon : l.enabled = true) :
    l.allow now ip cost = (false, l.sweep now)
      ∨ ∃ l', (l' = l ∨ l' = l.sweep now)
        ∧ (l'.buckets.find? ip = none → l'.buckets.rows.length < maxBuckets)
        ∧ l.allow now ip cost = l'.take now ip (RateLimiter.charge cost) := by
  rw [RateLimiter.allow, if_pos hon]
  cases hfull : l.full ip with
  | false =>
      refine Or.inr ⟨l, Or.inl rfl, fun hnone => ?_, rfl⟩
      rw [RateLimiter.full, hnone, Option.isNone_none, Bool.and_true] at hfull
      exact Nat.lt_of_not_le (of_decide_eq_false hfull)
  | true =>
      by_cases hroom : maxBuckets ≤ (l.sweep now).buckets.rows.length
      · exact Or.inl (by rw [if_pos rfl, if_pos hroom])
      · refine Or.inr ⟨l.sweep now, Or.inr rfl, fun _ => Nat.lt_of_not_le hroom, ?_⟩
        rw [if_pos rfl, if_neg hroom]

theorem LimiterInv.enabled {t : ℚ} (hrate : 0 < rate) (h : LimiterInv rate cap l t) :
    l.enabled = true := by
  rw [RateLimiter.enabled, h.rps]
  exact decide_eq_true hrate

end Allow

-- =================================================================== the map

/-- The map is never over its bound. -/
theorem length_call {l : RateLimiter} (c : RateLimiter.Call)
    (h : l.buckets.rows.length ≤ maxBuckets) :
    (l.call c).1.buckets.rows.length ≤ maxBuckets := by
  have hsweep : (l.sweep c.now).buckets.rows.length ≤ maxBuckets :=
    (List.length_filter_le _ _).trans h
  have hcall : (l.call c).1 = (l.allow c.now c.ip c.cost).2 := rfl
  rw [hcall]
  cases hon : l.enabled with
  | false =>
      rw [RateLimiter.allow, hon]
      exact h
  | true =>
      rcases allow_cases hon with hrefuse | ⟨l', hl', hroom, htake⟩
      · rw [hrefuse]
        exact hsweep
      · have hlen : l'.buckets.rows.length ≤ maxBuckets := by
          rcases hl' with rfl | rfl
          · exact h
          · exact hsweep
        rw [htake]
        show (Table.upsert _ _ _ _).rows.length ≤ _
        by_cases hnone : l'.buckets.find? c.ip = none
        · rw [Table.rows_upsert_of_none hnone, List.length_append, List.length_singleton]
          exact hroom hnone
        · rw [Table.length_upsert_of_ne_none hnone]
          exact hlen

theorem length_afterCalls {l : RateLimiter} (h : l.buckets.rows.length ≤ maxBuckets)
    (calls : List RateLimiter.Call) : (l.afterCalls calls).buckets.rows.length ≤ maxBuckets := by
  induction calls generalizing l with
  | nil => exact h
  | cons c calls ih => exact ih (length_call c h)

-- ================================================================= the meter

section Meter

variable {rate cap : ℚ} {l : RateLimiter} {ip : IpAddr} {c : RateLimiter.Call}

theorem LimiterInv.call (hrate : 0 < rate) (hcap : 0 ≤ cap)
    (h : LimiterInv rate cap l (asSecsF64 c.now)) :
    LimiterInv rate cap (l.call c).1 (asSecsF64 c.now) := by
  have hcall : (l.call c).1 = (l.allow c.now c.ip c.cost).2 := rfl
  rw [hcall]
  rcases allow_cases (h.enabled hrate) with hrefuse | ⟨l', hl', -, htake⟩
  · rw [hrefuse]
    exact h.sweep
  · rw [htake]
    rcases hl' with rfl | rfl
    · exact h.take hrate.le hcap (charge_nonneg _)
    · exact h.sweep.take hrate.le hcap (charge_nonneg _)

/-- What a call admits it pays from the level of its address. -/
theorem call_pays (hrate : 0 < rate) (hfills : cap ≤ 60 * rate)
    (h : LimiterInv rate cap l (asSecsF64 c.now)) :
    (if c.ip = ip then (l.call c).2 else 0) + levelOf rate cap ip (l.call c).1 (asSecsF64 c.now)
      ≤ levelOf rate cap ip l (asSecsF64 c.now) := by
  have hsweep := levelOf_sweep ip hrate.le hfills h
  have hcall : l.call c = ((l.allow c.now c.ip c.cost).2,
      if (l.allow c.now c.ip c.cost).1 then RateLimiter.charge c.cost else 0) := rfl
  rw [hcall]
  rcases allow_cases (h.enabled hrate) with hrefuse | ⟨l', hl', -, htake⟩
  · rw [hrefuse]
    simpa using hsweep
  · have hlevel : LimiterInv rate cap l' (asSecsF64 c.now)
        ∧ levelOf rate cap ip l' (asSecsF64 c.now) ≤ levelOf rate cap ip l (asSecsF64 c.now) := by
      rcases hl' with rfl | rfl
      · exact ⟨h, le_rfl⟩
      · exact ⟨h.sweep, hsweep⟩
    rw [htake]
    refine le_trans ?_ hlevel.2
    by_cases hip : c.ip = ip
    · subst hip
      rw [if_pos rfl]
      exact (levelOf_take_self (charge_nonneg _) hlevel.1).le
    · rw [if_neg hip, zero_add, levelOf_take_of_ne hip]

theorem limiter_metered (hrate : 0 < rate) (hcap : 0 ≤ cap) (hfills : cap ≤ 60 * rate)
    (ip : IpAddr) :
    Metered RateLimiter.call (fun c => asSecsF64 c.now) (fun c => c.ip = ip)
      (LimiterInv rate cap) (levelOf rate cap ip) cap rate where
  later h ht := h.later ht
  keeps h := h.call hrate hcap
  pays h := call_pays hrate hfills h
  rises _ ht := levelOf_rises hrate.le ht
  grants l c := by
    show 0 ≤ if (l.allow c.now c.ip c.cost).1 then RateLimiter.charge c.cost else 0
    split
    · exact charge_nonneg _
    · exact le_rfl
  nonneg h := levelOf_nonneg hrate.le hcap h
  bounded := levelOf_le_cap

end Meter

-- ================================================================== the bound

/-- In every run at times that do not decrease, no address is admitted more
than the bound in any window, and the map stays within its own. -/
def RateBounded (rps burst : UInt64) : Prop :=
  ∀ calls : List RateLimiter.Call, (calls.Pairwise fun c c' => c.now ≤ c'.now) →
    (∀ ip lo T, 0 ≤ T →
      (RateLimiter.new rps burst).admitted ip lo T calls
        ≤ max burst.toNat rps.toNat + rps.toNat * T)
    ∧ ((RateLimiter.new rps burst).afterCalls calls).buckets.rows.length ≤ maxBuckets

section New

variable {rps burst : UInt64}

theorem limiterInv_new (burst : UInt64) (hrps : 1 ≤ rps) (t : ℚ) :
    LimiterInv rps.toNat (max burst.toNat rps.toNat : Nat) (.new rps burst) t where
  rps := rfl
  burst := by
    have hone : max rps.toNat 1 = rps.toNat := Nat.max_eq_left (UInt64.le_iff_toNat_le.mp hrps)
    show ((max burst.toNat (max rps.toNat 1) : Nat) : ℚ) = _
    rw [hone]
  tokens := by
    intro b hb
    cases hb
  before := by
    intro b hb
    cases hb

/-- A burst of at most 60 seconds of refill keeps the bound. -/
theorem rateBounded_of_le (hrps : 1 ≤ rps) (hburst : burst.toNat ≤ 60 * rps.toNat) :
    RateBounded rps burst := by
  intro calls horder
  refine ⟨fun ip lo T hT => ?_, length_afterCalls (Nat.zero_le _) calls⟩
  have hone : 1 ≤ rps.toNat := UInt64.le_iff_toNat_le.mp hrps
  have hrate : (0 : ℚ) < rps.toNat := Nat.cast_pos.mpr hone
  have hfills : ((max burst.toNat rps.toNat : Nat) : ℚ) ≤ 60 * rps.toNat := by
    have hmax : max burst.toNat rps.toNat ≤ 60 * rps.toNat :=
      max_le hburst (Nat.le_mul_of_pos_left _ (by decide))
    exact_mod_cast hmax
  have hfrom : ∀ c ∈ calls, (0 : ℚ) ≤ asSecsF64 c.now := fun c _ => asSecsF64_nonneg c.now
  have hrun : InOrder (fun c : RateLimiter.Call => asSecsF64 c.now) 0 calls :=
    inOrder_of_pairwise hfrom (horder.imp fun h => asSecsF64_le.mpr h)
  have hwindow := (limiter_metered hrate (Nat.cast_nonneg _) hfills ip).granted_le hrate.le
    (limiterInv_new burst hrps 0) lo hrun hT
  rw [mul_comm] at hwindow
  exact_mod_cast hwindow

end New

-- =========================================================== a minute's idling

/-- The clients of a run. -/
def client (n : Nat) : IpAddr := .v4 (BitVec.ofNat 32 n)

theorem client_ne {m n : Nat} (hlt : m < n) (hn : n ≤ maxBuckets) : client m ≠ client n := by
  intro heq
  have hbits : BitVec.ofNat 32 m = BitVec.ofNat 32 n := IpAddr.v4.inj heq
  have hnat := congrArg BitVec.toNat hbits
  rw [BitVec.toNat_ofNat, BitVec.toNat_ofNat] at hnat
  rw [maxBuckets] at hn
  omega

/-- A client comes at the start. -/
def arrival (n : Nat) : RateLimiter.Call := ⟨0, client n, 1⟩

/-- 60 seconds. -/
def minute : Nat := 60000000000

/-- The first client spends the burst and the others fill the map; a minute on
a new client makes the limiter sweep, and the first spends the burst again. -/
def minuteRun (burst : UInt64) : List RateLimiter.Call :=
  ⟨0, client 0, burst⟩ :: (List.range' 1 (maxBuckets - 1)).map arrival
    ++ [⟨minute, client maxBuckets, 1⟩, ⟨minute, client 0, burst⟩]

theorem minuteRun_ordered (burst : UInt64) :
    (minuteRun burst).Pairwise fun c c' => c.now ≤ c'.now := by
  have hstart : ∀ c ∈ ⟨0, client 0, burst⟩ :: (List.range' 1 (maxBuckets - 1)).map arrival,
      c.now = 0 := by
    intro c hc
    rcases List.mem_cons.mp hc with rfl | hc
    · rfl
    · obtain ⟨n, -, rfl⟩ := List.mem_map.mp hc
      rfl
  refine List.pairwise_append.mpr ⟨?_, ?_, ?_⟩
  · refine List.pairwise_of_forall_mem_list fun c hc c' _ => ?_
    rw [hstart c hc]
    exact Nat.zero_le _
  · exact List.pairwise_pair.mpr (Nat.le_refl minute)
  · intro c hc c' _
    rw [hstart c hc]
    exact Nat.zero_le _

/-- The map with the first `n` clients, none of them seen since the start. -/
structure Filled (rate cap : ℚ) (n : Nat) (l : RateLimiter) : Prop where
  inv : LimiterInv rate cap l (asSecsF64 0)
  length : l.buckets.rows.length = n
  rows : ∀ b ∈ l.buckets.rows, b.lastRefill = 0 ∧ ∃ m < n, b.ip = client m

section Filled

variable {rate cap : ℚ} {l : RateLimiter} {n : Nat}

theorem Filled.find?_next (h : Filled rate cap n l) (hn : n ≤ maxBuckets) :
    l.buckets.find? (client n) = none := by
  refine Table.find?_eq_none.mpr fun hmem => ?_
  obtain ⟨b, hb, hip⟩ := List.mem_map.mp hmem
  obtain ⟨-, m, hm, hclient⟩ := h.rows b hb
  exact client_ne hm hn (hclient.symm.trans hip)

/-- A call where the map has room for the address. -/
theorem call_room {c : RateLimiter.Call} (hon : l.enabled = true)
    (hroom : l.buckets.rows.length < maxBuckets) :
    l.call c = ((l.take c.now c.ip (RateLimiter.charge c.cost)).2,
      if (l.take c.now c.ip (RateLimiter.charge c.cost)).1 then RateLimiter.charge c.cost
      else 0) := by
  have hfull : l.full c.ip = false := by
    rw [RateLimiter.full, decide_eq_false (Nat.not_le_of_lt hroom), Bool.false_and]
  rw [RateLimiter.call, RateLimiter.allow, if_pos hon, hfull]
  rfl

/-- A new client is admitted what the burst pays. -/
theorem grant_new {c : RateLimiter.Call} (hon : l.enabled = true)
    (hroom : l.buckets.rows.length < maxBuckets) (hfind : l.buckets.find? c.ip = none)
    (hcost : RateLimiter.charge c.cost ≤ l.burst) :
    (l.call c).2 = RateLimiter.charge c.cost := by
  rw [call_room hon hroom]
  show (if (decide (_ ≤ l.refilled c.now c.ip)) = true then _ else _) = _
  rw [refilled_new hfind, if_pos (decide_eq_true hcost)]

theorem Filled.call (hrate : 0 < rate) (hcap : 0 ≤ cap) (h : Filled rate cap n l)
    (hn : n < maxBuckets) (cost : UInt64) :
    Filled rate cap (n + 1) (l.call ⟨0, client n, cost⟩).1 := by
  have hrows : ∃ left, (l.call ⟨0, client n, cost⟩).1.buckets.rows
      = l.buckets.rows ++ [⟨client n, left, 0⟩] := by
    rw [call_room (h.inv.enabled hrate) (by rw [h.length]; exact hn)]
    exact rows_take_new (h.find?_next hn.le)
  obtain ⟨left, hrows⟩ := hrows
  refine ⟨h.inv.call hrate hcap, ?_, ?_⟩
  · rw [hrows, List.length_append, h.length, List.length_singleton]
  · intro b hb
    rw [hrows] at hb
    rcases List.mem_append.mp hb with hb | hb
    · obtain ⟨hlast, m, hm, hip⟩ := h.rows b hb
      exact ⟨hlast, m, Nat.lt_succ_of_lt hm, hip⟩
    · rw [List.mem_singleton.mp hb]
      exact ⟨rfl, n, Nat.lt_succ_self n, rfl⟩

theorem Filled.arrivals (hrate : 0 < rate) (hcap : 0 ≤ cap) (k : Nat) (h : Filled rate cap n l)
    (hn : n + k ≤ maxBuckets) :
    Filled rate cap (n + k) (l.afterCalls ((List.range' n k).map arrival)) := by
  induction k generalizing n l with
  | zero => exact h
  | succ k ih =>
      have hnext := ih (h.call hrate hcap (by omega) 1) (by omega)
      rw [Nat.add_right_comm] at hnext
      exact hnext

/-- After a minute all of them are swept. -/
theorem Filled.sweep (h : Filled rate cap n l) : (l.sweep minute).buckets.rows = [] := by
  refine List.filter_eq_nil_iff.mpr fun b hb => ?_
  rw [(h.rows b hb).1]
  decide

/-- What the sweep leaves for the two calls a minute on. -/
theorem Filled.lastGrant (hrate : 0 < rate) (hcap : 0 ≤ cap) (h : Filled rate cap maxBuckets l)
    {cost : UInt64} (hcost : RateLimiter.charge cost ≤ cap) :
    ((l.call ⟨minute, client maxBuckets, 1⟩).1.call ⟨minute, client 0, cost⟩).2
      = RateLimiter.charge cost := by
  have hnow : LimiterInv rate cap l (asSecsF64 minute) :=
    h.inv.later (asSecsF64_le.mpr (Nat.zero_le _))
  have hfull : l.full (client maxBuckets) = true := by
    rw [RateLimiter.full, h.find?_next le_rfl, h.length, decide_eq_true le_rfl]
    rfl
  have hswept : (l.sweep minute).buckets.rows.length < maxBuckets := by
    rw [h.sweep]
    decide
  have hcall : (l.call ⟨minute, client maxBuckets, 1⟩).1
      = ((l.sweep minute).take minute (client maxBuckets) (RateLimiter.charge 1)).2 := by
    show (l.allow minute (client maxBuckets) 1).2 = _
    rw [RateLimiter.allow, if_pos (h.inv.enabled hrate), if_pos hfull,
      if_neg (Nat.not_le_of_lt hswept)]
  have hinv : LimiterInv rate cap (l.call ⟨minute, client maxBuckets, 1⟩).1 (asSecsF64 minute) :=
    LimiterInv.call (c := ⟨minute, client maxBuckets, 1⟩) hrate hcap hnow
  have hgone : ∀ ip, (l.sweep minute).buckets.find? ip = none := by
    intro ip
    rw [Table.find?_eq_none, h.sweep]
    exact List.not_mem_nil
  have hrows : ∃ left, (l.call ⟨minute, client maxBuckets, 1⟩).1.buckets.rows
      = [⟨client maxBuckets, left, minute⟩] := by
    obtain ⟨left, hput⟩ := rows_take_new (hgone (client maxBuckets))
    rw [h.sweep, List.nil_append] at hput
    rw [hcall]
    exact ⟨left, hput⟩
  obtain ⟨left, hrows⟩ := hrows
  refine grant_new (hinv.enabled hrate) ?_ ?_ ?_
  · rw [hrows, List.length_singleton]
    decide
  · rw [Table.find?_eq_none, hrows]
    intro hmem
    exact client_ne (by decide) le_rfl (List.mem_singleton.mp hmem)
  · rw [hinv.burst]
    exact hcost

end Filled

section Exceeded

variable {rps burst : UInt64}

/-- In that minute the first client is admitted two bursts. -/
theorem admitted_minuteRun (hrps : 1 ≤ rps) (hburst : rps.toNat ≤ burst.toNat) :
    (RateLimiter.new rps burst).admitted (client 0) 0 60 (minuteRun burst)
      = 2 * burst.toNat := by
  have hone : 1 ≤ rps.toNat := UInt64.le_iff_toNat_le.mp hrps
  have hrate : (0 : ℚ) < rps.toNat := Nat.cast_pos.mpr hone
  have hmax : max burst.toNat rps.toNat = burst.toNat := max_eq_left hburst
  have hcap : (0 : ℚ) ≤ burst.toNat := Nat.cast_nonneg _
  have hcharge : RateLimiter.charge burst = burst.toNat := by
    rw [RateLimiter.charge, Nat.max_eq_left (hone.trans hburst)]
  have hnew : LimiterInv rps.toNat burst.toNat (.new rps burst) (asSecsF64 0) := by
    have hinv := limiterInv_new burst hrps (asSecsF64 0)
    rwa [hmax] at hinv
  have hempty : Filled rps.toNat burst.toNat 0 (.new rps burst) :=
    ⟨hnew, rfl, fun b hb => by cases hb⟩
  have hfirst : ((RateLimiter.new rps burst).call ⟨0, client 0, burst⟩).2 = burst.toNat := by
    have hpaid : RateLimiter.charge burst ≤ (RateLimiter.new rps burst).burst := by
      rw [hnew.burst, hcharge]
    have hroom : (RateLimiter.new rps burst).buckets.rows.length < maxBuckets := by
      rw [hempty.length]
      decide
    have hgrant := grant_new (c := ⟨0, client 0, burst⟩) (hnew.enabled hrate) hroom
      (hempty.find?_next (Nat.zero_le _)) hpaid
    rw [hgrant, hcharge]
  have hfilled : Filled rps.toNat burst.toNat maxBuckets
      (((RateLimiter.new rps burst).call ⟨0, client 0, burst⟩).1.afterCalls
        ((List.range' 1 (maxBuckets - 1)).map arrival)) := by
    have hone := hempty.call hrate hcap (by decide) burst
    have hcount : 1 + (maxBuckets - 1) = maxBuckets := by rw [maxBuckets]
    have hall := Filled.arrivals (n := 1) hrate hcap (maxBuckets - 1) hone hcount.le
    rwa [hcount] at hall
  have hlast := hfilled.lastGrant hrate hcap hcharge.le
  have hmiddle : ∀ c ∈ (List.range' 1 (maxBuckets - 1)).map arrival,
      ¬ (c.ip = client 0 ∧ (0 : ℚ) ≤ asSecsF64 c.now ∧ asSecsF64 c.now ≤ 0 + 60) := by
    intro c hc hcount
    obtain ⟨n, hn, rfl⟩ := List.mem_map.mp hc
    have hrange := List.mem_range'_1.mp hn
    exact client_ne (by omega : 0 < n) (by omega) hcount.1.symm
  have hminute : asSecsF64 minute = 60 := by
    rw [asSecsF64, minute]
    norm_num
  have hzero : asSecsF64 0 = 0 := by
    rw [asSecsF64, Nat.cast_zero, zero_div]
  have hother : ¬ client maxBuckets = client 0 := (client_ne (by decide) le_rfl).symm
  have hstarts : client 0 = client 0 ∧ (0 : ℚ) ≤ asSecsF64 0 ∧ asSecsF64 0 ≤ 0 + 60 := by
    rw [hzero]
    norm_num
  have hends : client 0 = client 0 ∧ (0 : ℚ) ≤ asSecsF64 minute ∧ asSecsF64 minute ≤ 0 + 60 := by
    rw [hminute]
    norm_num
  rw [RateLimiter.admitted, minuteRun, granted_append, granted, granted_eq_zero hmiddle,
    List.foldl_cons, if_pos hstarts, hfirst, granted, if_neg (fun h => hother h.1), granted,
    if_pos hends, granted]
  show (burst.toNat : ℚ) + 0 + (0 + ((((((RateLimiter.new rps burst).call
    ⟨0, client 0, burst⟩).1.afterCalls _).call _).1.call _).2 + 0)) = _
  rw [hlast, hcharge]
  ring

/-- The bound holds exactly if the burst is at most 60 seconds of refill. -/
theorem rate_bounded_iff (hrps : 1 ≤ rps) :
    RateBounded rps burst ↔ burst.toNat ≤ 60 * rps.toNat := by
  refine ⟨fun hbounded => ?_, rateBounded_of_le hrps⟩
  by_contra hover
  have hone : 1 ≤ rps.toNat := UInt64.le_iff_toNat_le.mp hrps
  have hburst : rps.toNat ≤ burst.toNat := by omega
  have hwindow := (hbounded (minuteRun burst) (minuteRun_ordered burst)).1 (client 0) 0 60
    (by norm_num)
  rw [admitted_minuteRun hrps hburst] at hwindow
  have hnat : 2 * burst.toNat ≤ max burst.toNat rps.toNat + rps.toNat * 60 := by
    exact_mod_cast hwindow
  omega

end Exceeded

/-- With one token a second and a burst of a hundred, the first client is
admitted 200 in a minute. -/
theorem rate_exceeded : (1 : UInt64) ≤ 1 ∧ ¬ RateBounded 1 100 := by
  refine ⟨by decide, fun hbounded => ?_⟩
  have hburst : UInt64.toNat 100 = 100 := rfl
  have hrps : UInt64.toNat 1 = 1 := rfl
  have hwindow := (hbounded (minuteRun 100) (minuteRun_ordered 100)).1 (client 0) 0 60
    (by norm_num)
  rw [admitted_minuteRun (by decide) (by decide), hburst, hrps] at hwindow
  norm_num at hwindow

/-- The defaults keep it. -/
theorem rate_bounded_defaults : (1 : UInt64) ≤ 50 ∧ RateBounded 50 500 :=
  ⟨by decide, (rate_bounded_iff (by decide)).mpr (by decide)⟩

end KoinosEvm.Proofs
