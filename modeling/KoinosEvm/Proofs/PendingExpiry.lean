/-
How long a pending nonce lives.

An entry is read against the TTL, but an expired one stays in the map: only
an eviction, or a query that finds the chain ahead, takes it out. `advance`
does not look at its age. It keeps the larger of the two nonces and takes the
time anew, so a nonce that had expired is back as soon as its sender's next
transaction is below it. Nothing else brings one back
(`pending_in_chain_iff`).

A chain (`ChainNote.chain`) is what has been passed to `advance` for an
account since its entry was last absent or expired. Both last until the next
`advance` for it, which is where the note looks.
-/
import KoinosEvm.Lib.Schedule
import KoinosEvm.Proxy.PendingNonce

namespace KoinosEvm.Proofs

open Lib Proxy

-- ============================================================== the system

/-- The store and the clock. -/
structure TimedStore where
  now : Nat
  store : PendingNonceStore

/-- What is done with the store. `get_unexpired` changes nothing: the
property asks for it in every state. -/
inductive PendingAct where
  | tick (d : Nat)
  | advance (addr : Address) (next : UInt64)
  | remove (addr : Address)

namespace TimedStore

/-- A new store. -/
def start (cap ttl now : Nat) : TimedStore := ⟨now, .new cap ttl⟩

/-- One act. -/
def step (s : TimedStore) : PendingAct → Option TimedStore
  | .tick d => some { s with now := s.now + d }
  | .advance addr next => some { s with store := s.store.advance s.now addr next }
  | .remove addr => some { s with store := s.store.remove addr }

end TimedStore

-- ================================================================ the note

/-- What has been passed to `advance`. -/
structure ChainNote where
  /-- The nonces of the current chain of an account, the last one first. -/
  chain : Address → List UInt64
  /-- The time of the last one. -/
  last : Address → Nat

def ChainNote.empty : ChainNote := ⟨fun _ => [], fun _ => 0⟩

/-- There is no entry, or the last `advance` was the TTL ago. -/
def broken (x : ChainNote × TimedStore) (addr : Address) : Bool :=
  (x.2.store.map.find? addr).isNone || x.2.store.ttl ≤ x.2.now - x.1.last addr

/-- The note after an act. -/
def noteChain (note : ChainNote) (s : TimedStore) : PendingAct → ChainNote
  | .advance addr next =>
      { chain := Function.update note.chain addr
          (if broken (note, s) addr then [next] else next :: note.chain addr)
        last := Function.update note.last addr s.now }
  | .tick _ | .remove _ => note

-- ============================================================ the property

/-- What is reported of an account is the maximum of its current chain, if
there is one. -/
def PendingInChain (x : ChainNote × TimedStore) : Prop :=
  ∀ addr, x.2.store.getUnexpired x.2.now addr
    = if broken x addr then none else (x.1.chain addr).max?

/-- No entry that has expired is above what it is advanced to. With a TTL of
zero none is ever reported. -/
def NotRevived (x : ChainNote × TimedStore) : PendingAct → Prop
  | .advance addr next => 0 < x.2.store.ttl →
      ∀ entry, x.2.store.map.find? addr = some entry →
        x.2.store.ttl ≤ x.2.now - entry.since → entry.nonce ≤ next
  | .tick _ | .remove _ => True

-- =========================================================== the invariant

/-- Every entry is from the last `advance` for its account, and holds the
maximum of the chain. -/
def ChainInv (x : ChainNote × TimedStore) : Prop :=
  ∀ addr entry, x.2.store.map.find? addr = some entry →
    entry.since = x.1.last addr
      ∧ (0 < x.2.store.ttl → (x.1.chain addr).max? = some entry.nonce)

theorem chainInv_start (cap ttl now : Nat) : ChainInv (.empty, .start cap ttl now) := by
  intro addr entry h
  cases h

theorem ChainInv.pendingInChain {x : ChainNote × TimedStore} (h : ChainInv x) :
    PendingInChain x := by
  intro addr
  cases hfound : x.2.store.map.find? addr with
  | none => simp [PendingNonceStore.getUnexpired, broken, hfound]
  | some entry =>
      obtain ⟨hsince, hmax⟩ := h addr entry hfound
      simp only [PendingNonceStore.getUnexpired, broken, hfound, hsince, Option.isNone_some,
        Bool.false_or, decide_eq_true_eq]
      by_cases hexpired : x.2.store.ttl ≤ x.2.now - x.1.last addr
      · rw [if_pos hexpired, if_pos hexpired]
      · rw [if_neg hexpired, if_neg hexpired, hmax (by omega)]

section Step

variable {note : ChainNote} {s : TimedStore} {addr : Address} {next : UInt64}
  {entry : PendingEntry}

/-- The larger of two nonces, as `advance` takes it. -/
theorem max_u64_eq_ite (a b : UInt64) : max b a = if a < b then b else a := by
  show (if b ≤ a then a else b) = _
  by_cases hle : b ≤ a
  · rw [if_pos hle, if_neg (UInt64.not_lt.mpr hle)]
  · rw [if_neg hle, if_pos (UInt64.not_le.mp hle)]

theorem toNat_max_u64 (a b : UInt64) : (max a b).toNat = max a.toNat b.toNat := by
  rw [max_u64_eq_ite]
  split
  next hlt => exact (Nat.max_eq_left (UInt64.lt_iff_toNat_lt.mp hlt).le).symm
  next hge =>
    exact (Nat.max_eq_right (UInt64.le_iff_toNat_le.mp (UInt64.not_lt.mp hge))).symm

instance associative_max_u64 : Std.Associative (max : UInt64 → UInt64 → UInt64) where
  assoc a b c := by
    apply UInt64.toNat_inj.mp
    rw [toNat_max_u64, toNat_max_u64, toNat_max_u64, toNat_max_u64, Nat.max_assoc]

/-- An entry as old as the TTL breaks the chain. -/
theorem broken_of_some (hinv : ChainInv (note, s)) (h : s.store.map.find? addr = some entry) :
    broken (note, s) addr = decide (s.store.ttl ≤ s.now - entry.since) := by
  simp only [broken, h, (hinv addr entry h).1, Option.isNone_some, Bool.false_or]

/-- The maximum of the chain of the account that is advanced. -/
theorem max_chain_advance (hinv : ChainInv (note, s))
    (hnext : NotRevived (note, s) (.advance addr next)) (httl : 0 < s.store.ttl)
    (h : s.store.map.find? addr = some entry) :
    (if broken (note, s) addr then [next] else next :: note.chain addr).max?
      = some (if entry.nonce < next then next else entry.nonce) := by
  rw [broken_of_some hinv h]
  by_cases hexpired : s.store.ttl ≤ s.now - entry.since
  · have hle : entry.nonce ≤ next := hnext httl entry h hexpired
    rw [if_pos (decide_eq_true hexpired), List.max?_singleton]
    split
    next => rfl
    next hge => rw [UInt64.le_antisymm (UInt64.not_lt.mp hge) hle]
  · have hmax : (note.chain addr).max? = some entry.nonce := (hinv addr entry h).2 httl
    rw [if_neg (by simpa using hexpired), List.max?_cons, hmax, Option.elim_some, max_u64_eq_ite]

theorem chainInv_advance (hinv : ChainInv (note, s))
    (hnext : NotRevived (note, s) (.advance addr next)) :
    ChainInv (noteChain note s (.advance addr next),
      { s with store := s.store.advance s.now addr next }) := by
  intro other entry' hfound'
  simp only [PendingNonceStore.ttl_advance, noteChain] at hfound' ⊢
  by_cases heq : other = addr
  · subst heq
    rw [Function.update_self, Function.update_self]
    cases hfound : s.store.map.find? other with
    | none =>
        rw [PendingNonceStore.find?_advance_of_none hfound] at hfound'
        cases hfound'
        have hbroken : broken (note, s) other = true := by simp [broken, hfound]
        rw [if_pos hbroken]
        exact ⟨rfl, fun _ => List.max?_singleton⟩
    | some entry =>
        rw [PendingNonceStore.find?_advance_of_some hfound] at hfound'
        cases hfound'
        exact ⟨rfl, fun httl => max_chain_advance hinv hnext httl hfound⟩
  · rw [Function.update_of_ne heq, Function.update_of_ne heq]
    exact hinv other entry' (PendingNonceStore.find?_of_advance_ne heq hfound')

theorem chainInv_step {s' : TimedStore} {a : PendingAct} (hinv : ChainInv (note, s))
    (hstep : s.step a = some s') (hnext : NotRevived (note, s) a) :
    ChainInv (noteChain note s a, s') := by
  cases a with
  | tick d =>
      cases hstep
      exact hinv
  | advance addr next =>
      cases hstep
      exact chainInv_advance hinv hnext
  | remove addr =>
      cases hstep
      intro other entry hfound
      exact hinv other entry (PendingNonceStore.find?_of_remove hfound)

/-- A nonce that comes back is reported. -/
theorem notRevived_of_pendingInChain {s' : TimedStore} {a : PendingAct}
    (hinv : ChainInv (note, s)) (hstep : s.step a = some s')
    (hafter : PendingInChain (noteChain note s a, s')) : NotRevived (note, s) a := by
  cases a with
  | tick d => trivial
  | remove addr => trivial
  | advance addr next =>
      cases hstep
      intro httl entry hfound hexpired
      have hfound' : (s.store.advance s.now addr next).map.find? addr = some _ :=
        PendingNonceStore.find?_advance_of_some hfound
      have hreport := hafter addr
      have hchain : (noteChain note s (.advance addr next)).chain addr = [next] := by
        simp only [noteChain, Function.update_self, broken_of_some hinv hfound,
          decide_eq_true hexpired, if_true]
      simp only [PendingNonceStore.getUnexpired, broken, hchain, hfound',
        PendingNonceStore.ttl_advance, List.max?_singleton] at hreport
      simp only [noteChain, Function.update_self, Nat.sub_self, Option.isNone_some,
        Bool.false_or, decide_eq_true_eq, Nat.le_zero, httl.ne', if_false,
        Option.some.injEq] at hreport
      split at hreport
      next hlt => exact UInt64.le_of_lt hlt
      next => exact UInt64.le_of_eq hreport

end Step

-- ============================================================== every run

/-- What a store reports is the maximum of the current chain, in every state
of a schedule, exactly if no `advance` on it finds an expired entry above its
nonce. -/
theorem pending_in_chain_iff (cap ttl now : Nat) (acts : List PendingAct) :
    Always (watched TimedStore.step noteChain) (fun _ _ x => PendingInChain x)
        (.empty, .start cap ttl now) acts
      ↔ Always (watched TimedStore.step noteChain) (fun x a _ => NotRevived x a)
        (.empty, .start cap ttl now) acts := by
  have hiff : ∀ x a x', ChainInv x → watched TimedStore.step noteChain x a = some x' →
      (PendingInChain x' ↔ NotRevived x a) := by
    intro x a x' hinv hstep
    obtain ⟨s', hs', rfl⟩ := Option.map_eq_some_iff.mp hstep
    exact ⟨notRevived_of_pendingInChain hinv hs',
      fun hnext => (chainInv_step hinv hs' hnext).pendingInChain⟩
  refine always_iff ChainInv hiff ?_ (chainInv_start cap ttl now) acts
  intro x a x' hinv hstep hafter
  have hnext := (hiff x a x' hinv hstep).mp hafter
  obtain ⟨s', hs', rfl⟩ := Option.map_eq_some_iff.mp hstep
  exact chainInv_step hinv hs' hnext

/-- A nonce of ten expires after five seconds; one second later its sender's
next transaction, of nonce two, brings it back. -/
theorem pending_revived :
    ¬ ∀ (cap ttl now : Nat) (acts : List PendingAct),
      Always (watched TimedStore.step noteChain) (fun _ _ x => PendingInChain x)
        (.empty, .start cap ttl now) acts := by
  intro hall
  have hrun := (pending_in_chain_iff 1 5 0
    [.advance (FixedBytes.zero 20) 10, .tick 6, .advance (FixedBytes.zero 20) 3]).mp
      (hall 1 5 0 _)
  have hrevived : (10 : UInt64) ≤ 3 := hrun.2.2.1 (by decide) _ rfl (by decide)
  exact absurd hrevived (by decide)

end KoinosEvm.Proofs
