/-
The pending nonces (`PendingNonceStore` of rpc/src/state.rs) and the
requests that use them: `handle_get_tx_count` and the end of
`submit_reserved_tx` (rpc/src/rpc.rs), step by step.

An `Instant` and the TTL are in one unit; the clock does not go back. Of
entries that are equally old `evict` takes the first, the order of a
`HashMap` being open. A send is there from where its relay is accepted: what
comes before does not touch the store. `read_account` is one step, down to
the nonce it reads, which is whatever the chain has.
-/
import KoinosEvm.Basic
import KoinosEvm.Lib.Table
import Mathlib.Data.List.MinMax
import Mathlib.Logic.Function.Basic

namespace KoinosEvm.Proxy

open Lib

-- =============================================================== the store

/-- An entry of the store, under its sender. -/
structure PendingEntry where
  addr : Address
  nonce : UInt64
  since : Nat

/-- `PendingNonceStore`. -/
structure PendingNonceStore where
  map : Table Address PendingEntry PendingEntry.addr
  cap : Nat
  ttl : Nat

namespace PendingNonceStore

/-- `new`. -/
def new (cap ttl : Nat) : PendingNonceStore := ⟨.empty, max cap 1, ttl⟩

/-- `get_unexpired`. -/
def getUnexpired (store : PendingNonceStore) (now : Nat) (addr : Address) : Option UInt64 :=
  match store.map.find? addr with
  | none => none
  | some entry => if store.ttl ≤ now - entry.since then none else some entry.nonce

/-- `remove`. -/
def remove (store : PendingNonceStore) (addr : Address) : PendingNonceStore :=
  { store with map := store.map.erase addr }

/-- `evict`: what has expired, or else the oldest. -/
def evict (store : PendingNonceStore) (now : Nat) : PendingNonceStore :=
  let store := { store with map := store.map.retain fun entry => now - entry.since < store.ttl }
  if store.cap ≤ store.map.rows.length then
    match store.map.rows.argmin PendingEntry.since with
    | some oldest => store.remove oldest.addr
    | none => store
  else store

/-- `advance`. -/
def advance (store : PendingNonceStore) (now : Nat) (addr : Address) (next : UInt64) :
    PendingNonceStore :=
  match store.map.find? addr with
  | some _ =>
      { store with
        map := store.map.modify addr
          (fun entry =>
            { entry with
              nonce := if entry.nonce < next then next else entry.nonce
              since := now })
          fun _ => rfl }
  | none =>
      let store := if store.cap ≤ store.map.rows.length then store.evict now else store
      { store with
        map := store.map.upsert ⟨addr, next, now⟩
          (fun entry => { entry with nonce := next, since := now }) fun _ => rfl }

-- ------------------------------------------------ what the operations leave

section Entries

variable {store : PendingNonceStore} {addr other : Address} {now : Nat} {next : UInt64}
  {entry : PendingEntry}

theorem find?_of_remove (h : (store.remove addr).map.find? other = some entry) :
    store.map.find? other = some entry := Table.find?_of_retain h

theorem find?_of_evict (h : (store.evict now).map.find? addr = some entry) :
    store.map.find? addr = some entry := by
  simp only [evict] at h
  split at h
  · split at h
    · exact Table.find?_of_retain (find?_of_remove h)
    · exact Table.find?_of_retain h
  · exact Table.find?_of_retain h

@[simp] theorem ttl_evict (store : PendingNonceStore) (now : Nat) :
    (store.evict now).ttl = store.ttl := by
  simp only [evict]
  split
  · split
    · rfl
    · rfl
  · rfl

@[simp] theorem ttl_advance (store : PendingNonceStore) (now : Nat) (addr : Address)
    (next : UInt64) : (store.advance now addr next).ttl = store.ttl := by
  simp only [advance]
  split
  · rfl
  · split
    · exact ttl_evict store now
    · rfl

/-- An entry that is there is raised to `next` and refreshed. -/
theorem find?_advance_of_some (h : store.map.find? addr = some entry) :
    (store.advance now addr next).map.find? addr
      = some { entry with
          nonce := if entry.nonce < next then next else entry.nonce, since := now } := by
  simp only [advance, h]
  rw [Table.find?_modify_self, h]
  rfl

/-- Where there is none, one is made. -/
theorem find?_advance_of_none (h : store.map.find? addr = none) :
    (store.advance now addr next).map.find? addr = some ⟨addr, next, now⟩ := by
  have hevict : (store.evict now).map.find? addr = none := by
    cases hfound : (store.evict now).map.find? addr with
    | none => rfl
    | some entry => exact absurd ((find?_of_evict hfound).symm.trans h) (Option.some_ne_none entry)
  simp only [advance, h]
  rw [Table.find?_upsert_self _ rfl]
  split
  · rw [hevict]
    rfl
  · rw [h]
    rfl

/-- Another's entry is as it was, unless it was evicted. -/
theorem find?_of_advance_ne (hne : other ≠ addr)
    (h : (store.advance now addr next).map.find? other = some entry) :
    store.map.find? other = some entry := by
  simp only [advance] at h
  split at h
  · rwa [Table.find?_modify_of_ne _ hne] at h
  · rw [Table.find?_upsert_of_ne _ (Ne.symm hne)] at h
    split at h
    · exact find?_of_evict h
    · exact h

end Entries

end PendingNonceStore

-- ============================================================ the requests

/-- A transaction that has been relayed. -/
structure RelayedSend where
  sender : Address
  nonce : UInt64

/-- Where its request is. -/
inductive SendStage where
  /-- Accepted by the node. -/
  | relayed
  /-- .. with the pending nonce advanced. -/
  | advanced
  /-- .. and its hash returned. -/
  | returned
  deriving DecidableEq

/-- `eth_getTransactionCount`. -/
structure CountQuery where
  addr : Address
  pending : Bool

/-- Where it is. -/
inductive QueryStage where
  /-- Waiting for `read_account`. -/
  | asked
  /-- Waiting for the lock. -/
  | read (onChain : UInt64)
  | answered (count : UInt64)
  deriving DecidableEq

/-- `decoded.nonce.saturating_add(1)`. -/
def saturatingSucc (n : UInt64) : UInt64 := if n + 1 = 0 then n else n + 1

/-- `handle_get_tx_count` under the lock. -/
def countPending (store : PendingNonceStore) (now : Nat) (addr : Address) (onChain : UInt64) :
    UInt64 × PendingNonceStore :=
  match store.getUnexpired now addr with
  | some p => if onChain < p then (p, store) else (onChain, store.remove addr)
  | none => (onChain, store)

/-- What the requests share, and the requests. -/
structure CountState where
  now : Nat
  store : PendingNonceStore
  onChain : Address → UInt64
  sends : List (RelayedSend × SendStage)
  queries : List (CountQuery × QueryStage)

/-- The acts. -/
inductive CountAct where
  | tick (d : Nat)
  /-- The nonce of an account on chain, from now on. -/
  | chain (addr : Address) (nonce : UInt64)
  /-- The relay of a transaction is accepted. -/
  | relay (send : RelayedSend)
  /-- .. its task advances the pending nonce. -/
  | advance (i : Nat)
  /-- .. its hash is returned. -/
  | reply (i : Nat)
  | query (q : CountQuery)
  /-- A query reads the account. -/
  | read (j : Nat)
  /-- .. takes the lock and answers. -/
  | answer (j : Nat)

namespace CountState

/-- A proxy that has just started. -/
def start (cap ttl now : Nat) (onChain : Address → UInt64) : CountState :=
  ⟨now, .new cap ttl, onChain, [], []⟩

/-- One act. -/
def step (s : CountState) : CountAct → Option CountState
  | .tick d => some { s with now := s.now + d }
  | .chain addr nonce => some { s with onChain := Function.update s.onChain addr nonce }
  | .relay send => some { s with sends := s.sends ++ [(send, .relayed)] }
  | .advance i =>
      match s.sends[i]? with
      | some (send, .relayed) =>
          some { s with
            store := s.store.advance s.now send.sender (saturatingSucc send.nonce)
            sends := s.sends.set i (send, .advanced) }
      | _ => none
  | .reply i =>
      match s.sends[i]? with
      | some (send, .advanced) => some { s with sends := s.sends.set i (send, .returned) }
      | _ => none
  | .query q => some { s with queries := s.queries ++ [(q, .asked)] }
  | .read j =>
      match s.queries[j]? with
      | some (q, .asked) =>
          let onChain := s.onChain q.addr
          -- only "pending" looks at the relayed transactions
          let stage := if q.pending then .read onChain else .answered onChain
          some { s with queries := s.queries.set j (q, stage) }
      | _ => none
  | .answer j =>
      match s.queries[j]? with
      | some (q, .read onChain) =>
          let (count, store) := countPending s.store s.now q.addr onChain
          some { s with store := store, queries := s.queries.set j (q, .answered count) }
      | _ => none

end CountState

end KoinosEvm.Proxy
