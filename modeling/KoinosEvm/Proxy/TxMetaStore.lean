/-
The metadata of relayed transactions (`TxMetaStore` of rpc/src/state.rs), and
its operations under a clock.

An `Instant` and the TTL are in one unit; the clock does not go back. The two
loops of `evict` are those of Lib/FifoCache.lean.
-/
import KoinosEvm.Lib.FifoCache
import KoinosEvm.Proxy.Db

namespace KoinosEvm.Proxy

open Lib

-- =============================================================== the store

/-- An entry of the map, under its hash. -/
structure MetaEntry where
  hash : B256
  txMeta : TxMeta
  inserted : Nat
  deriving DecidableEq

/-- `TxMetaStore`. `order` is as old as the entries are, its front first; it
may hold hashes that have been removed or inserted anew. -/
structure TxMetaStore where
  map : Table B256 MetaEntry MetaEntry.hash
  order : List (B256 × Nat)
  cap : Nat
  ttl : Nat

namespace TxMetaStore

/-- `new`. -/
def new (cap ttl : Nat) : TxMetaStore := ⟨.empty, [], max cap 1, ttl⟩

/-- `contains`. -/
def contains (store : TxMetaStore) (hash : B256) : Bool := (store.map.find? hash).isSome

/-- `get`. -/
def get (store : TxMetaStore) (hash : B256) : Option TxMeta :=
  (store.map.find? hash).map MetaEntry.txMeta

/-- `now.duration_since(inserted) >= self.ttl`. -/
def expired (store : TxMetaStore) (now inserted : Nat) : Bool := store.ttl ≤ now - inserted

/-- The first loop of `evict`: what has expired, from the front. -/
def evictExpired (store : TxMetaStore) (now : Nat) : TxMetaStore :=
  let left := FifoCache.sweep MetaEntry.inserted (store.expired now) store.map store.order
  { store with map := left.1, order := left.2 }

/-- .. the second: the oldest, down to the size. -/
def evictOldest (store : TxMetaStore) : TxMetaStore :=
  let left := FifoCache.trim MetaEntry.inserted store.cap store.map store.order
  { store with map := left.1, order := left.2 }

/-- `evict`. -/
def evict (store : TxMetaStore) (now : Nat) : TxMetaStore :=
  (store.evictExpired now).evictOldest

/-- The second loop reaches `None => break`. -/
def reachesBreak (store : TxMetaStore) : Bool :=
  FifoCache.runsDry MetaEntry.inserted store.cap store.map store.order

/-- `insert`, before it evicts. -/
def push (store : TxMetaStore) (now : Nat) (hash : B256) (txMeta : TxMeta) : TxMetaStore :=
  { store with
    map := store.map.upsert ⟨hash, txMeta, now⟩
      (fun entry => { entry with txMeta := txMeta, inserted := now }) fun _ => rfl
    order := store.order ++ [(hash, now)] }

/-- `insert`. -/
def insert (store : TxMetaStore) (now : Nat) (hash : B256) (txMeta : TxMeta) : TxMetaStore :=
  (store.push now hash txMeta).evict now

/-- `set_koinos_tx_id`. -/
def setKoinosTxId (store : TxMetaStore) (hash : B256) (koinosTxId : Bytes) : TxMetaStore :=
  { store with
    map := store.map.modify hash
      (fun entry => { entry with txMeta := { entry.txMeta with koinosTxId := koinosTxId } })
      fun _ => rfl }

/-- `remove`. -/
def remove (store : TxMetaStore) (hash : B256) : TxMetaStore :=
  { store with map := store.map.erase hash }

end TxMetaStore

-- =============================================================== the clock

/-- The store and the clock. -/
structure TimedMetas where
  now : Nat
  store : TxMetaStore

/-- What is done with the store. -/
inductive MetaAct where
  | tick (d : Nat)
  | insert (hash : B256) (txMeta : TxMeta)
  | setKoinosTxId (hash : B256) (koinosTxId : Bytes)
  | remove (hash : B256)

namespace TimedMetas

/-- A new store. -/
def start (cap ttl now : Nat) : TimedMetas := ⟨now, .new cap ttl⟩

/-- One act. -/
def step (s : TimedMetas) : MetaAct → Option TimedMetas
  | .tick d => some { s with now := s.now + d }
  | .insert hash txMeta => some { s with store := s.store.insert s.now hash txMeta }
  | .setKoinosTxId hash koinosTxId =>
      some { s with store := s.store.setKoinosTxId hash koinosTxId }
  | .remove hash => some { s with store := s.store.remove hash }

end TimedMetas

end KoinosEvm.Proxy
