/-
What an insert evicts from the metadata of relayed transactions.

Every entry of the map has its entry in the queue, whatever is done
(`MetaInv`): so the second loop never runs out of them. As long as every
insertion is later than the one before, the queue is in the order of the
times (`OrderedMetas`), no two of its entries are the same, and what is
evicted is what has expired and then the oldest, down to the capacity
(`evicts_right`).
-/
import KoinosEvm.Lib.Schedule
import KoinosEvm.Proofs.Store
import KoinosEvm.Proxy.TxMetaStore

namespace KoinosEvm.Proofs

open Lib Proxy

-- ============================================================ the property

/-- What one insert leaves of the store. `pushed` is the store with the new
entry, before anything is evicted. -/
structure EvictsRight (cap ttl now : Nat) (pushed store : TxMetaStore) (hash : B256)
    (txMeta : TxMeta) : Prop where
  bounded : store.map.rows.length ≤ cap
  holds : store.map.find? hash = some ⟨hash, txMeta, now⟩
  fresh : ∀ r ∈ store.map.rows, now - r.inserted < ttl
  kept : ∀ r ∈ store.map.rows, r ∈ pushed.map.rows
  /-- What has not expired and is evicted is older than what is kept .. -/
  oldest : ∀ r ∈ pushed.map.rows, r ∉ store.map.rows → now - r.inserted < ttl →
    ∀ r' ∈ store.map.rows, r.inserted < r'.inserted
  /-- .. and goes only where the map would be over the capacity without. -/
  needed : ∀ r ∈ pushed.map.rows, r ∉ store.map.rows → now - r.inserted < ttl →
    store.map.rows.length = cap
  unreached : (pushed.evictExpired now).reachesBreak = false

/-- Every insert evicts what it should. -/
def InsertsRight (cap ttl : Nat) (s : TimedMetas) : MetaAct → TimedMetas → Prop
  | .insert hash txMeta, s' =>
      EvictsRight cap ttl s.now (s.store.push s.now hash txMeta) s'.store hash txMeta
  | .tick _, _ | .setKoinosTxId .., _ | .remove _, _ => True

/-- The time of the last insertion. -/
def noteInsert (last : Option Nat) (s : TimedMetas) : MetaAct → Option Nat
  | .insert .. => some s.now
  | .tick _ | .setKoinosTxId .. | .remove _ => last

/-- Every insertion is later than the one before. -/
def InsertedLater (x : Option Nat × TimedMetas) : MetaAct → Prop
  | .insert .. => ∀ t, x.1 = some t → t < x.2.now
  | .tick _ | .setKoinosTxId .. | .remove _ => True

-- =========================================================== the invariant

/-- What holds of the store at all times. -/
structure MetaInv (cap ttl : Nat) (store : TxMetaStore) : Prop where
  cap_eq : store.cap = max cap 1
  ttl_eq : store.ttl = ttl
  covered : FifoCache.Covered MetaEntry.inserted store.map store.order

theorem metaInv_new (cap ttl : Nat) : MetaInv cap ttl (.new cap ttl) :=
  ⟨rfl, rfl, fun _ hr => by cases hr⟩

section Store

variable {cap ttl now : Nat} {store : TxMetaStore} {hash : B256} {txMeta : TxMeta}

theorem MetaInv.push (h : MetaInv cap ttl store) (now : Nat) (hash : B256) (txMeta : TxMeta) :
    MetaInv cap ttl (store.push now hash txMeta) where
  cap_eq := h.cap_eq
  ttl_eq := h.ttl_eq
  covered := by
    intro r hr
    rcases Table.mem_upsert hr with ⟨hr, -⟩ | rfl | ⟨r₀, -, heq, rfl⟩
    · exact List.mem_append_left _ (h.covered r hr)
    · exact List.mem_append_right _ (List.mem_singleton_self _)
    · refine List.mem_append_right _ (List.mem_singleton.mpr ?_)
      exact congrArg (·, now) heq

theorem MetaInv.evictExpired (h : MetaInv cap ttl store) (now : Nat) :
    MetaInv cap ttl (store.evictExpired now) :=
  ⟨h.cap_eq, h.ttl_eq, (FifoCache.evicts_sweep _ h.covered).covered⟩

theorem MetaInv.evictOldest (h : MetaInv cap ttl store) : MetaInv cap ttl store.evictOldest :=
  ⟨h.cap_eq, h.ttl_eq, (FifoCache.evicts_trim _ h.covered).covered⟩

theorem MetaInv.insert (h : MetaInv cap ttl store) (now : Nat) (hash : B256) (txMeta : TxMeta) :
    MetaInv cap ttl (store.insert now hash txMeta) :=
  ((h.push now hash txMeta).evictExpired now).evictOldest

theorem MetaInv.setKoinosTxId (h : MetaInv cap ttl store) (hash : B256) (id : Bytes) :
    MetaInv cap ttl (store.setKoinosTxId hash id) where
  cap_eq := h.cap_eq
  ttl_eq := h.ttl_eq
  covered := by
    intro r hr
    obtain ⟨r₀, hr₀, rfl⟩ := List.mem_map.mp hr
    split
    · exact h.covered r₀ hr₀
    · exact h.covered r₀ hr₀

theorem MetaInv.remove (h : MetaInv cap ttl store) (hash : B256) :
    MetaInv cap ttl (store.remove hash) where
  cap_eq := h.cap_eq
  ttl_eq := h.ttl_eq
  covered := fun r hr => h.covered r (Table.mem_erase.mp hr).1

/-- The map and the queue of a store with a new entry, and of what is left of
it. -/
theorem evicts_insert (h : MetaInv cap ttl store) (now : Nat) (hash : B256) (txMeta : TxMeta) :
    FifoCache.Evicts MetaEntry.inserted (store.push now hash txMeta).map
      (store.push now hash txMeta).order (store.insert now hash txMeta).map
      (store.insert now hash txMeta).order :=
  (FifoCache.evicts_sweep _ (h.push now hash txMeta).covered).trans
    (FifoCache.evicts_trim _ ((h.push now hash txMeta).evictExpired now).covered)

/-- The capacity holds whatever the times are. -/
theorem length_insert_le (h : MetaInv cap ttl store) (now : Nat) (hash : B256)
    (txMeta : TxMeta) :
    (store.insert now hash txMeta).map.rows.length ≤ max cap 1 :=
  (FifoCache.length_trim_le ((h.push now hash txMeta).evictExpired now).covered).trans
    (Nat.le_of_eq h.cap_eq)

theorem mem_push (store : TxMetaStore) (now : Nat) (hash : B256) (txMeta : TxMeta) :
    ⟨hash, txMeta, now⟩ ∈ (store.push now hash txMeta).map.rows := by
  have hfound : (store.push now hash txMeta).map.find? hash = some ⟨hash, txMeta, now⟩ := by
    show Table.find? (Table.upsert ..) hash = _
    rw [Table.find?_upsert_self _ rfl]
    cases hold : store.map.find? hash with
    | none => rfl
    | some r =>
        have hkey : r.hash = hash := Table.find?_key hold
        subst hkey
        rfl
  exact Table.find?_mem hfound

-- ============================================================== one insert

/-- The queue is in the order of the times, all of them before `now`. -/
def OrderedMetas (store : TxMetaStore) (now : Nat) : Prop :=
  store.order.Pairwise (fun e e' => e.2 < e'.2) ∧ ∀ e ∈ store.order, e.2 < now

theorem ordered_push (h : OrderedMetas store now) (hash : B256) (txMeta : TxMeta) :
    (store.push now hash txMeta).order.Pairwise fun e e' => e.2 < e'.2 := by
  refine List.pairwise_append.mpr ⟨h.1, List.pairwise_singleton _ _, ?_⟩
  intro e he e' he'
  rw [List.mem_singleton.mp he']
  exact h.2 e he

theorem ordered_insert (h : MetaInv cap ttl store) (hsorted : OrderedMetas store now) :
    (store.insert now hash txMeta).order.Pairwise fun e e' => e.2 < e'.2 := by
  obtain ⟨p, hp, -⟩ := (evicts_insert h now hash txMeta).popped
  have hpush := ordered_push hsorted hash txMeta
  rw [hp] at hpush
  exact (List.pairwise_append.mp hpush).2.1

theorem insert_le_now (h : MetaInv cap ttl store) (hsorted : OrderedMetas store now) :
    ∀ e ∈ (store.insert now hash txMeta).order, e.2 ≤ now := by
  intro e he
  obtain ⟨p, hp, -⟩ := (evicts_insert h now hash txMeta).popped
  have hmem : e ∈ (store.push now hash txMeta).order := by
    rw [hp]
    exact List.mem_append_right _ he
  rcases List.mem_append.mp hmem with hold | hnew
  · exact Nat.le_of_lt (hsorted.2 e hold)
  · rw [List.mem_singleton.mp hnew]

theorem evictsRight_insert (hcap : 1 ≤ cap) (httl : 0 < ttl) (h : MetaInv cap ttl store)
    (hsorted : OrderedMetas store now) :
    EvictsRight cap ttl now (store.push now hash txMeta) (store.insert now hash txMeta) hash
      txMeta := by
  have hpush := h.push now hash txMeta
  have hmid := hpush.evictExpired now
  have hevicts := evicts_insert h now hash txMeta
  have htrim := FifoCache.evicts_trim store.cap hmid.covered
  have hpushed := ordered_push hsorted hash txMeta
  have hcapEq : store.cap = cap := h.cap_eq.trans (Nat.max_eq_left hcap)
  have hexpired : ∀ r : MetaEntry,
      now - r.inserted < ttl ↔ store.expired now r.inserted = false := by
    intro r
    rw [TxMetaStore.expired, h.ttl_eq, decide_eq_false_iff_not, Nat.not_le]
  -- what has not expired is left by the first loop
  have hswept : ∀ r ∈ (store.push now hash txMeta).map.rows, now - r.inserted < ttl →
      r ∈ ((store.push now hash txMeta).evictExpired now).map.rows := by
    intro r hr hfresh
    by_contra hout
    have hgone := FifoCache.expired_of_swept hpush.covered hr hout
    exact Bool.noConfusion (hgone.symm.trans ((hexpired r).mp hfresh))
  have hneeded : ∀ r ∈ (store.push now hash txMeta).map.rows,
      r ∉ (store.insert now hash txMeta).map.rows → now - r.inserted < ttl →
        (store.insert now hash txMeta).map.rows.length = cap := by
    intro r hr hout hfresh
    rw [← hcapEq]
    refine FifoCache.length_trim hmid.covered (Nat.le_of_not_le fun hle => hout ?_)
    have hsame : (store.insert now hash txMeta).map
        = ((store.push now hash txMeta).evictExpired now).map :=
      congrArg Prod.fst (FifoCache.trim_of_le hle)
    rw [hsame]
    exact hswept r hr hfresh
  refine
    { bounded := (length_insert_le h now hash txMeta).trans (Nat.le_of_eq (Nat.max_eq_left hcap))
      holds := ?holds
      fresh := ?fresh
      kept := hevicts.sub
      oldest := fun r hr hout _ r' hr' => hevicts.older hpushed hr hout hr'
      needed := hneeded
      unreached := FifoCache.not_runsDry hmid.covered }
  case fresh =>
    intro r hr
    refine (hexpired r).mpr ?_
    refine FifoCache.not_expired_of_kept hpush.covered hpushed ?_ (htrim.sub r hr)
    intro a b hab hb
    rw [TxMetaStore.expired, decide_eq_true_iff] at hb ⊢
    omega
  case holds =>
    have hnew := mem_push store now hash txMeta
    suffices hin : ⟨hash, txMeta, now⟩ ∈ (store.insert now hash txMeta).map.rows from
      Table.find?_of_mem hin
    by_contra hout
    -- the store is at its capacity with entries that are no newer
    have hfull := hneeded _ hnew hout (by show now - now < ttl; omega)
    have hne : (store.insert now hash txMeta).map.rows ≠ [] := by
      intro hnil
      rw [hnil, List.length_nil] at hfull
      omega
    obtain ⟨r, hr⟩ := List.exists_mem_of_ne_nil _ hne
    have holder := hevicts.older hpushed hnew hout hr
    have hle := insert_le_now h hsorted _ (hevicts.covered r hr)
    exact absurd holder (Nat.not_lt.mpr hle)

end Store

-- ============================================================== every run

/-- The invariant of a run whose insertions are each later than the one
before. -/
structure MetaRunInv (cap ttl : Nat) (x : Option Nat × TimedMetas) : Prop where
  inv : MetaInv cap ttl x.2.store
  sorted : x.2.store.order.Pairwise fun e e' => e.2 < e'.2
  last : ∀ e ∈ x.2.store.order, ∃ t, x.1 = some t ∧ e.2 ≤ t

theorem MetaRunInv.ordered {cap ttl : Nat} {x : Option Nat × TimedMetas}
    (h : MetaRunInv cap ttl x) (hlater : ∀ t, x.1 = some t → t < x.2.now) :
    OrderedMetas x.2.store x.2.now := by
  refine ⟨h.sorted, fun e he => ?_⟩
  obtain ⟨t, ht, hle⟩ := h.last e he
  exact Nat.lt_of_le_of_lt hle (hlater t ht)

theorem metaRun_step {cap ttl : Nat} (hcap : 1 ≤ cap) (httl : 0 < ttl) {last : Option Nat}
    {s s' : TimedMetas} {a : MetaAct} (h : MetaRunInv cap ttl (last, s))
    (hstep : s.step a = some s') (hlater : InsertedLater (last, s) a) :
    MetaRunInv cap ttl (noteInsert last s a, s') ∧ InsertsRight cap ttl s a s' := by
  cases a with
  | tick d =>
      cases hstep
      exact ⟨⟨h.inv, h.sorted, h.last⟩, trivial⟩
  | setKoinosTxId hash id =>
      cases hstep
      exact ⟨⟨h.inv.setKoinosTxId hash id, h.sorted, h.last⟩, trivial⟩
  | remove hash =>
      cases hstep
      exact ⟨⟨h.inv.remove hash, h.sorted, h.last⟩, trivial⟩
  | insert hash txMeta =>
      cases hstep
      have hsorted := h.ordered hlater
      refine ⟨⟨h.inv.insert s.now hash txMeta, ordered_insert h.inv hsorted, ?_⟩,
        evictsRight_insert hcap httl h.inv hsorted⟩
      exact fun e he => ⟨s.now, rfl, insert_le_now h.inv hsorted e he⟩

/-- In every run whose insertions are each later than the one before, every
insert evicts exactly the right entries. -/
theorem evicts_right (cap ttl now : Nat) (hcap : 1 ≤ cap) (httl : 0 < ttl) (acts : List MetaAct)
    (hlater : Always (watched TimedMetas.step noteInsert) (fun x a _ => InsertedLater x a)
      (none, .start cap ttl now) acts) :
    Always (watched TimedMetas.step noteInsert) (fun x a x' => InsertsRight cap ttl x.2 a x'.2)
      (none, .start cap ttl now) acts := by
  refine always_imp (MetaRunInv cap ttl) ?_ ?_ acts hlater
  · intro x a x' h hstep hlater
    obtain ⟨s', hs', rfl⟩ := Option.map_eq_some_iff.mp hstep
    exact metaRun_step hcap httl h hs' hlater
  · exact ⟨metaInv_new cap ttl, List.Pairwise.nil, fun _ he => by cases he⟩

/-- Two entries, the capacity one: the second is left. -/
theorem evicts_right_pair :
    Always (watched TimedMetas.step noteInsert) (fun x a x' => InsertsRight 1 5 x.2 a x'.2)
        (none, .start 1 5 0)
        [.insert (FixedBytes.zero 32) sampleMeta, .tick 1,
          .insert ⟨List.replicate 32 1, rfl⟩ sampleMeta]
      ∧ (afterAll TimedMetas.step (.start 1 5 0)
        [.insert (FixedBytes.zero 32) sampleMeta, .tick 1,
          .insert ⟨List.replicate 32 1, rfl⟩ sampleMeta]).store.map.rows
        = [⟨⟨List.replicate 32 1, rfl⟩, sampleMeta, 1⟩] := by
  refine ⟨evicts_right 1 5 0 (by decide) (by decide) _ ⟨fun t ht => ?_, trivial, fun t ht => ?_,
    trivial⟩, by decide⟩
  · cases ht
  · cases ht
    decide

end KoinosEvm.Proofs
