/-
How long the queue of the metadata store gets.

What a remove leaves in the queue goes once it is at the front, so it stays
for as long as an older entry is there: with room for two, one that stays and
another that comes and goes make the queue as long as they like
(`order_unbounded`). Where no insert finds such an entry behind one that
stays, the queue is no longer than the map (`metas_bounded`).
-/
import KoinosEvm.Proofs.MetaEviction

namespace KoinosEvm.Proofs

open Lib Proxy

-- ============================================================ the property

/-- Neither the map nor the queue is over the bound. -/
def MetasWithin (bound : Nat) (s : TimedMetas) : Prop :=
  s.store.map.rows.length ≤ bound ∧ s.store.order.length ≤ bound

/-- No entry of the queue that is not live, with the new one in it, stands
behind one that is and has not expired; nor is the new one there already. -/
def NoneTrapped (s : TimedMetas) : MetaAct → Prop
  | .insert hash txMeta =>
      (hash, s.now) ∉ s.store.order
      ∧ (s.store.push s.now hash txMeta).order.Pairwise fun e e' =>
        FifoCache.live MetaEntry.inserted (s.store.push s.now hash txMeta).map e = true →
        s.store.expired s.now e.2 = false →
        FifoCache.live MetaEntry.inserted (s.store.push s.now hash txMeta).map e' = true
  | .tick _ | .setKoinosTxId .. | .remove _ => True

-- ========================================================== bounded queues

/-- The invariant of a run whose inserts find no entry trapped. -/
structure QueueInv (cap ttl : Nat) (s : TimedMetas) : Prop where
  inv : MetaInv cap ttl s.store
  nodup : s.store.order.Nodup
  within : MetasWithin (max cap 1) s

section Insert

variable {cap ttl now : Nat} {store : TxMetaStore} {hash : B256} {txMeta : TxMeta}

theorem nodup_push (hnodup : store.order.Nodup) (hnew : (hash, now) ∉ store.order)
    (txMeta : TxMeta) :
    (store.push now hash txMeta).order.Nodup := by
  refine List.nodup_append.mpr ⟨hnodup, List.nodup_singleton _, ?_⟩
  rintro e he e' he' rfl
  rw [List.mem_singleton.mp he'] at he
  exact hnew he

/-- All entries that the first loop leaves are live. -/
theorem live_evictExpired (h : MetaInv cap ttl (store.push now hash txMeta))
    (hnodup : (store.push now hash txMeta).order.Nodup)
    (hfree : (store.push now hash txMeta).order.Pairwise fun e e' =>
      FifoCache.live MetaEntry.inserted (store.push now hash txMeta).map e = true →
      store.expired now e.2 = false →
      FifoCache.live MetaEntry.inserted (store.push now hash txMeta).map e' = true) :
    ∀ e ∈ ((store.push now hash txMeta).evictExpired now).order,
      FifoCache.live MetaEntry.inserted ((store.push now hash txMeta).evictExpired now).map e
        = true := by
  have hevicts := FifoCache.evicts_sweep (store.expired now) h.covered
  obtain ⟨p, hp, -⟩ := hevicts.popped
  refine hevicts.live hnodup fun e he => ?_
  cases hleft : (FifoCache.sweep MetaEntry.inserted (store.expired now)
      (store.push now hash txMeta).map (store.push now hash txMeta).order).2 with
  | nil =>
      rw [hleft] at he
      cases he
  | cons front rest =>
      have hfront := FifoCache.front_sweep (e := front) (by rw [hleft]; rfl)
      obtain ⟨r, hr, hentry⟩ := FifoCache.live_iff.mp hfront.1
      have hlive : FifoCache.live MetaEntry.inserted (store.push now hash txMeta).map front
          = true := FifoCache.live_iff.mpr ⟨r, hevicts.sub r hr, hentry⟩
      rw [hleft] at he hp
      rw [hp] at hfree
      rcases List.mem_cons.mp he with rfl | hrest
      · exact hlive
      · exact (List.pairwise_cons.mp (List.pairwise_append.mp hfree).2.1).1 e hrest hlive
          hfront.2

theorem queue_insert (h : MetaInv cap ttl store) (hnodup : store.order.Nodup)
    (hfree : NoneTrapped ⟨now, store⟩ (.insert hash txMeta)) :
    (store.insert now hash txMeta).order.Nodup
      ∧ (store.insert now hash txMeta).order.length
        ≤ (store.insert now hash txMeta).map.rows.length := by
  have hpush := h.push now hash txMeta
  have hpushed := nodup_push hnodup hfree.1 txMeta
  have hlive := live_evictExpired hpush hpushed hfree.2
  have htrim := FifoCache.evicts_trim store.cap (hpush.evictExpired now).covered
  obtain ⟨p, hp, -⟩ := (FifoCache.evicts_sweep (store.expired now) hpush.covered).popped
  have hmid : ((store.push now hash txMeta).evictExpired now).order.Nodup := by
    rw [hp] at hpushed
    exact (List.nodup_append.mp hpushed).2.1
  obtain ⟨p', hp', -⟩ := htrim.popped
  have hlast : (store.insert now hash txMeta).order.Nodup := by
    rw [hp'] at hmid
    exact (List.nodup_append.mp hmid).2.1
  refine ⟨hlast, FifoCache.length_le_of_live hlast (htrim.live hmid fun e he => hlive e ?_)⟩
  rw [hp']
  exact List.mem_append_right _ he

end Insert

theorem queueInv_step {cap ttl : Nat} {s s' : TimedMetas} {a : MetaAct}
    (h : QueueInv cap ttl s) (hstep : s.step a = some s') (hfree : NoneTrapped s a) :
    QueueInv cap ttl s' := by
  cases a with
  | tick d =>
      cases hstep
      exact ⟨h.inv, h.nodup, h.within⟩
  | setKoinosTxId hash id =>
      cases hstep
      refine ⟨h.inv.setKoinosTxId hash id, h.nodup, ?_, h.within.2⟩
      show (List.map _ s.store.map.rows).length ≤ _
      rw [List.length_map]
      exact h.within.1
  | remove hash =>
      cases hstep
      exact ⟨h.inv.remove hash, h.nodup, (List.length_filter_le _ _).trans h.within.1,
        h.within.2⟩
  | insert hash txMeta =>
      cases hstep
      have hmap := length_insert_le h.inv s.now hash txMeta
      obtain ⟨hnodup, hle⟩ := queue_insert h.inv h.nodup hfree
      exact ⟨h.inv.insert s.now hash txMeta, hnodup, hmap, hle.trans hmap⟩

/-- In every run whose inserts find no entry trapped, the map and the queue
stay within the capacity. -/
theorem metas_bounded (cap ttl now : Nat) (acts : List MetaAct)
    (hfree : Always TimedMetas.step (fun s a _ => NoneTrapped s a) (.start cap ttl now) acts) :
    MetasWithin (max cap 1) (afterAll TimedMetas.step (.start cap ttl now) acts) := by
  have hstart : QueueInv cap ttl (.start cap ttl now) :=
    ⟨metaInv_new cap ttl, List.nodup_nil, Nat.zero_le _, Nat.zero_le _⟩
  refine (inv_afterAll (QueueInv cap ttl) ?_ hstart acts hfree).within
  intro s a s' h hstep hfree
  exact queueInv_step h hstep hfree

instance (s : TimedMetas) (a : MetaAct) : Decidable (NoneTrapped s a) :=
  match a with
  | .insert .. => inferInstanceAs (Decidable (_ ∧ _))
  | .tick _ | .setKoinosTxId .. | .remove _ => .isTrue trivial

/-- The `n`th of some hashes. -/
def churnHash (n : UInt8) : B256 := ⟨List.replicate 32 n, List.length_replicate⟩

/-- Room for two. The first entry expires, a fourth comes when there are two, one
is removed and comes back, another is inserted anew while it is there. -/
def churn : List MetaAct :=
  [.insert (churnHash 0) sampleMeta, .tick 6,
   .insert (churnHash 1) sampleMeta, .tick 1, .insert (churnHash 2) sampleMeta, .tick 1,
   .insert (churnHash 3) sampleMeta, .setKoinosTxId (churnHash 3) [1], .remove (churnHash 2),
   .tick 1, .insert (churnHash 2) sampleMeta, .tick 1, .insert (churnHash 3) sampleMeta]

/-- Both are full in the end, and no fuller. -/
theorem metas_bounded_churn :
    MetasWithin 2 (afterAll TimedMetas.step (.start 2 5 0) churn)
      ∧ (afterAll TimedMetas.step (.start 2 5 0) churn).store.map.rows.map MetaEntry.hash
        = [churnHash 3, churnHash 2]
      ∧ (afterAll TimedMetas.step (.start 2 5 0) churn).store.order
        = [(churnHash 2, 9), (churnHash 3, 10)] := by
  refine ⟨metas_bounded 2 5 0 churn ?_, by decide, by decide⟩
  exact ⟨by decide, trivial, by decide, trivial, by decide, trivial, by decide, trivial, trivial,
    trivial, by decide, trivial, by decide, trivial⟩

-- ======================================================== a queue that grows

/-- A hash that stays. -/
def resident : B256 := FixedBytes.zero 32

theorem length_transient : (List.replicate 32 (1 : UInt8)).length = 32 := List.length_replicate

/-- A hash that comes and goes. -/
def transient : B256 := ⟨List.replicate 32 1, length_transient⟩

/-- It comes and goes once. -/
def comeAndGo : List MetaAct := [.tick 1, .insert transient sampleMeta, .remove transient]

/-- The one entry is at the front, behind it are `n` that are not live. -/
structure Stuck (cap ttl n : Nat) (s : TimedMetas) : Prop where
  now_eq : s.now = n
  cap_eq : s.store.cap = cap
  ttl_eq : s.store.ttl = ttl
  rows : s.store.map.rows = [⟨resident, sampleMeta, 0⟩]
  order : ∃ q, s.store.order = (resident, 0) :: q ∧ q.length = n

/-- An insert behind an entry that stays, with room for both, evicts
nothing. -/
theorem insert_behind {store : TxMetaStore} {now : Nat} {hash : B256} {txMeta : TxMeta}
    {e : B256 × Nat} {q : List (B256 × Nat)}
    (horder : (store.push now hash txMeta).order = e :: q)
    (hlive : FifoCache.live MetaEntry.inserted (store.push now hash txMeta).map e = true)
    (hfresh : (store.push now hash txMeta).expired now e.2 = false)
    (hroom : (store.push now hash txMeta).map.rows.length ≤ store.cap) :
    store.insert now hash txMeta = store.push now hash txMeta := by
  have hcap : store.cap = (store.push now hash txMeta).cap := rfl
  rw [hcap] at hroom
  rw [TxMetaStore.insert, TxMetaStore.evict]
  generalize store.push now hash txMeta = pushed at *
  have hexpired : pushed.evictExpired now = pushed := by
    rw [TxMetaStore.evictExpired, horder, FifoCache.sweep_of_front hlive hfresh, ← horder]
  have holdest : pushed.evictOldest = pushed := by
    rw [TxMetaStore.evictOldest, FifoCache.trim_of_le hroom]
  rw [hexpired, holdest]

theorem stuck_comeAndGo {cap ttl n : Nat} {s : TimedMetas} (hcap : 2 ≤ cap) (hn : n + 1 < ttl)
    (h : Stuck cap ttl n s) :
    Stuck cap ttl (n + 1) (afterAll TimedMetas.step s comeAndGo) := by
  obtain ⟨q, horder, hlength⟩ := h.order
  have hrows : (s.store.push (s.now + 1) transient sampleMeta).map.rows
      = [⟨resident, sampleMeta, 0⟩, ⟨transient, sampleMeta, s.now + 1⟩] := by
    have hnone : s.store.map.find? transient = none := by
      rw [Table.find?, h.rows]
      decide
    show (Table.upsert ..).rows = _
    rw [Table.rows_upsert_of_none hnone, h.rows]
    rfl
  have hlive : FifoCache.live MetaEntry.inserted
      (s.store.push (s.now + 1) transient sampleMeta).map (resident, 0) = true :=
    FifoCache.live_iff.mpr ⟨⟨resident, sampleMeta, 0⟩, by rw [hrows]; exact List.mem_cons_self, rfl⟩
  have hfresh : s.store.expired (s.now + 1) 0 = false := by
    rw [TxMetaStore.expired, h.ttl_eq, h.now_eq]
    exact decide_eq_false (by omega)
  have hroom : (s.store.push (s.now + 1) transient sampleMeta).map.rows.length ≤ s.store.cap := by
    rw [hrows, h.cap_eq]
    exact hcap
  have hpushed : (s.store.push (s.now + 1) transient sampleMeta).order
      = (resident, 0) :: (q ++ [(transient, s.now + 1)]) := by
    show s.store.order ++ _ = _
    rw [horder, List.cons_append]
  have hinsert := insert_behind hpushed hlive hfresh hroom
  have hafter : afterAll TimedMetas.step s comeAndGo
      = ⟨s.now + 1, (s.store.push (s.now + 1) transient sampleMeta).remove transient⟩ := by
    rw [← hinsert]
    rfl
  rw [hafter]
  refine ⟨congrArg (· + 1) h.now_eq, h.cap_eq, h.ttl_eq, ?_, q ++ [(transient, s.now + 1)], hpushed,
    ?_⟩
  · show (List.filter _ _) = _
    rw [hrows]
    rfl
  · rw [List.length_append, hlength, List.length_singleton]

/-- It comes and goes `n` times. -/
theorem stuck_repeated {cap ttl : Nat} {s : TimedMetas} (hcap : 2 ≤ cap) (n : Nat) :
    ∀ k, k + n < ttl → Stuck cap ttl k s →
      Stuck cap ttl (k + n) (afterAll TimedMetas.step s (List.replicate n comeAndGo).flatten) := by
  induction n generalizing s with
  | zero => exact fun k _ h => h
  | succ n ih =>
      intro k hk h
      have hround := stuck_comeAndGo hcap (by omega) h
      rw [List.replicate_succ, List.flatten_cons, afterAll, List.foldl_append]
      have hrest := ih (k + 1) (by omega) hround
      rwa [Nat.add_right_comm, Nat.add_assoc] at hrest

/-- With room for two entries, the queue gets longer than any bound. -/
theorem order_unbounded_of_two {cap : Nat} (hcap : 2 ≤ cap) (bound : Nat) :
    ∃ ttl acts, ¬ MetasWithin bound (afterAll TimedMetas.step (.start cap ttl 0) acts) := by
  have hstart : Stuck cap (bound + 1) 0
      (afterAll TimedMetas.step (.start cap (bound + 1) 0) [.insert resident sampleMeta]) := by
    have hinsert : (TxMetaStore.new cap (bound + 1)).insert 0 resident sampleMeta
        = (TxMetaStore.new cap (bound + 1)).push 0 resident sampleMeta := by
      refine insert_behind (e := (resident, 0)) rfl ?_ ?_ ?_
      · exact FifoCache.live_iff.mpr ⟨_, mem_push _ 0 resident sampleMeta, rfl⟩
      · exact decide_eq_false (by show ¬ bound + 1 ≤ 0; omega)
      · exact Nat.le_max_right cap 1
    show Stuck cap (bound + 1) 0 ⟨0, (TxMetaStore.new cap (bound + 1)).insert 0 resident sampleMeta⟩
    rw [hinsert]
    exact ⟨rfl, Nat.max_eq_left (by omega), rfl, rfl, [], rfl, rfl⟩
  refine ⟨bound + 1, [.insert resident sampleMeta] ++ (List.replicate bound comeAndGo).flatten, ?_⟩
  intro hwithin
  rw [afterAll, List.foldl_append] at hwithin
  obtain ⟨q, horder, hlength⟩ := (stuck_repeated hcap bound 0 (by omega) hstart).order
  have hle := hwithin.2
  rw [← afterAll, ← afterAll, horder, List.length_cons, hlength] at hle
  omega

/-- No bound on the queue depends only on the capacity. -/
theorem order_unbounded :
    ¬ ∀ cap, ∃ bound, ∀ ttl now acts,
      MetasWithin bound (afterAll TimedMetas.step (.start cap ttl now) acts) := by
  intro hall
  obtain ⟨bound, hbound⟩ := hall 2
  obtain ⟨ttl, acts, hover⟩ := order_unbounded_of_two (Nat.le_refl 2) bound
  exact hover (hbound ttl 0 acts)

end KoinosEvm.Proofs
