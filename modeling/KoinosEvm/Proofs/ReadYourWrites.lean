/-
What a pending count has to say of the transactions told before it.

A transaction that has been relayed is in the pending nonce of its sender, or
the chain has been read past it (`level`): the entry is only taken away by a
query that has read as much. But a query that has read before that one, and
takes the lock behind it, finds neither: what has been removed since a query
read (`CountNote.removed`) is what it can miss. As long as none answers
below that, every query counts all transactions whose hashes had been
returned when it came (`count_reads_writes`).
-/
import KoinosEvm.Lib.Gate
import KoinosEvm.Lib.Schedule
import KoinosEvm.Lib.WordCounter
import KoinosEvm.Proxy.PendingNonce

namespace KoinosEvm.Proofs

open Lib Proxy

-- ================================================================ the note

/-- The entry of an account, zero where there is none. -/
def entryOf (store : PendingNonceStore) (addr : Address) : Nat :=
  match store.map.find? addr with
  | none => 0
  | some entry => entry.nonce.toNat

/-- The nonces of an account whose hashes have been returned. -/
def returnedNonces (s : CountState) (addr : Address) : List UInt64 :=
  (s.sends.filter fun t => t.1.sender = addr && t.2 = .returned).map fun t => t.1.nonce

/-- The entry that the answer to a query removes. -/
def removedBy (s : CountState) (q : CountQuery) (onChain : UInt64) : Nat :=
  match (countPending s.store s.now q.addr onChain).2.map.find? q.addr with
  | none => entryOf s.store q.addr
  | some _ => 0

/-- The query waits for the lock. -/
def hasRead : QueryStage → Bool
  | .read _ => true
  | .asked | .answered _ => false

/-- What has happened to the queries. -/
structure CountNote where
  /-- The nonces whose hashes had been returned when the query came. -/
  told : Nat → List UInt64
  /-- The last nonce read of an account. -/
  lastRead : Address → Nat
  /-- The highest entry of its account removed since the query has read. -/
  removed : Nat → Nat

namespace CountNote

def empty : CountNote := ⟨fun _ => [], fun _ => 0, fun _ => 0⟩

end CountNote

/-- The note after an act. -/
def noteCount (note : CountNote) (s : CountState) : CountAct → CountNote
  | .query q =>
      { note with told := Function.update note.told s.queries.length (returnedNonces s q.addr) }
  | .read j =>
      match s.queries[j]? with
      | some (q, .asked) =>
          { note with lastRead := Function.update note.lastRead q.addr (s.onChain q.addr).toNat }
      | _ => note
  | .answer j =>
      match s.queries[j]? with
      | some (q, .read onChain) =>
          { note with
            removed := fun k =>
              if (s.queries[k]?).any fun t => t.1.addr = q.addr && hasRead t.2 then
                max (note.removed k) (removedBy s q onChain)
              else note.removed k }
      | _ => note
  | .tick _ | .chain .. | .relay _ | .advance _ | .reply _ => note

-- ============================================================ the property

/-- Every pending count that has been answered is above the nonces told
before it was asked for. -/
def CountsTold (x : CountNote × CountState) : Prop :=
  ∀ (j : Nat) q count, x.2.queries[j]? = some (q, .answered count) → q.pending = true →
    ∀ n ∈ x.1.told j, n.toNat + 1 ≤ count.toNat

/-- What is taken for granted: an account's nonce does not go back from one
read to the next, the store has room, and no entry that a query looks at is
as old as the TTL. -/
def Ordinary (x : CountNote × CountState) : CountAct → Prop
  | .read j => ∀ q, x.2.queries[j]? = some (q, .asked) →
      x.1.lastRead q.addr ≤ (x.2.onChain q.addr).toNat
  | .advance i => ∀ send, x.2.sends[i]? = some (send, .relayed) →
      x.2.store.map.find? send.sender = none → x.2.store.map.rows.length < x.2.store.cap
  | .answer j => ∀ q onChain entry, x.2.queries[j]? = some (q, .read onChain) →
      x.2.store.map.find? q.addr = some entry → x.2.now - entry.since < x.2.store.ttl
  | .tick _ | .chain .. | .relay _ | .reply _ | .query _ => True

-- =========================================================== the condition

/-- A query answers no less than what others have removed since it read, and
no transaction has the last nonce of all. -/
def NotOvertaken (x : CountNote × CountState) : CountAct → Prop
  | .answer j => ∀ q onChain, x.2.queries[j]? = some (q, .read onChain) →
      x.1.removed j ≤ max onChain.toNat (entryOf x.2.store q.addr)
  | .relay send => send.nonce + 1 ≠ 0
  | .tick _ | .chain .. | .advance _ | .reply _ | .query _ | .read _ => True

-- =============================================================== the store

section Store

variable {store : PendingNonceStore} {addr other : Address} {now : Nat} {next onChain : UInt64}

theorem entryOf_some {entry : PendingEntry} (h : store.map.find? addr = some entry) :
    entryOf store addr = entry.nonce.toNat := by
  rw [entryOf, h]

theorem entryOf_none (h : store.map.find? addr = none) : entryOf store addr = 0 := by
  rw [entryOf, h]

/-- An entry is only raised. -/
theorem entryOf_advance_self :
    entryOf (store.advance now addr next) addr = max (entryOf store addr) next.toNat := by
  cases hfound : store.map.find? addr with
  | none =>
      rw [entryOf_none hfound, Nat.zero_max]
      exact entryOf_some (PendingNonceStore.find?_advance_of_none hfound)
  | some entry =>
      rw [entryOf_some hfound, entryOf_some (PendingNonceStore.find?_advance_of_some hfound)]
      show (if entry.nonce < next then next else entry.nonce).toNat = _
      split
      next hlt => exact (Nat.max_eq_right (UInt64.lt_iff_toNat_lt.mp hlt).le).symm
      next hge => exact (Nat.max_eq_left (UInt64.le_iff_toNat_le.mp (UInt64.not_lt.mp hge))).symm

theorem entryOf_advance_ne
    (hroom : store.map.find? addr = none → store.map.rows.length < store.cap)
    (hne : other ≠ addr) : entryOf (store.advance now addr next) other = entryOf store other := by
  cases hfound : store.map.find? addr with
  | none =>
      simp only [PendingNonceStore.advance, hfound, if_neg (Nat.not_le.mpr (hroom hfound)), entryOf]
      rw [Table.find?_upsert_of_ne _ (Ne.symm hne)]
  | some entry =>
      simp only [PendingNonceStore.advance, hfound, entryOf]
      rw [Table.find?_modify_of_ne _ hne]

theorem entryOf_remove_self : entryOf (store.remove addr) addr = 0 :=
  entryOf_none (Table.find?_erase_self _ _)

theorem entryOf_remove_ne (hne : other ≠ addr) :
    entryOf (store.remove addr) other = entryOf store other := by
  rw [entryOf, PendingNonceStore.remove, Table.find?_erase_of_ne _ hne]
  rfl

/-- The answer under the lock, where no entry has expired. -/
theorem countPending_spec
    (hfresh : ∀ entry, store.map.find? addr = some entry → now - entry.since < store.ttl) :
    (countPending store now addr onChain).1.toNat = max onChain.toNat (entryOf store addr)
      ∧ ((countPending store now addr onChain).2 = store
        ∨ (countPending store now addr onChain).2 = store.remove addr
          ∧ entryOf store addr ≤ onChain.toNat) := by
  cases hfound : store.map.find? addr with
  | none =>
      have hnone : store.getUnexpired now addr = none := by
        rw [PendingNonceStore.getUnexpired, hfound]
      have hanswer : countPending store now addr onChain = (onChain, store) := by
        rw [countPending, hnone]
      rw [hanswer, entryOf_none hfound, Nat.max_zero]
      exact ⟨rfl, Or.inl rfl⟩
  | some entry =>
      have hsome : store.getUnexpired now addr = some entry.nonce := by
        simp only [PendingNonceStore.getUnexpired, hfound]
        exact if_neg (Nat.not_le.mpr (hfresh entry hfound))
      simp only [countPending, hsome, entryOf_some hfound]
      split
      next hlt =>
        exact ⟨(Nat.max_eq_right (UInt64.lt_iff_toNat_lt.mp hlt).le).symm, Or.inl rfl⟩
      next hge =>
        have hle := UInt64.le_iff_toNat_le.mp (UInt64.not_lt.mp hge)
        exact ⟨(Nat.max_eq_left hle).symm, Or.inr ⟨rfl, hle⟩⟩

end Store

-- =========================================================== the invariant

/-- What all later reads and answers for an account are at or above. -/
def level (x : CountNote × CountState) (addr : Address) : Nat :=
  max (entryOf x.2.store addr) (x.1.lastRead addr)

/-- What a query that has read cannot answer below without having been
overtaken. -/
def reach (x : CountNote × CountState) (j : Nat) (addr : Address) : Nat :=
  max (entryOf x.2.store addr) (x.1.removed j)

/-- All that query `j` was told is at most `bound`. -/
def ToldBelow (note : CountNote) (j bound : Nat) : Prop :=
  ∀ n ∈ note.told j, n.toNat + 1 ≤ bound

/-- A query, by where it is. -/
def QueryOk (x : CountNote × CountState) (j : Nat) (q : CountQuery) : QueryStage → Prop
  | .asked => ToldBelow x.1 j (level x q.addr)
  | .read onChain =>
      onChain.toNat ≤ x.1.lastRead q.addr
        ∧ ToldBelow x.1 j (max onChain.toNat (reach x j q.addr))
  | .answered count => q.pending = true → ToldBelow x.1 j count.toNat

structure CountInv (x : CountNote × CountState) : Prop where
  small : ∀ t ∈ x.2.sends, t.1.nonce + 1 ≠ 0
  sends : ∀ t ∈ x.2.sends, t.2 ≠ .relayed → t.1.nonce.toNat + 1 ≤ level x t.1.sender
  queries : ∀ (j : Nat) q stage, x.2.queries[j]? = some (q, stage) → QueryOk x j q stage

theorem CountInv.countsTold {x : CountNote × CountState} (h : CountInv x) : CountsTold x :=
  fun j q count hget hpending => h.queries j q (.answered count) hget hpending

theorem countInv_start (cap ttl now : Nat) (onChain : Address → UInt64) :
    CountInv (.empty, .start cap ttl now onChain) where
  small := fun _ h => by cases h
  sends := fun _ h => by cases h
  queries := fun _ _ _ h => by cases h

section Step

variable {x x' : CountNote × CountState} {j : Nat} {q : CountQuery} {stage : QueryStage}

theorem ToldBelow.mono {note note' : CountNote} {bound bound' : Nat}
    (h : ToldBelow note j bound) (htold : note'.told j = note.told j) (hle : bound ≤ bound') :
    ToldBelow note' j bound' := fun n hn => (h n (htold ▸ hn)).trans hle

/-- What rises keeps a query where it is. -/
theorem QueryOk.mono (h : QueryOk x j q stage) (htold : x'.1.told j = x.1.told j)
    (hlevel : level x q.addr ≤ level x' q.addr) (hread : x.1.lastRead q.addr ≤ x'.1.lastRead q.addr)
    (hreach : hasRead stage = true → reach x j q.addr ≤ reach x' j q.addr) :
    QueryOk x' j q stage := by
  cases stage with
  | asked => exact ToldBelow.mono h htold hlevel
  | read onChain =>
      have hle := hreach rfl
      exact ⟨h.1.trans hread, h.2.mono htold (by omega)⟩
  | answered count => exact fun hpending => (h hpending).mono htold (Nat.le_refl _)

-- =============================================================== the sends

variable {note : CountNote} {s s' : CountState} {i : Nat}

/-- A query that the act leaves alone. -/
theorem CountInv.query_mono (hinv : CountInv (note, s)) {note' : CountNote}
    (hget : s.queries[j]? = some (q, stage)) (htold : note'.told j = note.told j)
    (hlevel : level (note, s) q.addr ≤ level (note', s') q.addr)
    (hread : note.lastRead q.addr ≤ note'.lastRead q.addr)
    (hreach : hasRead stage = true → reach (note, s) j q.addr ≤ reach (note', s') j q.addr) :
    QueryOk (note', s') j q stage := (hinv.queries j q stage hget).mono htold hlevel hread hreach

/-- An act that raises entries, or none, and leaves the queries. -/
theorem CountInv.of_raised (hinv : CountInv (note, s)) (hqueries : s'.queries = s.queries)
    (hentry : ∀ addr, entryOf s.store addr ≤ entryOf s'.store addr)
    (hsends : ∀ t ∈ s'.sends, t.1.nonce + 1 ≠ 0
      ∧ (t.2 ≠ .relayed → t.1.nonce.toNat + 1 ≤ level (note, s') t.1.sender)) :
    CountInv (note, s') where
  small := fun t ht => (hsends t ht).1
  sends := fun t ht => (hsends t ht).2
  queries := by
    intro j q stage hget
    rw [hqueries] at hget
    exact hinv.query_mono hget rfl (max_le_max (hentry _) (Nat.le_refl _)) (Nat.le_refl _)
      fun _ => max_le_max (hentry _) (Nat.le_refl _)

theorem countInv_tick {d : Nat} (hinv : CountInv (note, s)) :
    CountInv (note, { s with now := s.now + d }) :=
  hinv.of_raised rfl (fun _ => Nat.le_refl _) fun t ht => ⟨hinv.small t ht, hinv.sends t ht⟩

theorem countInv_relay {send : RelayedSend} (hinv : CountInv (note, s))
    (hsmall : send.nonce + 1 ≠ 0) (h : s.step (.relay send) = some s') : CountInv (note, s') := by
  cases h
  refine hinv.of_raised rfl (fun _ => Nat.le_refl _) ?_
  refine List.forall_mem_append.mpr ⟨fun t ht => ⟨hinv.small t ht, hinv.sends t ht⟩, ?_⟩
  intro t ht
  rw [List.mem_singleton.mp ht]
  exact ⟨hsmall, fun hne => absurd rfl hne⟩

theorem countInv_advance (hinv : CountInv (note, s))
    (hroom : ∀ send, s.sends[i]? = some (send, .relayed) →
      s.store.map.find? send.sender = none → s.store.map.rows.length < s.store.cap)
    (h : s.step (.advance i) = some s') : CountInv (note, s') := by
  simp only [CountState.step] at h
  split at h
  next send hget =>
    cases h
    have hroom := hroom send hget
    have hsmall : send.nonce + 1 ≠ 0 := hinv.small (send, .relayed) (List.mem_of_getElem? hget)
    have hself : entryOf (s.store.advance s.now send.sender (saturatingSucc send.nonce)) send.sender
        = max (entryOf s.store send.sender) (saturatingSucc send.nonce).toNat :=
      entryOf_advance_self
    have hentry : ∀ addr, entryOf s.store addr
        ≤ entryOf (s.store.advance s.now send.sender (saturatingSucc send.nonce)) addr := by
      intro addr
      by_cases heq : addr = send.sender
      · subst heq
        rw [hself]
        exact Nat.le_max_left _ _
      · rw [entryOf_advance_ne hroom heq]
    refine hinv.of_raised rfl hentry (forall_mem_set (fun t ht => ?_) ⟨hsmall, fun _ => ?_⟩)
    · exact ⟨hinv.small t ht, fun hstage =>
        (hinv.sends t ht hstage).trans (max_le_max (hentry _) (Nat.le_refl _))⟩
    · show send.nonce.toNat + 1 ≤ max (entryOf _ send.sender) _
      rw [hself, saturatingSucc, if_neg hsmall, toNat_succ hsmall]
      omega
  next => cases h

theorem countInv_reply (hinv : CountInv (note, s)) (h : s.step (.reply i) = some s') :
    CountInv (note, s') := by
  simp only [CountState.step] at h
  split at h
  next send hget =>
    cases h
    have hmem := List.mem_of_getElem? hget
    refine hinv.of_raised rfl (fun _ => Nat.le_refl _) (forall_mem_set (fun t ht => ?_) ?_)
    · exact ⟨hinv.small t ht, hinv.sends t ht⟩
    · exact ⟨hinv.small (send, .advanced) hmem, fun _ =>
        hinv.sends (send, .advanced) hmem (by simp)⟩
  next => cases h

-- ============================================================= the queries

theorem countInv_query (hinv : CountInv (note, s)) (h : s.step (.query q) = some s') :
    CountInv (noteCount note s (.query q), s') := by
  cases h
  refine ⟨hinv.small, hinv.sends, fun j q' stage hget => ?_⟩
  by_cases hj : j < s.queries.length
  · rw [List.getElem?_append_left hj] at hget
    exact hinv.query_mono hget (Function.update_of_ne (Nat.ne_of_lt hj) _ _) (Nat.le_refl _)
      (Nat.le_refl _) fun _ => Nat.le_refl _
  · -- the new one is told what has been returned
    rw [List.getElem?_append_right (Nat.le_of_not_lt hj)] at hget
    obtain ⟨hlt, hget⟩ := List.getElem?_eq_some_iff.mp hget
    obtain rfl : j = s.queries.length := by
      rw [List.length_singleton] at hlt
      omega
    rw [List.getElem_singleton] at hget
    cases hget
    intro n hn
    change n ∈ Function.update note.told s.queries.length (returnedNonces s q.addr) _ at hn
    rw [Function.update_self] at hn
    obtain ⟨t, ht, rfl⟩ := List.mem_map.mp hn
    obtain ⟨ht, hreturned⟩ := List.mem_filter.mp ht
    obtain ⟨hsender, hstage⟩ := Bool.and_eq_true_iff.mp hreturned
    have hlevel := hinv.sends t ht (by rw [of_decide_eq_true hstage]; simp)
    rw [of_decide_eq_true hsender] at hlevel
    exact hlevel

theorem countInv_read (hinv : CountInv (note, s))
    (hmono : ∀ q, s.queries[j]? = some (q, .asked) →
      note.lastRead q.addr ≤ (s.onChain q.addr).toNat)
    (h : s.step (.read j) = some s') : CountInv (noteCount note s (.read j), s') := by
  simp only [CountState.step] at h
  split at h
  next q hget =>
    cases h
    have hmono := hmono q hget
    have hnote : noteCount note s (.read j)
        = { note with
            lastRead := Function.update note.lastRead q.addr (s.onChain q.addr).toNat } := by
      simp only [noteCount, hget]
    rw [hnote]
    have hlast : ∀ addr, note.lastRead addr
        ≤ Function.update note.lastRead q.addr (s.onChain q.addr).toNat addr := by
      intro addr
      by_cases heq : addr = q.addr
      · subst heq
        rw [Function.update_self]
        exact hmono
      · rw [Function.update_of_ne heq]
    refine ⟨hinv.small, fun t ht hstage => (hinv.sends t ht hstage).trans ?_, ?_⟩
    · exact max_le_max (Nat.le_refl _) (hlast _)
    · intro k q' stage hk
      rcases getElem?_set_cases hget hk with ⟨rfl, hz⟩ | ⟨-, hk⟩
      · cases hz
        split
        · -- it has read the last of all reads
          refine ⟨?_, ToldBelow.mono (hinv.queries k q .asked hget) rfl ?_⟩
          · show _ ≤ Function.update note.lastRead q.addr _ q.addr
            rw [Function.update_self]
          · show max (entryOf s.store q.addr) (note.lastRead q.addr)
              ≤ max (s.onChain q.addr).toNat (max (entryOf s.store q.addr) (note.removed k))
            omega
        next hlatest => exact fun hpending => absurd hpending hlatest
      · exact hinv.query_mono hk rfl (max_le_max (Nat.le_refl _) (hlast _)) (hlast _)
          fun _ => Nat.le_refl _
  next => cases h

/-- What the answer leaves of the entries, and of what others can reach. -/
theorem countPending_keeps {onChain : UInt64} (hread : onChain.toNat ≤ note.lastRead q.addr)
    (hstore : (countPending s.store s.now q.addr onChain).2 = s.store
      ∨ (countPending s.store s.now q.addr onChain).2 = s.store.remove q.addr
        ∧ entryOf s.store q.addr ≤ onChain.toNat) :
    (∀ addr, max (entryOf s.store addr) (note.lastRead addr)
        ≤ max (entryOf (countPending s.store s.now q.addr onChain).2 addr) (note.lastRead addr))
      ∧ entryOf s.store q.addr
        ≤ max (entryOf (countPending s.store s.now q.addr onChain).2 q.addr)
          (removedBy s q onChain)
      ∧ ∀ addr, addr ≠ q.addr →
        entryOf (countPending s.store s.now q.addr onChain).2 addr = entryOf s.store addr := by
  rcases hstore with hsame | ⟨hremoved, hle⟩
  · rw [hsame]
    exact ⟨fun _ => Nat.le_refl _, Nat.le_max_left _ _, fun _ _ => rfl⟩
  · refine ⟨fun addr => ?_, ?_, fun addr hne => ?_⟩
    · rw [hremoved]
      by_cases heq : addr = q.addr
      · subst heq
        rw [entryOf_remove_self]
        omega
      · rw [entryOf_remove_ne heq]
    · have hgone : (countPending s.store s.now q.addr onChain).2.map.find? q.addr = none := by
        rw [hremoved]
        exact Table.find?_erase_self _ _
      rw [removedBy, hgone]
      exact Nat.le_max_right _ _
    · rw [hremoved, entryOf_remove_ne hne]

theorem countInv_answer (hinv : CountInv (note, s))
    (hfresh : ∀ q onChain entry, s.queries[j]? = some (q, .read onChain) →
      s.store.map.find? q.addr = some entry → s.now - entry.since < s.store.ttl)
    (hstays : ∀ q onChain, s.queries[j]? = some (q, .read onChain) →
      note.removed j ≤ max onChain.toNat (entryOf s.store q.addr))
    (h : s.step (.answer j) = some s') : CountInv (noteCount note s (.answer j), s') := by
  simp only [CountState.step] at h
  split at h
  next q onChain hget =>
    cases h
    have hstays := hstays q onChain hget
    obtain ⟨hread, htold⟩ := hinv.queries j q (.read onChain) hget
    obtain ⟨hcount, hstore⟩ := @countPending_spec s.store q.addr s.now onChain
      fun entry hentry => hfresh q onChain entry hget hentry
    obtain ⟨hlevel, hreach, hother⟩ := countPending_keeps hread hstore
    have hnote : noteCount note s (.answer j)
        = { note with
            removed := fun k =>
              if (s.queries[k]?).any fun t => t.1.addr = q.addr && hasRead t.2 then
                max (note.removed k) (removedBy s q onChain)
              else note.removed k } := by
      simp only [noteCount, hget]
    rw [hnote]
    refine ⟨hinv.small, fun t ht hstage => (hinv.sends t ht hstage).trans (hlevel _), ?_⟩
    intro k q' stage hk
    rcases getElem?_set_cases hget hk with ⟨rfl, hz⟩ | ⟨-, hk⟩
    · cases hz
      refine fun _ => ToldBelow.mono htold rfl ?_
      show max _ (max _ (note.removed k)) ≤ _
      rw [hcount]
      change note.removed k ≤ max onChain.toNat (entryOf s.store q.addr) at hstays
      show max onChain.toNat (max (entryOf s.store q.addr) (note.removed k)) ≤ _
      omega
    · refine hinv.query_mono hk rfl (hlevel _) (Nat.le_refl _) fun hstage => ?_
      show max (entryOf s.store q'.addr) (note.removed k)
        ≤ max (entryOf _ q'.addr) (if _ then _ else _)
      by_cases heq : q'.addr = q.addr
      · have hwaits : ((s.queries[k]?).any fun t => t.1.addr = q.addr && hasRead t.2) = true := by
          rw [hk]
          exact Bool.and_eq_true_iff.mpr ⟨decide_eq_true heq, hstage⟩
        rw [if_pos hwaits, heq]
        show _ ≤ max (entryOf (countPending s.store s.now q.addr onChain).2 q.addr) _
        omega
      · have hwaits : ((s.queries[k]?).any fun t => t.1.addr = q.addr && hasRead t.2) = false := by
          rw [hk]
          exact Bool.and_eq_false_iff.mpr (Or.inl (decide_eq_false heq))
        rw [hwaits, hother _ heq]
        exact Nat.le_refl _
  next => cases h

end Step

-- ============================================================== the result

/-- In every schedule, as long as no query is overtaken, a pending count is
above every nonce whose hash had been returned when it was asked for. -/
theorem count_reads_writes (cap ttl now : Nat) (onChain : Address → UInt64) (acts : List CountAct)
    (h : Always (watched CountState.step noteCount)
      (fun x a _ => Ordinary x a ∧ NotOvertaken x a) (.empty, .start cap ttl now onChain) acts) :
    Always (watched CountState.step noteCount) (fun _ _ x' => CountsTold x')
      (.empty, .start cap ttl now onChain) acts := by
  refine always_imp CountInv ?_ (countInv_start cap ttl now onChain) acts h
  rintro ⟨note, s⟩ a x' hinv hstep ⟨hordinary, hstays⟩
  obtain ⟨s', hnext, rfl⟩ := Option.map_eq_some_iff.mp hstep
  suffices hinv' : CountInv (noteCount note s a, s') from ⟨hinv', hinv'.countsTold⟩
  cases a with
  | tick d =>
      cases hnext
      exact countInv_tick hinv
  | chain addr nonce =>
      cases hnext
      exact hinv.of_raised rfl (fun _ => Nat.le_refl _) fun t ht =>
        ⟨hinv.small t ht, hinv.sends t ht⟩
  | relay send => exact countInv_relay hinv hstays hnext
  | advance i => exact countInv_advance hinv hordinary hnext
  | reply i => exact countInv_reply hinv hnext
  | query q => exact countInv_query hinv hnext
  | read j => exact countInv_read hinv hordinary hnext
  | answer j => exact countInv_answer hinv hordinary hstays hnext

-- ======================================================== a query overtaken

def sampleSender : Address := ⟨List.replicate 20 0xab, List.length_replicate⟩

/-- Its transaction with nonce 5 is relayed and its hash returned; a query
comes and reads the account. -/
def toldOnce : List CountAct :=
  [.relay ⟨sampleSender, 5⟩, .advance 0, .reply 0, .query ⟨sampleSender, true⟩, .read 0]

/-- Answered before the transaction is on chain, the query counts it. -/
theorem toldOnce_counted :
    Always (watched CountState.step noteCount) (fun _ _ x' => CountsTold x')
      (.empty, .start 10000 3600 0 fun _ => 5) (toldOnce ++ [.answer 0]) :=
  count_reads_writes 10000 3600 0 (fun _ => 5) (toldOnce ++ [CountAct.answer 0])
    ⟨⟨trivial, show (5 : UInt64) + 1 ≠ 0 by decide⟩, ⟨fun _ _ _ => by decide, trivial⟩,
      ⟨trivial, trivial⟩, ⟨trivial, trivial⟩, ⟨fun _ _ => Nat.zero_le _, trivial⟩,
      ⟨fun _ _ _ hget hentry => (by cases hget; cases hentry; decide),
        fun _ _ _ => Nat.zero_le _⟩, trivial⟩

/-- Then the transaction is on chain, and another query reads the account and
takes the entry away before the first is answered. -/
def overtaken : List CountAct :=
  toldOnce ++ [.chain sampleSender 6, .query ⟨sampleSender, true⟩, .read 1, .answer 1, .answer 0]

/-- The first answers with the nonce that has been used. -/
theorem overtaken_uncounted :
    Always (watched CountState.step noteCount) (fun x a _ => Ordinary x a)
        (.empty, .start 10000 3600 0 fun _ => 5) overtaken
      ∧ ¬ Always (watched CountState.step noteCount) (fun _ _ x' => CountsTold x')
        (.empty, .start 10000 3600 0 fun _ => 5) overtaken := by
  constructor
  · exact ⟨trivial, fun _ _ _ => (by decide), trivial, trivial, fun _ _ => Nat.zero_le _, trivial,
      trivial, fun q hget => (by cases hget; decide),
      fun _ _ _ hget hentry => (by cases hget; cases hentry; decide),
      fun _ _ _ hget hentry => (by cases hget; cases hentry), trivial⟩
  · rintro ⟨-, -, -, -, -, -, -, -, -, hlast, -⟩
    exact absurd (hlast 0 ⟨sampleSender, true⟩ 5 rfl rfl 5 (by decide)) (by decide)

end KoinosEvm.Proofs
