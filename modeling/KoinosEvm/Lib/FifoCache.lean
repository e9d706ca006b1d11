/-
Caches that evict in the order of insertion.

The rows are in a table, and a queue holds a key and a time for each row put
in, the oldest first. A row that is taken out, or put in anew, leaves its
entry of the queue behind: an entry is live if it has the key and the time of
a row. Two loops evict. `sweep` takes entries off the front as long as they
are not live, or are and have expired; `trim` takes them off while the table
is over a size. Either takes the row of a live entry out of the table.

As long as every row has its entry (`Covered`), which both loops keep, a row
is only evicted with its entry (`Evicts`), so `trim` cannot run out of
entries. A queue that is in the order of the times makes the rows evicted
older than the rows kept.
-/
import KoinosEvm.Lib.Table
import Mathlib.Data.List.Nodup
import Mathlib.Data.List.Perm.Subperm

namespace Lib

namespace FifoCache

variable {K R : Type} {key : R → K} (stamp : R → Nat)

/-- Every row has its entry. -/
def Covered (t : Table K R key) (q : List (K × Nat)) : Prop :=
  ∀ r ∈ t.rows, (key r, stamp r) ∈ q

/-- From one table and queue to another by taking entries off the front,
rows with them. -/
structure Evicts (t : Table K R key) (q : List (K × Nat)) (t' : Table K R key)
    (q' : List (K × Nat)) : Prop where
  sub : ∀ r ∈ t'.rows, r ∈ t.rows
  popped : ∃ p, q = p ++ q' ∧ ∀ r ∈ t.rows, r ∉ t'.rows → (key r, stamp r) ∈ p
  covered : Covered stamp t' q'

section Evicting

variable {stamp} {t t' t'' : Table K R key} {q q' q'' : List (K × Nat)} {r : R}

theorem Evicts.refl (h : Covered stamp t q) : Evicts stamp t q t q :=
  ⟨fun _ hr => hr, ⟨[], rfl, fun _ hr hout => absurd hr hout⟩, h⟩

theorem Evicts.trans (h : Evicts stamp t q t' q') (h' : Evicts stamp t' q' t'' q'') :
    Evicts stamp t q t'' q'' := by
  obtain ⟨p, hq, hp⟩ := h.popped
  obtain ⟨p', hq', hp'⟩ := h'.popped
  refine ⟨fun r hr => h.sub r (h'.sub r hr), ⟨p ++ p', ?_, ?_⟩, h'.covered⟩
  · rw [hq, hq', List.append_assoc]
  · intro r hr hout
    by_cases hmid : r ∈ t'.rows
    · exact List.mem_append_right _ (hp' r hmid hout)
    · exact List.mem_append_left _ (hp r hr hmid)

/-- In a queue that is in the order of the times, what is evicted is older
than what is kept. -/
theorem Evicts.older (h : Evicts stamp t q t' q') (hq : q.Pairwise fun e e' => e.2 < e'.2)
    (hr : r ∈ t.rows) (hout : r ∉ t'.rows) {kept : R} (hkept : kept ∈ t'.rows) :
    stamp r < stamp kept := by
  obtain ⟨p, rfl, hp⟩ := h.popped
  exact (List.pairwise_append.mp hq).2.2 _ (hp r hr hout) _ (h.covered kept hkept)

/-- The entry of a row that is evicted is not left in a queue without
repetitions. -/
theorem Evicts.mem_of_entry (h : Evicts stamp t q t' q') (hq : q.Nodup) (hr : r ∈ t.rows)
    (hentry : (key r, stamp r) ∈ q') : r ∈ t'.rows := by
  obtain ⟨p, rfl, hp⟩ := h.popped
  by_contra hout
  exact (List.nodup_append.mp hq).2.2 _ (hp r hr hout) _ hentry rfl

end Evicting

-- =============================================================== the loops

variable [DecidableEq K]

/-- The entry stands for a row. -/
def live (t : Table K R key) (e : K × Nat) : Bool :=
  (t.find? e.1).any fun r => stamp r = e.2

/-- The table once the front entry is taken off. -/
def pop (t : Table K R key) (e : K × Nat) : Table K R key :=
  if live stamp t e then t.erase e.1 else t

/-- Take off what is not live or has expired. -/
def sweep (expired : Nat → Bool) :
    Table K R key → List (K × Nat) → Table K R key × List (K × Nat)
  | t, [] => (t, [])
  | t, e :: q =>
      if live stamp t e && !expired e.2 then (t, e :: q) else sweep expired (pop stamp t e) q

/-- Take off the oldest down to a size. -/
def trim (cap : Nat) : Table K R key → List (K × Nat) → Table K R key × List (K × Nat)
  | t, [] => (t, [])
  | t, e :: q => if t.rows.length ≤ cap then (t, e :: q) else trim cap (pop stamp t e) q

/-- `trim` runs out of entries. -/
def runsDry (cap : Nat) : Table K R key → List (K × Nat) → Bool
  | t, [] => cap < t.rows.length
  | t, e :: q => cap < t.rows.length && runsDry cap (pop stamp t e) q

variable {stamp} {t t' : Table K R key} {q q' : List (K × Nat)} {e : K × Nat} {r : R}

theorem live_iff : live stamp t e = true ↔ ∃ r ∈ t.rows, (key r, stamp r) = e := by
  rw [live, Option.any_eq_true]
  constructor
  · rintro ⟨r, hfound, hstamp⟩
    have hkey : key r = e.1 := Table.find?_key hfound
    exact ⟨r, Table.find?_mem hfound, Prod.ext hkey (of_decide_eq_true hstamp)⟩
  · rintro ⟨r, hr, rfl⟩
    exact ⟨r, Table.find?_of_mem hr, decide_eq_true rfl⟩

/-- One entry off the front. -/
theorem evicts_pop (h : Covered stamp t (e :: q)) :
    Evicts stamp t (e :: q) (pop stamp t e) q := by
  have hin : ∀ r ∈ t.rows, (key r, stamp r) ≠ e → (key r, stamp r) ∈ q := fun r hr hne =>
    (List.mem_cons.mp (h r hr)).resolve_left hne
  unfold pop
  by_cases hlive : live stamp t e = true
  · rw [if_pos hlive]
    obtain ⟨row, hrow, heq⟩ := live_iff.mp hlive
    refine ⟨fun r hr => (Table.mem_erase.mp hr).1, ⟨[e], rfl, ?_⟩, ?_⟩
    · intro r hr hout
      have hkey : key r = e.1 := by
        by_contra hne
        exact hout (Table.mem_erase.mpr ⟨hr, hne⟩)
      have hsame : r = row := Table.eq_of_key hr hrow (hkey.trans (congrArg Prod.fst heq).symm)
      rw [hsame, heq]
      exact List.mem_singleton_self e
    · intro r hr
      obtain ⟨hr, hne⟩ := Table.mem_erase.mp hr
      exact hin r hr fun heq => hne (congrArg Prod.fst heq)
  · rw [if_neg hlive]
    refine ⟨fun _ hr => hr, ⟨[e], rfl, fun _ hr hout => absurd hr hout⟩, ?_⟩
    exact fun r hr => hin r hr fun heq => hlive (live_iff.mpr ⟨r, hr, heq⟩)

theorem length_pop_of_live (h : live stamp t e = true) :
    (pop stamp t e).rows.length + 1 = t.rows.length := by
  obtain ⟨r, hr, rfl⟩ := live_iff.mp h
  rw [pop, if_pos h]
  exact Table.length_erase hr

theorem length_le_pop (stamp : R → Nat) (t : Table K R key) (e : K × Nat) :
    t.rows.length ≤ (pop stamp t e).rows.length + 1 := by
  by_cases hlive : live stamp t e = true
  · exact Nat.le_of_eq (length_pop_of_live hlive).symm
  · rw [pop, if_neg hlive]
    exact Nat.le_succ _

/-- Entries that were live and are left still are. -/
theorem Evicts.live (h : Evicts stamp t q t' q') (hq : q.Nodup)
    (hlive : ∀ e ∈ q', live stamp t e = true) : ∀ e ∈ q', FifoCache.live stamp t' e = true := by
  intro e he
  obtain ⟨r, hr, rfl⟩ := live_iff.mp (hlive e he)
  exact live_iff.mpr ⟨r, h.mem_of_entry hq hr he, rfl⟩

/-- A queue of live entries without repetitions is no longer than the
table. -/
theorem length_le_of_live (hq : q.Nodup) (hlive : ∀ e ∈ q, live stamp t e = true) :
    q.length ≤ t.rows.length := by
  have hsub : q ⊆ t.rows.map fun r => (key r, stamp r) := by
    intro e he
    obtain ⟨r, hr, rfl⟩ := live_iff.mp (hlive e he)
    exact List.mem_map_of_mem hr
  have hle := (hq.subperm hsub).length_le
  rwa [List.length_map] at hle

section Sweep

variable {expired : Nat → Bool}

theorem evicts_sweep (expired : Nat → Bool) (h : Covered stamp t q) :
    Evicts stamp t q (sweep stamp expired t q).1 (sweep stamp expired t q).2 := by
  induction q generalizing t with
  | nil => exact .refl h
  | cons e q ih =>
      rw [sweep]
      split
      · exact .refl h
      · exact (evicts_pop h).trans (ih (evicts_pop h).covered)

/-- A queue whose front is live and has not expired is left alone. -/
theorem sweep_of_front (hlive : FifoCache.live stamp t e = true) (hfresh : expired e.2 = false) :
    sweep stamp expired t (e :: q) = (t, e :: q) := by
  rw [sweep, hlive, hfresh]
  rfl

/-- Only rows that have expired are swept. -/
theorem expired_of_swept (h : Covered stamp t q) (hr : r ∈ t.rows)
    (hout : r ∉ (sweep stamp expired t q).1.rows) : expired (stamp r) = true := by
  induction q generalizing t with
  | nil => exact absurd hr hout
  | cons e q ih =>
      rw [sweep] at hout
      split at hout
      · exact absurd hr hout
      next hnot =>
        by_cases hpop : r ∈ (pop stamp t e).rows
        · exact ih (evicts_pop h).covered hpop hout
        · -- the row went with this entry, which was live
          obtain ⟨p, hp, hentry⟩ := (evicts_pop h).popped
          have hpe : p = [e] := by simpa using (List.append_cancel_right hp).symm
          have heq : (key r, stamp r) = e := by
            have := hentry r hr hpop
            rwa [hpe, List.mem_singleton] at this
          have hlive : live stamp t e = true := live_iff.mpr ⟨r, hr, heq⟩
          rw [← heq] at hnot hlive
          simpa [hlive] using hnot

/-- The front entry that is left is live and has not expired. -/
theorem front_sweep (h : e ∈ (sweep stamp expired t q).2.head?) :
    live stamp (sweep stamp expired t q).1 e = true ∧ expired e.2 = false := by
  induction q generalizing t with
  | nil => cases h
  | cons e' q ih =>
      rw [sweep] at h ⊢
      split at h
      next hkeep =>
        cases h
        rw [if_pos hkeep]
        simpa using hkeep
      next hdrop =>
        rw [if_neg hdrop]
        exact ih h

/-- In a queue that is in the order of the times, nothing that has expired is
left. -/
theorem not_expired_of_kept (h : Covered stamp t q) (hq : q.Pairwise fun e e' => e.2 < e'.2)
    (hmono : ∀ a b, a ≤ b → expired b = true → expired a = true)
    (hr : r ∈ (sweep stamp expired t q).1.rows) : expired (stamp r) = false := by
  have hevicts := evicts_sweep expired h
  obtain ⟨p, hp, -⟩ := hevicts.popped
  have hentry := hevicts.covered r hr
  rw [hp] at hq
  have hsorted := (List.pairwise_append.mp hq).2.1
  cases hleft : (sweep stamp expired t q).2 with
  | nil =>
      rw [hleft] at hentry
      cases hentry
  | cons e rest =>
      have hfront : expired e.2 = false := (front_sweep (by rw [hleft]; rfl)).2
      rw [hleft] at hentry hsorted
      have hle : e.2 ≤ stamp r := by
        rcases List.mem_cons.mp hentry with heq | hrest
        · exact Nat.le_of_eq (congrArg Prod.snd heq).symm
        · exact Nat.le_of_lt ((List.pairwise_cons.mp hsorted).1 _ hrest)
      by_contra hexpired
      rw [hmono e.2 (stamp r) hle (by simpa using hexpired)] at hfront
      cases hfront

end Sweep

section Trim

variable {cap : Nat}

theorem evicts_trim (cap : Nat) (h : Covered stamp t q) :
    Evicts stamp t q (trim stamp cap t q).1 (trim stamp cap t q).2 := by
  induction q generalizing t with
  | nil => exact .refl h
  | cons e q ih =>
      rw [trim]
      split
      · exact .refl h
      · exact (evicts_pop h).trans (ih (evicts_pop h).covered)

/-- A table within the size is left alone. -/
theorem trim_of_le (h : t.rows.length ≤ cap) : trim stamp cap t q = (t, q) := by
  cases q with
  | nil => rfl
  | cons e q => rw [trim, if_pos h]

/-- A table over the size is brought down to it. -/
theorem length_trim (h : Covered stamp t q) (hover : cap ≤ t.rows.length) :
    (trim stamp cap t q).1.rows.length = cap := by
  induction q generalizing t with
  | nil =>
      have hempty : t.rows = [] := List.eq_nil_iff_forall_not_mem.mpr fun r hr => by cases h r hr
      rw [hempty] at hover
      show t.rows.length = cap
      rw [hempty]
      exact (Nat.le_zero.mp hover).symm
  | cons e q ih =>
      rw [trim]
      split
      next hle => exact Nat.le_antisymm hle hover
      next hgt =>
        have hstep := length_le_pop stamp t e
        exact ih (evicts_pop h).covered (by omega)

theorem length_trim_le (h : Covered stamp t q) : (trim stamp cap t q).1.rows.length ≤ cap := by
  rcases Nat.le_total t.rows.length cap with hle | hge
  · rw [trim_of_le hle]
    exact hle
  · exact Nat.le_of_eq (length_trim h hge)

theorem not_runsDry (h : Covered stamp t q) : runsDry stamp cap t q = false := by
  induction q generalizing t with
  | nil =>
      have hempty : t.rows = [] := List.eq_nil_iff_forall_not_mem.mpr fun r hr => by cases h r hr
      rw [runsDry, hempty]
      exact decide_eq_false (Nat.not_lt_zero _)
  | cons e q ih => rw [runsDry, ih (evicts_pop h).covered, Bool.and_false]

end Trim

end FifoCache

end Lib
