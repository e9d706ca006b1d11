/-
Keyed tables.

A table is a list of rows in the order of their insertion, no two of them
under one key. `modify` is `UPDATE .. WHERE key = k`; `upsert` is
`INSERT .. ON CONFLICT (key) DO UPDATE`. Both leave the key of a row alone,
which is a proof they take: a table cannot hold a key twice.
-/
import Mathlib.Data.List.Nodup

namespace Lib

/-- Rows with a unique key, oldest first. -/
structure Table (K R : Type) (key : R → K) where
  rows : List R
  nodup : (rows.map key).Nodup

namespace Table

variable {K R : Type} {key : R → K}

/-- No rows. -/
def empty : Table K R key := ⟨[], List.nodup_nil⟩

/-- Rows under one key are one row. -/
theorem eq_of_key {t : Table K R key} {r r' : R} (hr : r ∈ t.rows) (hr' : r' ∈ t.rows)
    (h : key r = key r') : r = r' := List.inj_on_of_nodup_map t.nodup hr hr' h

/-- Updating single rows keeps the keys. -/
theorem map_key_eq {f : R → R} (hf : ∀ r, key (f r) = key r) (p : R → Prop)
    [DecidablePred p] (rows : List R) :
    (rows.map fun r => if p r then f r else r).map key = rows.map key := by
  rw [List.map_map]
  refine List.map_congr_left fun r _ => ?_
  simp only [Function.comp_apply]
  split
  · exact hf r
  · rfl

/-- Some of the rows. -/
def retain (t : Table K R key) (p : R → Bool) : Table K R key where
  rows := t.rows.filter p
  nodup := t.nodup.sublist (List.filter_sublist.map key)

variable [DecidableEq K]

/-- `SELECT .. WHERE key = k`. -/
def find? (t : Table K R key) (k : K) : Option R := t.rows.find? fun r => key r = k

/-- `UPDATE .. WHERE key = k`. -/
def modify (t : Table K R key) (k : K) (f : R → R) (hf : ∀ r, key (f r) = key r) :
    Table K R key where
  rows := t.rows.map fun r => if key r = k then f r else r
  nodup := by
    rw [map_key_eq hf]
    exact t.nodup

/-- The key is in no row. -/
theorem find?_eq_none {t : Table K R key} {k : K} :
    t.find? k = none ↔ k ∉ t.rows.map key := by
  simp [find?, List.find?_eq_none]

/-- `INSERT INTO .. ON CONFLICT (key) DO UPDATE`. -/
def upsert (t : Table K R key) (r : R) (f : R → R) (hf : ∀ r, key (f r) = key r) :
    Table K R key :=
  if h : t.find? (key r) = none then
    { rows := t.rows ++ [r]
      nodup := by
        rw [List.map_append, List.map_singleton, List.nodup_append]
        refine ⟨t.nodup, List.nodup_singleton _, ?_⟩
        intro a ha b hb hab
        rw [List.mem_singleton] at hb
        subst hab hb
        exact find?_eq_none.mp h ha }
  else t.modify (key r) f hf

/-- `DELETE .. WHERE key = k`. -/
def erase (t : Table K R key) (k : K) : Table K R key := t.retain fun r => key r ≠ k

-- ============================================================== look-ups

@[simp] theorem find?_erase_self (t : Table K R key) (k : K) : (t.erase k).find? k = none := by
  rw [find?_eq_none]
  intro hmem
  obtain ⟨r, hr, hk⟩ := List.mem_map.mp hmem
  exact of_decide_eq_true (List.mem_filter.mp hr).2 hk

theorem find?_erase_of_ne {k k' : K} (t : Table K R key) (h : k' ≠ k) :
    (t.erase k).find? k' = t.find? k' := by
  show (t.rows.filter _).find? _ = t.rows.find? _
  rw [List.find?_filter]
  congr 1
  funext r
  by_cases hk : key r = k'
  · simp [hk, h]
  · simp [hk]

theorem find?_key {t : Table K R key} {k : K} {r : R} (h : t.find? k = some r) :
    key r = k := by
  simpa using List.find?_some h

theorem find?_mem {t : Table K R key} {k : K} {r : R} (h : t.find? k = some r) :
    r ∈ t.rows := List.mem_of_find?_eq_some h

theorem find?_of_mem {t : Table K R key} {r : R} (h : r ∈ t.rows) :
    t.find? (key r) = some r := by
  cases hfound : t.find? (key r) with
  | none => exact absurd (List.mem_map_of_mem h) (find?_eq_none.mp hfound)
  | some r' => rw [eq_of_key (find?_mem hfound) h (find?_key hfound)]

/-- A key picks its one row. -/
theorem filter_of_find? {t : Table K R key} {k : K} {r : R} (h : t.find? k = some r) :
    (t.rows.filter fun r' => key r' = k) = [r] := by
  have hnodup : (t.rows.filter fun r' => key r' = k).Nodup := t.nodup.of_map.filter _
  refine List.perm_singleton.mp ((List.perm_ext_iff_of_nodup hnodup (List.nodup_singleton r)).mpr ?_)
  intro r'
  rw [List.mem_filter, decide_eq_true_iff, List.mem_singleton]
  refine ⟨?_, ?_⟩
  · intro hr'
    exact eq_of_key hr'.1 (find?_mem h) (hr'.2.trans (find?_key h).symm)
  · intro heq
    rw [heq]
    exact ⟨find?_mem h, find?_key h⟩

/-- Retaining rows adds none. -/
theorem find?_of_retain {t : Table K R key} {p : R → Bool} {k : K} {r : R}
    (h : (t.retain p).find? k = some r) : t.find? k = some r := by
  have hmem : r ∈ t.rows := List.mem_of_mem_filter (find?_mem h)
  rw [← find?_key h]
  exact find?_of_mem hmem

theorem mem_erase {t : Table K R key} {k : K} {r : R} :
    r ∈ (t.erase k).rows ↔ r ∈ t.rows ∧ key r ≠ k := by
  rw [erase, retain, List.mem_filter, decide_eq_true_iff]

/-- Erasing a row leaves one less. -/
theorem length_erase {t : Table K R key} {r : R} (h : r ∈ t.rows) :
    (t.erase (key r)).rows.length + 1 = t.rows.length := by
  have hlist : ∀ rows : List R, (rows.map key).Nodup → r ∈ rows →
      (rows.filter fun r' => key r' ≠ key r).length + 1 = rows.length := by
    intro rows hnodup hr
    induction rows with
    | nil => cases hr
    | cons x rows ih =>
        rw [List.map_cons, List.nodup_cons] at hnodup
        rcases List.mem_cons.mp hr with rfl | hr
        · -- the other rows have other keys
          have hrest : (rows.filter fun r' => key r' ≠ key r) = rows := by
            refine List.filter_eq_self.mpr fun x hx => decide_eq_true ?_
            intro heq
            exact hnodup.1 (heq ▸ List.mem_map_of_mem hx)
          rw [List.filter_cons_of_neg (by simp), hrest, List.length_cons]
        · have hne : key x ≠ key r := by
            intro heq
            exact hnodup.1 (heq ▸ List.mem_map_of_mem hr)
          rw [List.filter_cons_of_pos (by simpa using hne), List.length_cons, ih hnodup.2 hr,
            List.length_cons]
  exact hlist t.rows t.nodup h

section Updates

variable {f : R → R} {hf : ∀ r, key (f r) = key r}

theorem find?_map (p : R → Prop) [DecidablePred p] (hf : ∀ r, key (f r) = key r)
    (rows : List R) (k : K) :
    (rows.map fun r => if p r then f r else r).find? (fun r => key r = k)
      = (rows.find? fun r => key r = k).map fun r => if p r then f r else r := by
  rw [List.find?_map]
  congr 2
  funext r
  simp only [Function.comp_apply]
  split
  · rw [hf]
  · rfl

@[simp] theorem find?_modify_self (t : Table K R key) (k : K) :
    (t.modify k f hf).find? k = (t.find? k).map f := by
  unfold modify find?
  rw [find?_map _ hf]
  cases h : t.rows.find? (fun r => key r = k) with
  | none => rfl
  | some r => simp [find?_key (t := t) h]

@[simp] theorem find?_modify_of_ne {k k' : K} (t : Table K R key) (h : k' ≠ k) :
    (t.modify k f hf).find? k' = t.find? k' := by
  unfold modify find?
  rw [find?_map _ hf]
  cases h' : t.rows.find? (fun r => key r = k') with
  | none => rfl
  | some r => simp [find?_key (t := t) h', h]

/-- What `upsert` leaves under its key. -/
theorem find?_upsert_self {k : K} (t : Table K R key) {r : R} (hk : key r = k) :
    (t.upsert r f hf).find? k = some (((t.find? k).map f).getD r) := by
  subst hk
  unfold upsert
  split
  next h =>
    rw [h]
    unfold find? at h ⊢
    rw [List.find?_append, h]
    simp
  next h =>
    obtain ⟨x, hx⟩ := Option.ne_none_iff_exists'.mp h
    rw [find?_modify_self, hx]
    rfl

theorem find?_upsert_of_ne {k : K} (t : Table K R key) {r : R} (h : key r ≠ k) :
    (t.upsert r f hf).find? k = t.find? k := by
  unfold upsert
  split
  · unfold find?
    rw [List.find?_append]
    simp [h]
  · exact find?_modify_of_ne t (Ne.symm h)

/-- A row under a new key comes last. -/
theorem rows_upsert_of_none {t : Table K R key} {r : R} (h : t.find? (key r) = none) :
    (t.upsert r f hf).rows = t.rows ++ [r] := by
  rw [upsert, dif_pos h]

/-- A row under a known key changes the row there. -/
theorem length_upsert_of_ne_none {t : Table K R key} {r : R} (h : t.find? (key r) ≠ none) :
    (t.upsert r f hf).rows.length = t.rows.length := by
  rw [upsert, dif_neg h]
  exact List.length_map _

/-- What an update keeps of a row holds of every row after it. -/
theorem forall_modify {t : Table K R key} {k : K} {P : R → Prop} (h : ∀ r ∈ t.rows, P r)
    (hP : ∀ r, P r → P (f r)) : ∀ r ∈ (t.modify k f hf).rows, P r := by
  intro r hr
  obtain ⟨r₀, hr₀, rfl⟩ := List.mem_map.mp hr
  split
  · exact hP r₀ (h r₀ hr₀)
  · exact h r₀ hr₀

/-- .. and of the row put in. -/
theorem forall_upsert {t : Table K R key} {r : R} {P : R → Prop} (h : ∀ r ∈ t.rows, P r)
    (hr : P r) (hP : ∀ r, P r → P (f r)) : ∀ r' ∈ (t.upsert r f hf).rows, P r' := by
  unfold upsert
  split
  · intro r' hr'
    rcases List.mem_append.mp hr' with hr' | hr'
    · exact h r' hr'
    · rwa [List.mem_singleton.mp hr']
  · exact forall_modify h hP

/-- A row after an upsert: another one, the row put in, or the one that was
updated. -/
theorem mem_upsert {t : Table K R key} {r r' : R} (h : r' ∈ (t.upsert r f hf).rows) :
    (r' ∈ t.rows ∧ key r' ≠ key r) ∨ r' = r ∨ ∃ r₀ ∈ t.rows, key r₀ = key r ∧ r' = f r₀ := by
  unfold upsert at h
  split at h
  next hnone =>
    rcases List.mem_append.mp h with h | h
    · have hne : key r' ≠ key r := fun heq =>
        find?_eq_none.mp hnone (heq ▸ List.mem_map_of_mem h)
      exact Or.inl ⟨h, hne⟩
    · exact Or.inr (Or.inl (List.mem_singleton.mp h))
  next =>
    obtain ⟨r₀, hr₀, rfl⟩ := List.mem_map.mp h
    split
    next heq => exact Or.inr (Or.inr ⟨r₀, hr₀, heq, rfl⟩)
    next hne => exact Or.inl ⟨hr₀, hne⟩

end Updates

end Table

-- ====================================================== ordered queries

/-- What is not behind an element of the first `n` is one of them. -/
theorem mem_take_of_pairwise {α : Type} {R : α → α → Prop} {l : List α} {n : Nat} {a b : α}
    (h : l.Pairwise R) (ha : a ∈ l) (hb : b ∈ l.take n) (hba : ¬ R b a) : a ∈ l.take n := by
  rw [← List.take_append_drop n l] at ha h
  rcases List.mem_append.mp ha with ha | ha
  · exact ha
  · exact absurd ((List.pairwise_append.mp h).2.2 b hb a ha) hba

section Groups

variable {α : Type} {l : List α} {n : Nat} {f : α → Nat} {a b : α}

/-- The group of an element that the first `n` leave out while they reach it:
fewer than `n` come before the group, and more than `n` with it. -/
theorem group_cut (h : l.Pairwise fun a b => f a ≤ f b) (ha : a ∈ l) (hout : a ∉ l.take n)
    (hb : b ∈ l.take n) (hab : f a ≤ f b) :
    (l.countP fun x => f x < f a) < n ∧ n < l.countP fun x => f x ≤ f a := by
  have hsplit := List.take_append_drop n l
  have hdrop : a ∈ l.drop n := by
    rw [← hsplit] at ha
    exact (List.mem_append.mp ha).resolve_left hout
  have hlen : (l.take n).length = n := by
    have hpos := List.length_pos_of_mem hdrop
    rw [List.length_drop] at hpos
    exact List.length_take_of_le (by omega)
  have hcross : ∀ x ∈ l.take n, ∀ y ∈ l.drop n, f x ≤ f y := by
    rw [← hsplit] at h
    exact (List.pairwise_append.mp h).2.2
  have hbelow : (l.drop n).countP (fun x => f x < f a) = 0 := by
    refine List.countP_eq_zero.mpr fun x hx => ?_
    have hle := hcross b hb x hx
    simp only [decide_eq_true_eq]
    omega
  have hupTo : (l.take n).countP (fun x => f x ≤ f a) = n := by
    refine Eq.trans ?_ hlen
    exact List.countP_eq_length.mpr fun x hx => decide_eq_true (hcross x hx a hdrop)
  have hfirst : (l.take n).countP (fun x => f x < f a) < (l.take n).length := by
    refine Nat.lt_of_le_of_ne List.countP_le_length fun heq => ?_
    have hlt := of_decide_eq_true (List.countP_eq_length.mp heq b hb)
    omega
  have hlast : 0 < (l.drop n).countP fun x => f x ≤ f a :=
    List.countP_pos_iff.mpr ⟨a, hdrop, decide_eq_true (Nat.le_refl _)⟩
  constructor
  · rw [← hsplit, List.countP_append, hbelow]
    omega
  · rw [← hsplit, List.countP_append, hupTo]
    omega

/-- .. and such a group there is only where the first `n` reach one and leave
some of it out. -/
theorem exists_of_group_cut {h : Nat} (hbelow : (l.countP fun x => f x < h) < n)
    (hupTo : n < l.countP fun x => f x ≤ h) :
    (∃ b ∈ l.take n, h ≤ f b) ∧ ∃ a ∈ l.drop n, f a ≤ h := by
  have hsplit := List.take_append_drop n l
  have hlen : (l.take n).length = n := by
    refine List.length_take_of_le ?_
    exact Nat.le_trans (Nat.le_of_lt hupTo) List.countP_le_length
  constructor
  · by_contra hnone
    have hall : (l.take n).countP (fun x => f x < h) = (l.take n).length := by
      refine List.countP_eq_length.mpr fun x hx => decide_eq_true ?_
      exact Nat.lt_of_not_le fun hle => hnone ⟨x, hx, hle⟩
    rw [← hsplit, List.countP_append, hall, hlen] at hbelow
    omega
  · by_contra hnone
    have hzero : (l.drop n).countP (fun x => f x ≤ h) = 0 := by
      refine List.countP_eq_zero.mpr fun x hx hle => ?_
      exact hnone ⟨x, hx, of_decide_eq_true hle⟩
    have hle : (l.take n).countP (fun x => f x ≤ h) ≤ (l.take n).length :=
      List.countP_le_length
    rw [← hsplit, List.countP_append, hzero] at hupTo
    omega

end Groups

end Lib
