/-
Token buckets, and systems that are metered by one.

A bucket holds at most `cap` tokens and gains `rate` of them in a unit of time
(`refill`). A system whose grants are paid from such a level (`Metered`), be
the level kept in its state or only implied by it, grants in a window of
length `T` at most `cap + T * rate` (`Metered.granted_le`): the level when the
window begins and what it gains until the window ends.
-/
import Mathlib.Algebra.Order.Field.Basic
import Mathlib.Tactic.Linarith
import Mathlib.Tactic.Ring

namespace Lib

-- ================================================================= refilling

section Refill

variable {K : Type} [Field K] [LinearOrder K]

/-- The tokens after some time. -/
def refill (cap rate tokens elapsed : K) : K := min (tokens + elapsed * rate) cap

variable {cap rate tokens elapsed : K}

theorem refill_le_cap : refill cap rate tokens elapsed ≤ cap := min_le_right _ _

theorem refill_zero (h : tokens ≤ cap) : refill cap rate tokens 0 = tokens := by
  rw [refill, zero_mul, add_zero]
  exact min_eq_left h

variable [IsStrictOrderedRing K]

theorem refill_nonneg (hcap : 0 ≤ cap) (hrate : 0 ≤ rate) (htokens : 0 ≤ tokens)
    (helapsed : 0 ≤ elapsed) : 0 ≤ refill cap rate tokens elapsed :=
  le_min (add_nonneg htokens (mul_nonneg helapsed hrate)) hcap

/-- More time gives no more tokens than come in it. -/
theorem refill_add_le {more : K} (hrate : 0 ≤ rate) (hmore : 0 ≤ more) :
    refill cap rate tokens (elapsed + more) ≤ refill cap rate tokens elapsed + more * rate := by
  have hgain : 0 ≤ more * rate := mul_nonneg hmore hrate
  rw [refill, refill, ← min_add_add_right, add_mul, ← add_assoc]
  exact min_le_min le_rfl (le_add_of_nonneg_right hgain)

/-- A bucket that has been left long enough is full, whatever was in it. -/
theorem refill_full (htokens : 0 ≤ tokens) (h : cap ≤ elapsed * rate) :
    refill cap rate tokens elapsed = cap :=
  min_eq_right (h.trans (le_add_of_nonneg_left htokens))

end Refill

-- =============================================================== ordered runs

section Runs

variable {S A K : Type}

/-- What a run grants for the acts that count. -/
def granted [Zero K] [Add K] (step : S → A → S × K) (counts : A → Prop)
    [DecidablePred counts] : S → List A → K
  | _, [] => 0
  | s, a :: acts =>
      (if counts a then (step s a).2 else 0) + granted step counts (step s a).1 acts

/-- Acts that do not count add nothing. -/
theorem granted_eq_zero [AddMonoid K] {step : S → A → S × K} {counts : A → Prop}
    [DecidablePred counts] {s : S} {acts : List A} (h : ∀ a ∈ acts, ¬ counts a) :
    granted step counts s acts = 0 := by
  induction acts generalizing s with
  | nil => rfl
  | cons a acts ih =>
      obtain ⟨hhead, htail⟩ := List.forall_mem_cons.mp h
      rw [granted, if_neg hhead, ih htail, add_zero]

theorem granted_append [AddMonoid K] {step : S → A → S × K} {counts : A → Prop}
    [DecidablePred counts] {s : S} {xs ys : List A} :
    granted step counts s (xs ++ ys)
      = granted step counts s xs
        + granted step counts (xs.foldl (fun s a => (step s a).1) s) ys := by
  induction xs generalizing s with
  | nil => exact (zero_add _).symm
  | cons x xs ih => rw [List.cons_append, granted, granted, ih, List.foldl_cons, add_assoc]

/-- The acts come in the order of their times, from a time on. -/
def InOrder [LE K] (time : A → K) : K → List A → Prop
  | _, [] => True
  | t, a :: acts => t ≤ time a ∧ InOrder time (time a) acts

theorem InOrder.le [Preorder K] {time : A → K} {t : K} {acts : List A}
    (h : InOrder time t acts) : ∀ a ∈ acts, t ≤ time a := by
  induction acts generalizing t with
  | nil =>
      intro a ha
      cases ha
  | cons b acts ih =>
      intro a ha
      rcases List.mem_cons.mp ha with rfl | ha
      · exact h.1
      · exact h.1.trans (ih h.2 a ha)

theorem inOrder_of_pairwise [LE K] {time : A → K} {t : K} {acts : List A}
    (hfrom : ∀ a ∈ acts, t ≤ time a) (h : acts.Pairwise fun a b => time a ≤ time b) :
    InOrder time t acts := by
  induction acts generalizing t with
  | nil => trivial
  | cons a acts ih =>
      rw [List.pairwise_cons] at h
      exact ⟨hfrom a List.mem_cons_self, ih h.1 h.2⟩

end Runs

-- =========================================================== metered systems

section Metered

variable {S A K : Type} [Field K] [LinearOrder K]

/-- The grants of `mine` are paid from a level that gains `rate` in a unit of
time and is never above `cap`. The invariant is one of a state at a time. -/
structure Metered (step : S → A → S × K) (time : A → K) (mine : A → Prop)
    [DecidablePred mine] (Inv : S → K → Prop) (level : S → K → K) (cap rate : K) : Prop where
  later : ∀ {s t t'}, Inv s t → t ≤ t' → Inv s t'
  keeps : ∀ {s a}, Inv s (time a) → Inv (step s a).1 (time a)
  pays : ∀ {s a}, Inv s (time a) →
    (if mine a then (step s a).2 else 0) + level (step s a).1 (time a) ≤ level s (time a)
  rises : ∀ {s t t'}, Inv s t → t ≤ t' → level s t' ≤ level s t + (t' - t) * rate
  grants : ∀ s a, 0 ≤ (step s a).2
  nonneg : ∀ {s t}, Inv s t → 0 ≤ level s t
  bounded : ∀ {s t}, level s t ≤ cap

namespace Metered

variable [IsStrictOrderedRing K] {step : S → A → S × K} {time : A → K} {mine : A → Prop}
  [DecidablePred mine] {Inv : S → K → Prop} {level : S → K → K} {cap rate : K}

/-- What is granted until a time: the level now and what it gains until then. -/
theorem granted_until (hm : Metered step time mine Inv level cap rate) (hrate : 0 ≤ rate)
    {counts : A → Prop} [DecidablePred counts] {hi : K} (hmine : ∀ a, counts a → mine a)
    (hhi : ∀ a, counts a → time a ≤ hi) {s : S} {t : K} {acts : List A} (hinv : Inv s t)
    (horder : InOrder time t acts) (ht : t ≤ hi) :
    granted step counts s acts ≤ level s t + (hi - t) * rate := by
  induction acts generalizing s t with
  | nil => exact add_nonneg (hm.nonneg hinv) (mul_nonneg (sub_nonneg.mpr ht) hrate)
  | cons a acts ih =>
      obtain ⟨hta, hrest⟩ := horder
      have hnow := hm.later hinv hta
      rcases le_or_gt (time a) hi with hahi | hahi
      · have hlater := ih (hm.keeps hnow) hrest hahi
        have hrise := hm.rises hinv hta
        have hpay := hm.pays hnow
        have hgrant := hm.grants s a
        have hcount : (if counts a then (step s a).2 else 0)
            ≤ if mine a then (step s a).2 else 0 := by
          split
          next hc => rw [if_pos (hmine a hc)]
          next =>
            split
            · exact hgrant
            · exact le_rfl
        have hsplit : (hi - t) * rate = (time a - t) * rate + (hi - time a) * rate := by ring
        rw [granted, hsplit]
        linarith
      · -- nothing counts from here on
        have hnone : granted step counts s (a :: acts) = 0 := by
          refine granted_eq_zero fun b hb hc => absurd hahi (not_lt_of_ge ?_)
          rcases List.mem_cons.mp hb with rfl | hb
          · exact hhi b hc
          · exact (hrest.le b hb).trans (hhi b hc)
        rw [hnone]
        exact add_nonneg (hm.nonneg hinv) (mul_nonneg (sub_nonneg.mpr ht) hrate)

/-- What is granted in a window. -/
theorem granted_le (hm : Metered step time mine Inv level cap rate) (hrate : 0 ≤ rate)
    {s : S} {t T : K} {acts : List A} (hinv : Inv s t) (lo : K) (horder : InOrder time t acts)
    (hT : 0 ≤ T) :
    granted step (fun a => mine a ∧ lo ≤ time a ∧ time a ≤ lo + T) s acts ≤ cap + T * rate := by
  have hgain : 0 ≤ T * rate := mul_nonneg hT hrate
  have hcap : 0 ≤ cap + T * rate := add_nonneg ((hm.nonneg hinv).trans hm.bounded) hgain
  induction acts generalizing s t with
  | nil => exact hcap
  | cons a acts ih =>
      obtain ⟨hta, hrest⟩ := horder
      have hnow := hm.later hinv hta
      rcases lt_or_ge (time a) lo with hlo | hlo
      · rw [granted, if_neg fun h => absurd h.2.1 (not_le_of_gt hlo), zero_add]
        exact ih (hm.keeps hnow) hrest
      · rcases le_or_gt (time a) (lo + T) with hhi | hhi
        · -- the window has begun, with no more than `cap`
          have hrun : InOrder time (time a) (a :: acts) := ⟨le_rfl, hrest⟩
          have hmine : ∀ b, mine b ∧ lo ≤ time b ∧ time b ≤ lo + T → mine b := fun b hb => hb.1
          have hends : ∀ b, mine b ∧ lo ≤ time b ∧ time b ≤ lo + T → time b ≤ lo + T :=
            fun b hb => hb.2.2
          have huntil := hm.granted_until hrate hmine hends hnow hrun hhi
          have hlen : (lo + T - time a) * rate ≤ T * rate :=
            mul_le_mul_of_nonneg_right (by linarith) hrate
          exact huntil.trans (add_le_add hm.bounded hlen)
        · rw [granted_eq_zero]
          · exact hcap
          · intro b hb hc
            refine absurd hhi (not_lt_of_ge ?_)
            rcases List.mem_cons.mp hb with rfl | hb
            · exact hc.2.2
            · exact (hrest.le b hb).trans hc.2.2

end Metered

end Metered

end Lib
