/-
Running an iterator to its end.

A hand-written iterator is a state and a `next` function that yields an
item and the next state, or stops. `unfold` runs it on explicit fuel, so
the item list stays computable; a measure that every yield decreases
makes the fuel irrelevant (`unfold_fuel`). `collect` and `final` are the
items and the last state of the run whose fuel is that measure, and
everything above reasons with their unrolling equations and never sees
fuel again.
-/
import Mathlib.Data.List.Basic

namespace Lib

variable {σ α : Type*}

/-- The items `next` yields from `s` in at most `fuel` steps, and the
state it is left in. -/
def unfold (next : σ → Option (α × σ)) : Nat → σ → List α × σ
  | 0, s => ([], s)
  | fuel + 1, s =>
      match next s with
      | none => ([], s)
      | some (a, s') =>
          let r := unfold next fuel s'
          (a :: r.1, r.2)

/-- Every yield strictly decreases the measure. -/
def Decreasing (next : σ → Option (α × σ)) (μ : σ → Nat) : Prop :=
  ∀ s a s', next s = some (a, s') → μ s' < μ s

/-- Everything the iterator yields: the measure of the start state is
fuel enough. -/
def collect (next : σ → Option (α × σ)) (μ : σ → Nat) (s : σ) : List α :=
  (unfold next (μ s) s).1

/-- The state in which the iterator stops. -/
def final (next : σ → Option (α × σ)) (μ : σ → Nat) (s : σ) : σ :=
  (unfold next (μ s) s).2

variable {next : σ → Option (α × σ)} {μ : σ → Nat}

theorem unfold_none {s : σ} (hn : next s = none) (n : Nat) :
    unfold next n s = ([], s) := by
  cases n <;> simp [unfold, hn]

/-- Fuel above the measure changes nothing: a run never has more steps
than its measure. -/
theorem unfold_fuel (hμ : Decreasing next μ) :
    ∀ (n : Nat) (s : σ), μ s ≤ n → unfold next n s = unfold next (μ s) s := by
  intro n
  induction n using Nat.strongRecOn with
  | _ n ih =>
      intro s hs
      cases hn : next s with
      | none => rw [unfold_none hn, unfold_none hn]
      | some p =>
          obtain ⟨a, s'⟩ := p
          have hlt : μ s' < μ s := hμ s a s' hn
          obtain ⟨m, hm⟩ : ∃ m, μ s = m + 1 := ⟨μ s - 1, by omega⟩
          obtain ⟨k, rfl⟩ : ∃ k, n = k + 1 := ⟨n - 1, by omega⟩
          rw [hm]
          simp only [unfold, hn]
          rw [ih k (by omega) s' (by omega), ih m (by omega) s' (by omega)]

/-- One unrolling of a run that yields. -/
theorem unfold_some (hμ : Decreasing next μ) {s s' : σ} {a : α}
    (hn : next s = some (a, s')) :
    unfold next (μ s) s
      = (a :: (unfold next (μ s') s').1, (unfold next (μ s') s').2) := by
  have hlt : μ s' < μ s := hμ s a s' hn
  obtain ⟨m, hm⟩ : ∃ m, μ s = m + 1 := ⟨μ s - 1, by omega⟩
  rw [hm]
  simp only [unfold, hn]
  rw [unfold_fuel hμ m s' (by omega)]

theorem collect_none {s : σ} (hn : next s = none) : collect next μ s = [] := by
  rw [collect, unfold_none hn]

theorem collect_some (hμ : Decreasing next μ) {s s' : σ} {a : α}
    (hn : next s = some (a, s')) :
    collect next μ s = a :: collect next μ s' := by
  rw [collect, unfold_some hμ hn, collect]

theorem final_none {s : σ} (hn : next s = none) : final next μ s = s := by
  rw [final, unfold_none hn]

theorem final_some (hμ : Decreasing next μ) {s s' : σ} {a : α}
    (hn : next s = some (a, s')) : final next μ s = final next μ s' := by
  rw [final, unfold_some hμ hn, final]

/-- Induction along a run: what holds where the iterator stops and is
carried back over each yield holds of every state. -/
theorem run_induction (hμ : Decreasing next μ) {P : σ → Prop}
    (stop : ∀ s, next s = none → P s)
    (yield : ∀ s a s', next s = some (a, s') → P s' → P s) (s : σ) :
    P s := by
  induction hk : μ s using Nat.strongRecOn generalizing s with
  | _ k ih =>
      cases hn : next s with
      | none => exact stop s hn
      | some p =>
          obtain ⟨a, s'⟩ := p
          have hlt : μ s' < μ s := hμ s a s' hn
          exact yield s a s' hn (ih (μ s') (by omega) s' rfl)

-- ============================================================= reach

/-- The states a run passes through. -/
inductive Reach (next : σ → Option (α × σ)) (s : σ) : σ → Prop
  | refl : Reach next s s
  | step {t t' : σ} {a : α} :
      Reach next s t → next t = some (a, t') → Reach next s t'

theorem Reach.head {s t u : σ} {a : α} (hn : next s = some (a, t))
    (h : Reach next t u) : Reach next s u := by
  induction h with
  | refl => exact .step .refl hn
  | step _ hn' ih => exact .step ih hn'

/-- The items of a run are what it yields at the states it reaches. -/
theorem mem_collect_iff (hμ : Decreasing next μ) {s : σ} {x : α} :
    x ∈ collect next μ s ↔ ∃ t t', Reach next s t ∧ next t = some (x, t') := by
  constructor
  · refine run_induction hμ (P := fun s => x ∈ collect next μ s →
      ∃ t t', Reach next s t ∧ next t = some (x, t')) ?_ ?_ s
    · intro s hn hx
      rw [collect_none hn] at hx
      cases hx
    · intro s a s' hn ih hx
      rw [collect_some hμ hn] at hx
      rcases List.mem_cons.mp hx with rfl | hx
      · exact ⟨s, s', .refl, hn⟩
      · obtain ⟨t, t', hr, ht⟩ := ih hx
        exact ⟨t, t', hr.head hn, ht⟩
  · rintro ⟨t, t', hr, ht⟩
    have hlast : x ∈ collect next μ t := by
      rw [collect_some hμ ht]
      exact List.mem_cons_self
    clear ht
    induction hr with
    | refl => exact hlast
    | step _ hn ih =>
        apply ih
        rw [collect_some hμ hn]
        exact List.mem_cons_of_mem _ hlast

/-- The state after `n` yields, if there are that many. -/
def after (next : σ → Option (α × σ)) : Nat → σ → Option σ
  | 0, s => some s
  | n + 1, s =>
      match next s with
      | none => none
      | some (_, s') => after next n s'

/-- No run has more yields than its measure. -/
theorem after_eq_none (hμ : Decreasing next μ) :
    ∀ {n : Nat} {s : σ}, μ s < n → after next n s = none := by
  intro n
  induction n with
  | zero => intro s h; omega
  | succ n ih =>
      intro s h
      cases hn : next s with
      | none => simp [after, hn]
      | some p =>
          obtain ⟨a, s'⟩ := p
          have hlt := hμ s a s' hn
          simp only [after, hn]
          exact ih (by omega)

end Lib
