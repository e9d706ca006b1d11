/-
Counters that only move up.

A system goes from state to state, and every key has a counter in every
state. A step spends the number `n` of a key if it finds the key's counter
at `n` and leaves it one further. Where no step of a run lowers a counter,
no number of a key is spent twice, however many steps lie between
(`spends_once`).
-/
import Mathlib.Data.List.Chain

namespace Lib

section Ratchet

variable {Step σ Key : Type} (before after : Step → σ) (count : σ → Key → Nat)

/-- Every step starts where the one in front of it ended. -/
def Linked (steps : List Step) : Prop := steps.IsChain fun s t => after s = before t

/-- The step lowers no counter. -/
def Keeps (s : Step) : Prop := ∀ key, count (before s) key ≤ count (after s) key

/-- The step spends the number `n` of `key`. -/
def Spends (s : Step) (key : Key) (n : Nat) : Prop :=
  count (before s) key = n ∧ count (after s) key = n + 1

variable {before after count}

/-- Along a run, a counter is never behind where an earlier step left it. -/
theorem counters_pairwise {steps : List Step} (hlinked : Linked before after steps)
    (hkeeps : ∀ s ∈ steps, Keeps before after count s) :
    steps.Pairwise fun s t => ∀ key, count (after s) key ≤ count (before t) key := by
  induction steps with
  | nil => exact .nil
  | cons s steps ih =>
      rw [List.forall_mem_cons] at hkeeps
      have hrest := ih hlinked.tail hkeeps.2
      refine .cons ?_ hrest
      cases steps with
      | nil => simp
      | cons next steps =>
          -- the neighbour starts there; whoever is behind it inherits that
          have hnext : after s = before next := hlinked.rel
          rw [List.forall_mem_cons] at hkeeps ⊢
          refine ⟨fun key => le_of_eq (by rw [hnext]), ?_⟩
          intro t ht key
          calc count (after s) key = count (before next) key := by rw [hnext]
            _ ≤ count (after next) key := hkeeps.2.1 key
            _ ≤ count (before t) key := (List.pairwise_cons.mp hrest).1 t ht key

/-- No number of a key is spent twice in a run. -/
theorem spends_once {steps : List Step} (hlinked : Linked before after steps)
    (hkeeps : ∀ s ∈ steps, Keeps before after count s) :
    steps.Pairwise fun s t => ∀ key n,
      Spends before after count s key n → ¬ Spends before after count t key n := by
  refine (counters_pairwise hlinked hkeeps).imp ?_
  intro s t hle key n hs ht
  have h := hle key
  rw [hs.2, ht.1] at h
  omega

end Ratchet

end Lib
