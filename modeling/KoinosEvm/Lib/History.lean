/-
Histories of labelled steps.

A system goes from state to state, and every step carries a label: a call
and its reply, say. `History step a ls b` says that the labels `ls`, in this
order, take the system from `a` to `b`. A history is taken apart at any of
its labels (`history_split`), a relation that every step respects is respected
from end to end (`History.relates`), and a step that a second system can copy
is copied over a whole history (`History.simulates`).
-/
import Mathlib.Data.List.Basic

namespace Lib

section History

variable {σ τ Label : Type*}

/-- The labels take one state to another. -/
inductive History (step : σ → Label → σ → Prop) : σ → List Label → σ → Prop
  | nil {a : σ} : History step a [] a
  | cons {a b c : σ} {l : Label} {ls : List Label} :
      step a l b → History step b ls c → History step a (l :: ls) c

variable {step : σ → Label → σ → Prop} {a b : σ} {xs ys : List Label}

theorem history_append :
    History step a (xs ++ ys) b ↔ ∃ mid, History step a xs mid ∧ History step mid ys b := by
  induction xs generalizing a with
  | nil =>
      refine ⟨fun h => ⟨a, .nil, h⟩, ?_⟩
      intro h
      obtain ⟨mid, h₁, h₂⟩ := h
      cases h₁
      exact h₂
  | cons x xs ih =>
      refine ⟨?_, ?_⟩
      · intro h
        cases h with
        | cons hx h =>
            obtain ⟨mid, h₁, h₂⟩ := ih.mp h
            exact ⟨mid, .cons hx h₁, h₂⟩
      · intro h
        obtain ⟨mid, h₁, h₂⟩ := h
        cases h₁ with
        | cons hx h₁ => exact .cons hx (ih.mpr ⟨mid, h₁, h₂⟩)

/-- A history, at one of its labels. -/
theorem history_split {l : Label} :
    History step a (xs ++ l :: ys) b ↔
      ∃ before after, History step a xs before ∧ step before l after ∧
        History step after ys b := by
  rw [history_append]
  refine ⟨?_, ?_⟩
  · intro h
    obtain ⟨before, h₁, h₂⟩ := h
    cases h₂ with
    | cons hl h₂ => exact ⟨before, _, h₁, hl, h₂⟩
  · intro h
    obtain ⟨before, after, h₁, hl, h₂⟩ := h
    exact ⟨before, h₁, .cons hl h₂⟩

/-- A relation that can be chained and that every step respects. -/
theorem History.relates {R : σ → σ → Prop} (h : History step a xs b) (hrefl : ∀ a, R a a)
    (htrans : ∀ a b c, R a b → R b c → R a c) (hstep : ∀ a l b, step a l b → R a b) :
    R a b := by
  induction h with
  | nil => exact hrefl _
  | cons hl _ ih => exact htrans _ _ _ (hstep _ _ _ hl) ih

/-- Steps that a second system copies, label by label. -/
theorem History.simulates {Label' : Type*} {step' : τ → Label' → τ → Prop} (f : σ → τ)
    (g : Label → Label') (hstep : ∀ a l b, step a l b → step' (f a) (g l) (f b))
    (h : History step a xs b) : History step' (f a) (xs.map g) (f b) := by
  induction h with
  | nil => exact .nil
  | cons hl _ ih => exact .cons (hstep _ _ _ hl) ih

end History

end Lib
