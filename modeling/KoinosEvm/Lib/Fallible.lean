/-
Computations that may fail, in `Except`.

A sequence is taken apart by `bind_ok` or `bind_error`, a loop by `mapM_ok` or
`foldlM_ok`: what every round that succeeds keeps holds at the end.
-/
namespace Lib

section Fallible

variable {α β ε σ : Type}

/-- What came before a success succeeded. -/
theorem bind_ok {x : Except ε α} {f : α → Except ε β} {b : β}
    (h : (x >>= f) = .ok b) : ∃ a, x = .ok a ∧ f a = .ok b := by
  cases x with
  | error e => cases h
  | ok a => exact ⟨a, rfl, h⟩

/-- A sequence that failed failed in its first part or behind it. -/
theorem bind_error {x : Except ε α} {f : α → Except ε β} {e : ε}
    (h : (x >>= f) = .error e) : x = .error e ∨ ∃ a, x = .ok a ∧ f a = .error e := by
  cases x with
  | error e' =>
      cases h
      exact .inl rfl
  | ok a => exact .inr ⟨a, rfl, h⟩

/-- What it came to, it came to without an error. -/
theorem ok_of_toOption {x : Except ε α} {a : α} (h : x.toOption = some a) : x = .ok a := by
  cases x with
  | error e => cases h
  | ok b =>
      cases h
      rfl

/-- A loop without an error. -/
theorem mapM_ok {f : α → Except ε β} {g : α → β} {xs : List α}
    (h : ∀ x ∈ xs, f x = .ok (g x)) : xs.mapM f = .ok (xs.map g) := by
  induction xs with
  | nil => rfl
  | cons x xs ih =>
      rw [List.mapM_cons, h x List.mem_cons_self, ih fun x hx => h x (List.mem_cons_of_mem _ hx)]
      rfl

/-- What each round keeps, a loop keeps. -/
theorem foldlM_ok (Inv : σ → Prop) {f : σ → α → Except ε σ}
    (hstep : ∀ s a s', Inv s → f s a = .ok s' → Inv s') {xs : List α} {s s' : σ}
    (hs : Inv s) (h : xs.foldlM f s = .ok s') : Inv s' := by
  induction xs generalizing s with
  | nil =>
      cases h
      exact hs
  | cons a xs ih =>
      rw [List.foldlM_cons] at h
      obtain ⟨s₁, hs₁, hrest⟩ := bind_ok h
      exact ih (hstep s a s₁ hs hs₁) hrest

/-- One round more. -/
theorem foldlM_concat_ok {f : σ → α → Except ε σ} {xs : List α} {a : α} {s s₁ s₂ : σ}
    (h : xs.foldlM f s = .ok s₁) (ha : f s₁ a = .ok s₂) :
    (xs ++ [a]).foldlM f s = .ok s₂ := by
  rw [List.foldlM_append, h]
  show [a].foldlM f s₁ = _
  rw [List.foldlM_cons, ha]
  rfl

end Fallible

end Lib
