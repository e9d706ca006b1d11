/-
A lock and a counter that parties share.

`GateMove` is what a step of one party may do to the lock, by whether the
party is inside before and after it. Where every step is such a move, a
party that is inside has the lock (`Guarded.move`), so no two are
(`Guarded.eq`). `CountMove` is the same of a counter of parties: it stays
the number of those that count (`countMove_set`).

Parties are numbered as they come: `any_append`, `any_set` and
`getElem?_set_cases` say what is so of one after another has come or taken a
step.
-/
import Mathlib.Data.List.Basic

namespace Lib

-- ================================================================ the lock

section Gate

variable {P : Type} {holds holds' : P → Bool} {gate gate' : Option P}

/-- A step of `me`, inside before and after it or not, and the lock. -/
inductive GateMove (me : P) : Bool → Bool → Option P → Option P → Prop
  | keep {inside : Bool} {gate : Option P} : GateMove me inside inside gate gate
  | take : GateMove me false true none (some me)
  | release {gate : Option P} : GateMove me true false gate none

/-- Who is inside has the lock. -/
def Guarded (holds : P → Bool) (gate : Option P) : Prop :=
  ∀ p, holds p = true → gate = some p

/-- Only one party is inside. -/
theorem Guarded.eq {p q : P} (h : Guarded holds gate) (hp : holds p = true)
    (hq : holds q = true) : p = q :=
  Option.some.inj ((h p hp).symm.trans (h q hq))

/-- A move of one party keeps the lock guarded. -/
theorem Guarded.move (h : Guarded holds gate) (me : P)
    (hmove : GateMove me (holds me) (holds' me) gate gate')
    (hother : ∀ p, p ≠ me → holds' p = holds p) : Guarded holds' gate' := by
  intro p hp
  generalize hbefore : holds me = before at hmove
  generalize hafter : holds' me = after at hmove
  cases hmove with
  | keep =>
      by_cases hme : p = me
      · subst hme
        exact h p (hbefore.trans (hafter.symm.trans hp))
      · exact h p ((hother p hme).symm.trans hp)
  | take =>
      by_cases hme : p = me
      · rw [hme]
      · cases h p ((hother p hme).symm.trans hp)
  | release =>
      by_cases hme : p = me
      · rw [hme, hafter] at hp
        cases hp
      · exact absurd (h.eq ((hother p hme).symm.trans hp) hbefore) hme

end Gate

-- ============================================================= the counter

/-- A step of a party that counts before and after it or not, and the
counter. -/
inductive CountMove : Bool → Bool → Nat → Nat → Prop
  | keep {counts n} : CountMove counts counts n n
  | up {n} : CountMove false true n (n + 1)
  | down {n} : CountMove true false n (n - 1)

theorem CountMove.eq_of_same {counts : Bool} {n n' : Nat}
    (h : CountMove counts counts n n') : n' = n := by
  cases h
  rfl

section Count

variable {T : Type} {counts : T → Bool} {xs : List T} {i : Nat} {x y : T} {n n' : Nat}

/-- The counter is the number of those that count. -/
theorem countMove_set (h : n = xs.countP counts) (hx : xs[i]? = some x)
    (hmove : CountMove (counts x) (counts y) n n') : n' = (xs.set i y).countP counts := by
  obtain ⟨hlt, hget⟩ := List.getElem?_eq_some_iff.mp hx
  have hmem : x ∈ xs := List.mem_of_getElem? hx
  rw [List.countP_set hlt, hget, ← h]
  generalize hbefore : counts x = before at hmove
  generalize hafter : counts y = after at hmove
  cases hmove with
  | keep =>
      cases before with
      | false => rfl
      | true =>
          have hpos : 0 < xs.countP counts := List.countP_pos_iff.mpr ⟨x, hmem, hbefore⟩
          simp only [if_true]
          omega
  | up => rfl
  | down => rfl

/-- What one step changes of a count. -/
theorem countP_set_add (counts : T → Bool) (hx : xs[i]? = some x) :
    (xs.set i y).countP counts + (counts x).toNat = xs.countP counts + (counts y).toNat := by
  obtain ⟨hlt, hget⟩ := List.getElem?_eq_some_iff.mp hx
  have hpos : counts x = true → 0 < xs.countP counts := fun h =>
    List.countP_pos_iff.mpr ⟨x, List.mem_of_getElem? hx, h⟩
  rw [List.countP_set hlt, hget]
  cases hbefore : counts x with
  | false =>
      cases counts y <;> simp
  | true =>
      have hpos := hpos hbefore
      cases counts y <;> simp <;> omega

-- ============================================================== the parties

/-- One that comes and is not `p` makes no party `p`. -/
theorem any_append (p : T → Bool) (hx : p x = false) (k : Nat) :
    ((xs ++ [x])[k]?).any p = (xs[k]?).any p := by
  by_cases hlt : k < xs.length
  · rw [List.getElem?_append_left hlt]
  · rw [List.getElem?_append_right (Nat.le_of_not_lt hlt),
      List.getElem?_eq_none (Nat.le_of_not_lt hlt)]
    cases k - xs.length with
    | zero => exact hx
    | succ m => rfl

/-- A step of one party changes what is so of that party alone. -/
theorem any_set (p : T → Bool) (hx : xs[i]? = some x) (k : Nat) :
    ((xs.set i y)[k]?).any p = if k = i then p y else (xs[k]?).any p := by
  split
  next hk =>
    subst hk
    rw [List.getElem?_set_self (List.getElem?_eq_some_iff.mp hx).1]
    rfl
  next hk => rw [List.getElem?_set_ne (Ne.symm hk)]

/-- A party after that step: the one that took it, or as it was. -/
theorem getElem?_set_cases {k : Nat} {z : T} (hx : xs[i]? = some x)
    (hk : (xs.set i y)[k]? = some z) : (k = i ∧ z = y) ∨ (k ≠ i ∧ xs[k]? = some z) := by
  by_cases hki : k = i
  · rw [hki, List.getElem?_set_self (List.getElem?_eq_some_iff.mp hx).1] at hk
    exact Or.inl ⟨hki, (Option.some.inj hk).symm⟩
  · rw [List.getElem?_set_ne (Ne.symm hki)] at hk
    exact Or.inr ⟨hki, hk⟩

/-- What is so of all and of the one after its step is so of all after it. -/
theorem forall_mem_set {p : T → Prop} (hxs : ∀ z ∈ xs, p z) (hy : p y) : ∀ z ∈ xs.set i y, p z := by
  intro z hz
  rcases List.mem_or_eq_of_mem_set hz with hz | rfl
  · exact hxs z hz
  · exact hy

/-- One that is not where the step was taken is still there. -/
theorem mem_set_ne {z : T} (hx : xs[i]? = some x) (hz : z ∈ xs) (hne : z ≠ x) :
    z ∈ xs.set i y := by
  obtain ⟨k, hk⟩ := List.getElem?_of_mem hz
  have hki : i ≠ k := by
    rintro rfl
    exact hne (Option.some.inj (hk.symm.trans hx))
  refine List.mem_of_getElem? (i := k) ?_
  rw [List.getElem?_set_ne hki, hk]

end Count

end Lib
