/-
Lists of keyed writes.

A map is updated by a list of writes, one after the other (`applyAll`).
A key that is not written is as before (`applyAll_notMem`); of the writes
to a key the last one counts (`applyAll_last`). Where they agree
(`AgreeAt`), what they write is what is read back (`applyAll_mem`). Where
they agree at every key (`Agreeing`), only the members of the list count,
and their order does not (`applyAll_congr`).
-/
import Mathlib.Logic.Function.Basic
import Mathlib.Data.List.Induction

namespace Lib

section Writes

variable {K V : Type*}

/-- The writes to `k` all write one value. -/
def AgreeAt (writes : List (K × V)) (k : K) : Prop :=
  ∀ x ∈ writes, ∀ y ∈ writes, x.1 = k → y.1 = k → x.2 = y.2

/-- No key is written with two values. -/
def Agreeing (writes : List (K × V)) : Prop := ∀ k, AgreeAt writes k

theorem AgreeAt.sub {writes writes' : List (K × V)} {k : K} (h : AgreeAt writes k)
    (hsub : ∀ w ∈ writes', w ∈ writes) : AgreeAt writes' k :=
  fun x hx y hy => h x (hsub x hx) y (hsub y hy)

variable [DecidableEq K]

/-- A map after a list of writes, in order. -/
def applyAll (writes : List (K × V)) (map : K → V) : K → V :=
  writes.foldl (fun m w => Function.update m w.1 w.2) map

@[simp] theorem applyAll_nil (map : K → V) : applyAll [] map = map := rfl

@[simp] theorem applyAll_cons (w : K × V) (writes : List (K × V)) (map : K → V) :
    applyAll (w :: writes) map = applyAll writes (Function.update map w.1 w.2) := rfl

theorem applyAll_append (xs ys : List (K × V)) (map : K → V) :
    applyAll (xs ++ ys) map = applyAll ys (applyAll xs map) := List.foldl_append

/-- A key that is not written. -/
theorem applyAll_notMem {writes : List (K × V)} {k : K} (h : ∀ w ∈ writes, w.1 ≠ k)
    (map : K → V) : applyAll writes map k = map k := by
  induction writes generalizing map with
  | nil => rfl
  | cons w writes ih =>
      rw [List.forall_mem_cons] at h
      rw [applyAll_cons, ih h.2]
      exact Function.update_of_ne (Ne.symm h.1) _ _

/-- The last write to a key is what it holds. -/
theorem applyAll_last (writes : List (K × V)) (w : K × V) {later : List (K × V)}
    (h : ∀ x ∈ later, x.1 ≠ w.1) (map : K → V) :
    applyAll (writes ++ w :: later) map w.1 = w.2 := by
  rw [applyAll_append, applyAll_cons, applyAll_notMem h, Function.update_self]

/-- A key that is written holds what was written to it. -/
theorem applyAll_mem {writes : List (K × V)} {w : K × V} (h : AgreeAt writes w.1)
    (hw : w ∈ writes) (map : K → V) : applyAll writes map w.1 = w.2 := by
  induction writes using List.reverseRecOn with
  | nil => cases hw
  | append_singleton writes x ih =>
      rw [applyAll_append, applyAll_cons, applyAll_nil]
      by_cases hkey : w.1 = x.1
      · rw [hkey, Function.update_self]
        exact h x (List.mem_append_right _ (List.mem_singleton_self x)) w hw hkey.symm rfl
      · rw [Function.update_of_ne hkey]
        refine ih (h.sub fun _ => List.mem_append_left _) ?_
        rcases List.mem_append.mp hw with hw | hw
        · exact hw
        · exact absurd (congrArg Prod.fst (List.mem_singleton.mp hw)) hkey

/-- Lists with the same writes have the same effect. -/
theorem applyAll_congr {writes writes' : List (K × V)} (h : Agreeing writes)
    (hmem : ∀ w, w ∈ writes ↔ w ∈ writes') (map : K → V) :
    applyAll writes map = applyAll writes' map := by
  funext k
  by_cases hk : ∃ w ∈ writes, w.1 = k
  · obtain ⟨w, hw, rfl⟩ := hk
    rw [applyAll_mem (h w.1) hw,
      applyAll_mem ((h w.1).sub fun x hx => (hmem x).mpr hx) ((hmem w).mp hw)]
  · rw [applyAll_notMem fun w hw hwk => hk ⟨w, hw, hwk⟩,
      applyAll_notMem fun w hw hwk => hk ⟨w, (hmem w).mpr hw, hwk⟩]

end Writes

end Lib
