/-
Serving a backlog, least tried first.

The keys that wait are tried one at a time. A window of them is drawn up
when the last one is done with: in the order of their tries, and none left
out that has fewer (`IsWindow`). A try fails, and is counted, or its key
leaves; keys may leave at any time, and none come.

From equal tries on, the key whose turn it is has been tried no more often
than any that waits (`Even.turn`), whoever has left. What carries this is
that the tries of the keys behind it in the window lie between its own and
those of the keys outside (`Even`); so two keys that wait are never more
than one try apart (`Even.close`).
-/
import Mathlib.Data.Set.Basic

namespace Lib

/-- The keys that wait, with the tries counted for each, the rest of the
window, and the key whose try is under way. -/
structure Backlog (K : Type) where
  waiting : Set K
  tries : K → Nat
  window : List K
  trying : Option K

namespace Backlog

variable {K : Type}

/-- A window that may be drawn up. -/
structure IsWindow (b : Backlog K) (window : List K) : Prop where
  nodup : window.Nodup
  waiting : ∀ x ∈ window, x ∈ b.waiting
  sorted : window.Pairwise fun x y => b.tries x ≤ b.tries y
  leavesOut : ∀ x ∈ window, ∀ h ∈ b.waiting, h ∉ window → b.tries x ≤ b.tries h

/-- No key comes, and those that stay keep their tries, but for one more
where `failed` says so. -/
def Shrinks [DecidableEq K] (b b' : Backlog K) (failed : Option K) : Prop :=
  ∀ h ∈ b'.waiting, h ∈ b.waiting ∧ b'.tries h = b.tries h + if failed = some h then 1 else 0

/-- A step, under the key that it tries, if any. -/
inductive Step [DecidableEq K] (b : Backlog K) : Option K → Backlog K → Prop
  | leave {b' : Backlog K} (hshrinks : Shrinks b b' none) (hwindow : b'.window = b.window)
      (htrying : b'.trying = b.trying) : Step b none b'
  | draw {window : List K} (hdone : b.window = []) (hidle : b.trying = none)
      (hwindow : IsWindow b window) : Step b none { b with window := window }
  | turn {x : K} {rest : List K} (hwindow : b.window = x :: rest) (hidle : b.trying = none) :
      Step b (some x) { b with window := rest, trying := some x }
  | fail {x : K} {b' : Backlog K} (htrying : b.trying = some x)
      (hshrinks : Shrinks b b' (some x)) (hwindow : b'.window = b.window)
      (hidle : b'.trying = none) : Step b none b'
  | done {x : K} {b' : Backlog K} (htrying : b.trying = some x) (hgone : x ∉ b'.waiting)
      (hshrinks : Shrinks b b' none) (hwindow : b'.window = b.window)
      (hidle : b'.trying = none) : Step b none b'

variable [DecidableEq K]

-- ========================================================== the invariant

/-- The tries are those made since all were `k`, the one under way not
counted yet; and by the tries made (`served`) the keys are even. -/
structure Even (k : Nat) (served : List K) (b : Backlog K) : Prop where
  counted : ∀ h ∈ b.waiting,
    (b.tries h + if b.trying = some h then 1 else 0) = k + served.count h
  even : ∀ h ∈ b.waiting, ∀ g, served.count g ≤ served.count h + 1
  nodup : b.window.Nodup
  sorted : b.window.Pairwise fun x y => served.count x ≤ served.count y
  leavesOut : ∀ x ∈ b.window, ∀ h ∈ b.waiting, h ∉ b.window → served.count x ≤ served.count h
  most : ∀ x ∈ b.waiting, b.trying = some x → ∀ g, served.count g ≤ served.count x

namespace Even

variable {k : Nat} {served : List K} {b b' : Backlog K} {x : K}

/-- Nothing has been tried. -/
theorem start (hequal : ∀ h ∈ b.waiting, b.tries h = k) (hwindow : b.window = [])
    (hidle : b.trying = none) : Even k [] b where
  counted := by
    intro h hh
    rw [hequal h hh, hidle]
    rfl
  even := fun _ _ _ => Nat.zero_le _
  nodup := hwindow ▸ List.nodup_nil
  sorted := by
    rw [hwindow]
    exact List.Pairwise.nil
  leavesOut := by
    rw [hwindow]
    intro x hx
    cases hx
  most := by
    rw [hidle]
    intro x _ hx
    cases hx

/-- The key whose turn it is has been tried least. -/
theorem turn {rest : List K} (hinv : Even k served b) (hwindow : b.window = x :: rest) :
    ∀ h ∈ b.waiting, served.count x ≤ served.count h := by
  intro h hh
  have hx : x ∈ b.window := hwindow ▸ List.mem_cons_self
  by_cases hmem : h ∈ b.window
  · have hsorted := hinv.sorted
    rw [hwindow] at hsorted hmem
    rcases List.mem_cons.mp hmem with rfl | hmem
    · exact le_refl _
    · exact List.rel_of_pairwise_cons hsorted hmem
  · exact hinv.leavesOut x hx h hh hmem

/-- Keys that wait are at most one try apart. -/
theorem close (hinv : Even k served b) {h g : K} (hh : h ∈ b.waiting) (hg : g ∈ b.waiting) :
    b.tries h ≤ b.tries g + 1 := by
  have hcount := hinv.counted h hh
  have gcount := hinv.counted g hg
  have heven := hinv.even g hg h
  by_cases hgt : b.trying = some g
  · -- the one under way is not counted, but it makes `g` the most tried
    have hmost := hinv.most g hg hgt h
    rw [if_pos hgt] at gcount
    omega
  · rw [if_neg hgt] at gcount
    omega

/-- Where no key comes and the window stays, a try under way is counted, goes
on, or was one of a key that has left. -/
theorem shrinks {failed : Option K} (hinv : Even k served b) (hshrinks : Shrinks b b' failed)
    (hwindow : b'.window = b.window)
    (hcounts : ∀ h ∈ b'.waiting, ((if failed = some h then 1 else 0)
      + if b'.trying = some h then 1 else 0) = if b.trying = some h then 1 else 0)
    (htrying : ∀ h ∈ b'.waiting, b'.trying = some h → b.trying = some h) :
    Even k served b' where
  counted := by
    intro h hh
    obtain ⟨hold, htries⟩ := hshrinks h hh
    rw [htries, Nat.add_assoc, hcounts h hh]
    exact hinv.counted h hold
  even := fun h hh => hinv.even h (hshrinks h hh).1
  nodup := hwindow ▸ hinv.nodup
  sorted := hwindow ▸ hinv.sorted
  leavesOut := by
    rw [hwindow]
    exact fun x hx h hh => hinv.leavesOut x hx h (hshrinks h hh).1
  most := fun x hx ht => hinv.most x (hshrinks x hx).1 (htrying x hx ht)

/-- A window is in the order of the tries made as well. -/
theorem draw {window : List K} (hinv : Even k served b) (hidle : b.trying = none)
    (hwindow : IsWindow b window) : Even k served { b with window := window } where
  counted := hinv.counted
  even := hinv.even
  nodup := hwindow.nodup
  sorted := by
    refine hwindow.sorted.imp_of_mem ?_
    intro x y hx hy hle
    have xcount := hinv.counted x (hwindow.waiting x hx)
    have ycount := hinv.counted y (hwindow.waiting y hy)
    simp only [hidle, reduceCtorEq, if_false] at xcount ycount
    omega
  leavesOut := by
    intro x hx h hh hmem
    have hle := hwindow.leavesOut x hx h hh hmem
    have xcount := hinv.counted x (hwindow.waiting x hx)
    have hcount := hinv.counted h hh
    simp only [hidle, reduceCtorEq, if_false] at xcount hcount
    omega
  most := hinv.most

/-- The next key's turn. -/
theorem serve {rest : List K} (hinv : Even k served b) (hwindow : b.window = x :: rest)
    (hidle : b.trying = none) :
    Even k (x :: served) { b with window := rest, trying := some x } where
  counted := by
    intro h hh
    have hcount := hinv.counted h hh
    simp only [hidle, reduceCtorEq, if_false] at hcount
    simp only [List.count_cons, Option.some.injEq, beq_iff_eq]
    omega
  even := by
    intro h hh g
    have hturn := hinv.turn hwindow h hh
    have heven := hinv.even h hh g
    simp only [List.count_cons, beq_iff_eq]
    by_cases hg : x = g
    · subst hg
      rw [if_pos rfl]
      omega
    · rw [if_neg hg]
      omega
  nodup := by
    have hnodup := hinv.nodup
    rw [hwindow] at hnodup
    exact hnodup.of_cons
  sorted := by
    have hnodup := hinv.nodup
    have hsorted := hinv.sorted
    rw [hwindow] at hnodup hsorted
    refine hsorted.of_cons.imp_of_mem ?_
    intro y z hy hz hle
    have hxy : x ≠ y := fun heq => (List.nodup_cons.mp hnodup).1 (heq ▸ hy)
    have hxz : x ≠ z := fun heq => (List.nodup_cons.mp hnodup).1 (heq ▸ hz)
    rwa [List.count_cons_of_ne hxy, List.count_cons_of_ne hxz]
  leavesOut := by
    intro y hy h hh hmem
    have hnodup := hinv.nodup
    have hsorted := hinv.sorted
    rw [hwindow] at hnodup hsorted
    have hxy : x ≠ y := fun heq => (List.nodup_cons.mp hnodup).1 (heq ▸ hy)
    rw [List.count_cons_of_ne hxy]
    by_cases hxh : x = h
    · -- `x` has just had its turn, and waits on
      subst hxh
      rw [List.count_cons_self]
      exact hinv.even x hh y
    · rw [List.count_cons_of_ne hxh]
      refine hinv.leavesOut y (hwindow ▸ List.mem_cons_of_mem _ hy) h hh ?_
      rw [hwindow]
      intro hmem'
      rcases List.mem_cons.mp hmem' with heq | hmem'
      · exact hxh heq.symm
      · exact hmem hmem'
  most := by
    intro y hy hx g
    obtain rfl : x = y := Option.some.inj hx
    have heven := hinv.even x hy g
    rw [List.count_cons_self]
    by_cases hg : x = g
    · subst hg
      rw [List.count_cons_self]
    · rw [List.count_cons_of_ne hg]
      exact heven

/-- Every step keeps the keys even. -/
theorem step {tried : Option K} (hinv : Even k served b) (h : Step b tried b') :
    Even k (tried.toList ++ served) b' := by
  cases h with
  | leave hshrinks hwindow htrying =>
      refine hinv.shrinks hshrinks hwindow (fun h _ => ?_) fun h _ hx => htrying ▸ hx
      rw [htrying]
      exact Nat.zero_add _
  | draw hdone hidle hwindow => exact hinv.draw hidle hwindow
  | turn hwindow hidle => exact hinv.serve hwindow hidle
  | fail htrying hshrinks hwindow hidle =>
      refine hinv.shrinks hshrinks hwindow (fun h _ => ?_) fun h _ hx => ?_
      · rw [hidle, htrying]
        rfl
      · cases hidle.symm.trans hx
  | @done x b' htrying hgone hshrinks hwindow hidle =>
      refine hinv.shrinks hshrinks hwindow (fun h hh => ?_) fun h _ hx => ?_
      · -- the key of the try is not among those that stay
        have hne : b.trying ≠ some h := fun heq =>
          hgone (Option.some.inj (htrying.symm.trans heq) ▸ hh)
        rw [hidle, if_neg hne]
        rfl
      · cases hidle.symm.trans hx

end Even

/-- A key is tried when all that wait have been tried as often. -/
theorem Step.fair {k : Nat} {served : List K} {b b' : Backlog K} {x : K} (h : Step b (some x) b')
    (hinv : Even k served b) : ∀ h ∈ b.waiting, served.count x ≤ served.count h := by
  cases h with
  | turn hwindow hidle => exact hinv.turn hwindow

end Backlog

end Lib
