/-
Indexing and machine integers that may leave their range.

A program that reads slices by position says at each step what it reads
and what it adds up, and is stopped where that is out of range. `Fault` is
how, and the operations here are the ones that can. Each has its success
lemma; a reader that is shown to take only successful steps is its own
total version. A run that can also end in an error of its own, or not end
at all, is an `Except` of `Stop`.
-/
import Mathlib.Algebra.Group.Int.Defs
import Mathlib.Algebra.GroupWithZero.Nat
import Mathlib.Data.List.Basic

namespace Lib

/-- Why the thread stops. -/
inductive Fault where
  /-- A slice begins or ends out of range. -/
  | slice
  /-- An element is read out of range. -/
  | index
  /-- An integer leaves its width. -/
  | overflow
  deriving DecidableEq

variable {α : Type}

/-- `&xs[start..]`. -/
def sliceFrom (xs : List α) (start : Nat) : Except Fault (List α) :=
  if start ≤ xs.length then .ok (xs.drop start) else .error .slice

/-- `&xs[start..stop]`. -/
def sliceOf (xs : List α) (start stop : Nat) : Except Fault (List α) :=
  if start ≤ stop ∧ stop ≤ xs.length then .ok ((xs.drop start).take (stop - start))
  else .error .slice

/-- `xs[i]`. -/
def indexOf (xs : List α) (i : Nat) : Except Fault α :=
  match xs[i]? with
  | some x => .ok x
  | none => .error .index

/-- `xs[start..].copy_from_slice(ys)`: the two are of one length. -/
def copyFrom (xs : List α) (start : Nat) (ys : List α) : Except Fault (List α) :=
  if start ≤ xs.length ∧ xs.length - start = ys.length then .ok (xs.take start ++ ys)
  else .error .slice

/-- `a + b`, in `w` bits. -/
def addIn (w a b : Nat) : Except Fault Nat :=
  if a + b < 2 ^ w then .ok (a + b) else .error .overflow

/-- `a - b`, unsigned. -/
def subIn (a b : Nat) : Except Fault Nat :=
  if b ≤ a then .ok (a - b) else .error .overflow

/-- `usize::try_from(n).ok()`. -/
def fitsIn (w n : Nat) : Option Nat := if n < 2 ^ w then some n else none

/-- `a.checked_add(b)`, in `w` bits. -/
def checkedAddIn (w a b : Nat) : Option Nat := if a + b < 2 ^ w then some (a + b) else none

variable {xs : List α} {w a b i : Nat}

theorem sliceFrom_ok (h : a ≤ xs.length) : sliceFrom xs a = .ok (xs.drop a) := if_pos h

theorem sliceOf_ok (hab : a ≤ b) (hb : b ≤ xs.length) :
    sliceOf xs a b = .ok ((xs.drop a).take (b - a)) := if_pos ⟨hab, hb⟩

theorem indexOf_ok (h : i < xs.length) : indexOf xs i = .ok xs[i] := by
  rw [indexOf, List.getElem?_eq_getElem h]

theorem copyFrom_ok {ys : List α} (h : a ≤ xs.length) (hlen : xs.length - a = ys.length) :
    copyFrom xs a ys = .ok (xs.take a ++ ys) := if_pos ⟨h, hlen⟩

theorem addIn_ok (h : a + b < 2 ^ w) : addIn w a b = .ok (a + b) := if_pos h

theorem subIn_ok (h : b ≤ a) : subIn a b = .ok (a - b) := if_pos h

-- ================================================================ runs

/-- What a run ends in that returns no value. -/
inductive Stop (ε : Type) where
  /-- An error it returns itself. -/
  | err (e : ε)
  /-- The thread stops. -/
  | fault (f : Fault)
  /-- It has not ended within its fuel. -/
  | running
  deriving DecidableEq

section Runs

variable {ε : Type}

/-- A step that may stop the thread. -/
def orFault (r : Except Fault α) : Except (Stop ε) α := r.mapError .fault

/-- A run that ends as `r` does: with a value or with an error. -/
def orErr (r : Except ε α) : Except (Stop ε) α := r.mapError .err

@[simp] theorem orFault_ok (a : α) : orFault (.ok a) = (.ok a : Except (Stop ε) α) := rfl

@[simp] theorem orErr_ok (a : α) : orErr (.ok a) = (.ok a : Except (Stop ε) α) := rfl

end Runs

end Lib
