/-
Systems that take atomic steps, under every schedule.

`step s a` is the state after the act `a`, or `none` where `a` is not
enabled in `s`. A schedule is any list of acts; what is not enabled when its
turn comes is passed over. `Always` says something of every step taken. An
invariant gives such a property (`always_of_inv`), or one from another
(`always_imp`); two are compared by an invariant that ties them together as
long as one of them has held (`always_iff`).

A watched system carries a note along that the steps do not read
(`watched`): a statement about notes is one about the schedule.
-/
namespace Lib

section Schedule

variable {S A W : Type}

/-- Every step that the schedule takes is a `P`. -/
def Always (step : S → A → Option S) (P : S → A → S → Prop) : S → List A → Prop
  | _, [] => True
  | s, a :: acts =>
      match step s a with
      | none => Always step P s acts
      | some s' => P s a s' ∧ Always step P s' acts

/-- The state after a schedule. -/
def afterAll (step : S → A → Option S) (s : S) (acts : List A) : S :=
  acts.foldl (fun s a => (step s a).getD s) s

/-- The system with a note on what has happened. -/
def watched (step : S → A → Option S) (note : W → S → A → W) :
    W × S → A → Option (W × S)
  | (w, s), a => (step s a).map fun s' => (note w s a, s')

variable {step : S → A → Option S} {P Q : S → A → S → Prop}

theorem always_cons_none {s : S} {a : A} {acts : List A} (h : step s a = none) :
    Always step P s (a :: acts) ↔ Always step P s acts := by
  simp only [Always, h]

theorem always_cons_some {s s' : S} {a : A} {acts : List A} (h : step s a = some s') :
    Always step P s (a :: acts) ↔ P s a s' ∧ Always step P s' acts := by
  simp only [Always, h]

theorem afterAll_cons {s s' : S} {a : A} {acts : List A} (h : step s a = some s') :
    afterAll step s (a :: acts) = afterAll step s' acts := by
  rw [afterAll, List.foldl_cons, h]
  rfl

/-- A schedule in two parts. -/
theorem always_append {s : S} {xs ys : List A} :
    Always step P s (xs ++ ys) ↔ Always step P s xs ∧ Always step P (afterAll step s xs) ys := by
  induction xs generalizing s with
  | nil => exact (iff_of_eq (true_and _)).symm
  | cons x xs ih =>
      rw [List.cons_append, afterAll, List.foldl_cons]
      cases hnext : step s x with
      | none =>
          rw [always_cons_none hnext, always_cons_none hnext]
          exact ih
      | some s' =>
          rw [always_cons_some hnext, always_cons_some hnext, and_assoc]
          exact and_congr_right fun _ => ih

/-- Two properties that agree where the invariant holds, which the steps
with the first keep: a schedule has the one throughout exactly if it has the
other. -/
theorem always_iff (Inv : S → Prop)
    (hiff : ∀ s a s', Inv s → step s a = some s' → (P s a s' ↔ Q s a s'))
    (hkeep : ∀ s a s', Inv s → step s a = some s' → P s a s' → Inv s')
    {s : S} (hs : Inv s) (acts : List A) :
    Always step P s acts ↔ Always step Q s acts := by
  induction acts generalizing s with
  | nil => exact Iff.rfl
  | cons a acts ih =>
      cases h : step s a with
      | none => rw [always_cons_none h, always_cons_none h, ih hs]
      | some s' =>
          rw [always_cons_some h, always_cons_some h, ← hiff s a s' hs h]
          exact and_congr_right fun hP => ih (hkeep s a s' hs h hP)

/-- As long as the steps have the one property they have the other: by an
invariant that the steps with the first keep. -/
theorem always_imp (Inv : S → Prop)
    (hstep : ∀ s a s', Inv s → step s a = some s' → Q s a s' → Inv s' ∧ P s a s')
    {s : S} (hs : Inv s) (acts : List A) (h : Always step Q s acts) : Always step P s acts := by
  induction acts generalizing s with
  | nil => trivial
  | cons a acts ih =>
      cases hnext : step s a with
      | none =>
          rw [always_cons_none hnext] at h ⊢
          exact ih hs h
      | some s' =>
          rw [always_cons_some hnext] at h ⊢
          obtain ⟨hinv, hP⟩ := hstep s a s' hs hnext h.1
          exact ⟨hP, ih hinv h.2⟩

/-- An invariant that the steps with a property keep holds after a schedule of
such steps. -/
theorem inv_afterAll (Inv : S → Prop)
    (hstep : ∀ s a s', Inv s → step s a = some s' → Q s a s' → Inv s')
    {s : S} (hs : Inv s) (acts : List A) (h : Always step Q s acts) :
    Inv (afterAll step s acts) := by
  induction acts generalizing s with
  | nil => exact hs
  | cons a acts ih =>
      cases hnext : step s a with
      | none =>
          rw [always_cons_none hnext] at h
          rw [afterAll, List.foldl_cons, hnext]
          exact ih hs h
      | some s' =>
          rw [always_cons_some hnext] at h
          rw [afterAll_cons hnext]
          exact ih (hstep s a s' hs hnext h.1) h.2

/-- Two properties of every step are one. -/
theorem always_and {s : S} {acts : List A} :
    Always step (fun s a s' => P s a s' ∧ Q s a s') s acts
      ↔ Always step P s acts ∧ Always step Q s acts := by
  induction acts generalizing s with
  | nil => exact (and_self_iff).symm
  | cons a acts ih =>
      cases hnext : step s a with
      | none => rw [always_cons_none hnext, always_cons_none hnext, always_cons_none hnext, ih]
      | some s' =>
          rw [always_cons_some hnext, always_cons_some hnext, always_cons_some hnext, ih]
          exact and_and_and_comm

/-- What is so of every step with one of the acts. -/
theorem always_of_forall {s : S} {acts : List A} (h : ∀ a ∈ acts, ∀ s s', P s a s') :
    Always step P s acts := by
  induction acts generalizing s with
  | nil => trivial
  | cons a acts ih =>
      obtain ⟨hhead, htail⟩ := List.forall_mem_cons.mp h
      cases hnext : step s a with
      | none => exact (always_cons_none hnext).mpr (ih htail)
      | some s' => exact (always_cons_some hnext).mpr ⟨hhead s s', ih htail⟩

/-- An invariant that every step keeps. -/
theorem always_of_inv (Inv : S → Prop)
    (hstep : ∀ s a s', Inv s → step s a = some s' → Inv s' ∧ P s a s')
    {s : S} (hs : Inv s) (acts : List A) : Always step P s acts :=
  always_imp (Q := fun _ _ _ => True) Inv (fun s a s' hinv hnext _ => hstep s a s' hinv hnext) hs
    acts (always_of_forall fun _ _ _ _ => trivial)

/-- The note changes nothing. -/
theorem always_watched (note : W → S → A → W) (w : W) (s : S) (acts : List A) :
    Always (watched step note) (fun x a x' => P x.2 a x'.2) (w, s) acts
      ↔ Always step P s acts := by
  induction acts generalizing w s with
  | nil => exact Iff.rfl
  | cons a acts ih =>
      cases h : step s a with
      | none =>
          have hw : watched step note (w, s) a = none := by simp [watched, h]
          rw [always_cons_none h, always_cons_none hw, ih]
      | some s' =>
          have hw : watched step note (w, s) a = some (note w s a, s') := by simp [watched, h]
          rw [always_cons_some h, always_cons_some hw, ih]

end Schedule

end Lib
