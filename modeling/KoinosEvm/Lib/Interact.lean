/-
Programs that talk to a host.

`Prog Op Res Halt α` is a program that calls operations of a host, is
given a reply to each, and either returns or halts. The host is not part
of the program: `Exec p tr o` says that `p`, given the replies in the
trace `tr`, ends with outcome `o`, so a statement about every `Exec` holds
on every host and in every host state. `Prog.run` is the same against one
host given as a state machine, and computes; `Prog.answer` is how it ends on
one that has no state.

The rules: an execution of a sequence is an execution of its parts
(`exec_bind`), replies determine an execution (`exec_unique`), what every
call of a program satisfies every event of its traces satisfies
(`exec_uses`, and `exec_halts` for its halts), which replies let a program
return is put together from its parts (`governed_bind`), and a program over
one interface, run through handlers written against another, takes its
replies from executions of those handlers (`exec_interp`).
-/
import Mathlib.Data.List.Basic

namespace Lib

/-- A program over the operations `Op`, whose replies have type `Res op`,
that returns an `α` or halts. -/
inductive Prog (Op : Type) (Res : Op → Type) (Halt : Type) (α : Type) : Type where
  | ret (a : α)
  | halt (h : Halt)
  | call (op : Op) (k : Res op → Prog Op Res Halt α)

namespace Prog

variable {Op : Type} {Res : Op → Type} {Halt : Type} {α β γ : Type}

/-- Sequencing. -/
def bind : Prog Op Res Halt α → (α → Prog Op Res Halt β) → Prog Op Res Halt β
  | ret a, f => f a
  | halt h, _ => halt h
  | call op k, f => call op fun r => (k r).bind f

instance : Monad (Prog Op Res Halt) where
  pure := ret
  bind := bind

theorem bind_eq (p : Prog Op Res Halt α) (f : α → Prog Op Res Halt β) :
    p >>= f = p.bind f := rfl

theorem bind_ret (p : Prog Op Res Halt α) : p.bind ret = p := by
  induction p with
  | ret a => rfl
  | halt h => rfl
  | call op k ih => exact congrArg (call op) (funext ih)

theorem bind_assoc' (p : Prog Op Res Halt α) (f : α → Prog Op Res Halt β)
    (g : β → Prog Op Res Halt γ) : (p.bind f).bind g = p.bind fun a => (f a).bind g := by
  induction p with
  | ret a => rfl
  | halt h => rfl
  | call op k ih => exact congrArg (call op) (funext ih)

instance : LawfulMonad (Prog Op Res Halt) :=
  LawfulMonad.mk' _ bind_ret (fun _ _ => rfl) bind_assoc'

/-- One call. -/
def ask (op : Op) : Prog Op Res Halt (Res op) := call op ret

end Prog

section Executions

variable {Op : Type} {Res : Op → Type} {Halt : Type} {α β : Type}

/-- A call and the reply to it. -/
abbrev Ev (Op : Type) (Res : Op → Type) : Type := (op : Op) × Res op

/-- The executions of a program: the calls it makes, the replies it gets,
and how it ends. -/
inductive Exec : Prog Op Res Halt α → List (Ev Op Res) → Except Halt α → Prop
  | ret (a : α) : Exec (.ret a) [] (.ok a)
  | halt (h : Halt) : Exec (.halt h) [] (.error h)
  | call {op : Op} {k : Res op → Prog Op Res Halt α} {r : Res op}
      {tr : List (Ev Op Res)} {o : Except Halt α} :
      Exec (k r) tr o → Exec (.call op k) (⟨op, r⟩ :: tr) o

theorem exec_ret {a : α} {tr : List (Ev Op Res)} {o : Except Halt α} :
    Exec (pure a) tr o ↔ tr = [] ∧ o = .ok a := by
  refine ⟨?_, ?_⟩
  · intro h
    cases h
    exact ⟨rfl, rfl⟩
  · intro h
    rw [h.1, h.2]
    exact .ret a

theorem exec_ret_ok {a b : α} {tr : List (Ev Op Res)}
    (h : Exec (pure a : Prog Op Res Halt α) tr (.ok b)) : b = a :=
  Except.ok.inj (exec_ret.mp h).2

theorem exec_halt {x : Halt} {tr : List (Ev Op Res)} {o : Except Halt α} :
    Exec (.halt x) tr o ↔ tr = [] ∧ o = .error x := by
  refine ⟨?_, ?_⟩
  · intro h
    cases h
    exact ⟨rfl, rfl⟩
  · intro h
    rw [h.1, h.2]
    exact .halt x

theorem exec_ask {op : Op} {tr : List (Ev Op Res)} {o : Except Halt (Res op)} :
    Exec (.ask op) tr o ↔ ∃ r, tr = [⟨op, r⟩] ∧ o = .ok r := by
  refine ⟨?_, ?_⟩
  · intro h
    cases h with
    | call h =>
        cases h
        exact ⟨_, rfl, rfl⟩
  · intro h
    obtain ⟨r, rfl, rfl⟩ := h
    exact .call (.ret r)

/-- The first part of a sequence halts, or it returns and the second part
goes on from there. -/
theorem exec_bind {p : Prog Op Res Halt α} {f : α → Prog Op Res Halt β}
    {tr : List (Ev Op Res)} {o : Except Halt β} :
    Exec (p >>= f) tr o ↔
      (∃ x, Exec p tr (.error x) ∧ o = .error x) ∨
        ∃ a tr₁ tr₂, Exec p tr₁ (.ok a) ∧ Exec (f a) tr₂ o ∧ tr = tr₁ ++ tr₂ := by
  rw [Prog.bind_eq]
  induction p generalizing tr with
  | ret a =>
      refine ⟨?_, ?_⟩
      · intro h
        exact Or.inr ⟨a, [], tr, .ret a, h, rfl⟩
      · intro h
        rcases h with ⟨x, h, -⟩ | ⟨a', tr₁, tr₂, h₁, h₂, rfl⟩
        · cases h
        · cases h₁
          exact h₂
  | halt x =>
      refine ⟨?_, ?_⟩
      · intro h
        cases h
        exact Or.inl ⟨x, .halt x, rfl⟩
      · intro h
        rcases h with ⟨y, h, rfl⟩ | ⟨a, tr₁, tr₂, h₁, -, -⟩
        · cases h
          exact .halt x
        · cases h₁
  | call op k ih =>
      refine ⟨?_, ?_⟩
      · intro h
        cases h with
        | @call _ _ r tr _ h =>
            rcases (ih r).mp h with ⟨x, hx, rfl⟩ | ⟨a, tr₁, tr₂, h₁, h₂, rfl⟩
            · exact Or.inl ⟨x, .call hx, rfl⟩
            · exact Or.inr ⟨a, _, tr₂, .call h₁, h₂, rfl⟩
      · intro h
        rcases h with ⟨x, hx, rfl⟩ | ⟨a, tr₁, tr₂, h₁, h₂, rfl⟩
        · cases hx with
          | call hx => exact .call ((ih _).mpr (Or.inl ⟨x, hx, rfl⟩))
        · cases h₁ with
          | call h₁ => exact .call ((ih _).mpr (Or.inr ⟨a, _, tr₂, h₁, h₂, rfl⟩))

/-- A sequence returns when both parts do. -/
theorem exec_bind_ok {p : Prog Op Res Halt α} {f : α → Prog Op Res Halt β}
    {tr : List (Ev Op Res)} {b : β} :
    Exec (p >>= f) tr (.ok b) ↔
      ∃ a tr₁ tr₂, Exec p tr₁ (.ok a) ∧ Exec (f a) tr₂ (.ok b) ∧ tr = tr₁ ++ tr₂ := by
  rw [exec_bind]
  refine ⟨?_, Or.inr⟩
  intro h
  rcases h with ⟨x, -, hx⟩ | h
  · cases hx
  · exact h

/-- Replies determine an execution: of two executions along one sequence
of events, neither stops before the other, and they end alike. -/
theorem exec_unique {p : Prog Op Res Halt α} {xs ys zs ws : List (Ev Op Res)}
    {o o' : Except Halt α} (h : Exec p xs o) (h' : Exec p ys o')
    (heq : xs ++ zs = ys ++ ws) : xs = ys ∧ o = o' ∧ zs = ws := by
  induction h generalizing ys with
  | ret a =>
      cases h'
      exact ⟨rfl, rfl, heq⟩
  | halt x =>
      cases h'
      exact ⟨rfl, rfl, heq⟩
  | @call op k r tr o h ih =>
      cases h' with
      | @call _ _ r' tr' _ h' =>
          rw [List.cons_append, List.cons_append] at heq
          injection heq with hhead htail
          injection hhead with _ hr
          subst hr
          obtain ⟨rfl, ho, hz⟩ := ih h' htail
          exact ⟨rfl, ho, hz⟩

-- =============================================== calls a program makes

/-- Every call the program can make satisfies `P`, every way it can halt
satisfies `Q`. -/
def Uses (P : Op → Prop) (Q : Halt → Prop) : Prog Op Res Halt α → Prop
  | .ret _ => True
  | .halt x => Q x
  | .call op k => P op ∧ ∀ r, Uses P Q (k r)

section Uses

variable {P : Op → Prop} {Q : Halt → Prop}

theorem uses_pure (a : α) : Uses P Q (pure a : Prog Op Res Halt α) := trivial

theorem uses_ask {op : Op} (h : P op) :
    Uses P Q (.ask op : Prog Op Res Halt (Res op)) := ⟨h, fun _ => trivial⟩

theorem uses_halt {x : Halt} (h : Q x) : Uses P Q (.halt x : Prog Op Res Halt α) := h

theorem uses_bind {p : Prog Op Res Halt α} {f : α → Prog Op Res Halt β}
    (hp : Uses P Q p) (hf : ∀ a, Uses P Q (f a)) : Uses P Q (p >>= f) := by
  rw [Prog.bind_eq]
  induction p with
  | ret a => exact hf a
  | halt x => exact hp
  | call op k ih => exact ⟨hp.1, fun r => ih r (hp.2 r)⟩

theorem uses_ite {c : Prop} [Decidable c] {p q : Prog Op Res Halt α}
    (hp : c → Uses P Q p) (hq : ¬ c → Uses P Q q) : Uses P Q (if c then p else q) := by
  split
  next h => exact hp h
  next h => exact hq h

/-- A loop body by body. -/
theorem uses_forM {f : α → Prog Op Res Halt PUnit} (hf : ∀ a, Uses P Q (f a))
    (xs : List α) : Uses P Q (xs.forM f) := by
  induction xs with
  | nil => exact uses_pure _
  | cons x xs ih => exact uses_bind (hf x) fun _ => ih

theorem Uses.mono {P' : Op → Prop} {p : Prog Op Res Halt α} (h : Uses P Q p)
    (hP : ∀ op, P op → P' op) : Uses P' Q p := by
  induction p with
  | ret a => trivial
  | halt x => exact h
  | call op k ih => exact ⟨hP op h.1, fun r => ih r (h.2 r)⟩

theorem exec_uses {p : Prog Op Res Halt α} {tr : List (Ev Op Res)} {o : Except Halt α}
    (h : Exec p tr o) (hp : Uses P Q p) : ∀ e ∈ tr, P e.1 := by
  induction h with
  | ret a => simp
  | halt x => simp
  | call h ih =>
      intro e he
      rcases List.mem_cons.mp he with rfl | he
      · exact hp.1
      · exact ih (hp.2 _) e he

theorem exec_halts {p : Prog Op Res Halt α} {tr : List (Ev Op Res)} {x : Halt}
    (h : Exec p tr (.error x)) (hp : Uses P Q p) : Q x := by
  induction p generalizing tr with
  | ret a => cases h
  | halt y =>
      cases h
      exact hp
  | call op k ih =>
      cases h with
      | call h => exact ih _ h (hp.2 _)

end Uses

-- ========================================== replies that end a program

/-- Where the program returns, every event was of kind `T`. -/
def Ensures (T : Ev Op Res → Prop) (p : Prog Op Res Halt α) : Prop :=
  ∀ tr a, Exec p tr (.ok a) → ∀ e ∈ tr, T e

/-- The program returns exactly when every event was of kind `T`. -/
def Governed (T : Ev Op Res → Prop) (p : Prog Op Res Halt α) : Prop :=
  ∀ tr o, Exec p tr o → ((∃ a, o = .ok a) ↔ ∀ e ∈ tr, T e)

theorem Governed.ensures {T : Ev Op Res → Prop} {p : Prog Op Res Halt α}
    (h : Governed T p) : Ensures T p :=
  fun tr a hexec => (h tr _ hexec).mp ⟨a, rfl⟩

theorem Governed.blames {T : Ev Op Res → Prop} {p : Prog Op Res Halt α}
    (h : Governed T p) {tr : List (Ev Op Res)} {x : Halt} (hexec : Exec p tr (.error x)) :
    ¬ ∀ e ∈ tr, T e := by
  intro hall
  obtain ⟨a, ha⟩ := (h tr _ hexec).mpr hall
  cases ha

theorem ensures_bind {T : Ev Op Res → Prop} {p : Prog Op Res Halt α}
    {f : α → Prog Op Res Halt β} (hp : Ensures T p) (hf : ∀ a, Ensures T (f a)) :
    Ensures T (p >>= f) := by
  intro tr b h e he
  obtain ⟨a, tr₁, tr₂, h₁, h₂, rfl⟩ := exec_bind_ok.mp h
  rcases List.mem_append.mp he with he | he
  · exact hp tr₁ a h₁ e he
  · exact hf a tr₂ b h₂ e he

theorem governed_pure {T : Ev Op Res → Prop} (a : α) :
    Governed T (pure a : Prog Op Res Halt α) := by
  intro tr o h
  obtain ⟨rfl, rfl⟩ := exec_ret.mp h
  exact ⟨fun _ => by simp, fun _ => ⟨a, rfl⟩⟩

theorem governed_bind {T : Ev Op Res → Prop} {p : Prog Op Res Halt α}
    {f : α → Prog Op Res Halt β} (hp : Governed T p) (hf : ∀ a, Governed T (f a)) :
    Governed T (p >>= f) := by
  intro tr o h
  rcases exec_bind.mp h with ⟨x, hx, rfl⟩ | ⟨a, tr₁, tr₂, h₁, h₂, rfl⟩
  · refine ⟨?_, ?_⟩
    · intro hok
      obtain ⟨a, ha⟩ := hok
      cases ha
    · intro hall
      exact absurd hall (hp.blames hx)
  · rw [hf a tr₂ o h₂, List.forall_mem_append]
    exact ⟨fun h => ⟨hp.ensures tr₁ a h₁, h⟩, fun h => h.2⟩

/-- A loop body by body. -/
theorem governed_forM {T : Ev Op Res → Prop} {f : α → Prog Op Res Halt PUnit}
    (hf : ∀ a, Governed T (f a)) (xs : List α) : Governed T (xs.forM f) := by
  induction xs with
  | nil => exact governed_pure ()
  | cons x xs ih => exact governed_bind (hf x) fun _ => ih

end Executions

-- ==================================================== one given host

section Run

variable {Op : Type} {Res : Op → Type} {Halt : Type} {α σ : Type}

/-- A run against a host: outcome, trace and the host's last state. -/
structure Run (Op : Type) (Res : Op → Type) (Halt α σ : Type) where
  outcome : Except Halt α
  trace : List (Ev Op Res)
  state : σ

/-- Run a program against a host. -/
def Prog.run (host : (op : Op) → σ → Res op × σ) :
    Prog Op Res Halt α → σ → Run Op Res Halt α σ
  | .ret a, s => ⟨.ok a, [], s⟩
  | .halt h, s => ⟨.error h, [], s⟩
  | .call op k, s =>
      let r := (k (host op s).1).run host (host op s).2
      ⟨r.outcome, ⟨op, (host op s).1⟩ :: r.trace, r.state⟩

/-- A run is an execution. -/
theorem run_exec (host : (op : Op) → σ → Res op × σ) (p : Prog Op Res Halt α) (s : σ) :
    Exec p (p.run host s).trace (p.run host s).outcome := by
  induction p generalizing s with
  | ret a => exact .ret a
  | halt h => exact .halt h
  | call op k ih => exact .call (ih _ _)

end Run

-- ================================================ a host without a state

section Answer

variable {Op : Type} {Res : Op → Type} {Halt : Type} {α β : Type}

/-- How a program ends on a host that always gives the same reply to a
call. -/
def Prog.answer (host : (op : Op) → Res op) : Prog Op Res Halt α → Except Halt α
  | .ret a => .ok a
  | .halt h => .error h
  | .call op k => (k (host op)).answer host

variable (host : (op : Op) → Res op)

@[simp] theorem answer_pure (a : α) :
    Prog.answer host (pure a : Prog Op Res Halt α) = .ok a := rfl

@[simp] theorem answer_ask (op : Op) :
    Prog.answer host (.ask op : Prog Op Res Halt (Res op)) = .ok (host op) := rfl

theorem answer_bind (p : Prog Op Res Halt α) (f : α → Prog Op Res Halt β) :
    Prog.answer host (p >>= f) = (p.answer host).bind fun a => (f a).answer host := by
  rw [Prog.bind_eq]
  induction p with
  | ret a => rfl
  | halt h => rfl
  | call op k ih => exact ih (host op)

end Answer

-- ============================================== programs over programs

section Interp

variable {Op Op' : Type} {Res : Op → Type} {Res' : Op' → Type} {Halt Halt' : Type}
  {α : Type}

/-- Run a program's calls as programs over another interface. -/
def Prog.interp (handle : (op : Op) → Prog Op' Res' Halt' (Res op))
    (onHalt : Halt → Prog Op' Res' Halt' α) :
    Prog Op Res Halt α → Prog Op' Res' Halt' α
  | .ret a => .ret a
  | .halt x => onHalt x
  | .call op k => handle op >>= fun r => (k r).interp handle onHalt

variable {handle : (op : Op) → Prog Op' Res' Halt' (Res op)}
  {onHalt : Halt → Prog Op' Res' Halt' α}

theorem uses_interp {P : Op' → Prop} {Q : Halt' → Prop} (hop : ∀ op, Uses P Q (handle op))
    (hhalt : ∀ x, Uses P Q (onHalt x)) (p : Prog Op Res Halt α) :
    Uses P Q (p.interp handle onHalt) := by
  induction p with
  | ret a => trivial
  | halt x => exact hhalt x
  | call op k ih => exact uses_bind (hop op) ih

theorem ensures_interp {T : Ev Op' Res' → Prop} (hop : ∀ op, Ensures T (handle op))
    (hhalt : ∀ x, Ensures T (onHalt x)) (p : Prog Op Res Halt α) :
    Ensures T (p.interp handle onHalt) := by
  induction p with
  | ret a =>
      intro tr b h
      cases h
      simp
  | halt x => exact hhalt x
  | call op k ih => exact ensures_bind (hop op) ih

/-- An interpreted program that returns is an execution of the program
itself, on replies that executions of the handlers gave. -/
theorem exec_interp {T : Ev Op' Res' → Prop} {R : (op : Op) → Res op → Prop}
    (hop : ∀ op tr r, Exec (handle op) tr (.ok r) → (∀ e ∈ tr, T e) → R op r)
    (hhalt : ∀ x tr a, ¬ Exec (onHalt x) tr (.ok a))
    {p : Prog Op Res Halt α} {tr : List (Ev Op' Res')} {a : α}
    (h : Exec (p.interp handle onHalt) tr (.ok a)) (htr : ∀ e ∈ tr, T e) :
    ∃ outer, Exec p outer (.ok a) ∧ ∀ e ∈ outer, R e.1 e.2 := by
  induction p generalizing tr with
  | ret b =>
      cases h
      exact ⟨[], .ret _, by simp⟩
  | halt x => exact absurd h (hhalt x tr a)
  | call op k ih =>
      obtain ⟨r, tr₁, tr₂, h₁, h₂, rfl⟩ := exec_bind_ok.mp h
      have hr := hop op tr₁ r h₁ fun e he => htr e (List.mem_append_left _ he)
      obtain ⟨outer, hexec, hall⟩ := ih r h₂ fun e he => htr e (List.mem_append_right _ he)
      refine ⟨⟨op, r⟩ :: outer, .call hexec, ?_⟩
      intro e he
      rcases List.mem_cons.mp he with rfl | he
      · exact hr
      · exact hall e he

end Interp

end Lib
