/-
Programs that run as tasks over one shared host.

Each task is a program (Lib/Interact), and a step of the system is one call
of one task, answered by the host they share: the calls of different tasks
may come in any order. A run is at once a run of the host, and for each task
an execution of its program so far (`tasks_run`, `tasks_of_runs`), so what is
known of every execution of a program is known of its task however the others
are interleaved with it.

Some calls pay and some calls use up what is paid: a program that is funded
(`Funds`) makes, after each payment and until the next, no more uses than
were paid for. In a run of funded tasks the uses that payments of one kind
are good for are no more than these payments (`paidUses_le`).
-/
import Mathlib.Algebra.BigOperators.Group.Finset.Basic
import Mathlib.Data.Fintype.Basic
import KoinosEvm.Lib.History
import KoinosEvm.Lib.Interact

namespace Lib

-- ==================================================== a program, so far

section Runs

variable {Op : Type} {Res : Op → Type} {Halt : Type} {α β σ : Type}

/-- The events take a program to what is left of it. -/
inductive Runs : Prog Op Res Halt α → List (Ev Op Res) → Prog Op Res Halt α → Prop
  | nil {p : Prog Op Res Halt α} : Runs p [] p
  | call {op : Op} {k : Res op → Prog Op Res Halt α} {r : Res op}
      {tr : List (Ev Op Res)} {q : Prog Op Res Halt α} :
      Runs (k r) tr q → Runs (.call op k) (⟨op, r⟩ :: tr) q

/-- A sequence, so far: its first part, or the whole of it and some of the
second. -/
theorem runs_bind {p : Prog Op Res Halt α} {f : α → Prog Op Res Halt β}
    {tr : List (Ev Op Res)} {q : Prog Op Res Halt β} (h : Runs (p >>= f) tr q) :
    (∃ p', Runs p tr p' ∧ q = p' >>= f)
      ∨ ∃ a tr₁ tr₂, Exec p tr₁ (.ok a) ∧ Runs (f a) tr₂ q ∧ tr = tr₁ ++ tr₂ := by
  rw [Prog.bind_eq] at h
  induction p generalizing tr with
  | ret a => exact Or.inr ⟨a, [], tr, .ret a, h, rfl⟩
  | halt x =>
      cases h
      exact Or.inl ⟨.halt x, .nil, rfl⟩
  | call op k ih =>
      cases h with
      | nil => exact Or.inl ⟨.call op k, .nil, rfl⟩
      | @call _ _ r tr _ h =>
          rcases ih r h with ⟨p', hp', rfl⟩ | ⟨a, tr₁, tr₂, hp, hf, rfl⟩
          · exact Or.inl ⟨p', .call hp', rfl⟩
          · exact Or.inr ⟨a, _, tr₂, .call hp, hf, rfl⟩

/-- A call, and what comes after it. -/
theorem exec_ask_bind {op : Op} {f : Res op → Prog Op Res Halt β} {tr : List (Ev Op Res)}
    {o : Except Halt β} (h : Exec (.ask op >>= f) tr o) :
    ∃ r rest, tr = ⟨op, r⟩ :: rest ∧ Exec (f r) rest o := by
  cases h with
  | @call _ _ r rest _ h => exact ⟨r, rest, rfl, h⟩

theorem runs_of_exec {p : Prog Op Res Halt α} {tr : List (Ev Op Res)} {o : Except Halt α}
    (h : Exec p tr o) : ∃ q, Runs p tr q := by
  induction h with
  | ret a => exact ⟨_, .nil⟩
  | halt x => exact ⟨_, .nil⟩
  | call _ ih =>
      obtain ⟨q, hq⟩ := ih
      exact ⟨q, .call hq⟩

/-- A call, so far, and what comes after it. -/
theorem runs_ask_bind {op : Op} {f : Res op → Prog Op Res Halt β} {tr : List (Ev Op Res)}
    {q : Prog Op Res Halt β} (h : Runs (.ask op >>= f) tr q) :
    tr = [] ∨ ∃ r rest, tr = ⟨op, r⟩ :: rest ∧ Runs (f r) rest q := by
  cases h with
  | nil => exact .inl rfl
  | @call _ _ r rest _ h => exact .inr ⟨r, rest, rfl, h⟩

/-- What every answer of a host satisfies, every event of a run against it
does. -/
theorem run_answers {host : (op : Op) → σ → Res op × σ} {P : Ev Op Res → Prop}
    (hP : ∀ op s, P ⟨op, (host op s).1⟩) (p : Prog Op Res Halt α) (s : σ) :
    ∀ e ∈ (p.run host s).trace, P e := by
  induction p generalizing s with
  | ret a =>
      intro e he
      cases he
  | halt x =>
      intro e he
      cases he
  | call op k ih =>
      intro e he
      rcases List.mem_cons.mp he with rfl | he
      · exact hP op s
      · exact ih _ _ e he

/-- What every call of a program satisfies, every event so far does. -/
theorem runs_uses {P : Op → Prop} {Q : Halt → Prop} {p q : Prog Op Res Halt α}
    {tr : List (Ev Op Res)} (h : Runs p tr q) (hp : Uses P Q p) : ∀ e ∈ tr, P e.1 := by
  induction h with
  | nil =>
      intro e he
      cases he
  | call _ ih =>
      intro e he
      rcases List.mem_cons.mp he with rfl | he
      · exact hp.1
      · exact ih (hp.2 _) e he

end Runs

-- ================================================================== tasks

section Tasks

variable {Op : Type} {Res : Op → Type} {Halt : Type} {α σ ι : Type} [DecidableEq ι]

/-- The host, and what is left of each task. -/
structure Tasks (Op : Type) (Res : Op → Type) (Halt α σ ι : Type) where
  shared : σ
  left : ι → Prog Op Res Halt α

/-- The host is in another state, and a task has come further. -/
def Tasks.after (s : Tasks Op Res Halt α σ ι) (shared : σ) (i : ι)
    (p : Prog Op Res Halt α) : Tasks Op Res Halt α σ ι :=
  ⟨shared, Function.update s.left i p⟩

@[simp] theorem Tasks.left_after_self (s : Tasks Op Res Halt α σ ι) (shared : σ) (i : ι)
    (p : Prog Op Res Halt α) : (s.after shared i p).left i = p := by
  simp [Tasks.after]

theorem Tasks.left_after_of_ne (s : Tasks Op Res Halt α σ ι) (shared : σ) {i j : ι}
    (p : Prog Op Res Halt α) (h : j ≠ i) : (s.after shared i p).left j = s.left j := by
  simp [Tasks.after, h]

/-- One call of one task. -/
inductive TaskStep (serves : σ → Ev Op Res → σ → Prop) :
    Tasks Op Res Halt α σ ι → ι × Ev Op Res → Tasks Op Res Halt α σ ι → Prop
  | call {s : Tasks Op Res Halt α σ ι} {i : ι} {op : Op} {k : Res op → Prog Op Res Halt α}
      {r : Res op} {shared : σ} :
      s.left i = .call op k → serves s.shared ⟨op, r⟩ shared →
      TaskStep serves s (i, ⟨op, r⟩) (s.after shared i (k r))

/-- The events of one task. -/
def eventsOfTask (i : ι) (run : List (ι × Ev Op Res)) : List (Ev Op Res) :=
  (run.filter fun e => e.1 = i).map Prod.snd

theorem eventsOfTask_cons_self (i : ι) (e : Ev Op Res) (run : List (ι × Ev Op Res)) :
    eventsOfTask i ((i, e) :: run) = e :: eventsOfTask i run := by
  simp [eventsOfTask]

theorem eventsOfTask_cons_of_ne {i j : ι} (h : i ≠ j) (e : Ev Op Res)
    (run : List (ι × Ev Op Res)) : eventsOfTask j ((i, e) :: run) = eventsOfTask j run := by
  simp [eventsOfTask, h]

theorem eventsOfTask_append (i : ι) (xs ys : List (ι × Ev Op Res)) :
    eventsOfTask i (xs ++ ys) = eventsOfTask i xs ++ eventsOfTask i ys := by
  rw [eventsOfTask, List.filter_append, List.map_append]
  rfl

variable {serves : σ → Ev Op Res → σ → Prop} {s t : Tasks Op Res Halt α σ ι}
  {run : List (ι × Ev Op Res)}

/-- A run of the tasks is one of the host, and one of each of them. -/
theorem tasks_run (h : History (TaskStep serves) s run t) :
    History serves s.shared (run.map Prod.snd) t.shared
      ∧ ∀ i, Runs (s.left i) (eventsOfTask i run) (t.left i) := by
  induction h with
  | nil => exact ⟨.nil, fun i => .nil⟩
  | cons hstep _ ih =>
      cases hstep with
      | @call i op k r shared hleft hserves =>
          refine ⟨.cons hserves ih.1, ?_⟩
          intro j
          have hj := ih.2 j
          by_cases hij : i = j
          · subst hij
            rw [eventsOfTask_cons_self, hleft]
            rw [Tasks.left_after_self] at hj
            exact .call hj
          · rw [eventsOfTask_cons_of_ne hij]
            rwa [Tasks.left_after_of_ne _ _ _ (Ne.symm hij)] at hj

/-- .. and what is a run of the host, and one of each task, is a run of the
tasks. -/
theorem tasks_of_runs {shared : σ} (hhost : History serves s.shared (run.map Prod.snd) shared)
    (htasks : ∀ i, ∃ q, Runs (s.left i) (eventsOfTask i run) q) :
    ∃ t, History (TaskStep serves) s run t := by
  induction run generalizing s with
  | nil => exact ⟨s, .nil⟩
  | cons e run ih =>
      obtain ⟨i, e⟩ := e
      cases hhost with
      | @cons _ mid _ _ _ hstep hrest =>
          obtain ⟨q, hi⟩ := htasks i
          rw [eventsOfTask_cons_self] at hi
          generalize hp : s.left i = p at hi
          cases hi with
          | @call op k r _ _ hk =>
              have hnext : ∀ j, ∃ q, Runs ((s.after mid i (k r)).left j) (eventsOfTask j run) q := by
                intro j
                by_cases hij : i = j
                · subst hij
                  rw [Tasks.left_after_self]
                  exact ⟨q, hk⟩
                · rw [Tasks.left_after_of_ne _ _ _ (Ne.symm hij)]
                  have hj := htasks j
                  rwa [eventsOfTask_cons_of_ne hij] at hj
              obtain ⟨t, ht⟩ := ih hrest hnext
              exact ⟨t, .cons (.call hp hstep) ht⟩

end Tasks

-- ================================================================ payments

section Funds

variable {Op : Type} {Res : Op → Type} {Halt : Type} {α β : Type}

/-- What calls pay and use. -/
structure Tariff (Op : Type) (Res : Op → Type) where
  /-- What an event pays for, if it is a payment. -/
  pays : Ev Op Res → Option Nat
  /-- The calls that use up what is paid. -/
  uses : Op → Bool

variable (tariff : Tariff Op Res) (allowed : Ev Op Res → Prop)

/-- At most so many uses and no payment, on the replies that are allowed. -/
def Costs : Nat → Prog Op Res Halt α → Prop
  | _, .ret _ => True
  | _, .halt _ => True
  | n, .call op k =>
      (tariff.uses op = true → 0 < n) ∧
        ∀ r, allowed ⟨op, r⟩ → tariff.pays ⟨op, r⟩ = none
          ∧ Costs (if tariff.uses op then n - 1 else n) (k r)

/-- With so much paid for, every use is paid for. -/
def Funds : Nat → Prog Op Res Halt α → Prop
  | _, .ret _ => True
  | _, .halt _ => True
  | n, .call op k =>
      (tariff.uses op = true → 0 < n) ∧
        ∀ r, allowed ⟨op, r⟩ →
          Funds ((tariff.pays ⟨op, r⟩).getD (if tariff.uses op then n - 1 else n)) (k r)

variable {tariff allowed} {p : Prog Op Res Halt α} {f : α → Prog Op Res Halt β} {m n : Nat}

theorem Costs.mono (h : Costs tariff allowed m p) (hmn : m ≤ n) : Costs tariff allowed n p := by
  induction p generalizing m n with
  | ret a => trivial
  | halt x => trivial
  | call op k ih =>
      refine ⟨fun huse => (h.1 huse).trans_le hmn, ?_⟩
      intro r hr
      obtain ⟨hpay, hrest⟩ := h.2 r hr
      refine ⟨hpay, ih r hrest ?_⟩
      split
      · exact Nat.sub_le_sub_right hmn 1
      · exact hmn

theorem Funds.mono (h : Funds tariff allowed m p) (hmn : m ≤ n) : Funds tariff allowed n p := by
  induction p generalizing m n with
  | ret a => trivial
  | halt x => trivial
  | call op k ih =>
      refine ⟨fun huse => (h.1 huse).trans_le hmn, ?_⟩
      intro r hr
      refine ih r (h.2 r hr) ?_
      cases tariff.pays ⟨op, r⟩ with
      | some paid => exact le_rfl
      | none =>
          show (if _ then _ else _) ≤ if _ then _ else _
          split
          · exact Nat.sub_le_sub_right hmn 1
          · exact hmn

/-- Costs in sequence. -/
theorem costs_bind (hp : Costs tariff allowed m p) (hf : ∀ a, Costs tariff allowed n (f a)) :
    Costs tariff allowed (m + n) (p >>= f) := by
  rw [Prog.bind_eq]
  induction p generalizing m with
  | ret a => exact (hf a).mono (Nat.le_add_left n m)
  | halt x => trivial
  | call op k ih =>
      refine ⟨fun huse => Nat.add_pos_left (hp.1 huse) n, ?_⟩
      intro r hr
      obtain ⟨hpay, hrest⟩ := hp.2 r hr
      refine ⟨hpay, (ih r hrest).mono ?_⟩
      by_cases huse : tariff.uses op = true
      · have hpos := hp.1 huse
        rw [if_pos huse, if_pos huse]
        omega
      · rw [if_neg huse, if_neg huse]

/-- .. where the second part costs nothing. -/
theorem Costs.bind (hp : Costs tariff allowed n p) (hf : ∀ a, Costs tariff allowed 0 (f a)) :
    Costs tariff allowed n (p >>= f) := costs_bind hp hf

/-- What is paid for covers the first part, and the second needs nothing. -/
theorem Funds.bind (hp : Funds tariff allowed n p) (hf : ∀ a, Funds tariff allowed 0 (f a)) :
    Funds tariff allowed n (p >>= f) := by
  rw [Prog.bind_eq]
  induction p generalizing n with
  | ret a => exact (hf a).mono (Nat.zero_le n)
  | halt x => trivial
  | call op k ih => exact ⟨hp.1, fun r hr => ih r (hp.2 r hr)⟩

/-- What costs no more than is paid for. -/
theorem Costs.funds (h : Costs tariff allowed n p) : Funds tariff allowed n p := by
  induction p generalizing n with
  | ret a => trivial
  | halt x => trivial
  | call op k ih =>
      refine ⟨h.1, ?_⟩
      intro r hr
      obtain ⟨hpay, hrest⟩ := h.2 r hr
      rw [hpay]
      exact ih r hrest

theorem costs_ask {op : Op} (hpay : ∀ r, tariff.pays ⟨op, r⟩ = none)
    (huse : tariff.uses op = true → 0 < n) :
    Costs tariff allowed n (.ask op : Prog Op Res Halt (Res op)) :=
  ⟨huse, fun r _ => ⟨hpay r, trivial⟩⟩

theorem costs_pure (a : α) : Costs tariff allowed n (pure a : Prog Op Res Halt α) := trivial

end Funds

-- ==================================================================== uses

section PaidUses

variable {Op : Type} {Res : Op → Type} {Halt : Type} {α σ ι : Type} [DecidableEq ι]
variable (tariff : Tariff Op Res) (counts : Ev Op Res → Bool)

/-- Whether the last payment of each task counts, after one more event. -/
def afterEvent (last : ι → Bool) (e : ι × Ev Op Res) : ι → Bool :=
  if (tariff.pays e.2).isSome then Function.update last e.1 (counts e.2) else last

/-- The uses in a run that come after a payment that counts, as the last of
their task. -/
def paidUses : (ι → Bool) → List (ι × Ev Op Res) → Nat
  | _, [] => 0
  | last, e :: run =>
      (if tariff.uses e.2.1 && last e.1 then 1 else 0)
        + paidUses (afterEvent tariff counts last e) run

/-- The payments among events that count. -/
def paidFor : List (Ev Op Res) → Nat
  | [] => 0
  | e :: events => (if counts e then (tariff.pays e).getD 0 else 0) + paidFor events

/-- If every payment counts, so does every use. -/
theorem paidUses_all (run : List (ι × Ev Op Res)) :
    paidUses tariff (fun _ => true) (fun _ => true) run
      = (run.filter fun e => tariff.uses e.2.1).length := by
  induction run with
  | nil => rfl
  | cons e run ih =>
      have hafter : afterEvent tariff (fun _ => true) (fun _ : ι => true) e = fun _ => true := by
        rw [afterEvent]
        split
        · exact Function.update_eq_self e.1 fun _ => true
        · rfl
      rw [paidUses, hafter, ih]
      rw [List.filter_cons]
      cases tariff.uses e.2.1 with
      | false => exact Nat.zero_add _
      | true => exact Nat.add_comm 1 _

variable {allowed : Ev Op Res → Prop} {serves : σ → Ev Op Res → σ → Prop}
  {s t : Tasks Op Res Halt α σ ι} {run : List (ι × Ev Op Res)}

/-- What a task has left of payments that count. -/
def fundsOf (last : ι → Bool) (credit : ι → Nat) (i : ι) : Nat := if last i then credit i else 0

/-- The credit of a task after an event of its own. -/
def creditAfter (credit : ι → Nat) (e : ι × Ev Op Res) : ι → Nat :=
  Function.update credit e.1
    ((tariff.pays e.2).getD (if tariff.uses e.2.1 then credit e.1 - 1 else credit e.1))

/-- An event is paid from what its own task has, and pays into it. -/
theorem event_paid (last : ι → Bool) (credit : ι → Nat) (e : ι × Ev Op Res)
    (huse : tariff.uses e.2.1 = true → 0 < credit e.1) :
    (if tariff.uses e.2.1 && last e.1 then 1 else 0)
        + fundsOf (afterEvent tariff counts last e) (creditAfter tariff credit e) e.1
      ≤ fundsOf last credit e.1 + (if counts e.2 then (tariff.pays e.2).getD 0 else 0) := by
  rw [fundsOf, fundsOf, creditAfter, Function.update_self, afterEvent]
  cases hpay : tariff.pays e.2 with
  | none =>
      rw [Option.isSome_none, if_neg Bool.false_ne_true, Option.getD_none]
      cases hlast : last e.1 with
      | false => simp
      | true =>
          cases hu : tariff.uses e.2.1 with
          | false => simp
          | true =>
              have hpos := huse hu
              simp
              omega
  | some paid =>
      rw [Option.isSome_some, if_pos rfl, Function.update_self, Option.getD_some,
        Option.getD_some]
      cases hlast : last e.1 with
      | false => simp
      | true =>
          cases hu : tariff.uses e.2.1 with
          | false => simp
          | true =>
              have hpos := huse hu
              simp
              omega

/-- .. and leaves what the others have alone. -/
theorem fundsOf_afterEvent_of_ne (last : ι → Bool) (credit : ι → Nat) {e : ι × Ev Op Res}
    {j : ι} (hj : j ≠ e.1) :
    fundsOf (afterEvent tariff counts last e) (creditAfter tariff credit e) j
      = fundsOf last credit j := by
  rw [fundsOf, fundsOf, creditAfter, Function.update_of_ne hj, afterEvent]
  split
  · rw [Function.update_of_ne hj]
  · rfl

variable {tariff counts}

/-- In a run of funded tasks the uses that payments which count are good for
are no more than is left of earlier ones and these payments. -/
theorem paidUses_le [Fintype ι] (h : History (TaskStep serves) s run t)
    (hallowed : ∀ {a e b}, serves a e b → allowed e) (credit : ι → Nat)
    (hfunds : ∀ i, Funds tariff allowed (credit i) (s.left i)) (last : ι → Bool) :
    paidUses tariff counts last run
      ≤ (∑ i, fundsOf last credit i) + paidFor tariff counts (run.map Prod.snd) := by
  induction h generalizing credit last with
  | nil => exact Nat.zero_le _
  | @cons a b c e run hstep _ ih =>
      have huse : tariff.uses e.2.1 = true → 0 < credit e.1 := by
        cases hstep with
        | @call i op k r shared hleft hserves =>
            have hi := hfunds i
            rw [hleft] at hi
            exact hi.1
      have hnext : ∀ i, Funds tariff allowed (creditAfter tariff credit e i) (b.left i) := by
        intro j
        cases hstep with
        | @call i op k r shared hleft hserves =>
            have hi := hfunds i
            rw [hleft] at hi
            by_cases hij : j = i
            · subst hij
              rw [creditAfter, Function.update_self, Tasks.left_after_self]
              exact hi.2 r (hallowed hserves)
            · rw [creditAfter, Function.update_of_ne hij, Tasks.left_after_of_ne _ _ _ hij]
              exact hfunds j
      have hrest := ih (creditAfter tariff credit e) hnext (afterEvent tariff counts last e)
      have hself := event_paid tariff counts last credit e huse
      have hothers : ∑ j ∈ Finset.univ.erase e.1,
          fundsOf (afterEvent tariff counts last e) (creditAfter tariff credit e) j
          = ∑ j ∈ Finset.univ.erase e.1, fundsOf last credit j :=
        Finset.sum_congr rfl fun j hj =>
          fundsOf_afterEvent_of_ne tariff counts last credit (Finset.ne_of_mem_erase hj)
      have hsum := Finset.add_sum_erase Finset.univ (fundsOf last credit) (Finset.mem_univ e.1)
      have hsum' := Finset.add_sum_erase Finset.univ
        (fundsOf (afterEvent tariff counts last e) (creditAfter tariff credit e))
        (Finset.mem_univ e.1)
      rw [paidUses, List.map_cons, paidFor]
      omega

end PaidUses

end Lib
