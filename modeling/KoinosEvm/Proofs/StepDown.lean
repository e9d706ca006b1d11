/-
The reconciler's step down, under every schedule.

A cycle lowers the operator's nonce only if it finds no submit in flight and
`last_submit_ok` long past. It loads the second before the first, and a
submit tells its success only behind the gate: a success may be told
between the two loads, by a task that is done at the second. A note of when
the node accepted what, and of what was told since a cycle loaded
`last_submit_ok` (`noteTold`), says which steps down come after one
(`ToldLate`): in every schedule, each step down is quiet exactly if none is
such (`step_down_iff`).
-/
import KoinosEvm.Proofs.Relay

namespace KoinosEvm.Proofs

open Lib Proxy

-- ================================================================ the note

/-- Who was accepted when, and when what was accepted that was told since
each cycle loaded `last_submit_ok`. -/
structure Told where
  accepted : List (Nat × Nat)
  since : Nat → List Nat

namespace Told

def empty : Told := ⟨[], fun _ => []⟩

/-- The node accepts the transaction of request `i`. -/
def accept (note : Told) (i clock : Nat) : Told :=
  { note with accepted := (i, clock) :: note.accepted }

/-- The task stores `last_submit_ok`. -/
def tell (note : Told) (i : Nat) : Told :=
  { note with
    since := fun j => (note.accepted.filter fun x => x.1 = i).map Prod.snd ++ note.since j }

/-- A step of request `i`, untold before and after it or not. -/
def follow (note : Told) (i clock : Nat) : Bool → Bool → Told
  | false, true => note.accept i clock
  | true, false => note.tell i
  | false, false | true, true => note

/-- Cycle `j` loads it. -/
def load (note : Told) (j : Nat) : Told := { note with since := Function.update note.since j [] }

end Told

/-- Request `i` is accepted, and `last_submit_ok` not stored. -/
def untoldAt (s : RelayState) (i : Nat) : Bool := (s.submits[i]?).any fun t => untold t.2

/-- The note after an act. -/
def noteTold (cfg : RelayConfig) (note : Told) (s : RelayState) : RelayAct → Told
  | .submit i wake =>
      note.follow i s.clock (untoldAt s i) ((s.step cfg (.submit i wake)).any (untoldAt · i))
  | .cycle j _ =>
      match s.cycles[j]? with
      | some (.checking _) => note.load j
      | _ => note
  | .tick _ | .request _ | .reconcile | .evict _ | .settle _ => note

-- ============================================================ the property

/-- A cycle lowers the cached nonce. -/
def Lowers (s : RelayState) (a : RelayAct) (s' : RelayState) : Prop :=
  ∃ j wake old new, a = .cycle j wake ∧ s.operatorNonce = some old
    ∧ s'.operatorNonce = some new ∧ new < old

/-- No submit has succeeded within the quiet period. -/
def NoneRecent (cfg : RelayConfig) (note : Told) (s : RelayState) : Prop :=
  ∀ x ∈ note.accepted, x.2 + cfg.quietPeriodSecs ≤ s.clock

/-- A cycle lowers the nonce only with no submit in flight, and in quiet. -/
def LowersQuietly (cfg : RelayConfig) (x : Told × RelayState) (a : RelayAct)
    (x' : Told × RelayState) : Prop :=
  Lowers x.2 a x'.2 → ¬ InFlight x.2 ∧ NoneRecent cfg x.1 x.2

-- =========================================================== the condition

/-- The act is a step down, and a success within the quiet period was told
since the cycle loaded `last_submit_ok`. -/
def ToldLate (cfg : RelayConfig) (x : Told × RelayState) (a : RelayAct) : Prop :=
  ∃ j wake n, a = .cycle j wake ∧ x.2.cycles[j]? = some (.cleared n)
    ∧ ∃ t ∈ x.1.since j, x.2.clock < t + cfg.quietPeriodSecs

-- =========================================================== the invariant

/-- What a cycle has loaded: the chain's nonce, and how long `last_submit_ok`
was past. -/
def loadedOf (cfg : RelayConfig) : CycleStage → Option (UInt64 × Nat)
  | .timed n quietFor => some (n, quietFor)
  | .cleared n => some (n, cfg.quietPeriodSecs)
  | .fetching | .fetched _ | .checking _ | .leaving | .ended => none

/-- The chain is behind, and a success is as long past, or was not told when
the cycle loaded. -/
structure Loaded (x : Told × RelayState) (j : Nat) (n : UInt64) (quietFor : Nat) : Prop where
  behind : ∃ cached, x.2.operatorNonce = some cached ∧ n < cached
  accepted : ∀ y ∈ x.1.accepted,
    untoldAt x.2 y.1 = true ∨ y.2 + quietFor ≤ x.2.clock ∨ y.2 ∈ x.1.since j

structure StepDownInv (cfg : RelayConfig) (x : Told × RelayState) : Prop where
  relay : RelayInv x.2
  clock : x.2.lastSubmitOk ≤ x.2.clock
  accepted : ∀ y ∈ x.1.accepted,
    y.2 ≤ x.2.clock ∧ (untoldAt x.2 y.1 = true ∨ y.2 ≤ x.2.lastSubmitOk)
  since : ∀ j, ∀ t ∈ x.1.since j, ∃ i, (i, t) ∈ x.1.accepted
  loaded : ∀ (j : Nat) stage n quietFor, x.2.cycles[j]? = some stage →
    loadedOf cfg stage = some (n, quietFor) → Loaded x j n quietFor
  cleared : ∀ (j : Nat) (n : UInt64), x.2.cycles[j]? = some (.cleared n) → x.2.inflightSubmits = 0

section StepDown

variable {cfg : RelayConfig} {note : Told} {s s' : RelayState} {a : RelayAct} {i j : Nat}
  {wake : Wake}

theorem inside_of_loaded {stage : CycleStage} {x : UInt64 × Nat}
    (h : loadedOf cfg stage = some x) : cycleInside stage = true := by
  cases stage with
  | timed | cleared => rfl
  | fetching | fetched | checking | leaving | ended => cases h

/-- While a success is untold, the request is in flight. -/
theorem inFlight_of_untold (h : untoldAt s i = true) : InFlight s := by
  obtain ⟨t, hget, huntold⟩ := (Option.any_eq_true _ _).mp h
  exact ⟨t, List.mem_of_getElem? hget, counted_of_untold huntold⟩

-- ============================================================= a step down

/-- A cycle lowers the nonce exactly where both conditions hold. -/
theorem lowers_iff (hinv : StepDownInv cfg (note, s)) (h : s.step cfg a = some s') :
    Lowers s a s' ↔ ∃ j wake n, a = .cycle j wake ∧ s.cycles[j]? = some (.cleared n) := by
  constructor
  · rintro ⟨j, wake, old, new, rfl, hold, hnew, hlt⟩
    obtain ⟨stage, sh, stage', hget, hmove, rfl⟩ := step_cycle h
    change sh.operatorNonce = some new at hnew
    cases hmove with
    | unanswered | fetched | take | inSync | load | hold | clear | leave =>
        obtain rfl : old = new := Option.some.inj (hold.symm.trans hnew)
        exact absurd hlt (UInt64.lt_irrefl _)
    | raise hcached hraise =>
        cases hnew
        obtain rfl := Option.some.inj (hold.symm.trans hcached)
        exact absurd hlt (UInt64.not_lt.mpr (UInt64.le_of_lt hraise))
    | @lower n => exact ⟨j, wake, n, rfl, hget⟩
  · rintro ⟨j, wake, n, rfl, hcleared⟩
    obtain ⟨⟨cached, hcached, hlt⟩, -⟩ := hinv.loaded j _ _ _ hcleared rfl
    obtain ⟨stage, sh, stage', hget, hmove, rfl⟩ := step_cycle h
    obtain rfl := Option.some.inj (hcleared.symm.trans hget)
    cases hmove with
    | lower => exact ⟨j, wake, cached, n, rfl, hcached, rfl, hlt⟩

/-- It does so quietly exactly if no success within the quiet period was
told since it loaded. -/
theorem lowersQuietly_iff {note' : Told} (hinv : StepDownInv cfg (note, s))
    (h : s.step cfg a = some s') :
    LowersQuietly cfg (note, s) a (note', s') ↔ ¬ ToldLate cfg (note, s) a := by
  unfold LowersQuietly
  rw [lowers_iff hinv h]
  constructor
  · rintro hquiet ⟨j, wake, n, rfl, hcleared, t, ht, hlt⟩
    obtain ⟨i, hi⟩ := hinv.since j t ht
    have hpast := (hquiet ⟨j, wake, n, rfl, hcleared⟩).2 _ hi
    exact absurd hlt (Nat.not_lt.mpr hpast)
  · rintro hno ⟨j, wake, n, rfl, hcleared⟩
    have hnone : ¬ InFlight s := hinv.relay.not_inFlight.mpr (hinv.cleared j n hcleared)
    refine ⟨hnone, fun y hy => ?_⟩
    rcases (hinv.loaded j _ _ _ hcleared rfl).accepted y hy with huntold | hpast | htold
    · exact absurd (inFlight_of_untold huntold) hnone
    · exact hpast
    · by_contra hlt
      exact hno ⟨j, wake, n, rfl, hcleared, y.2, htold, Nat.not_le.mp hlt⟩

-- ====================================================== a request's step

/-- What a step of a request does to the note: an acceptance is noted now
and untold, what is told is told now and noted. -/
structure Progress (x x' : Told × RelayState) : Prop where
  clock : x'.2.clock = x.2.clock
  last : x'.2.lastSubmitOk = x.2.lastSubmitOk ∨ x'.2.lastSubmitOk = x.2.clock
  fresh : ∀ y ∈ x'.1.accepted,
    y ∈ x.1.accepted ∨ y.2 = x.2.clock ∧ untoldAt x'.2 y.1 = true
  kept : x.1.accepted ⊆ x'.1.accepted
  untold : ∀ y ∈ x.1.accepted, untoldAt x.2 y.1 = true →
    untoldAt x'.2 y.1 = true ∨ x'.2.lastSubmitOk = x.2.clock ∧ ∀ j, y.2 ∈ x'.1.since j
  since : ∀ j, x.1.since j ⊆ x'.1.since j
  noted : ∀ j, ∀ t ∈ x'.1.since j, t ∈ x.1.since j ∨ ∃ i, (i, t) ∈ x.1.accepted

theorem progress_of_tell (hclock : s'.clock = s.clock)
    (hother : ∀ k, k ≠ i → untoldAt s' k = untoldAt s k)
    (htell : TellMove s.clock (untoldAt s i) (untoldAt s' i) s.lastSubmitOk s'.lastSubmitOk) :
    Progress (note, s) (note.follow i s.clock (untoldAt s i) (untoldAt s' i), s') := by
  generalize hbefore : untoldAt s i = before at htell
  generalize hafter : untoldAt s' i = after at htell
  generalize hlast : s.lastSubmitOk = last at htell
  generalize hlast' : s'.lastSubmitOk = last' at htell
  cases htell with
  | keep =>
      have hsame : ∀ k, untoldAt s' k = untoldAt s k := by
        intro k
        by_cases hk : k = i
        · rw [hk, hbefore, hafter]
        · exact hother k hk
      have hnote : note.follow i s.clock before before = note := by
        cases before with
        | false => rfl
        | true => rfl
      rw [hnote]
      exact
        { clock := hclock
          last := .inl (hlast'.trans hlast.symm)
          fresh := fun y hy => .inl hy
          kept := fun y hy => hy
          untold := fun y hy huntold => .inl ((hsame y.1).trans huntold)
          since := fun j t ht => ht
          noted := fun j t ht => .inl ht }
  | accept =>
      refine
        { clock := hclock
          last := .inl (hlast'.trans hlast.symm)
          fresh := fun y hy => ?_
          kept := fun y hy => List.mem_cons_of_mem _ hy
          untold := fun y hy huntold => .inl ?_
          since := fun j t ht => ht
          noted := fun j t ht => .inl ht }
      · rcases List.mem_cons.mp hy with rfl | hy
        · exact .inr ⟨rfl, hafter⟩
        · exact .inl hy
      · by_cases hk : y.1 = i
        · rw [hk]
          exact hafter
        · exact (hother y.1 hk).trans huntold
  | tell =>
      refine
        { clock := hclock
          last := .inr hlast'
          fresh := fun y hy => .inl hy
          kept := fun y hy => hy
          untold := fun y hy huntold => ?_
          since := fun j t ht => List.mem_append_right _ ht
          noted := fun j t ht => ?_ }
      · by_cases hk : y.1 = i
        · refine .inr ⟨hlast', fun j => List.mem_append_left _ ?_⟩
          exact List.mem_map_of_mem (List.mem_filter.mpr ⟨hy, by simp [hk]⟩)
        · exact .inl ((hother y.1 hk).trans huntold)
      · rcases List.mem_append.mp ht with ht | ht
        · obtain ⟨y, hy, rfl⟩ := List.mem_map.mp ht
          exact .inr ⟨y.1, (List.mem_filter.mp hy).1⟩
        · exact .inl ht

theorem progress_submit (h : s.step cfg (.submit i wake) = some s') :
    Progress (note, s) (noteTold cfg note s (.submit i wake), s') := by
  have hnote : noteTold cfg note s (.submit i wake)
      = note.follow i s.clock (untoldAt s i) (untoldAt s' i) := by
    simp only [noteTold, h, Option.any_some]
  rw [hnote]
  obtain ⟨job, stage, sh, stage', hget, hstep, rfl⟩ := step_submit h
  have hspec := hstep.spec
  refine progress_of_tell hspec.clock (fun k hk => ?_) ?_
  · simp only [untoldAt, any_set _ hget, if_neg hk]
  · simp only [untoldAt, any_set _ hget, if_true, hget, Option.any_some]
    exact hspec.tell

/-- Progress keeps what the invariant says of successes. -/
theorem Progress.accepted {x x' : Told × RelayState} (h : Progress x x')
    (hinv : StepDownInv cfg x) : ∀ y ∈ x'.1.accepted,
      y.2 ≤ x'.2.clock ∧ (untoldAt x'.2 y.1 = true ∨ y.2 ≤ x'.2.lastSubmitOk) := by
  intro y hy
  have hclock := hinv.clock
  rcases h.fresh y hy with hold | ⟨hnow, huntold⟩
  · obtain ⟨hle, hstate⟩ := hinv.accepted y hold
    refine ⟨by rwa [h.clock], ?_⟩
    rcases hstate with huntold | htold
    · rcases h.untold y hold huntold with huntold' | ⟨hlast, -⟩
      · exact .inl huntold'
      · exact .inr (by omega)
    · rcases h.last with hlast | hlast
      · exact .inr (by omega)
      · exact .inr (by omega)
  · exact ⟨by rw [h.clock, hnow], .inl huntold⟩

/-- .. and of what a cycle has loaded. -/
theorem Progress.loaded {x x' : Told × RelayState} {n : UInt64} {quietFor : Nat}
    (h : Progress x x') (hnonce : x'.2.operatorNonce = x.2.operatorNonce)
    (hloaded : Loaded x j n quietFor) : Loaded x' j n quietFor := by
  refine ⟨by rw [hnonce]; exact hloaded.behind, fun y hy => ?_⟩
  rcases h.fresh y hy with hold | ⟨-, huntold⟩
  · rcases hloaded.accepted y hold with huntold | hpast | htold
    · rcases h.untold y hold huntold with huntold' | ⟨-, hsince⟩
      · exact .inl huntold'
      · exact .inr (.inr (hsince j))
    · exact .inr (.inl (by rw [h.clock]; exact hpast))
    · exact .inr (.inr (h.since j htold))
  · exact .inl huntold

theorem stepDownInv_submit (hinv : StepDownInv cfg (note, s))
    (h : s.step cfg (.submit i wake) = some s') :
    StepDownInv cfg (noteTold cfg note s (.submit i wake), s') := by
  have hprogress : Progress (note, s) (noteTold cfg note s (.submit i wake), s') :=
    progress_submit h
  have hrelay := relayInv_step hinv.relay h
  have haccepted := hprogress.accepted hinv
  obtain ⟨job, stage, sh, stage', hget, hstep, rfl⟩ := step_submit h
  have hspec := hstep.spec
  -- a cycle inside the gate keeps the request out
  have houtside : ∀ (k : Nat) c x, s.cycles[k]? = some c → loadedOf cfg c = some x →
      inside stage = false := by
    intro k c x hk hx
    have hcycle : insideOf s (.cycle k) = true :=
      (insideOf_cycle hk).trans (inside_of_loaded hx)
    exact (insideOf_submit hget).symm.trans (hinv.relay.outside hcycle (by simp))
  refine ⟨hrelay, ?_, haccepted, fun j t ht => ?_, fun k c n quietFor hk hloaded => ?_,
    fun k n hk => ?_⟩
  · have hclock := hinv.clock
    rcases hprogress.last with hlast | hlast
    · rw [hlast, hprogress.clock]
      exact hclock
    · rw [hlast, hprogress.clock]
  · rcases hprogress.noted j t ht with hold | ⟨k, hk⟩
    · obtain ⟨k, hk⟩ := hinv.since j t hold
      exact ⟨k, hprogress.kept hk⟩
    · exact ⟨k, hprogress.kept hk⟩
  · have hout := houtside k c _ hk hloaded
    exact hprogress.loaded (hspec.outside hout).1 (hinv.loaded k c n quietFor hk hloaded)
  · have hout := houtside k _ _ hk rfl
    have hzero := hinv.cleared k n hk
    have hnone := hinv.relay.not_inFlight.mpr hzero
    have hbefore : counted stage = false := by
      by_contra hcounted
      exact hnone ⟨_, List.mem_of_getElem? hget, by simpa using hcounted⟩
    have hafter : counted stage' = false := by
      by_contra hcounted
      rw [Bool.not_eq_false] at hcounted
      rw [(hspec.outside hout).2 hcounted] at hbefore
      cases hbefore
    have hmove := hspec.inflight
    rw [hbefore, hafter] at hmove
    exact hmove.eq_of_same.trans hzero

-- ======================================================== a cycle's step

/-- A step of a cycle forgets of the note only what that cycle then loads. -/
theorem noteTold_cycle (cfg : RelayConfig) (note : Told) (s : RelayState) (j : Nat)
    (wake : Wake) :
    (noteTold cfg note s (.cycle j wake)).accepted = note.accepted
      ∧ (∀ k, (noteTold cfg note s (.cycle j wake)).since k ⊆ note.since k)
      ∧ ∀ k, (k ≠ j ∨ ∀ n, s.cycles[j]? ≠ some (.checking n)) →
        (noteTold cfg note s (.cycle j wake)).since k = note.since k := by
  simp only [noteTold]
  split
  next n hchecking =>
    refine ⟨rfl, fun k => ?_, fun k hk => ?_⟩
    · by_cases hk : k = j
      · simp [Told.load, hk]
      · simp [Told.load, hk]
    · rcases hk with hk | hk
      · simp [Told.load, hk]
      · exact absurd hchecking (hk n)
  next => exact ⟨rfl, fun k => List.Subset.refl _, fun k _ => rfl⟩

theorem Loaded.congr {note' : Told} {n : UInt64} {quietFor : Nat}
    (h : Loaded (note, s) j n quietFor) (haccepted : note'.accepted = note.accepted)
    (hsince : note'.since j = note.since j) (huntold : untoldAt s' = untoldAt s)
    (hclock : s.clock ≤ s'.clock) (hnonce : s'.operatorNonce = s.operatorNonce) :
    Loaded (note', s') j n quietFor := by
  refine ⟨by rw [hnonce]; exact h.behind, fun y hy => ?_⟩
  rw [haccepted] at hy
  rw [huntold, hsince]
  rcases h.accepted y hy with huntold | hpast | htold
  · exact .inl huntold
  · exact .inr (.inl (Nat.le_trans hpast hclock))
  · exact .inr (.inr htold)

/-- What a cycle has loaded holds after its own step: it has just loaded it,
or it goes on with it. -/
theorem loaded_own {s' : RelayState} {stage stage' : CycleStage} {sh : Shared} {n : UInt64}
    {quietFor : Nat} (hinv : StepDownInv cfg (note, s)) (hget : s.cycles[j]? = some stage)
    (hmove : CycleMove cfg j s.toShared stage sh stage') (hshared : s'.toShared = sh)
    (huntold : untoldAt s' = untoldAt s)
    (hloaded : loadedOf cfg stage' = some (n, quietFor)) :
    Loaded (noteTold cfg note s (.cycle j wake), s') j n quietFor := by
  obtain ⟨haccepted, -, hsince⟩ := noteTold_cycle cfg note s j wake
  cases hmove with
  | unanswered | fetched | take | inSync | raise | hold | lower | leave => cases hloaded
  | load hcached hlt =>
      cases hloaded
      refine ⟨⟨_, by rw [hshared]; exact hcached, hlt⟩, fun y hy => ?_⟩
      rw [haccepted] at hy
      rw [huntold, hshared]
      have hpast := hinv.clock
      obtain ⟨hle, huntold | htold⟩ := hinv.accepted y hy
      · exact .inl huntold
      · refine .inr (.inl ?_)
        dsimp only at htold hpast
        omega
  | @clear n quietFor hzero hquiet =>
      cases hloaded
      have hold := hinv.loaded j _ _ _ hget rfl
      refine ⟨by rw [hshared]; exact hold.behind, fun y hy => ?_⟩
      rw [haccepted] at hy
      rw [huntold, hshared]
      rcases hold.accepted y hy with huntold | hpast | htold
      · exact .inl huntold
      · exact .inr (.inl (Nat.le_trans (Nat.add_le_add_left hquiet _) hpast))
      · refine .inr (.inr ?_)
        rw [hsince j (.inr fun m hm => by rw [hget] at hm; cases hm)]
        exact htold

theorem stepDownInv_cycle (hinv : StepDownInv cfg (note, s))
    (h : s.step cfg (.cycle j wake) = some s') :
    StepDownInv cfg (noteTold cfg note s (.cycle j wake), s') := by
  obtain ⟨haccepted, hsub, hsince⟩ := noteTold_cycle cfg note s j wake
  have hrelay := relayInv_step hinv.relay h
  obtain ⟨stage, sh, stage', hget, hmove, rfl⟩ := step_cycle h
  obtain ⟨hgate, hinflight, hlast, hclock, hnonce⟩ := hmove.frame
  refine ⟨hrelay, ?_, fun y hy => ?_, fun k t ht => ?_, fun k c n quietFor hk hloaded => ?_,
    fun k n hk => ?_⟩
  · show sh.lastSubmitOk ≤ sh.clock
    rw [hlast, hclock]
    exact hinv.clock
  · rw [haccepted] at hy
    show y.2 ≤ sh.clock ∧ (untoldAt s y.1 = true ∨ y.2 ≤ sh.lastSubmitOk)
    rw [hlast, hclock]
    exact hinv.accepted y hy
  · rw [haccepted]
    exact hinv.since k t (hsub k ht)
  · rcases getElem?_set_cases hget hk with ⟨rfl, rfl⟩ | ⟨hkj, hk⟩
    · exact loaded_own hinv hget hmove rfl rfl hloaded
    · -- cycle `k` is inside the gate, so cycle `j` is not
      have hcycle : insideOf s (.cycle k) = true :=
        (insideOf_cycle hk).trans (inside_of_loaded hloaded)
      have hout : cycleInside stage = false :=
        (insideOf_cycle hget).symm.trans (hinv.relay.outside hcycle (by simpa using hkj))
      exact (hinv.loaded k c n quietFor hk hloaded).congr haccepted (hsince k (.inl hkj)) rfl
        (Nat.le_of_eq hclock.symm) (hnonce hout)
  · show sh.inflightSubmits = 0
    rw [hinflight]
    rcases getElem?_set_cases hget hk with ⟨-, rfl⟩ | ⟨-, hk⟩
    · cases hmove with
      | clear hzero hquiet => exact hzero
    · exact hinv.cleared k n hk

-- ============================================================== every act

/-- An act of none of the tasks. -/
theorem stepDownInv_frame (hinv : StepDownInv cfg (note, s)) (hrelay : RelayInv s')
    (huntold : untoldAt s' = untoldAt s) (hclock : s.clock ≤ s'.clock)
    (hlast : s'.lastSubmitOk = s.lastSubmitOk) (hnonce : s'.operatorNonce = s.operatorNonce)
    (hinflight : s'.inflightSubmits = s.inflightSubmits)
    (hcycles : ∀ (j : Nat) c, s'.cycles[j]? = some c → cycleInside c = true →
      s.cycles[j]? = some c) : StepDownInv cfg (note, s') := by
  refine ⟨hrelay, ?_, fun y hy => ?_, hinv.since, fun k c n quietFor hk hloaded => ?_,
    fun k n hk => ?_⟩
  · exact hlast ▸ Nat.le_trans hinv.clock hclock
  · obtain ⟨hle, hstate⟩ := hinv.accepted y hy
    exact ⟨Nat.le_trans hle hclock, by rwa [huntold, hlast]⟩
  · have hold := hcycles k c hk (inside_of_loaded hloaded)
    exact (hinv.loaded k c n quietFor hold hloaded).congr rfl rfl huntold hclock hnonce
  · exact hinflight.trans (hinv.cleared k n (hcycles k _ hk rfl))

theorem stepDownInv_step (hinv : StepDownInv cfg (note, s)) (h : s.step cfg a = some s') :
    StepDownInv cfg (noteTold cfg note s a, s') := by
  have hrelay := relayInv_step hinv.relay h
  cases a with
  | submit i wake => exact stepDownInv_submit hinv h
  | cycle j wake => exact stepDownInv_cycle hinv h
  | tick secs =>
      cases h
      exact stepDownInv_frame hinv hrelay rfl (Nat.le_add_right _ _) rfl rfl rfl
        fun _ _ hc _ => hc
  | evict | settle =>
      cases h
      exact stepDownInv_frame hinv hrelay rfl (Nat.le_refl _) rfl rfl rfl fun _ _ hc _ => hc
  | request job =>
      cases h
      refine stepDownInv_frame hinv hrelay (funext fun k => ?_) (Nat.le_refl _) rfl rfl rfl
        fun _ _ hc _ => hc
      exact any_append (x := (job, SubmitStage.queued)) _ rfl k
  | reconcile =>
      cases h
      refine stepDownInv_frame hinv hrelay rfl (Nat.le_refl _) rfl rfl rfl fun k c hc hin => ?_
      change (s.cycles ++ [.fetching])[k]? = some c at hc
      by_cases hlt : k < s.cycles.length
      · rwa [List.getElem?_append_left hlt] at hc
      · rw [List.getElem?_append_right (Nat.le_of_not_lt hlt)] at hc
        obtain rfl := List.mem_singleton.mp (List.mem_of_getElem? hc)
        cases hin

theorem stepDownInv_start (clock : Nat) : StepDownInv cfg (.empty, .start clock) where
  relay := relayInv_start clock
  clock := Nat.zero_le clock
  accepted := fun y hy => by cases hy
  since := fun j t ht => by cases ht
  loaded := fun j stage n quietFor hk => by cases hk
  cleared := fun j n hk => by cases hk

end StepDown

/-- In every schedule, the reconciler lowers the nonce only with no submit
in flight and none that succeeded within the quiet period, exactly if no
success within it is told between the loads of a cycle that steps down. -/
theorem step_down_iff (cfg : RelayConfig) (clock : Nat) (acts : List RelayAct) :
    Always (watched (RelayState.step cfg) (noteTold cfg)) (LowersQuietly cfg)
        (.empty, .start clock) acts
      ↔ Always (watched (RelayState.step cfg) (noteTold cfg)) (fun x a _ => ¬ ToldLate cfg x a)
          (.empty, .start clock) acts := by
  refine always_iff (StepDownInv cfg) (fun x a x' hinv h => ?_) (fun x a x' hinv h _ => ?_)
    (stepDownInv_start clock) acts
  · obtain ⟨s', hstep, rfl⟩ := Option.map_eq_some_iff.mp h
    exact lowersQuietly_iff hinv hstep
  · obtain ⟨s', hstep, rfl⟩ := Option.map_eq_some_iff.mp h
    exact stepDownInv_step hinv hstep

-- ============================================================ a late tell

/-- Two minutes of quiet, and every transaction can be built. -/
def sampleRelay : RelayConfig := ⟨120, fun _ _ => .ok [1]⟩

/-- A request is accepted and leaves the gate; a cycle loads
`last_submit_ok`; the task stores it and is done; the cycle finds nothing in
flight. -/
def lateTell : List RelayAct :=
  [.request ⟨.zero 32, []⟩, .submit 0 .ready, .submit 0 .ready, .submit 0 .ready,
   .submit 0 .ready, .submit 0 .ready, .submit 0 (.nonce (.ok 1)),
   .submit 0 (.submitted (.ok ())), .submit 0 .ready,
   .reconcile, .cycle 0 (.nonce (.ok 1)), .cycle 0 .ready, .cycle 0 .ready,
   .submit 0 .ready, .submit 0 .ready, .submit 0 .ready,
   .cycle 0 .ready, .cycle 0 .ready]

/-- The cycle takes back the nonce of the transaction just accepted. -/
theorem lateTell_lowers :
    ¬ Always (watched (RelayState.step sampleRelay) (noteTold sampleRelay))
        (LowersQuietly sampleRelay) (.empty, .start 1000) lateTell := by
  rintro ⟨-, -, -, -, -, -, -, -, -, -, -, -, -, -, -, -, -, hquiet, -⟩
  have hpast := (hquiet ⟨0, .ready, 2, 1, rfl, rfl, rfl, by decide⟩).2 (0, 1000)
    List.mem_cons_self
  exact absurd hpast (by decide)

end KoinosEvm.Proofs
