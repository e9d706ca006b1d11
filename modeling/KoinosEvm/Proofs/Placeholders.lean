/-
The placeholders of the relay, and its count of submits under way.

A request places an empty entry in `tx_meta` and is counted in one step; its
task settles the entry, by the Koinos id or by removing it, before it is
done. So a placeholder is there only for a request that has still to settle
it (`PlaceholderInv`): with nothing under way there is none, and the counter
is zero (`inflight_accounted`).
-/
import KoinosEvm.Proofs.Relay
import KoinosEvm.Proxy.KoinosTx

namespace KoinosEvm.Proofs

open Lib Proxy

-- ============================================================= the stages

/-- The request has an entry of `tx_meta` to settle. -/
def unsettled : SubmitStage → Bool
  | .reserved | .spawned | .entered | .fetching | .sending _ | .resyncing | .accepted _
  | .released _ | .stored _ => true
  | .queued | .deduping | .known | .failed | .closing | .ended => false

/-- The Koinos id the task has. -/
def idOf : SubmitStage → Option Bytes
  | .accepted id | .released id | .stored id => some id
  | .queued | .deduping | .known | .reserved | .spawned | .entered | .fetching | .sending _
  | .resyncing | .failed | .closing | .ended => none

theorem counted_of_unsettled {stage : SubmitStage} (h : unsettled stage = true) :
    counted stage = true := by
  cases stage with
  | reserved | spawned | entered | fetching | sending | resyncing | accepted | released
  | stored => rfl
  | queued | deduping | known | failed | closing | ended => cases h

section Step

variable {cfg : RelayConfig} {i : Nat} {job : RelayJob} {sh sh' : Shared}
  {stage stage' : SubmitStage} {wake : Wake}

/-- Where its own entry is a placeholder after a step, the request has still
to settle it, or had nothing to settle before. -/
theorem SubmitMove.placeholder (h : SubmitMove cfg i job sh stage wake sh' stage')
    (hid : ∀ id, idOf stage = some id → id ≠ [])
    (hplace : sh'.txMeta job.ethHash = some []) :
    unsettled stage' = true
      ∨ unsettled stage = false ∧ sh.txMeta job.ethHash = some [] := by
  cases h with
  | gone | take | know | answer | leaveFailed | close => exact Or.inr ⟨rfl, hplace⟩
  | reserve | spawn | enter | fetch | send | fetched | accepted | resync | resynced | leave
  | tell => exact Or.inl rfl
  | unfetched | refused | unresynced =>
      rw [removeMeta_self] at hplace
      cases hplace
  | settle koinosTxId =>
      rw [setKoinosTxId_self] at hplace
      obtain ⟨-, -, hempty⟩ := Option.map_eq_some_iff.mp hplace
      exact absurd hempty (hid koinosTxId rfl)

/-- The task gets its id from the build. -/
theorem SubmitMove.idOf (h : SubmitMove cfg i job sh stage wake sh' stage') {id : Bytes}
    (hid : idOf stage' = some id) :
    idOf stage = some id ∨ ∃ n, cfg.build job.rawTx n = .ok id := by
  cases h with
  | accepted _ _ hbuild =>
      cases hid
      exact Or.inr ⟨_, hbuild⟩
  | leave | tell => exact Or.inl hid
  | gone | take | know | reserve | answer | spawn | enter | fetch | send | fetched | unfetched
  | resync | refused | resynced | unresynced | leaveFailed | settle | close => cases hid

end Step

-- =========================================================== the invariant

/-- Each placeholder has a request that is to settle it, with an id that is
none. -/
structure PlaceholderInv (s : RelayState) : Prop where
  relay : RelayInv s
  placeholder : ∀ ethHash, s.txMeta ethHash = some [] →
    ∃ t ∈ s.submits, t.1.ethHash = ethHash ∧ unsettled t.2 = true
  ids : ∀ t ∈ s.submits, ∀ id, idOf t.2 = some id → id ≠ []

/-- The counter is what it should be, and what nothing under way leaves. -/
structure InflightAccounted (s : RelayState) : Prop where
  inflight : s.inflightSubmits = s.submits.countP fun t => counted t.2
  idle : ¬ InFlight s → s.inflightSubmits = 0 ∧ ∀ ethHash, s.txMeta ethHash ≠ some []

/-- A task drops its `InflightGuard`. -/
def Finishes (s : RelayState) (a : RelayAct) : Prop :=
  ∃ i wake job, a = .submit i wake ∧ s.submits[i]? = some (job, .closing)

section Run

variable {cfg : RelayConfig} {s s' : RelayState} {a : RelayAct}

theorem PlaceholderInv.accounted (h : PlaceholderInv s) : InflightAccounted s := by
  refine ⟨h.relay.inflight, fun hidle => ⟨h.relay.not_inFlight.mp hidle, ?_⟩⟩
  intro ethHash hplace
  obtain ⟨t, ht, -, hunsettled⟩ := h.placeholder ethHash hplace
  exact hidle ⟨t, ht, counted_of_unsettled hunsettled⟩

/-- The counter has a one for whoever takes it off. -/
theorem RelayInv.no_underflow (h : RelayInv s) (hfin : Finishes s a) : 0 < s.inflightSubmits := by
  obtain ⟨i, -, job, -, hget⟩ := hfin
  rw [h.inflight]
  exact List.countP_pos_iff.mpr ⟨_, List.mem_of_getElem? hget, rfl⟩

theorem placeholderInv_start (clock : Nat) : PlaceholderInv (.start clock) where
  relay := relayInv_start clock
  placeholder := fun _ h => by cases h
  ids := fun _ h => by cases h

/-- A placeholder after the step of a request: of another, which is as it was,
or its own. -/
theorem placeholder_submit {i : Nat} {wake : Wake} {job : RelayJob} {stage stage' : SubmitStage}
    {sh : Shared} {ethHash : B256} (hinv : PlaceholderInv s)
    (hget : s.submits[i]? = some (job, stage))
    (hstep : SubmitMove cfg i job s.toShared stage wake sh stage')
    (hplace : sh.txMeta ethHash = some []) :
    ∃ t ∈ s.submits.set i (job, stage'), t.1.ethHash = ethHash ∧ unsettled t.2 = true := by
  have hmem := List.mem_of_getElem? hget
  have hset : (job, stage') ∈ s.submits.set i (job, stage') :=
    List.mem_set (List.getElem?_eq_some_iff.mp hget).1 _
  have hkept : s.txMeta ethHash = some [] → (unsettled stage = false ∨ ethHash ≠ job.ethHash) →
      ∃ t ∈ s.submits.set i (job, stage'), t.1.ethHash = ethHash ∧ unsettled t.2 = true := by
    intro hbefore hother
    obtain ⟨t, ht, hhash, hunsettled⟩ := hinv.placeholder ethHash hbefore
    refine ⟨t, mem_set_ne hget ht ?_, hhash, hunsettled⟩
    rintro rfl
    rcases hother with hsettled | hne
    · exact absurd (hsettled.symm.trans hunsettled) Bool.false_ne_true
    · exact hne hhash.symm
  by_cases heq : ethHash = job.ethHash
  · subst heq
    rcases hstep.placeholder (hinv.ids _ hmem) hplace with hunsettled | ⟨hsettled, hbefore⟩
    · exact ⟨_, hset, rfl, hunsettled⟩
    · exact hkept hbefore (Or.inl hsettled)
  · exact hkept ((hstep.txMeta_ne heq).symm.trans hplace) (Or.inr heq)

theorem placeholderInv_step (hbuild : ∀ rawTx n id, cfg.build rawTx n = .ok id → id ≠ [])
    (hinv : PlaceholderInv s) (h : s.step cfg a = some s') : PlaceholderInv s' := by
  refine ⟨relayInv_step hinv.relay h, ?_, ?_⟩
  · intro ethHash hplace
    cases a with
    | tick | settle | reconcile =>
        cases h
        exact hinv.placeholder ethHash hplace
    | request job =>
        cases h
        obtain ⟨t, ht, hrest⟩ := hinv.placeholder ethHash hplace
        exact ⟨t, List.mem_append_left _ ht, hrest⟩
    | evict gone =>
        cases h
        by_cases heq : ethHash = gone
        · subst heq
          exact absurd ((Function.update_self _ _ _).symm.trans hplace) (by simp)
        · exact hinv.placeholder ethHash ((Function.update_of_ne heq _ _).symm.trans hplace)
    | cycle j wake =>
        obtain ⟨stage, sh, stage', -, hmove, rfl⟩ := step_cycle h
        exact hinv.placeholder ethHash ((congrFun hmove.txMeta ethHash).symm.trans hplace)
    | submit i wake =>
        obtain ⟨job, stage, sh, stage', hget, hstep, rfl⟩ := step_submit h
        exact placeholder_submit hinv hget hstep hplace
  · cases a with
    | tick | settle | reconcile | evict =>
        cases h
        exact hinv.ids
    | request job =>
        cases h
        exact List.forall_mem_append.mpr ⟨hinv.ids, by simp [idOf]⟩
    | cycle j wake =>
        obtain ⟨stage, sh, stage', -, -, rfl⟩ := step_cycle h
        exact hinv.ids
    | submit i wake =>
        obtain ⟨job, stage, sh, stage', hget, hstep, rfl⟩ := step_submit h
        refine forall_mem_set hinv.ids fun id hid => ?_
        rcases hstep.idOf hid with hid | ⟨n, hbuilt⟩
        · exact hinv.ids _ (List.mem_of_getElem? hget) id hid
        · exact hbuild _ _ _ hbuilt

/-- The Koinos id is a digest. -/
theorem relay_build_ne_nil {crates : TxCrates} {cfg : OperatorConfig} {quietPeriodSecs : Nat}
    (rawTx : Bytes) (n : UInt64) (id : Bytes)
    (h : (cfg.relay crates quietPeriodSecs).build rawTx n = .ok id) : id ≠ [] := by
  cases h
  exact List.ne_nil_of_length_pos (by rw [FixedBytes.len]; decide)

/-- The counter and the placeholders, in every schedule. -/
theorem inflight_accounted (crates : TxCrates) (cfg : OperatorConfig) (quietPeriodSecs clock : Nat)
    (acts : List RelayAct) :
    Always (RelayState.step (cfg.relay crates quietPeriodSecs))
      (fun s a s' => InflightAccounted s' ∧ (Finishes s a → 0 < s.inflightSubmits))
      (.start clock) acts := by
  refine always_of_inv PlaceholderInv (fun s a s' hinv hstep => ?_) (placeholderInv_start clock)
    acts
  have hinv' := placeholderInv_step relay_build_ne_nil hinv hstep
  exact ⟨hinv', hinv'.accounted, hinv.relay.no_underflow⟩

end Run

end KoinosEvm.Proofs
