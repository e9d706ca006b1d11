/-
What the steps of the relay do to what its tasks share.

Three things are said of a stage: the task is inside the gate
(`inside`), the request is counted (`counted`), and
the node has accepted its transaction while `last_submit_ok` is not stored
yet (`untold`). `SubmitMove` has the steps of a request one by one and
`SubmitSpec` is what each does in these terms; `CycleMove` has those of a
cycle. Later proofs unfold no step. In every run the gate is held by whoever
is inside and `inflight_submits` is the number of counted requests
(`RelayInv`).
-/
import KoinosEvm.Lib.Gate
import KoinosEvm.Lib.Schedule
import KoinosEvm.Proxy.Relay

namespace KoinosEvm.Proofs

open Lib Proxy

-- ============================================================= the stages

/-- Inside the gate. -/
def inside : SubmitStage → Bool
  | .deduping | .known | .reserved | .entered | .fetching | .sending _ | .resyncing
  | .accepted _ | .failed => true
  | .queued | .spawned | .released _ | .stored _ | .closing | .ended => false

/-- In `inflight_submits`. -/
def counted : SubmitStage → Bool
  | .reserved | .spawned | .entered | .fetching | .sending _ | .resyncing | .accepted _
  | .failed | .released _ | .stored _ | .closing => true
  | .queued | .deduping | .known | .ended => false

/-- Accepted by the node, and not in `last_submit_ok`. -/
def untold : SubmitStage → Bool
  | .accepted _ | .released _ => true
  | .queued | .deduping | .known | .reserved | .spawned | .entered | .fetching | .sending _
  | .resyncing | .failed | .stored _ | .closing | .ended => false

theorem counted_of_untold {stage : SubmitStage}
    (h : untold stage = true) : counted stage = true := by
  cases stage with
  | accepted | released => rfl
  | queued | deduping | known | reserved | spawned | entered | fetching | sending | resyncing
  | failed | stored | closing | ended => cases h

/-- Inside the gate. -/
def cycleInside : CycleStage → Bool
  | .checking _ | .timed .. | .cleared _ | .leaving => true
  | .fetching | .fetched _ | .ended => false

-- ============================================================== the steps

/-- `last_submit_ok` is stored exactly when a success is told. -/
inductive TellMove (clock : Nat) : Bool → Bool → Nat → Nat → Prop
  | keep {untold : Bool} {last : Nat} : TellMove clock untold untold last last
  | accept {last : Nat} : TellMove clock false true last last
  | tell {last : Nat} : TellMove clock true false last clock

/-- What each step of a request does, and when. -/
inductive SubmitMove (cfg : RelayConfig) (i : Nat) (job : RelayJob) (sh : Shared) :
    SubmitStage → Wake → Shared → SubmitStage → Prop
  | gone : SubmitMove cfg i job sh .queued .dropped sh .ended
  | take (hfree : sh.gate = none) :
      SubmitMove cfg i job sh .queued .ready { sh with gate := some (.submit i) } .deduping
  | know (hknown : sh.knows job.ethHash = true) :
      SubmitMove cfg i job sh .deduping .ready sh .known
  | reserve (hnew : sh.knows job.ethHash = false) :
      SubmitMove cfg i job sh .deduping .ready (sh.reserve job.ethHash) .reserved
  | answer : SubmitMove cfg i job sh .known .ready sh.release .ended
  | spawn : SubmitMove cfg i job sh .reserved .ready sh.release .spawned
  | enter (hfree : sh.gate = none) :
      SubmitMove cfg i job sh .spawned .ready { sh with gate := some (.submit i) } .entered
  | fetch (hcached : sh.operatorNonce = none) :
      SubmitMove cfg i job sh .entered .ready sh .fetching
  | send {n : UInt64} (hcached : sh.operatorNonce = some n) :
      SubmitMove cfg i job sh .entered .ready sh (.sending false)
  | fetched (n : UInt64) :
      SubmitMove cfg i job sh .fetching (.nonce (.ok n)) { sh with operatorNonce := some n }
        (.sending false)
  | unfetched (e : String) :
      SubmitMove cfg i job sh .fetching (.nonce (.error e)) (sh.removeMeta job.ethHash) .failed
  | accepted {n : UInt64} {koinosTxId : Bytes} (resynced : Bool)
      (hcached : sh.operatorNonce = some n) (hbuild : cfg.build job.rawTx n = .ok koinosTxId) :
      SubmitMove cfg i job sh (.sending resynced) (.submitted (.ok ()))
        { sh with operatorNonce := some (n + 1) } (.accepted koinosTxId)
  | resync {n : UInt64} {r : Except String Unit} {e : String}
      (hcached : sh.operatorNonce = some n)
      (herror : cfg.build job.rawTx n = .error e ∨ r = .error e)
      (hnonce : isNonceRelatedErr e = true) :
      SubmitMove cfg i job sh (.sending false) (.submitted r) sh .resyncing
  | refused {n : UInt64} {r : Except String Unit} {e : String} (resynced : Bool)
      (hcached : sh.operatorNonce = some n)
      (herror : cfg.build job.rawTx n = .error e ∨ r = .error e)
      (hgive : (isNonceRelatedErr e && !resynced) = false) :
      SubmitMove cfg i job sh (.sending resynced) (.submitted r)
        ({ sh with
            operatorNonce := if isNonceRelatedErr e then none else sh.operatorNonce }.removeMeta
          job.ethHash) .failed
  | resynced (n : UInt64) :
      SubmitMove cfg i job sh .resyncing (.nonce (.ok n)) { sh with operatorNonce := some n }
        (.sending true)
  | unresynced (e : String) :
      SubmitMove cfg i job sh .resyncing (.nonce (.error e))
        ({ sh with operatorNonce := none }.removeMeta job.ethHash) .failed
  | leave (koinosTxId : Bytes) :
      SubmitMove cfg i job sh (.accepted koinosTxId) .ready sh.release (.released koinosTxId)
  | leaveFailed : SubmitMove cfg i job sh .failed .ready sh.release .closing
  | tell (koinosTxId : Bytes) :
      SubmitMove cfg i job sh (.released koinosTxId) .ready { sh with lastSubmitOk := sh.clock }
        (.stored koinosTxId)
  | settle (koinosTxId : Bytes) :
      SubmitMove cfg i job sh (.stored koinosTxId) .ready
        (sh.setKoinosTxId job.ethHash koinosTxId) .closing
  | close :
      SubmitMove cfg i job sh .closing .ready
        { sh with inflightSubmits := sh.inflightSubmits - 1 } .ended

section Moves

variable {cfg : RelayConfig} {i : Nat} {job : RelayJob} {sh sh' : Shared}
  {stage stage' : SubmitStage} {wake : Wake}

theorem take_ok {me : Party} (h : sh.take me = some sh') :
    sh.gate = none ∧ sh' = { sh with gate := some me } := by
  unfold Shared.take at h
  split at h
  next hfree =>
    cases h
    exact ⟨hfree, rfl⟩
  · cases h

theorem afterSubmit_move {nonce : UInt64} {resynced : Bool} {r : Except String Unit}
    (hcached : sh.operatorNonce = some nonce)
    (h : afterSubmit cfg job sh nonce resynced r = (sh', stage')) :
    SubmitMove cfg i job sh (.sending resynced) (.submitted r) sh' stage' := by
  have herr : ∀ e, (cfg.build job.rawTx nonce = .error e ∨ r = .error e) →
      (if isNonceRelatedErr e && !resynced then (sh, SubmitStage.resyncing)
        else
          let cached := if isNonceRelatedErr e then none else sh.operatorNonce
          ({ sh with operatorNonce := cached }.removeMeta job.ethHash, SubmitStage.failed))
        = (sh', stage') →
      SubmitMove cfg i job sh (.sending resynced) (.submitted r) sh' stage' := by
    intro e he heq
    split at heq
    next hagain =>
      cases heq
      obtain ⟨hnonce, hfirst⟩ := Bool.and_eq_true_iff.mp hagain
      obtain rfl : resynced = false := by simpa using hfirst
      exact .resync hcached he hnonce
    next hgive =>
      cases heq
      exact .refused resynced hcached he (Bool.eq_false_of_not_eq_true hgive)
  unfold afterSubmit at h
  split at h
  next koinosTxId hbuild =>
    cases h
    exact .accepted resynced hcached hbuild
  next e hbuild => exact herr e (Or.inl hbuild) h
  next e hbuild => exact herr e (Or.inr rfl) h

theorem submitStep_move (h : submitStep cfg i job sh stage wake = some (sh', stage')) :
    SubmitMove cfg i job sh stage wake sh' stage' := by
  unfold submitStep at h
  split at h
  · cases h
    exact .gone
  · obtain ⟨sh₁, htaken, heq⟩ := Option.map_eq_some_iff.mp h
    cases heq
    obtain ⟨hfree, rfl⟩ := take_ok htaken
    exact .take hfree
  · split at h
    next hknown =>
      cases h
      exact .know hknown
    next hnew =>
      cases h
      exact .reserve (Bool.eq_false_of_not_eq_true hnew)
  · cases h
    exact .answer
  · cases h
    exact .spawn
  · obtain ⟨sh₁, htaken, heq⟩ := Option.map_eq_some_iff.mp h
    cases heq
    obtain ⟨hfree, rfl⟩ := take_ok htaken
    exact .enter hfree
  · split at h
    next hcached =>
      cases h
      exact .fetch hcached
    next hcached =>
      cases h
      exact .send hcached
  · cases h
    exact .fetched _
  · cases h
    exact .unfetched _
  · obtain ⟨nonce, hcached, heq⟩ := Option.map_eq_some_iff.mp h
    exact afterSubmit_move hcached heq
  · cases h
    exact .resynced _
  · cases h
    exact .unresynced _
  · cases h
    exact .leave _
  · cases h
    exact .leaveFailed
  · cases h
    exact .tell _
  · cases h
    exact .settle _
  · cases h
    exact .close
  · cases h

end Moves

/-- A step of a request. -/
structure SubmitSpec (i : Nat) (sh : Shared) (stage : SubmitStage) (sh' : Shared)
    (stage' : SubmitStage) : Prop where
  gate : GateMove (.submit i) (inside stage) (inside stage') sh.gate
    sh'.gate
  inflight : CountMove (counted stage) (counted stage')
    sh.inflightSubmits sh'.inflightSubmits
  tell : TellMove sh.clock (untold stage) (untold stage')
    sh.lastSubmitOk sh'.lastSubmitOk
  clock : sh'.clock = sh.clock
  /-- Only inside the gate is a request counted, and the nonce written. -/
  outside : inside stage = false →
    sh'.operatorNonce = sh.operatorNonce
      ∧ (counted stage' = true → counted stage = true)

section Submit

variable {cfg : RelayConfig} {i : Nat} {job : RelayJob} {sh sh' : Shared}
  {stage stage' : SubmitStage} {wake : Wake}

/-- A step that takes the gate. -/
theorem spec_of_take {stage stage' : SubmitStage} (hfree : sh.gate = none)
    (hout : inside stage = false) (hin : inside stage' = true)
    (hcount : counted stage = counted stage') (hstage : untold stage = untold stage') :
    SubmitSpec i sh stage { sh with gate := some (.submit i) } stage' := by
  constructor
  · rw [hout, hin, hfree]
    exact .take
  · rw [hcount]
    exact .keep
  · rw [hstage]
    exact .keep
  · rfl
  · exact fun _ => ⟨rfl, fun hnext => hcount.trans hnext⟩

theorem SubmitMove.spec (h : SubmitMove cfg i job sh stage wake sh' stage') :
    SubmitSpec i sh stage sh' stage' := by
  cases h with
  | gone => exact ⟨.keep, .keep, .keep, rfl, fun _ => ⟨rfl, id⟩⟩
  | take hfree => exact spec_of_take hfree rfl rfl rfl rfl
  | enter hfree => exact spec_of_take hfree rfl rfl rfl rfl
  | know | fetch | send | fetched | unfetched | resync | refused | resynced | unresynced =>
      exact ⟨.keep, .keep, .keep, rfl, fun hout => by cases hout⟩
  | reserve => exact ⟨.keep, .up, .keep, rfl, fun hout => by cases hout⟩
  | answer | spawn | leave | leaveFailed =>
      exact ⟨.release, .keep, .keep, rfl, fun hout => by cases hout⟩
  | accepted => exact ⟨.keep, .keep, .accept, rfl, fun hout => by cases hout⟩
  | tell => exact ⟨.keep, .keep, .tell, rfl, fun _ => ⟨rfl, id⟩⟩
  | settle =>
      unfold Shared.setKoinosTxId
      split
      · exact ⟨.keep, .keep, .keep, rfl, fun _ => ⟨rfl, id⟩⟩
      · exact ⟨.keep, .keep, .keep, rfl, fun _ => ⟨rfl, id⟩⟩
  | close => exact ⟨.keep, .down, .keep, rfl, fun _ => ⟨rfl, fun h => by cases h⟩⟩

end Submit

/-- What each step of a cycle does, and when. -/
inductive CycleMove (cfg : RelayConfig) (j : Nat) (sh : Shared) :
    CycleStage → Shared → CycleStage → Prop
  | unanswered : CycleMove cfg j sh .fetching sh .ended
  | fetched (n) : CycleMove cfg j sh .fetching sh (.fetched n)
  | take {n} (hfree : sh.gate = none) :
      CycleMove cfg j sh (.fetched n) { sh with gate := some (.cycle j) } (.checking n)
  | inSync {n} : CycleMove cfg j sh (.checking n) sh .leaving
  | raise {n cached} (hcached : sh.operatorNonce = some cached) (hlt : cached < n) :
      CycleMove cfg j sh (.checking n) { sh with operatorNonce := some n } .leaving
  | load {n cached} (hcached : sh.operatorNonce = some cached) (hlt : n < cached) :
      CycleMove cfg j sh (.checking n) sh (.timed n (sh.clock - sh.lastSubmitOk))
  | hold {n quietFor} : CycleMove cfg j sh (.timed n quietFor) sh .leaving
  | clear {n quietFor} (hzero : sh.inflightSubmits = 0)
      (hquiet : cfg.quietPeriodSecs ≤ quietFor) :
      CycleMove cfg j sh (.timed n quietFor) sh (.cleared n)
  | lower {n} :
      CycleMove cfg j sh (.cleared n) { sh with operatorNonce := some n } .leaving
  | leave : CycleMove cfg j sh .leaving sh.release .ended

section Cycle

variable {cfg : RelayConfig} {j : Nat} {sh sh' : Shared} {stage stage' : CycleStage}
  {wake : Wake}

theorem cycleStep_move (h : cycleStep cfg j sh stage wake = some (sh', stage')) :
    CycleMove cfg j sh stage sh' stage' := by
  unfold cycleStep at h
  split at h
  · cases h
    exact .fetched _
  · cases h
    exact .unanswered
  · obtain ⟨sh₁, htaken, heq⟩ := Option.map_eq_some_iff.mp h
    cases heq
    obtain ⟨hfree, rfl⟩ := take_ok htaken
    exact .take hfree
  · split at h
    · cases h
      exact .inSync
    next cached hcached =>
      split at h
      next hlt =>
        cases h
        exact .raise hcached hlt
      next =>
        split at h
        next hlt =>
          cases h
          exact .load hcached hlt
        next =>
          cases h
          exact .inSync
  · split at h
    next hboth =>
      cases h
      exact .clear hboth.1 hboth.2
    next =>
      cases h
      exact .hold
  · cases h
    exact .lower
  · cases h
    exact .leave
  · cases h

/-- A cycle changes the gate, and the nonce inside it. -/
theorem CycleMove.frame (h : CycleMove cfg j sh stage sh' stage') :
    GateMove (.cycle j) (cycleInside stage) (cycleInside stage') sh.gate sh'.gate
      ∧ sh'.inflightSubmits = sh.inflightSubmits ∧ sh'.lastSubmitOk = sh.lastSubmitOk
      ∧ sh'.clock = sh.clock
      ∧ (cycleInside stage = false → sh'.operatorNonce = sh.operatorNonce) := by
  cases h with
  | unanswered | fetched => exact ⟨.keep, rfl, rfl, rfl, fun _ => rfl⟩
  | take hfree =>
      refine ⟨?_, rfl, rfl, rfl, fun _ => rfl⟩
      rw [hfree]
      exact .take
  | inSync | raise | load | hold | clear | lower =>
      exact ⟨.keep, rfl, rfl, rfl, fun hout => by cases hout⟩
  | leave => exact ⟨.release, rfl, rfl, rfl, fun hout => by cases hout⟩

end Cycle

-- ============================================================== the entries

theorem removeMeta_self (sh : Shared) (ethHash : B256) :
    (sh.removeMeta ethHash).txMeta ethHash = none := Function.update_self _ _ _

theorem reserve_self (sh : Shared) (ethHash : B256) :
    (sh.reserve ethHash).txMeta ethHash = some [] := Function.update_self _ _ _

theorem setKoinosTxId_self (sh : Shared) (ethHash : B256) (id : Bytes) :
    (sh.setKoinosTxId ethHash id).txMeta ethHash = (sh.txMeta ethHash).map fun _ => id := by
  unfold Shared.setKoinosTxId
  split
  next hnone => rw [hnone, Option.map_none]
  next hsome =>
    rw [hsome, Option.map_some]
    exact Function.update_self _ _ _

theorem setKoinosTxId_ne (sh : Shared) {ethHash other : B256} (id : Bytes)
    (hne : other ≠ ethHash) : (sh.setKoinosTxId ethHash id).txMeta other = sh.txMeta other := by
  unfold Shared.setKoinosTxId
  split
  · rfl
  · exact Function.update_of_ne hne _ _

/-- A request touches the entry of its own transaction only. -/
theorem SubmitMove.txMeta_ne {cfg : RelayConfig} {i : Nat} {job : RelayJob} {sh sh' : Shared}
    {stage stage' : SubmitStage} {wake : Wake} {ethHash : B256}
    (h : SubmitMove cfg i job sh stage wake sh' stage') (hne : ethHash ≠ job.ethHash) :
    sh'.txMeta ethHash = sh.txMeta ethHash := by
  cases h with
  | reserve | unfetched | refused | unresynced => exact Function.update_of_ne hne _ _
  | settle => exact setKoinosTxId_ne _ _ hne
  | gone | take | know | answer | spawn | enter | fetch | send | fetched | accepted | resync
  | resynced | leave | leaveFailed | tell | close => rfl

/-- A cycle touches none. -/
theorem CycleMove.txMeta {cfg : RelayConfig} {j : Nat} {sh sh' : Shared} {stage stage' : CycleStage}
    (h : CycleMove cfg j sh stage sh' stage') : sh'.txMeta = sh.txMeta := by
  cases h with
  | unanswered | fetched | take | inSync | raise | load | hold | clear | lower | leave => rfl

-- ============================================================== the acts

section Acts

variable {cfg : RelayConfig} {s s' : RelayState} {i j : Nat} {wake : Wake} {a : RelayAct}

theorem step_submit (h : s.step cfg (.submit i wake) = some s') :
    ∃ job stage sh stage', s.submits[i]? = some (job, stage)
      ∧ SubmitMove cfg i job s.toShared stage wake sh stage'
      ∧ s' = { s with toShared := sh, submits := s.submits.set i (job, stage') } := by
  simp only [RelayState.step] at h
  split at h
  · cases h
  next job stage hget =>
    obtain ⟨⟨sh, stage'⟩, hstep, rfl⟩ := Option.map_eq_some_iff.mp h
    exact ⟨job, stage, sh, stage', hget, submitStep_move hstep, rfl⟩

theorem step_cycle (h : s.step cfg (.cycle j wake) = some s') :
    ∃ stage sh stage', s.cycles[j]? = some stage
      ∧ CycleMove cfg j s.toShared stage sh stage'
      ∧ s' = { s with toShared := sh, cycles := s.cycles.set j stage' } := by
  simp only [RelayState.step] at h
  split at h
  · cases h
  next stage hget =>
    obtain ⟨⟨sh, stage'⟩, hstep, rfl⟩ := Option.map_eq_some_iff.mp h
    exact ⟨stage, sh, stage', hget, cycleStep_move hstep, rfl⟩

-- ========================================================== the invariant

/-- Who is inside the gate. -/
def insideOf (s : RelayState) : Party → Bool
  | .submit i => (s.submits[i]?).any fun t => inside t.2
  | .cycle j => (s.cycles[j]?).any cycleInside

/-- A request is under way: counted, and not done. -/
def InFlight (s : RelayState) : Prop := ∃ t ∈ s.submits, counted t.2 = true

/-- Whoever is inside holds the gate; the counter counts the requests under
way. -/
structure RelayInv (s : RelayState) : Prop where
  gate : Guarded (insideOf s) s.gate
  inflight : s.inflightSubmits = s.submits.countP fun t => counted t.2

theorem RelayInv.not_inFlight (h : RelayInv s) : ¬ InFlight s ↔ s.inflightSubmits = 0 := by
  rw [h.inflight, List.countP_eq_zero]
  simp [InFlight]

theorem insideOf_submit {job : RelayJob} {stage : SubmitStage}
    (hget : s.submits[i]? = some (job, stage)) : insideOf s (.submit i) = inside stage := by
  simp only [insideOf, hget, Option.any_some]

theorem insideOf_cycle {stage : CycleStage} (hget : s.cycles[j]? = some stage) :
    insideOf s (.cycle j) = cycleInside stage := by
  simp only [insideOf, hget, Option.any_some]

/-- Whoever is inside keeps the others out. -/
theorem RelayInv.outside {p q : Party} (h : RelayInv s) (hp : insideOf s p = true)
    (hne : p ≠ q) : insideOf s q = false := by
  by_contra hq
  exact hne (h.gate.eq hp (Bool.of_not_eq_false hq))

theorem relayInv_start (clock : Nat) : RelayInv (.start clock) where
  gate := fun p hp => by cases p <;> cases hp
  inflight := rfl

theorem relayInv_step (hinv : RelayInv s) (h : s.step cfg a = some s') : RelayInv s' := by
  cases a with
  | tick | evict | settle =>
      cases h
      exact ⟨hinv.gate, hinv.inflight⟩
  | request job =>
      cases h
      refine ⟨fun p hp => hinv.gate p ?_, ?_⟩
      · cases p with
        | cycle j => exact hp
        | submit i =>
            rw [insideOf, any_append (x := (job, SubmitStage.queued)) _ rfl] at hp
            exact hp
      · rw [List.countP_append]
        exact hinv.inflight
  | reconcile =>
      cases h
      refine ⟨fun p hp => hinv.gate p ?_, hinv.inflight⟩
      cases p with
      | submit i => exact hp
      | cycle j =>
          rw [insideOf, any_append (x := CycleStage.fetching) _ rfl] at hp
          exact hp
  | submit i wake =>
      obtain ⟨job, stage, sh, stage', hget, hstep, rfl⟩ := step_submit h
      have hspec := hstep.spec
      refine ⟨hinv.gate.move (.submit i) ?_ fun p hp => ?_,
        countMove_set hinv.inflight hget hspec.inflight⟩
      · simp only [insideOf, any_set _ hget, if_true, hget, Option.any_some]
        exact hspec.gate
      · cases p with
        | cycle j => rfl
        | submit k =>
            have hne : k ≠ i := fun heq => hp (congrArg Party.submit heq)
            simp only [insideOf, any_set _ hget, if_neg hne]
  | cycle j wake =>
      obtain ⟨stage, sh, stage', hget, hmove, rfl⟩ := step_cycle h
      obtain ⟨hgate, hinflight, -⟩ := hmove.frame
      refine ⟨hinv.gate.move (.cycle j) ?_ fun p hp => ?_, hinflight.trans hinv.inflight⟩
      · simp only [insideOf, any_set _ hget, if_true, hget, Option.any_some]
        exact hgate
      · cases p with
        | submit i => rfl
        | cycle k =>
            have hne : k ≠ j := fun heq => hp (congrArg Party.cycle heq)
            simp only [insideOf, any_set _ hget, if_neg hne]

end Acts

end KoinosEvm.Proofs
