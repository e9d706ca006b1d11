/-
The operator's account at the node, and the relay in front of it.

The node has the nonce of the last transaction of the account that is on
chain (`committed`), of the last that it accepted (`last`), and the nonces of
those of the proxy's that it has accepted: in its mempool above `committed`,
on chain up to it. It answers `get_account_nonce` by `committed`. What it
accepts, and what it says where it does not, is open; it may also take a
transaction whose reply does not come through (`lose`), and drop one that is
pending.

The acts of the proxy are those of the relay (Proxy/Relay.lean) that do not
wait for the node, without the reconciler.
-/
import KoinosEvm.Proofs.Relay
import KoinosEvm.Proxy.KoinosTx

namespace KoinosEvm.Proofs

open Lib Proxy

-- ============================================================= the stages

/-- A request is at such a stage. -/
def stageAt (p : SubmitStage → Bool) (s : RelayState) (i : Nat) : Bool :=
  (s.submits[i]?).any fun t => p t.2

/-- Waiting for `submit_transaction`. -/
def isSending : SubmitStage → Bool
  | .sending _ => true
  | _ => false

/-- Waiting for `fetch_operator_nonce`, after a nonce error. -/
def isResyncing : SubmitStage → Bool
  | .resyncing => true
  | _ => false

/-- Waiting for `fetch_operator_nonce`, with no nonce. -/
def isFetching : SubmitStage → Bool
  | .fetching => true
  | _ => false

/-- The nonce of the transaction that request `i` has sent. -/
def sentNonce (s : RelayState) (i : Nat) : Option UInt64 :=
  if stageAt isSending s i then s.operatorNonce else none

/-- A request sends a transaction with this nonce. -/
def Issues (s s' : RelayState) (n : UInt64) : Prop :=
  ∃ i, stageAt isSending s i = false ∧ stageAt isSending s' i = true ∧ s'.operatorNonce = some n

-- ================================================================ the node

/-- The account. -/
structure OperatorNode where
  committed : UInt64
  last : UInt64
  /-- The proxy's, newest first. -/
  accepted : List UInt64
  /-- It has been asked for the nonce. -/
  asked : Bool

namespace OperatorNode

/-- A transaction of the proxy is accepted. -/
def take (node : OperatorNode) (n : UInt64) : OperatorNode :=
  { node with last := n, accepted := n :: node.accepted }

/-- None of the proxy's is in the mempool. -/
def NonePending (node : OperatorNode) : Prop := ∀ n ∈ node.accepted, n ≤ node.committed

end OperatorNode

/-- The proxy and the node. -/
structure OperatorState where
  proxy : RelayState
  node : OperatorNode

/-- The acts. -/
inductive OperatorAct where
  /-- The proxy's own. -/
  | proxy (a : RelayAct)
  /-- The node answers `get_account_nonce`. -/
  | answerNonce (i : Nat)
  /-- .. or there is no answer. -/
  | failNonce (i : Nat) (e : String)
  /-- The node accepts, and says so. -/
  | accept (i : Nat)
  /-- .. does not accept. -/
  | refuse (i : Nat) (e : String)
  /-- .. accepts, and the reply is an error. -/
  | lose (i : Nat) (e : String)
  /-- A block with transactions of the account. -/
  | commit (n : UInt64)
  /-- The mempool drops a transaction of the proxy. -/
  | drop (n : UInt64)

/-- An act of the relay that does not wait for the node. -/
def ownAct : RelayAct → Bool
  | .tick _ | .request _ | .evict _ | .settle _ | .submit _ .ready | .submit _ .dropped => true
  | .submit _ (.nonce _) | .submit _ (.submitted _) | .reconcile | .cycle .. => false

namespace OperatorState

/-- The node takes what request `i` has sent. -/
def taken (s : OperatorState) (i : Nat) (proxy : RelayState) : OperatorState :=
  match sentNonce s.proxy i with
  | none => ⟨proxy, s.node⟩
  | some n => ⟨proxy, s.node.take n⟩

/-- One act. -/
def step (cfg : RelayConfig) (s : OperatorState) : OperatorAct → Option OperatorState
  | .proxy a =>
      if ownAct a then (s.proxy.step cfg a).map fun proxy => { s with proxy := proxy } else none
  | .answerNonce i =>
      (s.proxy.step cfg (.submit i (.nonce (.ok (s.node.committed + 1))))).map fun proxy =>
        ⟨proxy, { s.node with asked := true }⟩
  | .failNonce i e =>
      (s.proxy.step cfg (.submit i (.nonce (.error e)))).map fun proxy =>
        ⟨proxy, { s.node with asked := true }⟩
  | .accept i => (s.proxy.step cfg (.submit i (.submitted (.ok ())))).map (s.taken i)
  | .refuse i e =>
      (s.proxy.step cfg (.submit i (.submitted (.error e)))).map fun proxy =>
        { s with proxy := proxy }
  | .lose i e => (s.proxy.step cfg (.submit i (.submitted (.error e)))).map (s.taken i)
  | .commit n =>
      if s.node.committed ≤ n then some { s with node := { s.node with committed := n } } else none
  | .drop n =>
      if s.node.committed < n then
        some { s with node := { s.node with accepted := s.node.accepted.filter (· ≠ n) } }
      else none

/-- A proxy that has just started, and an account. -/
def start (clock : Nat) (committed last : UInt64) : OperatorState :=
  ⟨.start clock, ⟨committed, last, [], false⟩⟩

end OperatorState

-- ============================================================== the steps

section Acts

variable {cfg : RelayConfig} {x x' : OperatorState} {n : UInt64}

theorem OperatorState.step_proxy {a : RelayAct} (h : x.step cfg (.proxy a) = some x') :
    ∃ p, ownAct a = true ∧ x.proxy.step cfg a = some p ∧ x' = { x with proxy := p } := by
  rw [OperatorState.step] at h
  split at h
  next hown =>
    obtain ⟨p, hstep, rfl⟩ := Option.map_eq_some_iff.mp h
    exact ⟨p, hown, hstep, rfl⟩
  next => cases h

theorem OperatorState.step_commit (h : x.step cfg (.commit n) = some x') :
    x.node.committed ≤ n ∧ x' = { x with node := { x.node with committed := n } } := by
  obtain ⟨hle, hnext⟩ := Option.ite_none_right_eq_some.mp h
  exact ⟨hle, (Option.some.inj hnext).symm⟩

theorem OperatorState.step_drop (h : x.step cfg (.drop n) = some x') :
    x' = { x with node := { x.node with accepted := x.node.accepted.filter (· ≠ n) } } := by
  obtain ⟨-, hnext⟩ := Option.ite_none_right_eq_some.mp h
  exact (Option.some.inj hnext).symm

end Acts

section Steps

variable {cfg : RelayConfig} {s p : RelayState} {i k : Nat} {job : RelayJob} {a : RelayAct}
  {stage stage' : SubmitStage} {sh : Shared}

theorem stageAt_get {f : SubmitStage → Bool} (hget : s.submits[i]? = some (job, stage)) :
    stageAt f s i = f stage := by
  simp only [stageAt, hget, Option.any_some]

theorem stageAt_set (f : SubmitStage → Bool) (hget : s.submits[i]? = some (job, stage)) (k : Nat) :
    stageAt f { s with toShared := sh, submits := s.submits.set i (job, stage') } k
      = if k = i then f stage' else stageAt f s k :=
  any_set (fun t : RelayJob × SubmitStage => f t.2) hget k

/-- Two requests are not inside the gate at once. -/
theorem RelayInv.only {f g : SubmitStage → Bool} (hinv : RelayInv s)
    (hf : ∀ st, f st = true → inside st = true) (hg : ∀ st, g st = true → inside st = true)
    (hi : stageAt f s i = true) (hk : stageAt g s k = true) : i = k := by
  obtain ⟨t, ht, hti⟩ := (Option.any_eq_true _ _).mp hi
  obtain ⟨u, hu, huk⟩ := (Option.any_eq_true _ _).mp hk
  have hin : insideOf s (.submit i) = true := by
    rw [insideOf_submit (show s.submits[i]? = some (t.1, t.2) from ht)]
    exact hf _ hti
  have hin' : insideOf s (.submit k) = true := by
    rw [insideOf_submit (show s.submits[k]? = some (u.1, u.2) from hu)]
    exact hg _ huk
  exact Party.submit.inj (hinv.gate.eq hin hin')

theorem inside_of_isSending : ∀ st, isSending st = true → inside st = true
  | .sending _, _ => rfl

theorem inside_of_isResyncing : ∀ st, isResyncing st = true → inside st = true
  | .resyncing, _ => rfl

theorem inside_of_isFetching : ∀ st, isFetching st = true → inside st = true
  | .fetching, _ => rfl

/-- A step of request `i`, and where the requests are after it. -/
theorem step_stages {wake : Wake} (h : s.step cfg (.submit i wake) = some p) :
    ∃ job stage sh stage', SubmitMove cfg i job s.toShared stage wake sh stage'
      ∧ p.toShared = sh ∧ (∀ f, stageAt f s i = f stage)
      ∧ ∀ f k, stageAt f p k = if k = i then f stage' else stageAt f s k := by
  obtain ⟨job, stage, sh, stage', hget, hstep, rfl⟩ := step_submit h
  exact ⟨job, stage, sh, stage', hstep, rfl, fun f => stageAt_get hget,
    fun f k => stageAt_set f hget k⟩

/-- An act that does not wait for the node: the nonce stays, no one begins or
ends a resync, and who sends or fetches has looked at the nonce. -/
structure OwnStep (s p : RelayState) : Prop where
  nonce : p.operatorNonce = s.operatorNonce
  resyncing : ∀ k, stageAt isResyncing p k = stageAt isResyncing s k
  sending : ∀ k, stageAt isSending p k = true →
    stageAt isSending s k = true
      ∨ stageAt inside s k = true ∧ stageAt isResyncing s k = false
        ∧ ∃ n, s.operatorNonce = some n
  fetching : ∀ k, stageAt isFetching p k = true →
    stageAt isFetching s k = true ∨ s.operatorNonce = none

theorem ownStep_of_stages (hnonce : p.operatorNonce = s.operatorNonce)
    (hstages : ∀ f : SubmitStage → Bool, f .queued = false → ∀ k, stageAt f p k = stageAt f s k) :
    OwnStep s p where
  nonce := hnonce
  resyncing := hstages _ rfl
  sending := fun k hk => Or.inl ((hstages _ rfl k).symm.trans hk)
  fetching := fun k hk => Or.inl ((hstages _ rfl k).symm.trans hk)

/-- A step that does not wait for the node. -/
theorem SubmitMove.own {wake : Wake} {sh' : Shared}
    (h : SubmitMove cfg i job sh stage wake sh' stage')
    (hown : ownAct (.submit i wake) = true) :
    sh'.operatorNonce = sh.operatorNonce
      ∧ isResyncing stage' = isResyncing stage
      ∧ (isSending stage' = true →
        inside stage = true ∧ isResyncing stage = false ∧ ∃ n, sh.operatorNonce = some n)
      ∧ (isFetching stage' = true → sh.operatorNonce = none) := by
  cases h with
  | send hcached => exact ⟨rfl, rfl, fun _ => ⟨rfl, rfl, _, hcached⟩, fun h => by cases h⟩
  | fetch hcached => exact ⟨rfl, rfl, fun h => (by cases h), fun _ => hcached⟩
  | settle =>
      refine ⟨?_, rfl, fun h => (by cases h), fun h => by cases h⟩
      unfold Shared.setKoinosTxId
      split <;> rfl
  | gone | take | know | reserve | answer | spawn | enter | leave | leaveFailed | tell | close =>
      exact ⟨rfl, rfl, fun h => (by cases h), fun h => by cases h⟩
  | fetched | unfetched | accepted | resync | refused | resynced | unresynced => cases hown

theorem own_step (hown : ownAct a = true) (h : s.step cfg a = some p) : OwnStep s p := by
  cases a with
  | tick | evict | settle =>
      cases h
      exact ownStep_of_stages rfl fun _ _ _ => rfl
  | request job =>
      cases h
      exact ownStep_of_stages rfl fun f hf k => any_append (x := (job, SubmitStage.queued)) _ hf k
  | reconcile | cycle => cases hown
  | submit i wake =>
      obtain ⟨job, stage, sh, stage', hstep, hsh, hbefore, hafter⟩ := step_stages h
      obtain ⟨hnonce, hresync, hsend, hfetch⟩ := hstep.own hown
      constructor
      · rw [hsh]
        exact hnonce
      · intro k
        rw [hafter]
        split
        next hk => rw [hk, hbefore, hresync]
        · rfl
      · intro k hk
        rw [hafter] at hk
        split at hk
        next heq =>
          rw [heq, hbefore inside, hbefore isResyncing]
          exact Or.inr (hsend hk)
        · exact Or.inl hk
      · intro k hk
        rw [hafter] at hk
        split at hk
        · exact Or.inr (hfetch hk)
        · exact Or.inl hk

/-- A step into another stage sends nothing. -/
theorem not_issues {n : UInt64}
    (hafter : ∀ f k, stageAt f p k = if k = i then f stage' else stageAt f s k)
    (hstage : isSending stage' = false) : ¬ Issues s p n := by
  rintro ⟨k, hbefore, hnow, -⟩
  rw [hafter] at hnow
  split at hnow
  · exact absurd (hstage.symm.trans hnow) Bool.false_ne_true
  · exact absurd (hbefore.symm.trans hnow) Bool.false_ne_true

theorem not_issues_self {n : UInt64} : ¬ Issues s s n := by
  rintro ⟨k, hbefore, hnow, -⟩
  exact absurd (hbefore.symm.trans hnow) Bool.false_ne_true

/-- What is built is refused by the node alone. -/
theorem error_of_build {n : UInt64} {r : Except String Unit} {e : String}
    (hbuild : ∀ rawTx n, ∃ id, cfg.build rawTx n = .ok id)
    (h : cfg.build job.rawTx n = .error e ∨ r = .error e) : r = .error e := by
  rcases h with herror | hr
  · obtain ⟨id, hid⟩ := hbuild job.rawTx n
    exact absurd (herror.symm.trans hid) (by simp)
  · exact hr

/-- A transaction that the node takes: it had the cached nonce, and the next
one is cached now. -/
theorem accepted_stage {x : OperatorState}
    (hbuild : ∀ rawTx n, ∃ id, cfg.build rawTx n = .ok id)
    (hstep : x.proxy.step cfg (.submit i (.submitted (.ok ()))) = some p) :
    ∃ n id resynced, x.proxy.operatorNonce = some n ∧ p.operatorNonce = some (n + 1)
      ∧ (∀ f, stageAt f x.proxy i = f (.sending resynced))
      ∧ ∀ f k, stageAt f p k = if k = i then f (.accepted id) else stageAt f x.proxy k := by
  obtain ⟨job, stage, sh, stage', hmove, hsh, hbefore, hafter⟩ := step_stages hstep
  cases hmove with
  | resync _ herror | refused _ _ herror => cases error_of_build hbuild herror
  | @accepted n id resynced hcached =>
      refine ⟨n, id, resynced, hcached, ?_, hbefore, hafter⟩
      rw [hsh]

/-- An error reply: the task fetches again, or leaves a nonce that is none or
as it was. -/
theorem refused_stage {x : OperatorState} {e : String}
    (hbuild : ∀ rawTx n, ∃ id, cfg.build rawTx n = .ok id)
    (hstep : x.proxy.step cfg (.submit i (.submitted (.error e))) = some p) :
    stageAt inside x.proxy i = true ∧ stageAt isResyncing x.proxy i = false
      ∧ (∀ n, ¬ Issues x.proxy p n)
      ∧ (stageAt isResyncing p i = true
        ∨ p.operatorNonce = if isNonceRelatedErr e then none else x.proxy.operatorNonce) := by
  obtain ⟨job, stage, sh, stage', hmove, hsh, hbefore, hafter⟩ := step_stages hstep
  cases hmove with
  | resync _ herror =>
      refine ⟨hbefore _, hbefore _, fun n => not_issues hafter rfl, Or.inl ?_⟩
      rw [hafter, if_pos rfl]
      rfl
  | refused _ _ herror =>
      cases error_of_build hbuild herror
      refine ⟨hbefore _, hbefore _, fun n => not_issues hafter rfl, Or.inr ?_⟩
      rw [hsh]
      rfl

theorem taken_of_sent {x : OperatorState} {n : UInt64}
    (hsending : stageAt isSending x.proxy i = true) (hcached : x.proxy.operatorNonce = some n) :
    x.taken i p = ⟨p, x.node.take n⟩ := by
  rw [OperatorState.taken, sentNonce, if_pos hsending, hcached]

theorem taken_proxy (x : OperatorState) (i : Nat) (p : RelayState) : (x.taken i p).proxy = p := by
  unfold OperatorState.taken
  split <;> rfl

end Steps

end KoinosEvm.Proofs
