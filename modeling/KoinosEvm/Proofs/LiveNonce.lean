/-
No live nonce is issued again, as long as the cache is right.

The cached nonce is above every nonce of the proxy's that the node has
accepted (`LiveInv`): acceptance advances it, and no refusal moves it back.
What can is the chain's answer, which knows nothing of the mempool: a task
that fetches, for want of a nonce or after an error that mentions one, while
a transaction of the proxy is pending has its nonce again. Where no answer
comes then, and the other ways to be behind are not taken (`Harmless`), no
schedule issues a live nonce (`live_nonce_not_reissued`).
-/
import KoinosEvm.Lib.WordCounter
import KoinosEvm.Proofs.OperatorNode
import KoinosEvm.Proofs.SubmitTxJson

namespace KoinosEvm.Proofs

open Lib Proxy

-- =========================================================== the condition

/-- The act leaves the cache behind nothing the node has: `get_account_nonce`
is answered with nothing of the proxy's pending, what the node takes under
another reply than success makes the proxy fetch, and no nonce is the last
of all. -/
def Harmless (x : OperatorState) : OperatorAct → Prop
  | .answerNonce _ => x.node.NonePending ∧ x.node.committed + 1 ≠ 0
  | .accept i => ∀ n, sentNonce x.proxy i = some n → n + 1 ≠ 0
  | .lose _ e => isNonceRelatedErr e = true
  | .proxy _ | .failNonce .. | .refuse .. | .commit _ | .drop _ => True

/-- The transaction that a step sends has no nonce that the node has accepted
before. -/
def IssuesFresh (x x' : OperatorState) : Prop :=
  ∀ n, Issues x.proxy x'.proxy n → n ∉ x.node.accepted

-- =========================================================== the invariant

/-- The cached nonce is above all that the node has accepted, but while a
task is about to fetch another. -/
structure LiveInv (x : OperatorState) : Prop where
  relay : RelayInv x.proxy
  fresh : (∀ k, stageAt isResyncing x.proxy k = false) →
    ∀ n, x.proxy.operatorNonce = some n → ∀ m ∈ x.node.accepted, m < n

section Step

variable {cfg : RelayConfig} {x x' : OperatorState} {i : Nat} {p : RelayState}

/-- While one is inside and not resyncing, no one is. -/
theorem LiveInv.fresh_of_inside (hinv : LiveInv x) (hin : stageAt inside x.proxy i = true)
    (hnot : stageAt isResyncing x.proxy i = false) :
    ∀ n, x.proxy.operatorNonce = some n → ∀ m ∈ x.node.accepted, m < n := by
  refine hinv.fresh fun k => Bool.eq_false_of_not_eq_true fun hk => ?_
  have hik := hinv.relay.only (fun _ => id) inside_of_isResyncing hin hk
  rw [← hik, hnot] at hk
  cases hk

theorem liveInv_start (clock : Nat) (committed last : UInt64) :
    LiveInv (.start clock committed last) where
  relay := relayInv_start clock
  fresh := fun _ _ h => by cases h

theorem liveInv_proxy {a : RelayAct} (hinv : LiveInv x)
    (h : x.step cfg (.proxy a) = some x') : LiveInv x' ∧ IssuesFresh x x' := by
  obtain ⟨p, hown, hstep, rfl⟩ := x.step_proxy h
  have hp := own_step hown hstep
  refine ⟨⟨relayInv_step hinv.relay hstep, ?_⟩, ?_⟩
  · intro hnone n hcached
    exact hinv.fresh (fun k => (hp.resyncing k).symm.trans (hnone k)) n
      (hp.nonce.symm.trans hcached)
  · rintro n ⟨k, hbefore, hnow, hcached⟩ hmem
    rcases hp.sending k hnow with hsending | ⟨hin, hnot, -⟩
    · exact absurd (hbefore.symm.trans hsending) Bool.false_ne_true
    · have hlt := hinv.fresh_of_inside hin hnot n (hp.nonce.symm.trans hcached) n hmem
      exact absurd hlt (UInt64.lt_irrefl n)

theorem liveInv_answer (hinv : LiveInv x) (hnone : x.node.NonePending)
    (hlast : x.node.committed + 1 ≠ 0) (h : x.step cfg (.answerNonce i) = some x') :
    LiveInv x' ∧ IssuesFresh x x' := by
  obtain ⟨p, hstep, rfl⟩ := Option.map_eq_some_iff.mp h
  obtain ⟨job, stage, sh, stage', hmove, hsh, hbefore, hafter⟩ := step_stages hstep
  have hcached : p.operatorNonce = some (x.node.committed + 1) := by
    rw [hsh]
    cases hmove with
    | fetched | resynced => rfl
  have hlt : ∀ m ∈ x.node.accepted, m < x.node.committed + 1 := fun m hm =>
    lt_succ_of_le (hnone m hm) hlast
  refine ⟨⟨relayInv_step hinv.relay hstep, ?_⟩, ?_⟩
  · intro _ n hn
    cases hcached.symm.trans hn
    exact hlt
  · rintro n ⟨k, -, -, hn⟩ hmem
    cases hcached.symm.trans hn
    exact UInt64.lt_irrefl _ (hlt _ hmem)

theorem liveInv_fail {e : String} (hinv : LiveInv x) (h : x.step cfg (.failNonce i e) = some x') :
    LiveInv x' ∧ IssuesFresh x x' := by
  obtain ⟨p, hstep, rfl⟩ := Option.map_eq_some_iff.mp h
  have hrelay := relayInv_step hinv.relay hstep
  obtain ⟨job, stage, sh, stage', hmove, hsh, hbefore, hafter⟩ := step_stages hstep
  cases hmove with
  | unfetched =>
      refine ⟨⟨hrelay, fun _ n hn => ?_⟩, fun n hissues => absurd hissues (not_issues hafter rfl)⟩
      rw [hsh] at hn
      exact hinv.fresh_of_inside (hbefore inside) (hbefore isResyncing) n hn
  | unresynced =>
      refine ⟨⟨hrelay, fun _ n hn => ?_⟩, fun n hissues => absurd hissues (not_issues hafter rfl)⟩
      rw [hsh] at hn
      cases hn

section Reply

variable (hbuild : ∀ rawTx n, ∃ id, cfg.build rawTx n = .ok id)

include hbuild

theorem liveInv_accept (hinv : LiveInv x) (hlast : ∀ n, sentNonce x.proxy i = some n → n + 1 ≠ 0)
    (h : x.step cfg (.accept i) = some x') : LiveInv x' ∧ IssuesFresh x x' := by
  obtain ⟨p, hstep, rfl⟩ := Option.map_eq_some_iff.mp h
  have hrelay := relayInv_step hinv.relay hstep
  obtain ⟨n, id, resynced, hcached, hnonce, hbefore, hafter⟩ := accepted_stage hbuild hstep
  have hsending : stageAt isSending x.proxy i = true := hbefore _
  have hbelow := hinv.fresh_of_inside (hbefore inside) (hbefore isResyncing) n hcached
  have hsucc := hlast n (by rw [sentNonce, if_pos hsending]; exact hcached)
  rw [taken_of_sent hsending hcached]
  refine ⟨⟨hrelay, fun _ n' hn => ?_⟩, fun n hissues => absurd hissues (not_issues hafter rfl)⟩
  rw [hnonce] at hn
  cases hn
  refine List.forall_mem_cons.mpr ⟨lt_succ_of_le (UInt64.le_refl n) hsucc, fun m hm => ?_⟩
  exact lt_succ_of_le (UInt64.le_of_lt (hbelow m hm)) hsucc

theorem liveInv_refuse {e : String} (hinv : LiveInv x) (h : x.step cfg (.refuse i e) = some x') :
    LiveInv x' ∧ IssuesFresh x x' := by
  obtain ⟨p, hstep, rfl⟩ := Option.map_eq_some_iff.mp h
  obtain ⟨hin, hnot, hnone, hnonce⟩ := refused_stage hbuild hstep
  refine ⟨⟨relayInv_step hinv.relay hstep, fun hidle n hn => ?_⟩,
    fun n hissues => absurd hissues (hnone n)⟩
  rcases hnonce with hresync | hnonce
  · exact absurd ((hidle i).symm.trans hresync) Bool.false_ne_true
  · rw [hnonce] at hn
    split at hn
    · cases hn
    · exact hinv.fresh_of_inside hin hnot n hn

theorem liveInv_lose {e : String} (hinv : LiveInv x) (he : isNonceRelatedErr e = true)
    (h : x.step cfg (.lose i e) = some x') : LiveInv x' ∧ IssuesFresh x x' := by
  obtain ⟨p, hstep, rfl⟩ := Option.map_eq_some_iff.mp h
  obtain ⟨-, -, hnone, hnonce⟩ := refused_stage hbuild hstep
  have hproxy := taken_proxy x i p
  refine ⟨⟨by rw [hproxy]; exact relayInv_step hinv.relay hstep, fun hidle n hn => ?_⟩,
    fun n hissues => absurd (hproxy ▸ hissues) (hnone n)⟩
  rw [hproxy] at hidle hn
  rcases hnonce with hresync | hnonce
  · exact absurd ((hidle i).symm.trans hresync) Bool.false_ne_true
  · rw [hnonce, if_pos he] at hn
    cases hn

-- ========================================================== what goes wrong

/-- A task that has had an error with a nonce in it issues the account's next
nonce, pending or not. -/
theorem reissued {job : RelayJob} {n : UInt64} {e : String}
    (hget : x.proxy.submits[i]? = some (job, .sending false))
    (hcached : x.proxy.operatorNonce = some n) (he : isNonceRelatedErr e = true)
    (hpending : x.node.committed + 1 ∈ x.node.accepted) :
    ¬ Always (OperatorState.step cfg) (fun x _ x' => IssuesFresh x x') x
      [.refuse i e, .answerNonce i] := by
  obtain ⟨id, hid⟩ := hbuild job.rawTx n
  have hlt := (List.getElem?_eq_some_iff.mp hget).1
  have hrefused : x.step cfg (.refuse i e)
      = some ⟨{ x.proxy with submits := x.proxy.submits.set i (job, .resyncing) }, x.node⟩ := by
    simp [OperatorState.step, RelayState.step, hget, submitStep, hcached, afterSubmit, hid, he]
  have hanswered : OperatorState.step cfg
      ⟨{ x.proxy with submits := x.proxy.submits.set i (job, .resyncing) }, x.node⟩
      (.answerNonce i)
      = some
          ⟨{ x.proxy with
              operatorNonce := some (x.node.committed + 1)
              submits := (x.proxy.submits.set i (job, .resyncing)).set i (job, .sending true) },
            { x.node with asked := true }⟩ := by
    simp [OperatorState.step, RelayState.step, hlt, submitStep]
  rw [always_cons_some hrefused, always_cons_some hanswered]
  rintro ⟨-, hfresh, -⟩
  refine hfresh (x.node.committed + 1) ⟨i, ?_, ?_, rfl⟩ hpending
  · simp [stageAt, hlt, isSending]
  · simp [stageAt, hlt, isSending]

end Reply

end Step

-- ============================================================== the result

/-- In every schedule, as long as the acts are harmless, no live nonce is
issued again. -/
theorem live_nonce_not_reissued (crates : TxCrates) (cfg : OperatorConfig)
    (quietPeriodSecs clock : Nat) (committed last : UInt64) (acts : List OperatorAct)
    (h : Always (OperatorState.step (cfg.relay crates quietPeriodSecs))
      (fun x a _ => Harmless x a) (.start clock committed last) acts) :
    Always (OperatorState.step (cfg.relay crates quietPeriodSecs))
      (fun x _ x' => IssuesFresh x x') (.start clock committed last) acts := by
  have hbuild : ∀ rawTx n, ∃ id, (cfg.relay crates quietPeriodSecs).build rawTx n = .ok id :=
    fun rawTx n => ⟨_, rfl⟩
  refine always_imp LiveInv ?_ (liveInv_start clock committed last) acts h
  intro x a x' hinv hstep hharmless
  cases a with
  | proxy a => exact liveInv_proxy hinv hstep
  | answerNonce i => exact liveInv_answer hinv hharmless.1 hharmless.2 hstep
  | failNonce i e => exact liveInv_fail hinv hstep
  | accept i => exact liveInv_accept hbuild hinv hharmless hstep
  | refuse i e => exact liveInv_refuse hbuild hinv hstep
  | lose i e => exact liveInv_lose hbuild hinv hharmless hstep
  | commit n =>
      obtain ⟨-, rfl⟩ := x.step_commit hstep
      exact ⟨⟨hinv.relay, hinv.fresh⟩, fun n hissues => absurd hissues not_issues_self⟩
  | drop n =>
      obtain rfl := x.step_drop hstep
      refine ⟨⟨hinv.relay, fun hidle m hm k hk => ?_⟩,
        fun n hissues => absurd hissues not_issues_self⟩
      exact hinv.fresh hidle m hm k (List.mem_of_mem_filter hk)

/-- The transfer is accepted with nonce 1 and not on chain yet; another task
is to send nonce 2. -/
def onePending : List OperatorAct :=
  [.proxy (.request sampleJob), .proxy (.submit 0 .ready), .proxy (.submit 0 .ready),
    .proxy (.submit 0 .ready), .proxy (.submit 0 .ready), .proxy (.submit 0 .ready),
    .answerNonce 0, .accept 0, .proxy (.submit 0 .ready),
    .proxy (.request otherJob), .proxy (.submit 1 .ready), .proxy (.submit 1 .ready),
    .proxy (.submit 1 .ready), .proxy (.submit 1 .ready), .proxy (.submit 1 .ready)]

/-- Its error mentions a nonce: nonce 1 is issued again. -/
theorem onePending_reissued :
    ¬ Always (OperatorState.step ((sampleOperator sampleChainId).relay sampleCrates 30))
      (fun x _ x' => IssuesFresh x x') (.start 0 0 0)
      (onePending ++ [.refuse 1 "invalid account nonce", .answerNonce 1]) := by
  rintro ⟨-, -, -, -, -, -, -, -, -, -, -, -, -, -, -, hrest⟩
  exact reissued (fun _ _ => ⟨_, rfl⟩) rfl rfl (by decide +kernel) List.mem_cons_self hrest

/-- The first transaction is harmless. -/
theorem onePending_fresh :
    Always (OperatorState.step ((sampleOperator sampleChainId).relay sampleCrates 30))
      (fun x _ x' => IssuesFresh x x') (.start 0 0 0) onePending :=
  live_nonce_not_reissued sampleCrates (sampleOperator sampleChainId) 30 0 0 0 onePending
    ⟨trivial, trivial, trivial, trivial, trivial, trivial, ⟨fun n hn => (by cases hn), by decide⟩,
      fun n hn => (by cases hn; decide), trivial, trivial, trivial, trivial, trivial, trivial,
      trivial, trivial⟩

end KoinosEvm.Proofs
