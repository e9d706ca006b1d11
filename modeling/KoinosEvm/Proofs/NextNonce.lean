/-
Every attempt has the nonce that the node expects.

The proxy is the only user of the account, without the reconciler, and the
node accepts a transaction only with the nonce after the last it accepted
(`NodeRule`). Then the cached nonce is that one in every state, if there is
one (`NextInv.cached`): the first answer gives it, with nothing in the
mempool, and acceptance moves both. So no error with a nonce in it comes, no
other answer is asked for, and what the node accepts counts up
(`next_nonce_sent`).
-/
import KoinosEvm.Lib.WordCounter
import KoinosEvm.Proofs.OperatorNode
import KoinosEvm.Proofs.SubmitTxJson

namespace KoinosEvm.Proofs

open Lib Proxy

-- ================================================================ the node

/-- What the node does: nothing is in its mempool when it is first asked for
the nonce, it accepts in order, tells the truth, and mentions a nonce only
if that is what is wrong. -/
def NodeRule (x : OperatorState) : OperatorAct → Prop
  | .answerNonce _ | .failNonce .. => x.node.asked = false → x.node.committed = x.node.last
  | .accept i => ∀ n, sentNonce x.proxy i = some n → n = x.node.last + 1
  | .refuse i e =>
      isNonceRelatedErr e = true → ∀ n, sentNonce x.proxy i = some n → n ≠ x.node.last + 1
  | .commit n => n ≤ x.node.last
  | .lose .. | .drop _ => False
  | .proxy _ => True

/-- What is said of every state. -/
structure InOrder (first : UInt64) (x : OperatorState) : Prop where
  /-- What is sent has the next nonce. -/
  attempts : ∀ i, stageAt isSending x.proxy i = true →
    x.proxy.operatorNonce = some (x.node.last + 1)
  /-- What has been accepted counts up. -/
  accepted : x.node.accepted.reverse = countUp first x.node.accepted.length
  /-- .. and repeats nothing, before 64 bits are used up. -/
  distinct : x.node.accepted.length ≤ 2 ^ 64 → x.node.accepted.Nodup

-- =========================================================== the invariant

structure NextInv (first : UInt64) (x : OperatorState) : Prop where
  relay : RelayInv x.proxy
  cached : ∀ n, x.proxy.operatorNonce = some n → n = x.node.last + 1
  resyncing : ∀ k, stageAt isResyncing x.proxy k = false
  sending : ∀ k, stageAt isSending x.proxy k = true → x.proxy.operatorNonce ≠ none
  fetching : ∀ k, stageAt isFetching x.proxy k = true → x.proxy.operatorNonce = none
  /-- There is a nonce from the first acceptance on. -/
  unused : x.proxy.operatorNonce = none → x.node.accepted = []
  /-- Before it, nothing is in the mempool once the node has been asked. -/
  mempool : x.node.asked = true → x.node.accepted = [] → x.node.committed = x.node.last
  order : x.node.accepted.reverse = countUp first x.node.accepted.length
  next : x.node.last + 1 = first + UInt64.ofNat x.node.accepted.length

section Step

variable {cfg : RelayConfig} {first : UInt64} {x x' : OperatorState} {i : Nat} {p : RelayState}

theorem NextInv.inOrder (h : NextInv first x) : InOrder first x where
  attempts := by
    intro i hi
    obtain ⟨n, hn⟩ := Option.ne_none_iff_exists'.mp (h.sending i hi)
    rw [hn, h.cached n hn]
  accepted := h.order
  distinct := fun hlen => by
    rw [← List.nodup_reverse, h.order]
    exact nodup_countUp first hlen

theorem nextInv_start (clock : Nat) (committed last : UInt64) :
    NextInv (last + 1) (.start clock committed last) where
  relay := relayInv_start clock
  cached := fun _ h => by cases h
  resyncing := fun _ => rfl
  sending := fun _ h => by cases h
  fetching := fun _ _ => rfl
  unused := fun _ => rfl
  mempool := fun h => by cases h
  order := rfl
  next := (UInt64.add_zero _).symm

theorem nextInv_proxy {a : RelayAct} (hinv : NextInv first x)
    (h : x.step cfg (.proxy a) = some x') : NextInv first x' := by
  obtain ⟨p, hown, hstep, rfl⟩ := x.step_proxy h
  have hp := own_step hown hstep
  refine ⟨relayInv_step hinv.relay hstep, ?_, ?_, ?_, ?_, ?_, hinv.mempool, hinv.order,
    hinv.next⟩
  · exact fun n hn => hinv.cached n (hp.nonce.symm.trans hn)
  · exact fun k => (hp.resyncing k).trans (hinv.resyncing k)
  · intro k hk
    show p.operatorNonce ≠ none
    rw [hp.nonce]
    rcases hp.sending k hk with hsending | ⟨-, -, n, hn⟩
    · exact hinv.sending k hsending
    · rw [hn]
      exact Option.some_ne_none n
  · intro k hk
    refine hp.nonce.trans ?_
    rcases hp.fetching k hk with hfetching | hnone
    · exact hinv.fetching k hfetching
    · exact hnone
  · exact fun hnone => hinv.unused (hp.nonce.symm.trans hnone)

/-- After the step of one inside, no other is where it needs the gate to be. -/
theorem NextInv.alone {f : SubmitStage → Bool} {stage' : SubmitStage} {k : Nat}
    (hinv : NextInv first x) (hf : ∀ st, f st = true → inside st = true)
    (hin : stageAt inside x.proxy i = true)
    (hafter : ∀ f k, stageAt f p k = if k = i then f stage' else stageAt f x.proxy k)
    (hk : stageAt f p k = true) : f stage' = true := by
  rw [hafter] at hk
  split at hk
  · exact hk
  next hne => exact absurd (hinv.relay.only (fun _ => id) hf hin hk).symm hne

theorem NextInv.still {stage' : SubmitStage} (hinv : NextInv first x)
    (hafter : ∀ f k, stageAt f p k = if k = i then f stage' else stageAt f x.proxy k)
    (hnot : isResyncing stage' = false) (k : Nat) : stageAt isResyncing p k = false := by
  rw [hafter]
  split
  · exact hnot
  · exact hinv.resyncing k

theorem nextInv_answer (hinv : NextInv first x)
    (hrule : x.node.asked = false → x.node.committed = x.node.last)
    (h : x.step cfg (.answerNonce i) = some x') : NextInv first x' := by
  obtain ⟨p, hstep, rfl⟩ := Option.map_eq_some_iff.mp h
  have hrelay := relayInv_step hinv.relay hstep
  obtain ⟨job, stage, sh, stage', hmove, hsh, hbefore, hafter⟩ := step_stages hstep
  cases hmove with
  | resynced => exact absurd ((hinv.resyncing i).symm.trans (hbefore _)) (by decide)
  | fetched =>
      have hin : stageAt inside x.proxy i = true := hbefore _
      have hempty := hinv.unused (hinv.fetching i (hbefore _))
      have hsynced : x.node.committed = x.node.last := by
        cases hasked : x.node.asked with
        | false => exact hrule hasked
        | true => exact hinv.mempool hasked hempty
      refine ⟨hrelay, ?_, hinv.still hafter rfl, ?_, ?_, ?_, fun _ _ => hsynced, hinv.order,
        hinv.next⟩
      · intro n hn
        rw [hsh] at hn
        cases hn
        rw [hsynced]
      · intro k _ hnone
        rw [hsh] at hnone
        cases hnone
      · exact fun k hk => absurd (hinv.alone inside_of_isFetching hin hafter hk) (by decide)
      · intro hnone
        rw [hsh] at hnone
        cases hnone

theorem nextInv_fail {e : String} (hinv : NextInv first x)
    (hrule : x.node.asked = false → x.node.committed = x.node.last)
    (h : x.step cfg (.failNonce i e) = some x') : NextInv first x' := by
  obtain ⟨p, hstep, rfl⟩ := Option.map_eq_some_iff.mp h
  have hrelay := relayInv_step hinv.relay hstep
  obtain ⟨job, stage, sh, stage', hmove, hsh, hbefore, hafter⟩ := step_stages hstep
  cases hmove with
  | unresynced => exact absurd ((hinv.resyncing i).symm.trans (hbefore _)) (by decide)
  | unfetched =>
      have hin : stageAt inside x.proxy i = true := hbefore _
      have hnonce : p.operatorNonce = x.proxy.operatorNonce := by
        rw [hsh]
        rfl
      refine ⟨hrelay, ?_, hinv.still hafter rfl, ?_, ?_, ?_, ?_, hinv.order, hinv.next⟩
      · exact fun n hn => hinv.cached n (hnonce.symm.trans hn)
      · exact fun k hk => absurd (hinv.alone inside_of_isSending hin hafter hk) (by decide)
      · exact fun k hk => absurd (hinv.alone inside_of_isFetching hin hafter hk) (by decide)
      · exact fun hnone => hinv.unused (hnonce.symm.trans hnone)
      · intro _ hempty
        cases hasked : x.node.asked with
        | false => exact hrule hasked
        | true => exact hinv.mempool hasked hempty

section Reply

variable (hbuild : ∀ rawTx n, ∃ id, cfg.build rawTx n = .ok id)

include hbuild

theorem nextInv_accept (hinv : NextInv first x) (h : x.step cfg (.accept i) = some x') :
    NextInv first x' := by
  obtain ⟨p, hstep, rfl⟩ := Option.map_eq_some_iff.mp h
  have hrelay := relayInv_step hinv.relay hstep
  obtain ⟨n, id, resynced, hcached, hnonce, hbefore, hafter⟩ := accepted_stage hbuild hstep
  have hin : stageAt inside x.proxy i = true := hbefore _
  have hn := hinv.cached n hcached
  rw [taken_of_sent (hbefore _) hcached]
  refine ⟨hrelay, ?_, hinv.still hafter rfl, ?_, ?_, ?_, ?_, ?_, ?_⟩
  · intro n' hn'
    rw [hnonce] at hn'
    cases hn'
    rfl
  · exact fun k hk => absurd (hinv.alone inside_of_isSending hin hafter hk) (by simp [isSending])
  · exact fun k hk => absurd (hinv.alone inside_of_isFetching hin hafter hk)
      (by simp [isFetching])
  · intro hnone
    rw [hnonce] at hnone
    cases hnone
  · exact fun _ hempty => by cases hempty
  · show (n :: x.node.accepted).reverse = countUp first (x.node.accepted.length + 1)
    rw [List.reverse_cons, hinv.order, countUp_succ, ← hinv.next, hn]
  · show n + 1 = first + UInt64.ofNat (x.node.accepted.length + 1)
    rw [hn, hinv.next, UInt64.ofNat_add, ← UInt64.add_assoc]
    rfl

theorem nextInv_refuse {e : String} (hinv : NextInv first x)
    (hrule : isNonceRelatedErr e = true →
      ∀ n, sentNonce x.proxy i = some n → n ≠ x.node.last + 1)
    (h : x.step cfg (.refuse i e) = some x') : NextInv first x' := by
  obtain ⟨p, hstep, rfl⟩ := Option.map_eq_some_iff.mp h
  have hrelay := relayInv_step hinv.relay hstep
  obtain ⟨job, stage, sh, stage', hmove, hsh, hbefore, hafter⟩ := step_stages hstep
  -- what was sent is what the node expects, so no nonce is mentioned
  have hplain : ∀ n, x.proxy.operatorNonce = some n → stageAt isSending x.proxy i = true →
      isNonceRelatedErr e = false := by
    intro n hcached hsending
    by_contra hrelated
    refine hrule (Bool.eq_true_of_not_eq_false hrelated) n ?_ (hinv.cached n hcached)
    rw [sentNonce, if_pos hsending, hcached]
  cases hmove with
  | resync hcached herror hrelated =>
      cases error_of_build hbuild herror
      exact absurd ((hplain _ hcached (hbefore _)).symm.trans hrelated) Bool.false_ne_true
  | refused _ hcached herror =>
      cases error_of_build hbuild herror
      have hin : stageAt inside x.proxy i = true := hbefore _
      have hnonce : p.operatorNonce = x.proxy.operatorNonce := by
        rw [hsh]
        show (if isNonceRelatedErr e then none else x.proxy.operatorNonce) = _
        rw [hplain _ hcached (hbefore _)]
        rfl
      refine ⟨hrelay, ?_, hinv.still hafter rfl, ?_, ?_, ?_, hinv.mempool, hinv.order, hinv.next⟩
      · exact fun n hn => hinv.cached n (hnonce.symm.trans hn)
      · exact fun k hk => absurd (hinv.alone inside_of_isSending hin hafter hk) (by decide)
      · exact fun k hk => absurd (hinv.alone inside_of_isFetching hin hafter hk) (by decide)
      · exact fun hnone => hinv.unused (hnonce.symm.trans hnone)

end Reply

end Step

-- ============================================================== the result

/-- In every schedule, with such a node, every attempt has the next nonce and
what is accepted counts up. -/
theorem next_nonce_sent (crates : TxCrates) (cfg : OperatorConfig) (quietPeriodSecs clock : Nat)
    (committed last : UInt64) (acts : List OperatorAct)
    (h : Always (OperatorState.step (cfg.relay crates quietPeriodSecs))
      (fun x a _ => NodeRule x a) (.start clock committed last) acts) :
    Always (OperatorState.step (cfg.relay crates quietPeriodSecs))
      (fun _ _ x' => InOrder (last + 1) x') (.start clock committed last) acts := by
  have hbuild : ∀ rawTx n, ∃ id, (cfg.relay crates quietPeriodSecs).build rawTx n = .ok id :=
    fun rawTx n => ⟨_, rfl⟩
  refine always_imp (NextInv (last + 1)) ?_ (nextInv_start clock committed last) acts h
  intro x a x' hinv hstep hrule
  suffices hinv' : NextInv (last + 1) x' from ⟨hinv', hinv'.inOrder⟩
  cases a with
  | proxy a => exact nextInv_proxy hinv hstep
  | answerNonce i => exact nextInv_answer hinv hrule hstep
  | failNonce i e => exact nextInv_fail hinv hrule hstep
  | accept i => exact nextInv_accept hbuild hinv hstep
  | refuse i e => exact nextInv_refuse hbuild hinv hrule hstep
  | lose i e => exact absurd hrule id
  | drop n => exact absurd hrule id
  | commit n =>
      obtain ⟨hle, rfl⟩ := x.step_commit hstep
      refine ⟨hinv.relay, hinv.cached, hinv.resyncing, hinv.sending, hinv.fetching, hinv.unused,
        ?_, hinv.order, hinv.next⟩
      intro hasked hempty
      have hsynced := hinv.mempool hasked hempty
      exact UInt64.le_antisymm hrule (hsynced ▸ hle)

/-- Two transfers are accepted, on an account that has used four nonces; a
client between them leaves. -/
def twoAccepted : List OperatorAct :=
  [.proxy (.request sampleJob), .proxy (.submit 0 .ready), .proxy (.submit 0 .ready),
    .proxy (.submit 0 .ready), .proxy (.request otherJob), .proxy (.submit 1 .dropped),
    .proxy (.submit 0 .ready), .proxy (.submit 0 .ready), .answerNonce 0, .accept 0,
    .proxy (.request otherJob), .proxy (.submit 0 .ready), .proxy (.submit 2 .ready),
    .proxy (.submit 2 .ready), .proxy (.submit 2 .ready), .proxy (.submit 2 .ready),
    .proxy (.submit 2 .ready), .accept 2, .commit 5]

/-- Both are accepted in order, and the account is synced with its block. -/
theorem twoAccepted_inOrder :
    Always (OperatorState.step ((sampleOperator sampleChainId).relay sampleCrates 30))
        (fun _ _ x' => InOrder 5 x') (.start 0 4 4) twoAccepted
      ∧ (afterAll (OperatorState.step ((sampleOperator sampleChainId).relay sampleCrates 30))
          (.start 0 4 4) twoAccepted).proxy.submits.map Prod.snd
        = [.released ((((sampleOperator sampleChainId).relay sampleCrates 30).build
            sampleJob.rawTx 5).toOption.getD []), .ended,
          .accepted ((((sampleOperator sampleChainId).relay sampleCrates 30).build
            otherJob.rawTx 6).toOption.getD [])]
      ∧ (afterAll (OperatorState.step ((sampleOperator sampleChainId).relay sampleCrates 30))
          (.start 0 4 4) twoAccepted).proxy.operatorNonce = some 7 := by
  refine ⟨?_, by decide +kernel, by decide +kernel⟩
  exact next_nonce_sent sampleCrates (sampleOperator sampleChainId) 30 0 4 4 twoAccepted
    ⟨trivial, trivial, trivial, trivial, trivial, trivial, trivial, trivial, fun _ => rfl,
      fun n hn => (by cases hn; rfl), trivial, trivial, trivial, trivial, trivial, trivial,
      trivial, fun n hn => (by cases hn; rfl), (show (5 : UInt64) ≤ 6 by decide), trivial⟩

end KoinosEvm.Proofs
