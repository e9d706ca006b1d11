/-
What the dedupe keeps from being sent again.

The relay, the engine on its chain, and the receipts that come back. An
entry of `tx_meta` stands for a relay under way, or for one accepted, which
is pending until the engine is called with it; a receipt is that of such a
call. If the call spends the nonce of the sender, the transaction is done
with for good (`spends_passed`). But neither the entry nor the receipt tells
a call that did from one that was rejected: what was rejected, say for its
nonce, is not sent again when it could run. There is nothing else: whatever
the dedupe answers for is under way, pending, or past its nonce, exactly as
long as it meets no transaction that was called to no effect, undone, or
given a receipt without a call (`dedupe_justified_iff`).

What the mempool drops has been accepted and is not called: it stays
pending.
-/
import KoinosEvm.Proofs.DoubleRelay
import KoinosEvm.Proofs.EthTx
import KoinosEvm.Proofs.Replay

namespace KoinosEvm.Proofs

open Engine Lib Proxy

-- ============================================================== the system

/-- What runs where. -/
structure Deployment where
  relay : RelayConfig
  keccak : Bytes → B256
  secp : EthTx.Secp256k1
  chain : Chain
  build : Build
  revm : Revm
  rlp : AlloyRlp

/-- The engine is the production build, over a revm and an RLP that do what
they should, and the chain's crypto is the proxy's. -/
structure Deployment.Sound (d : Deployment) : Prop where
  evm : d.build.evm = true
  safeCaller : d.build.devUnsafeCaller = false
  conforms : Conforms d.revm
  canonical : d.rlp.Canonical
  sameCrypto : SameCrypto d.chain.crypto d.keccak d.secp

/-- The relay, and the chain. -/
structure DedupeState where
  proxy : RelayState
  store : Store
  /-- Accepted by the node; the engine has yet to be called. -/
  pending : List Bytes
  /-- What the engine has been called with. -/
  called : List Bytes
  /-- Called to no effect, or undone, or with a receipt but no call. -/
  void : List Bytes

/-- The acts. -/
inductive DedupeAct where
  /-- The relay's. -/
  | proxy (a : RelayAct)
  /-- A call of the engine in a block. -/
  | call (args : Sys.Arguments) (after : Store)
  /-- .. that the relay has sent. -/
  | relayed (args : Sys.Arguments) (after : Store)
  /-- The proxy's store has a receipt of a transaction from now on. -/
  | settle (rawTx : Bytes)
  /-- The chain changes over to another branch; some of what was called is
  pending again. -/
  | fork (store : Store) (back : List Bytes)
  /-- A new process of the proxy, on the same store. -/
  | restart

/-- An act of the relay's model that stands for a receipt. -/
def isSettle : RelayAct → Bool
  | .settle _ => true
  | .tick _ | .request _ | .reconcile | .submit .. | .cycle .. | .evict _ => false

/-- The raw transaction that a call submits. -/
def submittedRaw (args : Sys.Arguments) : Option Bytes :=
  if args.entryPoint = Engine.EP_SUBMIT_RAW_TX then some (stripRawTx args.arguments) else none

namespace Deployment

variable (d : Deployment)

/-- The sender's nonce on chain exceeds the transaction's. -/
def passed (store : Store) (rawTx : Bytes) : Bool :=
  match EthTx.decodeAndRecover d.keccak d.secp rawTx with
  | .ok tx => decide (tx.nonce.toNat < nonceAt d.chain store tx.fromAddr)
  | .error _ => false

/-- The sender's nonce on chain has changed. -/
def spends (before after : Store) (rawTx : Bytes) : Bool :=
  match EthTx.decodeAndRecover d.keccak d.secp rawTx with
  | .ok tx => decide (nonceAt d.chain before tx.fromAddr ≠ nonceAt d.chain after tx.fromAddr)
  | .error _ => false

end Deployment

namespace DedupeState

/-- A proxy that has just started, and a chain. -/
def start (clock : Nat) (store : Store) : DedupeState := ⟨.start clock, store, [], [], []⟩

/-- The engine has been called. -/
def callWith (d : Deployment) (s : DedupeState) (args : Sys.Arguments) (after : Store) :
    DedupeState :=
  let raws := (submittedRaw args).toList
  { s with
    store := after
    called := raws ++ s.called
    void := (raws.filter fun rawTx => !d.spends s.store after rawTx) ++ s.void }

/-- One act. -/
def step (d : Deployment) (s : DedupeState) : DedupeAct → Option DedupeState
  | .proxy a =>
      if isSettle a then none
      else (s.proxy.step d.relay a).map fun proxy =>
        { s with
          proxy := proxy
          pending := (acceptedBy d.relay s.proxy a).toList ++ s.pending }
  | .call args after => some (s.callWith d args after)
  | .relayed args after =>
      match submittedRaw args with
      | some rawTx =>
          if rawTx ∈ s.pending then
            some ({ s with pending := s.pending.erase rawTx }.callWith d args after)
          else none
      | none => none
  | .settle rawTx =>
      (s.proxy.step d.relay (.settle (d.keccak rawTx))).map fun proxy =>
        { s with
          proxy := proxy
          void := if rawTx ∈ s.called then s.void else rawTx :: s.void }
  | .fork store back =>
      if ∀ rawTx ∈ back, rawTx ∈ s.called then
        some { s with store := store, pending := back ++ s.pending, void := s.called ++ s.void }
      else none
  | .restart =>
      some { s with proxy := { RelayState.start s.proxy.clock with settled := s.proxy.settled } }

end DedupeState

-- ============================================================ the property

/-- A relay of these bytes is under way. -/
def Underway (s : RelayState) (rawTx : Bytes) : Prop :=
  ∃ t ∈ s.submits, t.1.rawTx = rawTx ∧ relaying t.2 = true

/-- The dedupe answers for a transaction. -/
def Suppresses (s : DedupeState) (a : DedupeAct) (job : RelayJob) : Prop :=
  ∃ i, a = .proxy (.submit i .ready) ∧ s.proxy.submits[i]? = some (job, .deduping)
    ∧ s.proxy.knows job.ethHash = true

section Property

variable (d : Deployment)

/-- What it answers for need not be sent again. -/
def Justified (s : DedupeState) (a : DedupeAct) : Prop :=
  ∀ job, Suppresses s a job →
    Underway s.proxy job.rawTx ∨ job.rawTx ∈ s.pending ∨ d.passed s.store job.rawTx = true

-- =========================================================== the condition

/-- Called to no effect (or undone, or never), and nothing under way: sent
again it could run. -/
structure Stranded (s : DedupeState) (rawTx : Bytes) : Prop where
  void : rawTx ∈ s.void
  idle : ¬ Underway s.proxy rawTx
  gone : rawTx ∉ s.pending
  due : d.passed s.store rawTx = false

/-- The dedupe does not answer for such a transaction. -/
def MeetsNoStranded (s : DedupeState) (a : DedupeAct) : Prop :=
  ∀ job, Suppresses s a job → ¬ Stranded d s job.rawTx

-- ========================================================= the surroundings

/-- Every call is one of the engine's. -/
def Lawful (s : DedupeState) : DedupeAct → Prop
  | .call args after | .relayed args after =>
      Calls d.chain d.build d.revm d.rlp ⟨args, s.store, after⟩
  | .proxy _ | .settle _ | .fork .. | .restart => True

/-- Requests have the hashes of their bytes; these, and those with receipts,
are among the bytes in play. -/
def InPlay (seen : Set Bytes) : DedupeAct → Prop
  | .proxy (.request job) => job.ethHash = d.keccak job.rawTx ∧ job.rawTx ∈ seen
  | .settle rawTx => rawTx ∈ seen
  | .proxy _ | .call .. | .relayed .. | .fork .. | .restart => True

/-- Bytes in play fit a buffer, and no two of them have one hash. -/
structure Distinct (seen : Set Bytes) : Prop where
  fits : ∀ rawTx ∈ seen, rawTx.length < 2 ^ 63
  inj : Set.InjOn d.keccak seen

end Property

-- =============================================================== the calls

section Calls

variable {d : Deployment} {args : Sys.Arguments} {before after : Store} {rawTx : Bytes}

/-- No call takes back a nonce. -/
theorem passed_mono (hd : d.Sound)
    (hcall : Calls d.chain d.build d.revm d.rlp ⟨args, before, after⟩)
    (h : d.passed before rawTx = true) : d.passed after rawTx = true := by
  have hkeeps := (calls_cases hd.evm hd.safeCaller hd.conforms hcall).1
  unfold Deployment.passed at h ⊢
  split at h
  next tx _ => exact decide_eq_true ((of_decide_eq_true h).trans_le (hkeeps tx.fromAddr))
  next => cases h

/-- A call that spends the sender's nonce takes it past the transaction's. -/
theorem spends_passed (hd : d.Sound)
    (hcall : Calls d.chain d.build d.revm d.rlp ⟨args, before, after⟩)
    (hraw : submittedRaw args = some rawTx) (hfits : rawTx.length < 2 ^ 63)
    (h : d.spends before after rawTx = true) : d.passed after rawTx = true := by
  unfold Deployment.spends at h
  split at h
  next tx hdecode =>
    have hmoved := of_decide_eq_true h
    have hchanges : ChangesEvm d.chain ⟨args, before, after⟩ := by
      refine ⟨SPACE_ACCOUNTS, by decide, tx.fromAddr.bytes, fun heq => hmoved ?_⟩
      have hstored : after (d.chain.space SPACE_ACCOUNTS) tx.fromAddr.bytes
          = before (d.chain.space SPACE_ACCOUNTS) tx.fromAddr.bytes := heq
      unfold nonceAt Chain.account
      rw [hstored]
    obtain ⟨hentry, p, hadmits, hraised⟩ :=
      (calls_cases hd.evm hd.safeCaller hd.conforms hcall).2 hchanges
    have hstrip : stripRawTx args.arguments = rawTx := by
      rw [submittedRaw, if_pos hentry] at hraw
      exact Option.some.inj hraw
    -- the proxy decodes what the engine has parsed
    have hparse := hadmits.parse
    change parseRawTx d.rlp _ (stripRawTx args.arguments) = _ at hparse
    rw [hstrip] at hparse
    obtain ⟨hdecode', hsame⟩ :=
      decodeAndRecover_parsed hd.sameCrypto hd.canonical ⟨rawTx, hfits⟩ hparse
    have htx : tx = decodedOf p := Except.ok.inj (hdecode.symm.trans hdecode')
    rw [← htx] at hsame
    have hnonce : tx.nonce.toNat = nonceAt d.chain before p.sender := by
      rw [hsame.nonce, hadmits.nonce]
      rfl
    unfold Deployment.passed
    rw [hdecode]
    refine decide_eq_true ?_
    change nonceAt d.chain after p.sender = nonceAt d.chain before p.sender + 1 at hraised
    rw [hsame.sender, hraised, hnonce]
    exact Nat.lt_succ_self _
  next => cases h

end Calls

-- ============================================================== the entries

section Entries

variable {cfg : RelayConfig} {i : Nat} {job : RelayJob} {sh sh' : Shared}
  {stage stage' : SubmitStage} {wake : Wake} {s s' : RelayState} {rawTx : Bytes}

/-- Whose an entry is after a step: that of a relay under way, of one just
accepted, or it was there before the relay came. -/
theorem EntryMove.owner {live live' accept entry entry' : Bool}
    (h : EntryMove live live' accept entry entry') (hentry : entry' = true) :
    live' = true ∨ accept = true ∨ (live = false ∧ entry = true) := by
  cases h with
  | keep =>
      cases live with
      | true => exact Or.inl rfl
      | false => exact Or.inr (Or.inr ⟨rfl, hentry⟩)
  | place => exact Or.inl rfl
  | accept => exact Or.inr (Or.inl rfl)
  | drop => cases hentry

/-- No request settles a row. -/
theorem SubmitMove.settled (h : SubmitMove cfg i job sh stage wake sh' stage') :
    sh'.settled = sh.settled := by
  cases h with
  | settle =>
      unfold Shared.setKoinosTxId
      split
      · rfl
      · rfl
  | gone | take | know | reserve | answer | spawn | enter | fetch | send | fetched | unfetched
  | accepted | resync | refused | resynced | unresynced | leave | leaveFailed | tell | close => rfl

theorem CycleMove.settled {j : Nat} {stage stage' : CycleStage}
    (h : CycleMove cfg j sh stage sh' stage') : sh'.settled = sh.settled := by
  cases h with
  | unanswered | fetched | take | inSync | raise | load | hold | clear | lower | leave => rfl

/-- A relay under way stays so, whatever becomes of another request. -/
theorem Underway.set {t : RelayJob × SubmitStage} (hget : s.submits[i]? = some (job, stage))
    (hother : job.rawTx ≠ rawTx ∨ relaying stage = false) (h : Underway s rawTx) :
    ∃ t' ∈ s.submits.set i t, t'.1.rawTx = rawTx ∧ relaying t'.2 = true := by
  obtain ⟨t', ht', hraw, hlive⟩ := h
  refine ⟨t', mem_set_ne hget ht' ?_, hraw, hlive⟩
  rintro rfl
  rcases hother with hne | hdone
  · exact hne hraw
  · exact absurd (hdone.symm.trans hlive) Bool.false_ne_true

/-- Whose an entry is after the step of a request. -/
theorem entry_submit (hget : s.submits[i]? = some (job, stage))
    (hstep : SubmitMove cfg i job s.toShared stage wake sh' stage')
    (hs' : s.step cfg (.submit i wake)
      = some { s with toShared := sh', submits := s.submits.set i (job, stage') })
    {keccak : Bytes → B256} (hhash : job.ethHash = keccak job.rawTx)
    (hinj : keccak rawTx = keccak job.rawTx → rawTx = job.rawTx)
    (hentry : sh'.txMeta (keccak rawTx) ≠ none) :
    Underway { s with toShared := sh', submits := s.submits.set i (job, stage') } rawTx
      ∨ acceptedBy cfg s (.submit i wake) = some rawTx
      ∨ s.txMeta (keccak rawTx) ≠ none
        ∧ (Underway s rawTx →
          Underway { s with toShared := sh', submits := s.submits.set i (job, stage') } rawTx) := by
  have hlt := (List.getElem?_eq_some_iff.mp hget).1
  by_cases hraw : job.rawTx = rawTx
  · subst hraw
    rw [← hhash] at hentry ⊢
    rcases hstep.entry.owner (Option.isSome_iff_ne_none.mpr hentry) with hlive | haccept | hkeep
    · exact Or.inl ⟨(job, stage'), List.mem_of_getElem? (List.getElem?_set_self hlt), rfl, hlive⟩
    · refine Or.inr (Or.inl ?_)
      rw [acceptedBy_submit hget hs', if_pos haccept]
    · exact Or.inr (Or.inr ⟨Option.isSome_iff_ne_none.mp hkeep.2,
        Underway.set hget (Or.inr hkeep.1)⟩)
  · have hne : keccak rawTx ≠ job.ethHash := fun heq =>
      hraw (hinj (heq.trans hhash)).symm
    rw [hstep.txMeta_ne hne] at hentry
    exact Or.inr (Or.inr ⟨hentry, Underway.set hget (Or.inl hraw)⟩)

end Entries

-- =========================================================== the invariant

/-- Of the bytes in play, what an entry, a receipt and a call tell. -/
structure DedupeInv (d : Deployment) (seen : Set Bytes) (s : DedupeState) : Prop where
  jobs : ∀ t ∈ s.proxy.submits, t.1.ethHash = d.keccak t.1.rawTx ∧ t.1.rawTx ∈ seen
  entry : ∀ rawTx ∈ seen, s.proxy.txMeta (d.keccak rawTx) ≠ none →
    Underway s.proxy rawTx ∨ rawTx ∈ s.pending ∨ rawTx ∈ s.called
  receipt : ∀ rawTx ∈ seen, s.proxy.settled (d.keccak rawTx) = true →
    rawTx ∈ s.called ∨ rawTx ∈ s.void
  call : ∀ rawTx ∈ seen, rawTx ∈ s.called → d.passed s.store rawTx = true ∨ rawTx ∈ s.void

section Run

variable {d : Deployment} {seen : Set Bytes} {s s' : DedupeState} {proxy : RelayState}
  {pending : List Bytes} {args : Sys.Arguments} {after store : Store} {rawTx : Bytes}

theorem dedupeInv_start (clock : Nat) (store : Store) :
    DedupeInv d seen (.start clock store) where
  jobs := fun _ h => by cases h
  entry := fun _ _ h => absurd rfl h
  receipt := fun _ _ h => by cases h
  call := fun _ _ h => by cases h

/-- An act of the relay, by what it does to the entries. -/
theorem DedupeInv.of_proxy (hinv : DedupeInv d seen s)
    (hjobs : ∀ t ∈ proxy.submits, t.1.ethHash = d.keccak t.1.rawTx ∧ t.1.rawTx ∈ seen)
    (hpending : ∀ rawTx ∈ s.pending, rawTx ∈ pending) (hsettled : proxy.settled = s.proxy.settled)
    (hentry : ∀ rawTx ∈ seen, proxy.txMeta (d.keccak rawTx) ≠ none →
      Underway proxy rawTx ∨ rawTx ∈ pending
        ∨ s.proxy.txMeta (d.keccak rawTx) ≠ none
          ∧ (Underway s.proxy rawTx → Underway proxy rawTx)) :
    DedupeInv d seen { s with proxy := proxy, pending := pending } where
  jobs := hjobs
  entry := by
    intro rawTx hseen hsome
    rcases hentry rawTx hseen hsome with hunder | hpend | ⟨hold, hkeeps⟩
    · exact Or.inl hunder
    · exact Or.inr (Or.inl hpend)
    · rcases hinv.entry rawTx hseen hold with hunder | hpend | hcalled
      · exact Or.inl (hkeeps hunder)
      · exact Or.inr (Or.inl (hpending rawTx hpend))
      · exact Or.inr (Or.inr hcalled)
  receipt := fun rawTx hseen h => hinv.receipt rawTx hseen (hsettled ▸ h)
  call := hinv.call

theorem dedupeInv_proxy {a : RelayAct} (hdist : Distinct d seen) (hinv : DedupeInv d seen s)
    (hplay : InPlay d seen (.proxy a)) (hown : isSettle a = false)
    (h : s.proxy.step d.relay a = some proxy) :
    DedupeInv d seen
      { s with
        proxy := proxy
        pending := (acceptedBy d.relay s.proxy a).toList ++ s.pending } := by
  have hpending : ∀ rawTx ∈ s.pending,
      rawTx ∈ (acceptedBy d.relay s.proxy a).toList ++ s.pending := fun _ hmem =>
    List.mem_append_right _ hmem
  cases a with
  | settle => cases hown
  | tick | reconcile =>
      cases h
      exact hinv.of_proxy hinv.jobs hpending rfl fun _ _ hsome => Or.inr (Or.inr ⟨hsome, id⟩)
  | request job =>
      cases h
      refine hinv.of_proxy ?_ hpending rfl fun rawTx _ hsome => Or.inr (Or.inr ⟨hsome, ?_⟩)
      · exact List.forall_mem_append.mpr ⟨hinv.jobs, List.forall_mem_singleton.mpr hplay⟩
      · rintro ⟨t, ht, hlive⟩
        exact ⟨t, List.mem_append_left _ ht, hlive⟩
  | evict gone =>
      cases h
      refine hinv.of_proxy hinv.jobs hpending rfl fun rawTx _ hsome => Or.inr (Or.inr ⟨?_, id⟩)
      change Function.update s.proxy.txMeta gone none (d.keccak rawTx) ≠ none at hsome
      by_cases heq : d.keccak rawTx = gone
      · rw [heq, Function.update_self] at hsome
        exact absurd rfl hsome
      · rwa [Function.update_of_ne heq] at hsome
  | cycle j wake =>
      obtain ⟨stage, sh, stage', -, hmove, rfl⟩ := step_cycle h
      refine hinv.of_proxy hinv.jobs hpending hmove.settled fun rawTx _ hsome =>
        Or.inr (Or.inr ⟨?_, id⟩)
      rw [← hmove.txMeta]
      exact hsome
  | submit i wake =>
      have hstep := h
      obtain ⟨job, stage, sh, stage', hget, hmove, rfl⟩ := step_submit h
      obtain ⟨hhash, hseen⟩ := hinv.jobs _ (List.mem_of_getElem? hget)
      have hjobs := forall_mem_set (i := i) (y := (job, stage')) hinv.jobs ⟨hhash, hseen⟩
      refine hinv.of_proxy hjobs hpending hmove.settled fun rawTx hraw hsome => ?_
      rcases entry_submit hget hmove hstep hhash (hdist.inj hraw hseen) hsome with
        hunder | haccepted | hkept
      · exact Or.inl hunder
      · rw [haccepted]
        exact Or.inr (Or.inl List.mem_cons_self)
      · exact Or.inr (Or.inr hkept)

/-- A call, which may take what it submits from the pending. -/
theorem dedupeInv_callWith (hd : d.Sound) (hdist : Distinct d seen) (hinv : DedupeInv d seen s)
    (hcall : Calls d.chain d.build d.revm d.rlp ⟨args, s.store, after⟩)
    (hpending : ∀ rawTx ∈ s.pending, rawTx ∈ pending ∨ submittedRaw args = some rawTx) :
    DedupeInv d seen ({ s with pending := pending }.callWith d args after) where
  jobs := hinv.jobs
  entry := by
    intro rawTx hseen hsome
    rcases hinv.entry rawTx hseen hsome with hunder | hpend | hcalled
    · exact Or.inl hunder
    · refine Or.inr ((hpending rawTx hpend).imp_right fun hraw => ?_)
      exact List.mem_append_left _ (Option.mem_toList.mpr hraw)
    · exact Or.inr (Or.inr (List.mem_append_right _ hcalled))
  receipt := fun rawTx hseen h =>
    (hinv.receipt rawTx hseen h).imp (List.mem_append_right _) (List.mem_append_right _)
  call := by
    intro rawTx hseen hcalled
    rcases List.mem_append.mp hcalled with hnow | hbefore
    · have hraw : submittedRaw args = some rawTx := Option.mem_toList.mp hnow
      cases hspends : d.spends s.store after rawTx with
      | true => exact Or.inl (spends_passed hd hcall hraw (hdist.fits rawTx hseen) hspends)
      | false =>
          refine Or.inr (List.mem_append_left _ (List.mem_filter.mpr ⟨hnow, ?_⟩))
          show (!d.spends s.store after rawTx) = true
          rw [hspends]
          rfl
    · exact (hinv.call rawTx hseen hbefore).imp (passed_mono hd hcall) (List.mem_append_right _)

theorem dedupeInv_settle (hdist : Distinct d seen) (hinv : DedupeInv d seen s)
    (hplay : rawTx ∈ seen) (h : s.step d (.settle rawTx) = some s') : DedupeInv d seen s' := by
  cases h
  have hvoid : ∀ raw ∈ s.void, raw ∈ if rawTx ∈ s.called then s.void else rawTx :: s.void := by
    intro raw hmem
    split
    · exact hmem
    · exact List.mem_cons_of_mem _ hmem
  refine ⟨hinv.jobs, hinv.entry, fun raw hseen hsettled => ?_, fun raw hseen hcalled =>
    (hinv.call raw hseen hcalled).imp_right (hvoid raw)⟩
  change Function.update s.proxy.settled (d.keccak rawTx) true (d.keccak raw) = true at hsettled
  show raw ∈ s.called ∨ raw ∈ if rawTx ∈ s.called then s.void else rawTx :: s.void
  by_cases heq : d.keccak raw = d.keccak rawTx
  · obtain rfl := hdist.inj hseen hplay heq
    by_cases hcalled : raw ∈ s.called
    · exact Or.inl hcalled
    · rw [if_neg hcalled]
      exact Or.inr List.mem_cons_self
  · rw [Function.update_of_ne heq] at hsettled
    exact (hinv.receipt raw hseen hsettled).imp_right (hvoid raw)

/-- A fork, after which all that has been called is void. -/
theorem dedupeInv_fork {back : List Bytes} (hinv : DedupeInv d seen s)
    (h : s.step d (.fork store back) = some s') : DedupeInv d seen s' := by
  obtain ⟨-, hnext⟩ := Option.ite_none_right_eq_some.mp h
  cases hnext
  refine ⟨hinv.jobs, fun raw hseen hsome => ?_, fun raw hseen hsettled => ?_, ?_⟩
  · exact (hinv.entry raw hseen hsome).imp_right (Or.imp_left (List.mem_append_right _))
  · exact (hinv.receipt raw hseen hsettled).imp_right (List.mem_append_right _)
  · exact fun raw _ hcalled => Or.inr (List.mem_append_left _ hcalled)

theorem dedupeInv_step {a : DedupeAct} (hd : d.Sound) (hdist : Distinct d seen)
    (hinv : DedupeInv d seen s) (hlawful : Lawful d s a) (hplay : InPlay d seen a)
    (h : s.step d a = some s') : DedupeInv d seen s' := by
  cases a with
  | proxy a =>
      simp only [DedupeState.step] at h
      split at h
      next => cases h
      next hown =>
        obtain ⟨proxy, hstep, rfl⟩ := Option.map_eq_some_iff.mp h
        exact dedupeInv_proxy hdist hinv hplay (Bool.eq_false_of_not_eq_true hown) hstep
  | call args after =>
      cases h
      exact dedupeInv_callWith hd hdist hinv hlawful fun _ hmem => Or.inl hmem
  | relayed args after =>
      simp only [DedupeState.step] at h
      split at h
      next rawTx hraw =>
        split at h
        next =>
          cases h
          refine dedupeInv_callWith hd hdist hinv hlawful fun raw hmem => ?_
          by_cases heq : raw = rawTx
          · exact Or.inr (heq ▸ hraw)
          · exact Or.inl ((List.mem_erase_of_ne heq).mpr hmem)
        next => cases h
      next => cases h
  | settle rawTx => exact dedupeInv_settle hdist hinv hplay h
  | fork store back => exact dedupeInv_fork hinv h
  | restart =>
      cases h
      exact ⟨fun _ ht => (by cases ht), fun _ _ hsome => absurd rfl hsome, hinv.receipt, hinv.call⟩

/-- Whatever the dedupe answers for is under way, pending, past its nonce, or
void. -/
theorem DedupeInv.cause {a : DedupeAct} {job : RelayJob} (hinv : DedupeInv d seen s)
    (hsup : Suppresses s a job) :
    Underway s.proxy job.rawTx ∨ job.rawTx ∈ s.pending ∨ d.passed s.store job.rawTx = true
      ∨ job.rawTx ∈ s.void := by
  obtain ⟨i, -, hget, hknows⟩ := hsup
  obtain ⟨hhash, hseen⟩ := hinv.jobs _ (List.mem_of_getElem? hget)
  rw [hhash] at hknows
  have hcalled := hinv.call job.rawTx hseen
  rcases Bool.or_eq_true_iff.mp hknows with hentry | hsettled
  · rcases hinv.entry _ hseen (Option.isSome_iff_ne_none.mp hentry) with hunder | hpend | hran
    · exact Or.inl hunder
    · exact Or.inr (Or.inl hpend)
    · exact Or.inr (Or.inr (hcalled hran))
  · rcases hinv.receipt _ hseen hsettled with hran | hvoid
    · exact Or.inr (Or.inr (hcalled hran))
    · exact Or.inr (Or.inr (Or.inr hvoid))

/-- So what is not justified is stranded. -/
theorem justified_iff {a : DedupeAct} (hinv : DedupeInv d seen s) :
    Justified d s a ↔ MeetsNoStranded d s a := by
  constructor
  · intro hjust job hsup hstranded
    rcases hjust job hsup with hunder | hpend | hpassed
    · exact hstranded.idle hunder
    · exact hstranded.gone hpend
    · rw [hstranded.due] at hpassed
      cases hpassed
  · intro hmeets job hsup
    rcases hinv.cause hsup with hunder | hpend | hpassed | hvoid
    · exact Or.inl hunder
    · exact Or.inr (Or.inl hpend)
    · exact Or.inr (Or.inr hpassed)
    · by_contra hnone
      rw [not_or, not_or] at hnone
      obtain ⟨hidle, hgone, hdue⟩ := hnone
      exact hmeets job hsup ⟨hvoid, hidle, hgone, Bool.eq_false_of_not_eq_true hdue⟩

end Run

-- ============================================================== the result

/-- In every run of the relay and the chain: whatever the dedupe answers for
is under way, pending, or past its nonce, exactly if it never meets a
stranded transaction. -/
theorem dedupe_justified_iff {d : Deployment} (hd : d.Sound) {seen : Set Bytes}
    (hdist : Distinct d seen) (clock : Nat) (store : Store) (acts : List DedupeAct)
    (hplay : ∀ a ∈ acts, InPlay d seen a)
    (hlawful : Always (DedupeState.step d) (fun s a _ => Lawful d s a) (.start clock store) acts) :
    Always (DedupeState.step d) (fun s a _ => Justified d s a) (.start clock store) acts
      ↔ Always (DedupeState.step d) (fun s a _ => MeetsNoStranded d s a) (.start clock store)
        acts := by
  have hordinary : Always (DedupeState.step d) (fun s a _ => Lawful d s a ∧ InPlay d seen a)
      (.start clock store) acts :=
    always_and.mpr ⟨hlawful, always_of_forall fun a ha _ _ => hplay a ha⟩
  have hboth := always_iff (P := fun s a _ => (Lawful d s a ∧ InPlay d seen a) ∧ Justified d s a)
    (Q := fun s a _ => (Lawful d s a ∧ InPlay d seen a) ∧ MeetsNoStranded d s a)
    (DedupeInv d seen)
    (fun s a s' hinv _ => and_congr_right fun _ => justified_iff hinv)
    (fun s a s' hinv hstep hP => dedupeInv_step hd hdist hinv hP.1.1 hP.1.2 hstep)
    (dedupeInv_start clock store) acts
  constructor
  · exact fun h => (always_and.mp (hboth.mp (always_and.mpr ⟨hordinary, h⟩))).2
  · exact fun h => (always_and.mp (hboth.mpr (always_and.mpr ⟨hordinary, h⟩))).2

-- =========================================================== a nonce too far

/-- The transaction of the same account behind `zeroTransfer`. -/
def nextTransfer : ParsedTx :=
  { zeroTransfer with
    nonce := 1
    r := 0xa0d68fed08eb46517323b9472ccbacaa09350c87b67e90204430c036582bb028
    s := 0x16caee90a05c231aa33dc390d53504b4e0c8598a30f80cfc63f842cab3c202aa }

/-- The hash that `tx` is signed over. -/
def signingHashOf (tx : ParsedTx) : B256 :=
  if tx.nonce = 0 then
    word 0xe7c66cab2852de56f04c7f32a1ad9c9e5e2a9004587eebdd3675290bfdfb007a
  else word 0x4780097a527229921aa2f70ff130fbfc98127b744a35aa0c3d2a74b759a6682c

/-- The public key of the private key 1, uncompressed. -/
def keyOne : FixedBytes 65 :=
  ⟨0x04 :: beBytes 64 sampleChain.keyOne, by rw [List.length_cons, length_beBytes]⟩

/-- Keccak with the real values at the two. -/
def keyOneKeccak (data : Bytes) : B256 :=
  if data = signingPayload zeroTransfer then signingHashOf zeroTransfer
  else if data = signingPayload nextTransfer then signingHashOf nextTransfer
  else if data = keyOne.bytes.tail then
    word 0xc0a6c424ac7157ae408398df7e5f4552091a69125d5dfcb7b8c2659029395bdf
  else if data = canonicalRaw nextTransfer then
    word 0x30edc1a8b55e0b870d134d894689295af38346baafd9abfcf23271c8e916eb7f
  else FixedBytes.zero 32

/-- The signature of `tx` is over this hash. -/
def signedBy (tx : ParsedTx) (msgHash : B256) (sig : FixedBytes 64) (yParity : UInt8) : Bool :=
  msgHash = signingHashOf tx && sig.bytes = (word tx.r.toNat).bytes ++ (word tx.s.toNat).bytes
    && yParity = tx.yParity

/-- Recovery with the real values at the two. -/
def keyOneSecp : EthTx.Secp256k1 where
  recoverEcdsa msgHash sig yParity :=
    if signedBy zeroTransfer msgHash sig yParity || signedBy nextTransfer msgHash sig yParity then
      .ok keyOne
    else .error "malformed or incorrect signature"

/-- The Koinos id of the transaction that one is sent in. -/
def nextKoinosTxId : Bytes :=
  (word 0x175d8b7c3466c25ffdf8c51da9569a958c959ac592ad7ffa9865af3e9db931b3).bytes

/-- The contract on a chain with these. -/
def keyOneDeployment : Deployment where
  relay := ⟨30, fun _ _ => .ok nextKoinosTxId⟩
  keccak := keyOneKeccak
  secp := keyOneSecp
  chain :=
    { contractId := List.replicate 25 0x33
      hash := (hostOf keyOneKeccak keyOneSecp).hash
      recoverPublicKey := (hostOf keyOneKeccak keyOneSecp).recoverPublicKey }
  build := evmBuild
  revm := transferRevm
  rlp := strictRlp

theorem keyOneDeployment_sound : keyOneDeployment.Sound where
  evm := rfl
  safeCaller := rfl
  conforms := transferRevm_conforms
  canonical := strictRlp_canonical
  sameCrypto := by
    refine hostOf_same keyOneKeccak fun msgHash sig yParity key h => ?_
    simp only [keyOneSecp] at h
    split at h
    · cases h
      rfl
    · cases h

/-- The call that submits a transaction. -/
def submitCall (tx : ParsedTx) : Sys.Arguments :=
  ⟨Engine.EP_SUBMIT_RAW_TX, Engine.Proto.encodeBytesField 1 (canonicalRaw tx)⟩

/-- .. on the host that keeps a map. -/
@[irreducible] def keyOneRun (tx : ParsedTx) (store : Store) :
    Lib.Run Syscall (fun _ => Reply) Exit Unit Store :=
  (start evmBuild transferRevm strictRlp).run (mapHost keyOneDeployment.chain (submitCall tx)) store

theorem keyOneRun_calls {tx : ParsedTx} {store : Store}
    (h : ∀ e ∈ (keyOneRun tx store).trace, e.2.out.length < 2 ^ 32) :
    Calls keyOneDeployment.chain evmBuild transferRevm strictRlp
      ⟨submitCall tx, store, (keyOneRun tx store).state⟩ := by
  have hobeys : Obeys keyOneDeployment.chain (submitCall tx) store (keyOneRun tx store).trace
      (keyOneRun tx store).state := by
    unfold keyOneRun at h ⊢
    exact run_obeys _ _ h
  have hexec : Exec (start evmBuild transferRevm strictRlp) (keyOneRun tx store).trace
      (keyOneRun tx store).outcome := by
    unfold keyOneRun
    exact run_exec _ _ _
  exact ⟨_, _, _, hexec, hobeys, Or.inl rfl⟩

/-- The transaction, to be relayed. -/
def nextJob : RelayJob :=
  ⟨word 0x30edc1a8b55e0b870d134d894689295af38346baafd9abfcf23271c8e916eb7f,
    canonicalRaw nextTransfer⟩

/-- A request is relayed and accepted. -/
def sent (job : RelayJob) : List DedupeAct :=
  [.proxy (.request job), .proxy (.submit 0 .ready), .proxy (.submit 0 .ready),
    .proxy (.submit 0 .ready), .proxy (.submit 0 .ready), .proxy (.submit 0 .ready),
    .proxy (.submit 0 (.nonce (.ok 1))), .proxy (.submit 0 (.submitted (.ok ()))),
    .proxy (.submit 0 .ready)]

/-- The one request of the relay is somewhere. -/
def sentAt (job : RelayJob) (store : Store) (gate : Option Party) (nonce : Option UInt64)
    (inflight : Nat) (txMeta : B256 → Option Bytes) (pending : List Bytes) (stage : SubmitStage) :
    DedupeState where
  proxy :=
    { clock := 0
      gate := gate
      operatorNonce := nonce
      lastSubmitOk := 0
      inflightSubmits := inflight
      txMeta := txMeta
      settled := fun _ => false
      submits := [(job, stage)]
      cycles := [] }
  store := store
  pending := pending
  called := []
  void := []

theorem afterAll_sent (job : RelayJob) (store : Store) :
    afterAll (DedupeState.step keyOneDeployment) (.start 0 store) (sent job)
      = sentAt job store none (some 2) 1 (Function.update (fun _ => none) job.ethHash (some []))
        [job.rawTx] (.released nextKoinosTxId) := by
  let entry : B256 → Option Bytes := Function.update (fun _ => none) job.ethHash (some [])
  let me := some (Party.submit 0)
  calc afterAll (DedupeState.step keyOneDeployment) (.start 0 store) (sent job)
    _ = afterAll _ (sentAt job store none none 0 (fun _ => none) [] .queued) _ := afterAll_cons rfl
    _ = afterAll _ (sentAt job store me none 0 (fun _ => none) [] .deduping) _ := afterAll_cons rfl
    _ = afterAll _ (sentAt job store me none 1 entry [] .reserved) _ := afterAll_cons rfl
    _ = afterAll _ (sentAt job store none none 1 entry [] .spawned) _ := afterAll_cons rfl
    _ = afterAll _ (sentAt job store me none 1 entry [] .entered) _ := afterAll_cons rfl
    _ = afterAll _ (sentAt job store me none 1 entry [] .fetching) _ := afterAll_cons rfl
    _ = afterAll _ (sentAt job store me (some 1) 1 entry [] (.sending false)) _ := afterAll_cons rfl
    _ = afterAll _ (sentAt job store me (some 2) 1 entry [job.rawTx]
          (.accepted nextKoinosTxId)) _ := afterAll_cons rfl
    _ = sentAt job store none (some 2) 1 entry [job.rawTx] (.released nextKoinosTxId) :=
        afterAll_cons rfl

/-- The step of a request that the dedupe answers. -/
theorem Suppresses.enabled {d : Deployment} {s : DedupeState} {a : DedupeAct} {job : RelayJob}
    (h : Suppresses s a job) : ∃ s', s.step d a = some s' := by
  obtain ⟨i, rfl, hget, hknows⟩ := h
  refine Option.isSome_iff_exists.mp ?_
  simp only [DedupeState.step, isSettle, RelayState.step, hget, submitStep, hknows]
  rfl

section Retried

variable {job : RelayJob} {args args' : Sys.Arguments} {store after after' : Store}

/-- The relay after the first time. -/
def sentOnce (job : RelayJob) (store : Store) : DedupeState :=
  sentAt job store none (some 2) 1 (Function.update (fun _ => none) job.ethHash (some []))
    [job.rawTx] (.released nextKoinosTxId)

/-- The engine is called with it, and again by somebody else; the request
comes again. -/
def retried (job : RelayJob) (args : Sys.Arguments) (after : Store) (args' : Sys.Arguments)
    (after' : Store) : List DedupeAct :=
  [.relayed args after, .call args' after', .proxy (.request job), .proxy (.submit 1 .ready)]

/-- Then it is at the dedupe. -/
def sentAgain (job : RelayJob) (store : Store) (called void : List Bytes) : DedupeState where
  proxy :=
    { clock := 0
      gate := some (.submit 1)
      operatorNonce := some 2
      lastSubmitOk := 0
      inflightSubmits := 1
      txMeta := Function.update (fun _ => none) job.ethHash (some [])
      settled := fun _ => false
      submits := [(job, .released nextKoinosTxId), (job, .deduping)]
      cycles := [] }
  store := store
  pending := [job.rawTx].erase job.rawTx
  called := called
  void := void

theorem sentOnce_called (hraw : submittedRaw args = some job.rawTx) :
    (sentOnce job store).step keyOneDeployment (.relayed args after)
      = some ({ sentOnce job store with
          pending := [job.rawTx].erase job.rawTx }.callWith keyOneDeployment args after) := by
  have hmem : job.rawTx ∈ (sentOnce job store).pending := List.mem_cons_self
  simp only [DedupeState.step, hraw, if_pos hmem]
  rfl

theorem afterAll_retried (store after : Store) (args' : Sys.Arguments) (after' : Store)
    (hraw : submittedRaw args = some job.rawTx) :
    ∃ called void,
      afterAll (DedupeState.step keyOneDeployment) (sentOnce job store)
        (retried job args after args' after') = sentAgain job after' called void :=
  ⟨_, _, (afterAll_cons (sentOnce_called hraw)).trans
    ((afterAll_cons rfl).trans ((afterAll_cons rfl).trans (afterAll_cons rfl)))⟩

theorem retried_lawful (hraw : submittedRaw args = some job.rawTx)
    (hcall : Calls keyOneDeployment.chain evmBuild transferRevm strictRlp ⟨args, store, after⟩)
    (hcall' : Calls keyOneDeployment.chain evmBuild transferRevm strictRlp
      ⟨args', after, after'⟩) :
    Always (DedupeState.step keyOneDeployment) (fun s a _ => Lawful keyOneDeployment s a)
      (sentOnce job store) (retried job args after args' after') :=
  (always_cons_some (sentOnce_called hraw)).mpr ⟨hcall, hcall', trivial, trivial, trivial⟩

theorem sentAgain_suppresses (job : RelayJob) (store : Store) (called void : List Bytes) :
    Suppresses (sentAgain job store called void) (.proxy (.submit 1 .ready)) job := by
  refine ⟨1, rfl, rfl, Bool.or_eq_true_iff.mpr (Or.inl ?_)⟩
  have hentry : (sentAgain job store called void).proxy.txMeta job.ethHash = some [] :=
    Function.update_self (β := fun _ => Option Bytes) job.ethHash (some []) fun _ => none
  rw [hentry]
  rfl

/-- Unless its nonce has been passed, it is suppressed for nothing. -/
theorem sentAgain_unjustified {called void : List Bytes}
    (hdue : keyOneDeployment.passed store job.rawTx = false) :
    ¬ Justified keyOneDeployment (sentAgain job store called void)
      (.proxy (.submit 1 .ready)) := by
  intro hjust
  rcases hjust job (sentAgain_suppresses job store called void) with
    ⟨t, ht, -, hlive⟩ | hpend | hpassed
  · rcases List.mem_pair.mp ht with rfl | rfl
    · cases hlive
    · cases hlive
  · have hnone : (sentAgain job store called void).pending = [] :=
      List.erase_cons_head _ _
    rw [hnone] at hpend
    cases hpend
  · change keyOneDeployment.passed store job.rawTx = true at hpassed
    rw [hdue] at hpassed
    cases hpassed

/-- Called with and again at the dedupe, a transaction whose nonce is still to
come is suppressed for nothing. -/
theorem retried_suppressed (hraw : submittedRaw args = some job.rawTx)
    (hcall : Calls keyOneDeployment.chain evmBuild transferRevm strictRlp ⟨args, store, after⟩)
    (hcall' : Calls keyOneDeployment.chain evmBuild transferRevm strictRlp ⟨args', after, after'⟩)
    (hdue : keyOneDeployment.passed after' job.rawTx = false) :
    Always (DedupeState.step keyOneDeployment) (fun s a _ => Lawful keyOneDeployment s a)
        (.start 0 store)
        (sent job ++ (retried job args after args' after' ++ [.proxy (.submit 1 .ready)]))
      ∧ ¬ Always (DedupeState.step keyOneDeployment) (fun s a _ => Justified keyOneDeployment s a)
        (.start 0 store)
        (sent job ++ (retried job args after args' after' ++ [.proxy (.submit 1 .ready)])) := by
  obtain ⟨called, void, hagain⟩ := afterAll_retried store after args' after' hraw
  obtain ⟨s', hlast⟩ : ∃ s', (sentAgain job after' called void).step keyOneDeployment
      (.proxy (.submit 1 .ready)) = some s' :=
    (sentAgain_suppresses job after' called void).enabled
  constructor
  · refine always_append.mpr ⟨always_of_forall (by simp [sent, Lawful]), ?_⟩
    rw [afterAll_sent]
    refine always_append.mpr ⟨retried_lawful hraw hcall hcall', ?_⟩
    exact hagain ▸ (always_cons_some hlast).mpr ⟨trivial, trivial⟩
  · intro h
    have htail := (always_append.mp h).2
    rw [afterAll_sent] at htail
    have hend := (always_append.mp htail).2
    change Always _ _ (afterAll _ (sentOnce job store) _) _ at hend
    rw [hagain] at hend
    exact sentAgain_unjustified hdue ((always_cons_some hlast).mp hend).1

theorem retried_inPlay {d : Deployment} (hhash : job.ethHash = d.keccak job.rawTx) :
    ∀ a ∈ sent job ++ (retried job args after args' after' ++ [.proxy (.submit 1 .ready)]),
      InPlay d {job.rawTx} a := by
  simp [sent, retried, InPlay, hhash]

end Retried

/-- The engine rejects the transaction, then runs the one in front of it; when
the request comes again its nonce is next. -/
def gapCloses : List DedupeAct :=
  sent nextJob ++ (retried nextJob (submitCall nextTransfer)
    (keyOneRun nextTransfer emptyStore).state (submitCall zeroTransfer)
    (keyOneRun zeroTransfer (keyOneRun nextTransfer emptyStore).state).state
    ++ [.proxy (.submit 1 .ready)])

theorem submittedRaw_next : submittedRaw (submitCall nextTransfer) = some nextJob.rawTx :=
  congrArg some (by decide +kernel)

theorem next_called :
    Calls keyOneDeployment.chain evmBuild transferRevm strictRlp
      ⟨submitCall nextTransfer, emptyStore, (keyOneRun nextTransfer emptyStore).state⟩ :=
  keyOneRun_calls (by decide +kernel)

theorem zero_called :
    Calls keyOneDeployment.chain evmBuild transferRevm strictRlp
      ⟨submitCall zeroTransfer, (keyOneRun nextTransfer emptyStore).state,
        (keyOneRun zeroTransfer (keyOneRun nextTransfer emptyStore).state).state⟩ :=
  keyOneRun_calls (by decide +kernel)

theorem next_due :
    keyOneDeployment.passed (keyOneRun zeroTransfer (keyOneRun nextTransfer emptyStore).state).state
      nextJob.rawTx = false := by
  decide +kernel

theorem nextJob_distinct : Distinct keyOneDeployment {nextJob.rawTx} where
  fits := by
    intro raw hraw
    rw [Set.mem_singleton_iff.mp hraw]
    decide +kernel
  inj := Set.injOn_singleton _ _

theorem gapCloses_inPlay : ∀ a ∈ gapCloses, InPlay keyOneDeployment {nextJob.rawTx} a := by
  have hhash : nextJob.ethHash = keyOneDeployment.keccak nextJob.rawTx := by decide +kernel
  exact retried_inPlay hhash

/-- The two sides of the equivalence, on this run. -/
theorem gapCloses_justified_iff :
    Always (DedupeState.step keyOneDeployment) (fun s a _ => Justified keyOneDeployment s a)
        (.start 0 emptyStore) gapCloses
      ↔ Always (DedupeState.step keyOneDeployment)
        (fun s a _ => MeetsNoStranded keyOneDeployment s a) (.start 0 emptyStore) gapCloses :=
  dedupe_justified_iff keyOneDeployment_sound nextJob_distinct 0 emptyStore gapCloses
    gapCloses_inPlay
    (retried_suppressed submittedRaw_next next_called zero_called next_due).1

/-- The dedupe answers for it on this run, and on neither side. -/
theorem gapCloses_suppressed :
    Always (DedupeState.step keyOneDeployment) (fun s a _ => Lawful keyOneDeployment s a)
        (.start 0 emptyStore) gapCloses
      ∧ ¬ Always (DedupeState.step keyOneDeployment) (fun s a _ => Justified keyOneDeployment s a)
        (.start 0 emptyStore) gapCloses :=
  retried_suppressed submittedRaw_next next_called zero_called next_due

end KoinosEvm.Proofs
