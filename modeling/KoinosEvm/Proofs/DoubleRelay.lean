/-
One raw transaction is relayed once.

As long as its entry of `tx_meta` is not evicted, the entry stands for a
relay that may yet be sent or for one that the node has accepted, and for
one of them only (`OnceInv.one`): the dedupe lets a request through where
there is no entry, a failed relay takes the entry away, and acceptance turns
the one into the other. So no schedule has the node accept the same bytes
twice (`relayed_once`).
-/
import KoinosEvm.Proofs.Relay
import KoinosEvm.Proofs.SubmitTxJson

namespace KoinosEvm.Proofs

open Lib Proxy

-- ================================================================ the note

/-- The request may yet be sent. -/
def relaying : SubmitStage → Bool
  | .reserved | .spawned | .entered | .fetching | .sending _ | .resyncing => true
  | .queued | .deduping | .known | .accepted _ | .failed | .released _ | .stored _ | .closing
  | .ended => false

/-- A step in which the node accepts. -/
def accepts : SubmitStage → SubmitStage → Bool
  | .sending _, .accepted _ => true
  | _, _ => false

/-- The raw transaction that the node accepts in an act. -/
def acceptedBy (cfg : RelayConfig) (s : RelayState) : RelayAct → Option Bytes
  | .submit i wake =>
      match s.submits[i]?, (s.step cfg (.submit i wake)).bind (·.submits[i]?) with
      | some (job, stage), some (_, stage') =>
          if accepts stage stage' then some job.rawTx else none
      | _, _ => none
  | _ => none

/-- What the node has accepted, newest first. -/
def noteAccepted (cfg : RelayConfig) (accepted : List Bytes) (s : RelayState) (a : RelayAct) :
    List Bytes :=
  (acceptedBy cfg s a).toList ++ accepted

-- ============================================================ the property

/-- What is said of every state about a raw transaction. -/
structure RelayedOnce (keccak : Bytes → B256) (rawTx : Bytes) (accepted : List Bytes)
    (s : RelayState) : Prop where
  once : accepted.count rawTx ≤ 1
  /-- A relay that fails leaves no entry. -/
  failed : ∀ t ∈ s.submits, t.1.rawTx = rawTx → t.2 = .failed → s.txMeta (keccak rawTx) = none
  /-- An entry is that of a relay under way, or of one accepted. -/
  owned : s.txMeta (keccak rawTx) ≠ none →
    (∃ t ∈ s.submits, t.1.ethHash = keccak rawTx ∧ relaying t.2 = true)
      ∨ ∃ raw ∈ accepted, keccak raw = keccak rawTx

/-- Requests have the hashes of their bytes, and this entry is not evicted. -/
def EntryKept (keccak : Bytes → B256) (ethHash : B256) (a : RelayAct) : Prop :=
  (∀ job, a = .request job → job.ethHash = keccak job.rawTx) ∧ a ≠ .evict ethHash

-- =========================================================== the invariant

/-- A relay of this hash that may yet be sent. -/
def relays (ethHash : B256) (t : RelayJob × SubmitStage) : Bool :=
  t.1.ethHash = ethHash && relaying t.2

/-- Raw bytes of this hash. -/
def hashesTo (keccak : Bytes → B256) (ethHash : B256) (rawTx : Bytes) : Bool :=
  keccak rawTx = ethHash

structure OnceInv (keccak : Bytes → B256) (ethHash : B256) (accepted : List Bytes)
    (s : RelayState) : Prop where
  relay : RelayInv s
  hashes : ∀ t ∈ s.submits, t.1.ethHash = keccak t.1.rawTx
  /-- The entry stands for one relay. -/
  one : s.submits.countP (relays ethHash) + accepted.countP (hashesTo keccak ethHash)
    = (s.txMeta ethHash).isSome.toNat
  failed : ∀ t ∈ s.submits, t.1.ethHash = ethHash → t.2 = .failed → s.txMeta ethHash = none

/-- A step of a relay that may yet be sent, before and after it or not, and
whether the node accepts; and the entry, there before and after it or not. -/
inductive EntryMove : Bool → Bool → Bool → Bool → Bool → Prop
  | keep {live entry : Bool} : EntryMove live live false entry entry
  | place : EntryMove false true false false true
  | accept {entry : Bool} : EntryMove true false true entry entry
  | drop {entry : Bool} : EntryMove true false false entry false

/-- The entry stands for one relay after the step if it did before. -/
theorem EntryMove.balance {live live' accept entry entry' : Bool} {l l' a : Nat}
    (h : EntryMove live live' accept entry entry') (hl : l' + live.toNat = l + live'.toNat)
    (hone : l + a = entry.toNat) : l' + (accept.toNat + a) = entry'.toNat := by
  cases h with
  | keep | place | accept => simp only [Bool.toNat_true, Bool.toNat_false] at *; omega
  | drop =>
      have hle := Bool.toNat_le entry
      simp only [Bool.toNat_true, Bool.toNat_false] at *
      omega

section Step

variable {cfg : RelayConfig} {i : Nat} {job : RelayJob} {sh sh' : Shared}
  {stage stage' : SubmitStage} {wake : Wake}

theorem SubmitMove.entry (h : SubmitMove cfg i job sh stage wake sh' stage') :
    EntryMove (relaying stage) (relaying stage') (accepts stage stage')
      (sh.txMeta job.ethHash).isSome (sh'.txMeta job.ethHash).isSome := by
  cases h with
  | reserve hnew =>
      obtain ⟨hnone, -⟩ := Bool.or_eq_false_iff.mp hnew
      rw [hnone, reserve_self]
      exact .place
  | unfetched | refused | unresynced =>
      rw [removeMeta_self]
      exact .drop
  | accepted => exact .accept
  | settle =>
      rw [setKoinosTxId_self, Option.isSome_map]
      exact .keep
  | gone | take | know | answer | spawn | enter | fetch | send | fetched | resync | resynced
  | leave | leaveFailed | tell | close => exact .keep

/-- Outside the gate no entry is made. -/
theorem SubmitMove.entry_outside (h : SubmitMove cfg i job sh stage wake sh' stage')
    (hout : inside stage = false) {ethHash : B256} (hnone : sh.txMeta ethHash = none) :
    sh'.txMeta ethHash = none := by
  by_cases heq : ethHash = job.ethHash
  · subst heq
    cases h with
    | settle =>
        rw [setKoinosTxId_self, hnone]
        rfl
    | gone | take | enter | tell | close => exact hnone
    | know | reserve | answer | spawn | fetch | send | fetched | unfetched | accepted | resync
    | refused | resynced | unresynced | leave | leaveFailed => cases hout
  · rw [h.txMeta_ne heq, hnone]

/-- A relay that fails takes its entry away. -/
theorem SubmitMove.entry_failed (h : SubmitMove cfg i job sh stage wake sh' .failed) :
    sh'.txMeta job.ethHash = none := by
  cases h with
  | unfetched | refused | unresynced => exact removeMeta_self _ _

end Step

section Run

variable {cfg : RelayConfig} {keccak : Bytes → B256} {ethHash : B256} {accepted : List Bytes}
  {s s' : RelayState} {a : RelayAct}

theorem onceInv_start (clock : Nat) : OnceInv keccak ethHash [] (.start clock) where
  relay := relayInv_start clock
  hashes := fun _ h => by cases h
  one := rfl
  failed := fun _ h => by cases h

theorem acceptedBy_submit {i : Nat} {wake : Wake} {job : RelayJob} {stage stage' : SubmitStage}
    {sh : Shared} (hget : s.submits[i]? = some (job, stage))
    (h : s.step cfg (.submit i wake)
      = some { s with toShared := sh, submits := s.submits.set i (job, stage') }) :
    acceptedBy cfg s (.submit i wake) = if accepts stage stage' then some job.rawTx else none := by
  have hlt := (List.getElem?_eq_some_iff.mp hget).1
  simp only [acceptedBy, hget, h, Option.bind_some, List.getElem?_set_self hlt]

theorem countP_acceptedBy (p : Bytes → Bool) (b : Bool) (rawTx : Bytes) :
    (if b then some rawTx else none).toList.countP p = (b && p rawTx).toNat := by
  cases b with
  | false => rfl
  | true =>
      show [rawTx].countP p = (p rawTx).toNat
      rw [List.countP_singleton]
      cases p rawTx <;> rfl

theorem onceInv_submit {i : Nat} {wake : Wake} (hinv : OnceInv keccak ethHash accepted s)
    (h : s.step cfg (.submit i wake) = some s') :
    OnceInv keccak ethHash (noteAccepted cfg accepted s (.submit i wake)) s' := by
  have hrelay := relayInv_step hinv.relay h
  obtain ⟨job, stage, sh, stage', hget, hstep, rfl⟩ := step_submit h
  have hmem := List.mem_of_getElem? hget
  have hhash := hinv.hashes _ hmem
  refine ⟨hrelay, forall_mem_set hinv.hashes hhash, ?_, ?_⟩
  · -- the entry stands for one relay
    have hcount := countP_set_add (y := (job, stage')) (relays ethHash) hget
    have hone := hinv.one
    rw [noteAccepted, acceptedBy_submit hget h, List.countP_append, countP_acceptedBy]
    by_cases heq : job.ethHash = ethHash
    · have hlive : ∀ st, relays ethHash (job, st) = relaying st := fun st => by
        rw [relays, decide_eq_true heq, Bool.true_and]
      have hraw : hashesTo keccak ethHash job.rawTx = true := decide_eq_true (hhash.symm.trans heq)
      rw [hlive, hlive] at hcount
      subst heq
      rw [hraw, Bool.and_true]
      exact hstep.entry.balance hcount hone
    · have hlive : ∀ st, relays ethHash (job, st) = false := fun st => by
        rw [relays, decide_eq_false heq, Bool.false_and]
      have hraw : hashesTo keccak ethHash job.rawTx = false :=
        decide_eq_false fun hraw => heq (hhash.trans hraw)
      rw [hlive, hlive, Nat.add_right_cancel_iff] at hcount
      rw [hraw, Bool.and_false, Bool.toNat_false, Nat.zero_add, hcount]
      exact hone.trans (by rw [hstep.txMeta_ne (Ne.symm heq)])
  · -- a relay that has failed keeps the gate
    intro t ht hash hfailed
    obtain ⟨k, hk⟩ := List.getElem?_of_mem ht
    rcases getElem?_set_cases hget hk with ⟨rfl, rfl⟩ | ⟨hki, hk⟩
    · have hfailed : stage' = .failed := hfailed
      subst hfailed
      rw [← hash]
      exact hstep.entry_failed
    · have hin : insideOf s (.submit k) = true := by
        have hget' : s.submits[k]? = some (t.1, SubmitStage.failed) := by rw [hk, ← hfailed]
        rw [insideOf_submit hget']
        rfl
      have hout := hinv.relay.outside hin (q := .submit i) fun h => hki (Party.submit.inj h)
      rw [insideOf_submit hget] at hout
      exact hstep.entry_outside hout (hinv.failed t (List.mem_of_getElem? hk) hash hfailed)

theorem onceInv_step (hinv : OnceInv keccak ethHash accepted s) (hkept : EntryKept keccak ethHash a)
    (h : s.step cfg a = some s') :
    OnceInv keccak ethHash (noteAccepted cfg accepted s a) s' := by
  cases a with
  | submit i wake => exact onceInv_submit hinv h
  | tick | settle | reconcile =>
      have hrelay := relayInv_step hinv.relay h
      cases h
      exact ⟨hrelay, hinv.hashes, hinv.one, hinv.failed⟩
  | request job =>
      have hrelay := relayInv_step hinv.relay h
      cases h
      refine ⟨hrelay, ?_, ?_, ?_⟩
      · exact List.forall_mem_append.mpr ⟨hinv.hashes, by simpa using hkept.1 job rfl⟩
      · have hqueued : relays ethHash (job, .queued) = false := Bool.and_false _
        show (s.submits ++ [(job, SubmitStage.queued)]).countP _ + _ = _
        rw [List.countP_append, List.countP_singleton, hqueued]
        exact hinv.one
      · exact List.forall_mem_append.mpr ⟨hinv.failed, by simp⟩
  | evict gone =>
      have hrelay := relayInv_step hinv.relay h
      cases h
      have hother : Function.update s.txMeta gone none ethHash = s.txMeta ethHash :=
        Function.update_of_ne (fun heq => hkept.2 (congrArg RelayAct.evict heq.symm)) _ _
      refine ⟨hrelay, hinv.hashes, ?_, ?_⟩
      · show _ = (Function.update s.txMeta gone none ethHash).isSome.toNat
        rw [hother]
        exact hinv.one
      · intro t ht hash hfailed
        exact hother.trans (hinv.failed t ht hash hfailed)
  | cycle j wake =>
      have hrelay := relayInv_step hinv.relay h
      obtain ⟨stage, sh, stage', -, hmove, rfl⟩ := step_cycle h
      refine ⟨hrelay, hinv.hashes, ?_, ?_⟩
      · show _ = (sh.txMeta ethHash).isSome.toNat
        rw [hmove.txMeta]
        exact hinv.one
      · intro t ht hash hfailed
        exact (congrFun hmove.txMeta ethHash).trans (hinv.failed t ht hash hfailed)

theorem OnceInv.relayedOnce {rawTx : Bytes} (h : OnceInv keccak (keccak rawTx) accepted s) :
    RelayedOnce keccak rawTx accepted s where
  once := by
    have hle : accepted.count rawTx ≤ accepted.countP (hashesTo keccak (keccak rawTx)) :=
      List.countP_mono_left fun raw _ heq => decide_eq_true (congrArg keccak (eq_of_beq heq))
    have hone := h.one
    have hentry := Bool.toNat_le (s.txMeta (keccak rawTx)).isSome
    omega
  failed := fun t ht hraw hfailed =>
    h.failed t ht ((h.hashes t ht).trans (congrArg keccak hraw)) hfailed
  owned := by
    intro hsome
    have hone := h.one
    rw [Option.isSome_iff_ne_none.mpr hsome, Bool.toNat_true] at hone
    rcases Nat.eq_zero_or_pos (s.submits.countP (relays (keccak rawTx))) with hzero | hpos
    · have hacc : 0 < accepted.countP (hashesTo keccak (keccak rawTx)) := by omega
      obtain ⟨raw, hmem, hraw⟩ := List.countP_pos_iff.mp hacc
      exact Or.inr ⟨raw, hmem, of_decide_eq_true hraw⟩
    · obtain ⟨t, ht, hlive⟩ := List.countP_pos_iff.mp hpos
      obtain ⟨hash, hrelaying⟩ := Bool.and_eq_true_iff.mp hlive
      exact Or.inl ⟨t, ht, of_decide_eq_true hash, hrelaying⟩

end Run

-- ============================================================== the result

/-- The same bytes are accepted once at most, in every schedule that keeps
their entry. -/
theorem relayed_once (cfg : RelayConfig) (keccak : Bytes → B256) (rawTx : Bytes) (clock : Nat)
    (acts : List RelayAct) (hkept : ∀ a ∈ acts, EntryKept keccak (keccak rawTx) a) :
    Always (watched (RelayState.step cfg) (noteAccepted cfg))
      (fun _ _ x' => RelayedOnce keccak rawTx x'.1 x'.2) ([], .start clock) acts := by
  refine always_imp (Q := fun _ a _ => EntryKept keccak (keccak rawTx) a)
    (fun x => OnceInv keccak (keccak rawTx) x.1 x.2) ?_ (onceInv_start clock) acts
    (always_of_forall fun a ha _ _ => hkept a ha)
  rintro ⟨accepted, s⟩ a x' hinv hstep hkeep
  obtain ⟨s', hnext, rfl⟩ := Option.map_eq_some_iff.mp hstep
  have hinv' := onceInv_step hinv hkeep hnext
  exact ⟨hinv', hinv'.relayedOnce⟩

/-- The transfer comes three times: the second is answered by the dedupe, the
third has a client that leaves. -/
def thriceSent : List RelayAct :=
  [.request sampleJob, .request sampleJob, .submit 0 .ready, .submit 0 .ready, .submit 0 .ready,
    .submit 1 .ready, .submit 1 .ready, .submit 1 .ready, .submit 0 .ready, .submit 0 .ready,
    .request sampleJob, .submit 2 .dropped, .submit 0 (.nonce (.ok 1)),
    .submit 0 (.submitted (.ok ())), .submit 0 .ready, .submit 0 .ready, .submit 0 .ready,
    .submit 0 .ready]

/-- It is accepted once, and all three tasks end. -/
theorem thriceSent_once :
    Always (watched
          (RelayState.step ((sampleOperator sampleChainId).relay sampleCrates 30))
          (noteAccepted ((sampleOperator sampleChainId).relay sampleCrates 30)))
        (fun _ _ x' => RelayedOnce sampleKeccak sampleJob.rawTx x'.1 x'.2) ([], .start 0)
        thriceSent
      ∧ (afterAll (watched
          (RelayState.step ((sampleOperator sampleChainId).relay sampleCrates 30))
          (noteAccepted ((sampleOperator sampleChainId).relay sampleCrates 30)))
          ([], .start 0) thriceSent).1 = [sampleJob.rawTx]
      ∧ (afterAll (RelayState.step ((sampleOperator sampleChainId).relay sampleCrates 30))
          (.start 0) thriceSent).submits.map Prod.snd = [.ended, .ended, .ended] := by
  refine ⟨?_, by decide +kernel, by decide +kernel⟩
  exact relayed_once _ sampleKeccak sampleJob.rawTx 0 thriceSent
    (by simp [thriceSent, EntryKept, sampleKeccak])

end KoinosEvm.Proofs
