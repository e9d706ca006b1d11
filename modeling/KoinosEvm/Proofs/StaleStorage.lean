/-
Storage that a removed account leaves behind.

`commit` removes the record of a selfdestructed account and not its
slots, so a slot could outlive its account and be found by the next one
at the address. It cannot, as long as revm keeps its promises
(`Cancun`): only an account created by the same transaction is destroyed,
it is created where nothing was, and storage is written where the nonce is
at least 1, which nonces do not go back from.

The invariant is `NoncedStorage`: a slot that is not zero belongs to an
account with a nonce. A commit keeps it (`noncedStorage_commit`), so every
store reached from the empty one has it.
-/
import KoinosEvm.Proofs.CommitUpdate

namespace KoinosEvm.Proofs

open Engine Lib

-- ============================================================ revm's part

/-- Nothing is at the address: no record, or one without nonce and
code. -/
def Fresh (w : World) (address : Address) : Prop :=
  ∀ info, w.account address = some info → info.nonce = 0 ∧ info.codeHash = KECCAK_EMPTY

/-- A change set of revm at Cancun, over the world it was computed
from. -/
structure Cancun (w : World) (state : EvmState) : Prop where
  destroys : ∀ {address account}, (address, account) ∈ state.accounts →
    account.selfdestructed = true → account.created = true
  creates : ∀ {address account}, (address, account) ∈ state.accounts →
    account.created = true → Fresh w address ∧ account.info.nonce ≠ 0
  /-- A slot is changed where an account exists, or is created, with a
  nonce of at least 1. -/
  stores : ∀ {address account}, (address, account) ∈ state.accounts →
    ∀ {slot value}, (slot, value) ∈ account.storage → value ≠ w.storage address slot →
    nonceOf (w.account address) ≠ 0 ∨
      (account.created = true ∧ account.info.nonce ≠ 0)
  keeps : ∀ {address account}, (address, account) ∈ state.accounts →
    ∀ {info}, w.account address = some info → info.nonce ≤ account.info.nonce

-- ========================================================== the invariant

/-- Storage belongs to accounts with a nonce. -/
def NoncedStorage (w : World) : Prop :=
  ∀ address slot, w.storage address slot ≠ 0 → nonceOf (w.account address) ≠ 0

/-- Where nothing is, nothing is stored. -/
theorem NoncedStorage.fresh {w : World} (h : NoncedStorage w) {address : Address}
    (hfresh : Fresh w address) (slot : U256) : w.storage address slot = 0 := by
  by_contra hslot
  apply h address slot hslot
  cases hacc : w.account address with
  | none => rfl
  | some info => exact (hfresh info hacc).1

section Commit

variable {chain : Chain} {call : Sys.Arguments} {store store' : Store} {state : EvmState}

theorem noncedStorage_empty : NoncedStorage (chain.world emptyStore) :=
  fun _ _ h => absurd rfl h

/-- A nonce is not lost to a commit. -/
theorem nonce_kept (h : Cancun (chain.world store) state) {address : Address}
    (hnonce : nonceOf (chain.account store address) ≠ 0) :
    nonceOf (chain.account (store.writeAll (commitWrites chain state)) address) ≠ 0 := by
  obtain ⟨info, hinfo⟩ : ∃ info, chain.account store address = some info := by
    cases hacc : chain.account store address with
    | none => exact absurd (by rw [hacc]; rfl) hnonce
    | some info => exact ⟨info, rfl⟩
  rw [hinfo] at hnonce
  by_cases htouched : ∃ account, (address, account) ∈ state.accounts ∧ account.touched = true
  · obtain ⟨account, hmem, htouched⟩ := htouched
    cases hsd : account.selfdestructed with
    | true =>
        -- what is destroyed was created where nothing was
        have hfresh := (h.creates hmem (h.destroys hmem hsd)).1
        exact absurd (hfresh info hinfo).1 hnonce
    | false =>
        rw [account_live hmem ⟨htouched, hsd⟩]
        intro hzero
        have hle := h.keeps hmem hinfo
        rw [show account.info.nonce = 0 from hzero] at hle
        exact hnonce (UInt64.le_antisymm hle (UInt64.zero_le))
  · rw [account_untouched fun account hmem => ?_, hinfo]
    · exact hnonce
    · exact Bool.eq_false_iff.mpr fun ht => htouched ⟨account, hmem, ht⟩

/-- One commit. -/
theorem noncedStorage_commit (h : Cancun (chain.world store) state)
    (hinv : NoncedStorage (chain.world store)) :
    NoncedStorage (chain.world (store.writeAll (commitWrites chain state))) := by
  intro address slot hslot
  by_cases hlisted : ∃ account value, (address, account) ∈ state.accounts ∧ Live account ∧
      (slot, value) ∈ account.storage
  · obtain ⟨account, value, hmem, hlive, hentry⟩ := hlisted
    have hvalue : chain.slot (store.writeAll (commitWrites chain state)) address slot = value :=
      slot_written hmem hlive hentry
    by_cases hsame : value = chain.slot store address slot
    · -- the slot was only read
      refine nonce_kept h (hinv address slot ?_)
      show chain.slot store address slot ≠ 0
      rw [← hsame, ← hvalue]
      exact hslot
    · rcases h.stores hmem hentry hsame with hnonce | ⟨-, hnonce⟩
      · exact nonce_kept h hnonce
      · show nonceOf (chain.account _ address) ≠ 0
        rw [account_live hmem hlive]
        exact hnonce
  · refine nonce_kept h (hinv address slot ?_)
    show chain.slot store address slot ≠ 0
    have hkept : chain.slot (store.writeAll (commitWrites chain state)) address slot
        = chain.slot store address slot :=
      slot_kept fun account hmem hlive value hentry =>
        hlisted ⟨account, value, hmem, hlive, hentry⟩
    rw [← hkept]
    exact hslot

end Commit

-- ============================================================ the states

/-- The stores that commits reach from the empty one. -/
inductive Committed (chain : Chain) : Store → Prop
  | empty : Committed chain emptyStore
  | commit {call : Sys.Arguments} {store store' : Store} {state : EvmState}
      {tr : List HostEv} :
      Committed chain store → Cancun (chain.world store) state →
      Exec (commit state) tr (.ok ()) → Obeys chain call store tr store' →
      Committed chain store'

theorem Committed.noncedStorage {chain : Chain} {store : Store} (h : Committed chain store) :
    NoncedStorage (chain.world store) := by
  induction h with
  | empty => exact noncedStorage_empty
  | @commit call store store' state tr _ hcancun hexec hobeys ih =>
      rw [performs_commit state call store tr store' hexec hobeys]
      exact noncedStorage_commit hcancun ih

/-- In every store that commits reach, an address without a record, or
with a record of nonce 0 and no code, has no storage; so a contract
created there finds every slot at zero. -/
theorem storage_notResurrected {chain : Chain} {store : Store} (h : Committed chain store) :
    (∀ address, Fresh (chain.world store) address →
      ∀ slot, (chain.world store).storage address slot = 0) ∧
    ∀ state address account, Cancun (chain.world store) state →
      (address, account) ∈ state.accounts → account.created = true →
      ∀ slot call tr r, (∀ e ∈ tr, Answers chain call store e) →
        Exec (storage address slot) tr (.ok r) → r = .ok 0 := by
  have hfresh : ∀ address, Fresh (chain.world store) address →
      ∀ slot, (chain.world store).storage address slot = 0 := fun _ =>
    h.noncedStorage.fresh
  refine ⟨hfresh, ?_⟩
  intro state address account hcancun hmem hcreated slot call tr r hall hexec
  rw [exec_storage_eq hall hexec]
  exact congrArg Except.ok (hfresh address (hcancun.creates hmem hcreated).1 slot)

/-- The account that the sample commit destroys leaves nothing. -/
theorem sampleCommit_notResurrected :
    (∀ address, Fresh (sampleChain.world sampleCommit.state) address →
      ∀ slot, (sampleChain.world sampleCommit.state).storage address slot = 0) ∧
    ∀ state address account, Cancun (sampleChain.world sampleCommit.state) state →
      (address, account) ∈ state.accounts → account.created = true →
      ∀ slot call tr r, (∀ e ∈ tr, Answers sampleChain call sampleCommit.state e) →
        Exec (storage address slot) tr (.ok r) → r = .ok 0 := by
  have hcancun : Cancun (sampleChain.world emptyStore) sampleChanges := by
    have hall : ∀ e ∈ sampleChanges.accounts, e.2.created = true ∧ e.2.info.nonce ≠ 0 := by
      decide
    refine ⟨fun hmem _ => (hall _ hmem).1, fun hmem _ => ⟨?_, (hall _ hmem).2⟩,
      fun hmem _ _ _ _ => Or.inr (hall _ hmem), ?_⟩
    · intro info hinfo
      cases hinfo
    · intro address account hmem info hinfo
      cases hinfo
  exact storage_notResurrected (.commit .empty hcancun sampleCommit_exec sampleCommit_obeys)

end KoinosEvm.Proofs
