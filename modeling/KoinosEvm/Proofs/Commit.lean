/-
The commit of a change set.

`commit` asks for its three spaces and then writes account by account: it
emits nothing (`eventless_commit`), returns exactly when every call was
answered (`governed_commit`), and writes exactly if some account was touched
(`commit_writes`). An account's object is read back as it was written
(`deserializeAccount_serialize`). What the objects are after it, on a chain
that keeps a map, is in CommitUpdate.
-/
import KoinosEvm.Proofs.Chain

namespace KoinosEvm.Proofs

open Engine Engine.Proto Lib

/-- The loop of `commit`. -/
def commitAll (accounts code slots : ObjectSpace) (entries : List (Address × Account)) :
    HostM Unit :=
  entries.forM fun (address, account) => commitAccount accounts code slots address account

/-- The calls of a commit. -/
theorem uses_commit {P : Syscall → Prop} (hlog : ∀ msg, P (.log msg))
    (hid : P .getContractId) (hput : ∀ space key obj, P (.putObject space key obj))
    (hremove : ∀ space key, P (.removeObject space key)) (state : EvmState) :
    Uses P Aborts (commit state) := by
  refine uses_bind (uses_engineSpace hlog hid _) fun accounts => ?_
  refine uses_bind (uses_engineSpace hlog hid _) fun code => ?_
  refine uses_bind (uses_engineSpace hlog hid _) fun slots => ?_
  refine uses_forM (fun entry => ?_) _
  obtain ⟨address, account⟩ := entry
  show Uses P Aborts (commitAccount accounts code slots address account)
  unfold commitAccount
  split
  · exact uses_pure _
  · split
    · exact uses_remove hlog (hremove _ _)
    · refine uses_bind (uses_put hlog (hput _ _ _)) fun _ => ?_
      refine uses_bind ?_ fun _ => uses_forM (fun slot => ?_) _
      · unfold commitCode
        split
        · split
          · exact uses_put hlog (hput _ _ _)
          · exact uses_pure _
        · exact uses_pure _
      · show Uses P Aborts (commitSlot slots address slot.1 slot.2)
        unfold commitSlot
        simp only
        split
        · exact uses_remove hlog (hremove _ _)
        · exact uses_put hlog (hput _ _ _)

/-- It returns exactly when every one of them was accepted. -/
theorem governed_commit (state : EvmState) : Governed Smooth (commit state) := by
  refine governed_bind (governed_engineSpace _) fun accounts => ?_
  refine governed_bind (governed_engineSpace _) fun code => ?_
  refine governed_bind (governed_engineSpace _) fun slots => ?_
  refine governed_forM (fun entry => ?_) _
  obtain ⟨address, account⟩ := entry
  show Governed Smooth (commitAccount accounts code slots address account)
  unfold commitAccount
  split
  · exact governed_pure _
  · split
    · exact governed_removeObject _ _
    · refine governed_bind (governed_putObject _ _ _) fun _ => ?_
      refine governed_bind ?_ fun _ => governed_forM (fun slot => ?_) _
      · unfold commitCode
        split
        · split
          · exact governed_putObject _ _ _
          · exact governed_pure _
        · exact governed_pure _
      · show Governed Smooth (commitSlot slots address slot.1 slot.2)
        unfold commitSlot
        simp only
        split
        · exact governed_removeObject _ _
        · exact governed_putObject _ _ _

/-- The syscall is no event. -/
def Eventless (call : Syscall) : Prop := ∀ name data impacted, call ≠ .event name data impacted

theorem eventless_trace {tr : List HostEv} (h : ∀ e ∈ tr, Eventless e.1) :
    eventsOf tr = [] := by
  apply List.filterMap_eq_nil_iff.mpr
  intro e he
  obtain ⟨call, reply⟩ := e
  have hne := h _ he
  cases call with
  | event name data impacted => exact absurd rfl (hne name data impacted)
  | _ => rfl

/-- `commit` emits nothing. -/
theorem eventless_commit (state : EvmState) : Uses Eventless Aborts (commit state) :=
  uses_commit (fun _ => by simp [Eventless]) (by simp [Eventless])
    (fun _ _ _ => by simp [Eventless]) (fun _ _ => by simp [Eventless]) state

/-- A commit that returned: the spaces, then the loop. -/
theorem exec_commit_ok {state : EvmState} {tr : List HostEv}
    (h : Exec (commit state) tr (.ok ())) :
    ∃ accounts code slots t₁ t₂ t₃ t₄,
      Exec (engineSpace SPACE_ACCOUNTS) t₁ (.ok accounts) ∧
      Exec (engineSpace SPACE_CODE) t₂ (.ok code) ∧
      Exec (engineSpace SPACE_STORAGE) t₃ (.ok slots) ∧
      Exec (commitAll accounts code slots state.accounts) t₄ (.ok ()) ∧
      tr = t₁ ++ (t₂ ++ (t₃ ++ t₄)) := by
  unfold commit at h
  obtain ⟨accounts, t₁, u₁, h₁, hrest₁, rfl⟩ := exec_bind_ok.mp h
  obtain ⟨code, t₂, u₂, h₂, hrest₂, rfl⟩ := exec_bind_ok.mp hrest₁
  obtain ⟨slots, t₃, t₄, h₃, hloop, rfl⟩ := exec_bind_ok.mp hrest₂
  exact ⟨accounts, code, slots, t₁, t₂, t₃, t₄, h₁, h₂, h₃, hloop, rfl⟩

-- =========================================================== the writes

/-- The change set has something to write. -/
def Touches (state : EvmState) : Prop := ∃ entry ∈ state.accounts, entry.2.touched = true

theorem writesOf_put {space : ObjectSpace} {key obj : Bytes} {tr : List HostEv}
    (h : Exec (Sys.putObject space key obj) tr (.ok ())) : writesOf tr ≠ [] := by
  obtain ⟨reply, ⟨-, rfl, -⟩ | ⟨-, ⟨msg, hx⟩, -⟩⟩ := exec_must h
  · simp [writesOf, isWrite]
  · cases hx

theorem writesOf_remove {space : ObjectSpace} {key : Bytes} {tr : List HostEv}
    (h : Exec (Sys.removeObject space key) tr (.ok ())) : writesOf tr ≠ [] := by
  obtain ⟨reply, ⟨-, rfl, -⟩ | ⟨-, ⟨msg, hx⟩, -⟩⟩ := exec_must h
  · simp [writesOf, isWrite]
  · cases hx

/-- An account is written or removed exactly if it was touched. -/
theorem commitAccount_writes {accounts code slots : ObjectSpace} {address : Address}
    {account : Account} {tr : List HostEv}
    (h : Exec (commitAccount accounts code slots address account) tr (.ok ())) :
    writesOf tr = [] ↔ account.touched = false := by
  unfold commitAccount at h
  cases htouched : account.touched with
  | false =>
      rw [htouched] at h
      obtain ⟨rfl, -⟩ := exec_ret.mp h
      exact iff_of_true rfl rfl
  | true =>
      rw [htouched] at h
      refine iff_of_false ?_ (by simp)
      change Exec (if account.selfdestructed then _ else _) tr _ at h
      split at h
      · exact writesOf_remove h
      · obtain ⟨_, t₁, t₂, h₁, -, rfl⟩ := exec_bind_ok.mp h
        rw [writesOf_append]
        intro hnil
        exact writesOf_put h₁ (List.append_eq_nil_iff.mp hnil).1

theorem commitAll_writes {accounts code slots : ObjectSpace}
    {entries : List (Address × Account)} {tr : List HostEv}
    (h : Exec (commitAll accounts code slots entries) tr (.ok ())) :
    writesOf tr = [] ↔ ∀ entry ∈ entries, entry.2.touched = false := by
  induction entries generalizing tr with
  | nil =>
      obtain ⟨rfl, -⟩ := exec_ret.mp h
      exact iff_of_true rfl (by simp)
  | cons entry entries ih =>
      obtain ⟨_, t₁, t₂, h₁, h₂, rfl⟩ := exec_bind_ok.mp h
      rw [writesOf_append, List.append_eq_nil_iff, List.forall_mem_cons,
        commitAccount_writes h₁, ih h₂]

/-- A commit writes exactly if some account was touched. -/
theorem commit_writes {state : EvmState} {tr : List HostEv}
    (h : Exec (commit state) tr (.ok ())) : writesOf tr = [] ↔ ¬ Touches state := by
  obtain ⟨accounts, code, slots, t₁, t₂, t₃, t₄, h₁, h₂, h₃, hloop, rfl⟩ := exec_commit_ok h
  have hquiet : ∀ {id space t}, Exec (engineSpace id) t (.ok space) → writesOf t = [] :=
    fun hexec => (quiet_trace (exec_uses hexec (reads_engineSpace _).quiet)).2
  rw [writesOf_append, writesOf_append, writesOf_append, hquiet h₁, hquiet h₂, hquiet h₃]
  simp only [List.nil_append]
  rw [commitAll_writes hloop]
  unfold Touches
  simp only [not_exists, not_and, Bool.not_eq_true]

-- ====================================================== the account codec

/-- The fields of an account. -/
def accountFields (info : AccountInfo) : List Field :=
  varintField 1 info.nonce ++ bytesField 2 (beBytes32 info.balance).bytes
    ++ bytesField 3 info.codeHash.bytes

theorem carries_accountFields (info : AccountInfo) : ∀ f ∈ accountFields info, Carries f := by
  unfold accountFields
  rw [List.forall_mem_append, List.forall_mem_append]
  exact ⟨⟨carries_varintField _ (by decide), carries_fixed _ (by decide) (by decide)⟩,
    carries_fixed _ (by decide) (by decide)⟩

theorem serializeAccount_eq (info : AccountInfo) :
    serializeAccount info = (accountFields info).flatMap wire := by
  rw [serializeAccount, accountFields, encodeVarintField_eq, encodeBytesField_eq,
    encodeBytesField_eq, List.flatMap_append, List.flatMap_append]

theorem fieldsOf_serializeAccount (info : AccountInfo) :
    fieldsOf (serializeAccount info) = accountFields info := by
  rw [serializeAccount_eq, fieldsOf_wire (carries_accountFields info)]

/-- A word is read back as it was written. -/
theorem u256FromBeSlice_beBytes32 (v : U256) : u256FromBeSlice (beBytes32 v).bytes = v := by
  unfold u256FromBeSlice beBytes32
  rw [ofBe_beBytes, show (256 : Nat) ^ 32 = 2 ^ 256 by norm_num, Nat.mod_eq_of_lt v.isLt]
  exact BitVec.ofNat_toNat 256 v

/-- An account is read back as it was written; its code is loaded apart. -/
theorem deserializeAccount_serialize (info : AccountInfo) :
    deserializeAccount (serializeAccount info) = some { info with code := none } := by
  have hnonce : (varintField 1 info.nonce).foldl accountField ⟨0, 0, KECCAK_EMPTY, none⟩
      = ⟨0, info.nonce, KECCAK_EMPTY, none⟩ := by
    unfold varintField
    by_cases h0 : info.nonce = 0
    · -- nonce 0 is not written; the decoder starts from it
      rw [if_pos h0, h0]
      rfl
    · rw [if_neg h0]
      rfl
  unfold deserializeAccount
  rw [fieldsOf_serializeAccount]
  unfold accountFields
  rw [bytesField_fixed, bytesField_fixed, List.foldl_append, List.foldl_append, hnonce]
  simp only [List.foldl_cons, List.foldl_nil, accountField, getBytes,
    (beBytes32 info.balance).len, if_true, u256FromBeSlice_beBytes32, Option.bind_some,
    FixedBytes.ofBytes?_bytes]

-- ========================================================= on a chain

section OnChain

variable {chain : Chain} {call : Sys.Arguments} {store store' : Store} {tr : List HostEv}

/-- Nothing is written at all. -/
theorem obeys_still (h : Obeys chain call store tr store')
    (hw : ∀ e ∈ tr, WritesTo (fun _ => False) e.1) : store' = store := by
  funext space key
  exact obeys_frame h hw id key

/-- A chain that has a contract id and accepts every write lets a program
without events go on. -/
theorem obeys_smooth (h : Obeys chain call store tr store') (hid : chain.contractId ≠ [])
    (hev : ∀ e ∈ tr, Eventless e.1) : ∀ e ∈ tr, Smooth e := by
  induction h with
  | nil => simp
  | @cons store store' e tr he h ih =>
      rw [List.forall_mem_cons] at hev ⊢
      refine ⟨?_, ih hev.2⟩
      obtain ⟨op, reply⟩ := e
      cases op with
      | putObject space key obj => exact ⟨fun _ => he, by simp⟩
      | removeObject space key => exact ⟨fun _ => he, by simp⟩
      | event name data impacted => exact absurd rfl (hev.1 name data impacted)
      | getContractId =>
          refine ⟨by simp [isMust], fun _ => ?_⟩
          rw [show valueIn reply = chain.contractId from he]
          exact hid
      | _ => exact ⟨by simp [isMust], by simp⟩

/-- A space was built, so there is a contract id. -/
theorem contractId_of_space (hall : ∀ e ∈ tr, Answers chain call store e) {id : UInt32}
    {space : ObjectSpace} (h : Exec (engineSpace id) tr (.ok space)) :
    chain.contractId ≠ [] := by
  obtain ⟨zone, t₁, t₂, h₁, -, rfl⟩ := exec_bind_ok.mp h
  obtain ⟨reply, rest, rfl, -, ⟨hne, -⟩ | ⟨-, msg, hz⟩⟩ := exec_contractZone h₁
  · rw [← show valueIn reply = chain.contractId from
      hall _ (List.mem_append_left _ List.mem_cons_self)]
    exact hne
  · cases hz

end OnChain

end KoinosEvm.Proofs
