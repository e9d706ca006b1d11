/-
The engine's replies, read by the proxy.

An account goes through two codecs: what the store has is written and read
by the engine (`deserializeAccount_serialize`), what `handle_get_account`
answers is written by the engine and read by the proxy. A reply for an
account is never empty, its balance always being 32 bytes, and the empty
reply is what says that there is none (`decodeAccount_reply`). A result's
defaults are left out by the encoder and are the decoder's own
(`decodeEvmResult_encode`).
-/
import KoinosEvm.Proofs.CommitUpdate

namespace KoinosEvm.Proofs

open Engine Engine.Proto Lib Proxy

-- =========================================================== the reader

/-- A loop over items without an error is a fold. -/
theorem forTry_ok {β : Type} (body : β → ProtoField → β) (acc : β) (fs : List ProtoField) :
    forTry body acc (fs.map .ok) = .ok (.ok (fs.foldl body acc)) := by
  induction fs generalizing acc with
  | nil => rfl
  | cons f fs ih => exact ih (body acc f)

/-- What a loop makes of a message that was written as fields. -/
theorem forTry_wire {β : Type} {checks : Checks} (body : β → ProtoField → β) (acc : β)
    {fs : List Field} (hfs : ∀ f ∈ fs, Carries f) (hlen : (fs.flatMap wire).length < 2 ^ 63) :
    forTry body acc (itemsOf checks (fs.flatMap wire))
      = .ok (.ok (fs.foldl (fun acc f => body acc (toProto f)) acc)) := by
  have hitems : itemsOf checks (fs.flatMap wire) = (fs.map toProto).map .ok := by
    rw [itemsOf_wire hfs hlen, List.map_map]
    rfl
  rw [hitems, forTry_ok, List.foldl_map]

-- ============================================================= accounts

/-- An account as the proxy has it. -/
def toEvmAccount (info : AccountInfo) : EvmAccount :=
  ⟨info.nonce, beBytes32 info.balance, info.codeHash⟩

/-- The proxy's reading of an account's fields. -/
theorem foldl_account (info : AccountInfo) :
    (accountFields info).foldl (fun acc f => EvmAccount.read acc (toProto f)) .default
      = toEvmAccount info := by
  have hnonce : (varintField 1 info.nonce).foldl (fun acc f => EvmAccount.read acc (toProto f))
      .default = ⟨info.nonce, .zero 32, .zero 32⟩ := by
    unfold varintField
    by_cases h0 : info.nonce = 0
    · rw [if_pos h0, h0]
      rfl
    · rw [if_neg h0]
      rfl
  rw [accountFields, bytesField_fixed, bytesField_fixed, List.foldl_append, List.foldl_append,
    hnonce]
  simp [EvmAccount.read, toProto, toEvmAccount]

theorem length_serializeAccount_lt (info : AccountInfo) :
    ((accountFields info).flatMap wire).length < 2 ^ 63 := by
  have h1 := length_encodeVarintField_le 1 info.nonce
  have h2 := length_encodeBytesField_le 2 (beBytes32 info.balance).bytes
  have h3 := length_encodeBytesField_le 3 info.codeHash.bytes
  rw [(beBytes32 info.balance).len] at h2
  rw [info.codeHash.len] at h3
  rw [← serializeAccount_eq, serializeAccount, List.length_append, List.length_append]
  omega

theorem serializeAccount_ne_nil (info : AccountInfo) : serializeAccount info ≠ [] := by
  intro h
  have hfields := fieldsOf_serializeAccount info
  rw [h, accountFields, bytesField_fixed, bytesField_fixed] at hfields
  have hlen := congrArg List.length hfields
  simp only [List.length_append, List.length_singleton] at hlen
  have hnone : (fieldsOf []).length = 0 := rfl
  omega

/-- What the engine writes of an account, the proxy reads. -/
theorem decodeAccount_serialize (checks : Checks) (info : AccountInfo) :
    decodeAccount checks (serializeAccount info) = .ok (.ok (some (toEvmAccount info))) := by
  have hne : ¬ (serializeAccount info).isEmpty = true := fun h =>
    serializeAccount_ne_nil info (List.isEmpty_iff.mp h)
  rw [decodeAccount, if_neg hne, serializeAccount_eq,
    forTry_wire _ _ (carries_accountFields info) (length_serializeAccount_lt info), foldl_account]
  rfl

/-- The reply about an account, if there is one. -/
def accountReply : Option AccountInfo → Bytes
  | some info => serializeAccount info
  | none => []

theorem decodeAccount_reply (checks : Checks) (account : Option AccountInfo) :
    decodeAccount checks (accountReply account) = .ok (.ok (account.map toEvmAccount)) := by
  cases account with
  | none => rfl
  | some info => exact decodeAccount_serialize checks info

-- ============================================================ the handler

/-- What `handle_get_account` returns where the account is read so. -/
def replyOfRead : Except KoinosDbError (Option AccountInfo) → Bytes
  | .ok account => accountReply account
  | .error _ => []

theorem handleGetAccount_eq (addr : Address) :
    handleGetAccount (buildGetAccountArgs addr)
      = (do
          let r ← basic addr
          pure (replyOfRead r)) := by
  have hfirst : first20 (buildGetAccountArgs addr) = some addr := by
    rw [first20, buildGetAccountArgs, List.take_of_length_le (le_of_eq addr.len)]
    exact FixedBytes.ofBytes?_bytes addr
  unfold handleGetAccount
  simp only [hfirst]
  congr 1
  funext r
  cases r with
  | error e => rfl
  | ok account =>
      cases account with
      | none => rfl
      | some info => rfl

/-- The handler answers what the store holds. -/
theorem returns_getAccount {chain : Chain} (hid : chain.contractId ≠ []) (store : Store)
    (addr : Address) :
    Returns chain store (handleGetAccount (buildGetAccountArgs addr))
      (accountReply (chain.account store addr)) := by
  rw [handleGetAccount_eq]
  apply returns_of_reads hid (reads_bind (reads_basic addr) fun _ => reads_pure _)
  intro call tr r hall h
  obtain ⟨a, t₁, t₂, h₁, h₂, rfl⟩ := exec_bind_ok.mp h
  rw [List.forall_mem_append] at hall
  rw [exec_basic_eq hall.1 h₁] at h₂
  exact exec_ret_ok h₂

/-- There is an account exactly where an object is stored. -/
theorem account_eq_none_iff {chain : Chain} {store : Store} {addr : Address} :
    chain.account store addr = none ↔ store (chain.space SPACE_ACCOUNTS) addr.bytes = none := by
  rw [Chain.account, Option.bind_eq_none_iff]
  constructor
  · intro h
    cases hobj : store (chain.space SPACE_ACCOUNTS) addr.bytes with
    | none => rfl
    | some data => cases h data hobj
  · intro h data hobj
    rw [h] at hobj
    cases hobj

-- ============================================================== results

/-- The fields of a result. -/
def replyFields (success : Bool) (output : Bytes) (gasUsed : UInt64)
    (contractAddress : Option Address) : List Field :=
  boolField 1 success ++ bytesField 2 output ++ varintField 3 gasUsed
    ++ (contractAddress.map fun addr => (4, .lengthDelimited addr.bytes)).toList

section Result

variable (success : Bool) (output : WasmBuf) (gasUsed : UInt64) (contractAddress : Option Address)

theorem encodeEvmResult_eq : encodeEvmResult success output.bytes gasUsed contractAddress
    = (replyFields success output.bytes gasUsed contractAddress).flatMap wire := by
  unfold encodeEvmResult replyFields
  rw [encodeBoolField_eq, encodeBytesField_eq, encodeVarintField_eq, List.flatMap_append,
    List.flatMap_append, List.flatMap_append]
  congr 1
  cases contractAddress with
  | none => rfl
  | some addr =>
      simp only [encodeBytesField_eq, bytesField_fixed]
      rfl

theorem carries_replyFields :
    ∀ f ∈ replyFields success output.bytes gasUsed contractAddress, Carries f := by
  have hout := output.fits
  unfold replyFields
  rw [List.forall_mem_append, List.forall_mem_append, List.forall_mem_append]
  refine ⟨⟨⟨carries_boolField _ (by decide), carries_bytesField (by omega) (by decide)⟩,
    carries_varintField _ (by decide)⟩, ?_⟩
  cases contractAddress with
  | none => simp
  | some addr =>
      intro f hf
      rw [Option.map_some, Option.toList_some, List.mem_singleton] at hf
      rw [hf]
      exact ⟨by decide, by decide, by rw [addr.len]; decide⟩

theorem length_replyFields_lt :
    ((replyFields success output.bytes gasUsed contractAddress).flatMap wire).length
      < 2 ^ 63 := by
  have hout := output.fits
  have h1 := length_encodeBoolField_le 1 success
  have h2 := length_encodeBytesField_le 2 output.bytes
  have h3 := length_encodeVarintField_le 3 gasUsed
  rw [← encodeEvmResult_eq]
  unfold encodeEvmResult
  cases contractAddress with
  | none =>
      simp only [List.length_append, List.length_nil]
      omega
  | some addr =>
      have h4 := length_encodeBytesField_le 4 addr.bytes
      rw [addr.len] at h4
      simp only [List.length_append]
      omega

-- Each field of the result is read by itself: where it is left out, what
-- the reader started with is the value.

theorem foldl_successField (r : EvmResult) (hr : r.success = false) :
    (boolField 1 success).foldl (fun acc f => EvmResult.read acc (toProto f)) r
      = { r with success := success } := by
  cases success with
  | false =>
      have heq : { r with success := false } = r := by rw [← hr]
      rw [heq]
      rfl
  | true => rfl

theorem foldl_outputField (bs : Bytes) (r : EvmResult) (hr : r.output = []) :
    (bytesField 2 bs).foldl (fun acc f => EvmResult.read acc (toProto f)) r
      = { r with output := bs } := by
  cases bs with
  | nil => simp [bytesField, ← hr]
  | cons b bs => rfl

theorem foldl_gasUsedField (r : EvmResult) (hr : r.gasUsed = 0) :
    (varintField 3 gasUsed).foldl (fun acc f => EvmResult.read acc (toProto f)) r
      = { r with gasUsed := gasUsed } := by
  unfold varintField
  by_cases h0 : gasUsed = 0
  · rw [if_pos h0, h0, ← hr]
    rfl
  · rw [if_neg h0]
    rfl

theorem foldl_addressField (r : EvmResult) (hr : r.contractAddress = none) :
    ((contractAddress.map fun addr => ((4, .lengthDelimited addr.bytes) : Field)).toList).foldl
        (fun acc f => EvmResult.read acc (toProto f)) r
      = { r with contractAddress := contractAddress } := by
  cases contractAddress with
  | none =>
      have heq : { r with contractAddress := none } = r := by rw [← hr]
      rw [heq]
      rfl
  | some addr => simp [EvmResult.read, toProto]

theorem foldl_result (bs : Bytes) :
    (replyFields success bs gasUsed contractAddress).foldl
        (fun acc f => EvmResult.read acc (toProto f)) .default
      = ⟨success, bs, gasUsed, contractAddress⟩ := by
  unfold replyFields
  rw [List.foldl_append, List.foldl_append, List.foldl_append, foldl_successField _ _ rfl,
    foldl_outputField _ _ rfl, foldl_gasUsedField _ _ rfl, foldl_addressField _ _ rfl]

/-- What the engine writes of a result, the proxy reads. -/
theorem decodeEvmResult_encode (checks : Checks) :
    decodeEvmResult checks (encodeEvmResult success output.bytes gasUsed contractAddress)
      = .ok (.ok ⟨success, output.bytes, gasUsed, contractAddress⟩) := by
  rw [decodeEvmResult, encodeEvmResult_eq, forTry_wire _ _
    (carries_replyFields success output gasUsed contractAddress)
    (length_replyFields_lt success output gasUsed contractAddress), foldl_result]

end Result

-- ============================================================ both ways

/-- What the proxy reads of the handler's reply: the account as it was
written, and none exactly where nothing is stored. -/
theorem decodeAccount_getAccount (checks : Checks) (chain : Chain) (store : Store)
    (addr : Address) :
    (∀ info, store (chain.space SPACE_ACCOUNTS) addr.bytes = some (serializeAccount info) →
      decodeAccount checks (accountReply (chain.account store addr))
        = .ok (.ok (some (toEvmAccount info))))
    ∧ (decodeAccount checks (accountReply (chain.account store addr)) = .ok (.ok none)
      ↔ store (chain.space SPACE_ACCOUNTS) addr.bytes = none) := by
  rw [decodeAccount_reply]
  constructor
  · intro info hobj
    rw [Chain.account, hobj, Option.bind_some, deserializeAccount_serialize]
    rfl
  · rw [← account_eq_none_iff]
    simp

/-- Accounts and results survive the way they go: an account between the
engine and its store, an account and a result between the engine and the
proxy. -/
theorem engine_replies (checks : Checks) {chain : Chain} (hid : chain.contractId ≠ [])
    (store : Store) (addr : Address) :
    (∀ info : AccountInfo,
      deserializeAccount (serializeAccount info) = some { info with code := none })
    ∧ (∃ reply, Returns chain store (handleGetAccount (buildGetAccountArgs addr)) reply
        ∧ (∀ info,
            store (chain.space SPACE_ACCOUNTS) addr.bytes = some (serializeAccount info) →
            decodeAccount checks reply
              = .ok (.ok (some ⟨info.nonce, beBytes32 info.balance, info.codeHash⟩)))
        ∧ (decodeAccount checks reply = .ok (.ok none)
            ↔ store (chain.space SPACE_ACCOUNTS) addr.bytes = none))
    ∧ (∀ (success : Bool) (output : WasmBuf) (gasUsed : UInt64)
        (contractAddress : Option Address),
        decodeEvmResult checks (encodeEvmResult success output.bytes gasUsed contractAddress)
          = .ok (.ok ⟨success, output.bytes, gasUsed, contractAddress⟩)) :=
  ⟨deserializeAccount_serialize,
    ⟨_, returns_getAccount hid store addr, decodeAccount_getAccount checks chain store addr⟩,
    fun success output gasUsed contractAddress =>
      decodeEvmResult_encode success output gasUsed contractAddress checks⟩

/-- A store with one account in it. -/
def oneAccount : Store :=
  emptyStore.set (sampleChain.space SPACE_ACCOUNTS) zeroTransfer.sender.bytes
    (some (serializeAccount sampleContract.info))

/-- The reply about an account that is stored, and about the same account
where nothing is. -/
theorem engine_replies_oneAccount :
    (∃ reply, Returns sampleChain oneAccount
        (handleGetAccount (buildGetAccountArgs zeroTransfer.sender)) reply
      ∧ decodeAccount .on reply = .ok (.ok (some ⟨1, beBytes32 5, FixedBytes.zero 32⟩)))
    ∧ ∃ reply, Returns sampleChain emptyStore
        (handleGetAccount (buildGetAccountArgs zeroTransfer.sender)) reply
      ∧ decodeAccount .on reply = .ok (.ok none) := by
  have hid : sampleChain.contractId ≠ [] := by decide
  obtain ⟨reply, hreturns, hstored, -⟩ :=
    (engine_replies .on hid oneAccount zeroTransfer.sender).2.1
  obtain ⟨empty, hreturns', -, hnone⟩ :=
    (engine_replies .on hid emptyStore zeroTransfer.sender).2.1
  have hobj : oneAccount (sampleChain.space SPACE_ACCOUNTS) zeroTransfer.sender.bytes
      = some (serializeAccount sampleContract.info) := by
    simp [oneAccount, Store.set]
  exact ⟨⟨reply, hreturns, hstored _ hobj⟩, ⟨empty, hreturns', hnone.mpr rfl⟩⟩

end KoinosEvm.Proofs
