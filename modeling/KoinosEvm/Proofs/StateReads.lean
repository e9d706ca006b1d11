/-
What a client reads of the EVM's state is what the store holds.

The node runs the contract on the store and posts back what it returned
(`NodeAnswers`), so a read that the node answers is a served call
(`readContract_serves`) of an entry point that only reads, and such a call
returns one thing (`returns_getStorageAt`, `returns_getCode`): the value of
the world the store stands for, in the text that Ethereum's JSON-RPC gives it.
-/
import KoinosEvm.Proofs.Base64Lax
import KoinosEvm.Proofs.CallArgs
import KoinosEvm.Proofs.ProcessEntry
import KoinosEvm.Proofs.Quantities
import KoinosEvm.Proofs.ServedCalls
import KoinosEvm.Proxy.StateReads

namespace KoinosEvm.Proofs

open Engine Lib Proxy

-- ============================================================== the node

/-- Where the node posts back the result of a read, a run of the contract on
the store returned it; an empty result may be left out. -/
structure NodeAnswers (client : NodeClient) (chain : Chain) (build : Build) (revm : Revm)
    (rlp : AlloyRlp) (store : Store) : Prop where
  engines : CrateEngines client.b64
  answers : ∀ entryPoint args resp result,
    client.post (NodeClient.rpcRequest "chain.read_contract"
      (client.readParams entryPoint (encodeB64 args))) = .ok resp →
    resp.get "error" = none → resp.get "result" = some result →
    ∃ data store', Serves chain build revm rlp store ⟨⟨entryPoint, args⟩, .success data⟩ store' ∧
      (result.getStr "result").getD "" = encodeB64 data

section Reads

variable {client : NodeClient} {chain : Chain} {build : Build} {revm : Revm} {rlp : AlloyRlp}
  {store : Store}

/-- What `read_contract` returns, a served call exited with. -/
theorem readContract_serves (hnode : NodeAnswers client chain build revm rlp store)
    {entryPoint : UInt32} {args bytes : Bytes}
    (h : client.readContract entryPoint args = .ok bytes) :
    ∃ store', Serves chain build revm rlp store ⟨⟨entryPoint, args⟩, .success bytes⟩ store' := by
  obtain ⟨result, hresult, hbytes⟩ := bind_ok h
  obtain ⟨resp, hpost, hresult⟩ := bind_ok hresult
  cases herr : resp.get "error" with
  | some err =>
      rw [herr] at hresult
      cases hresult
  | none =>
      rw [herr] at hresult
      obtain ⟨data, store', hserves, htext⟩ :=
        hnode.answers _ _ _ _ hpost herr (orError_ok hresult)
      have hdecoded := orError_ok hbytes
      rw [htext, decodeB64Lax_encode hnode.engines data] at hdecoded
      injection hdecoded with hdecoded
      rw [← hdecoded]
      exact ⟨store', hserves⟩

/-- A result that is posted is what `read_contract` returns. -/
theorem readContract_posted (hengines : CrateEngines client.b64) {entryPoint : UInt32}
    {args data : Bytes} {resp result : Value}
    (hpost : client.post (NodeClient.rpcRequest "chain.read_contract"
      (client.readParams entryPoint (encodeB64 args))) = .ok resp)
    (herr : resp.get "error" = none) (hresult : resp.get "result" = some result)
    (htext : (result.getStr "result").getD "" = encodeB64 data) :
    client.readContract entryPoint args = .ok data := by
  unfold NodeClient.readContract NodeClient.rpc
  simp only [hpost, bind, Except.bind, herr, hresult, orError, htext,
    decodeB64Lax_encode hengines data]

/-- The request is answered so, unless the node refuses the read: then its
error is handed on. -/
def AnsweredAs {α : Type} (client : NodeClient) (entryPoint : UInt32) (args : Bytes)
    (r : Handler α) (answer : Except HandlerError α) : Prop :=
  match client.readContract entryPoint args with
  | .ok _ => r.run = .ok answer
  | .error e => r.run = .ok (.error (.failure ⟨none, e⟩))

/-- Where the node answers the read, so is the request. -/
theorem run_of_answeredAs {α : Type} {entryPoint : UInt32} {args : Bytes} {r : Handler α}
    {answer : Except HandlerError α} (h : AnsweredAs client entryPoint args r answer)
    (hread : (client.readContract entryPoint args).isOk = true) : r.run = .ok answer := by
  unfold AnsweredAs at h
  cases hreply : client.readContract entryPoint args with
  | ok bytes => rwa [hreply] at h
  | error e =>
      rw [hreply] at hread
      cases hread

/-- A handler that reads the contract and goes on with what it returned. -/
theorem answeredAs_reading {α : Type} {entryPoint : UInt32} {args : Bytes}
    {f : Bytes → Handler α} {answer : Except HandlerError α}
    (hf : ∀ bytes, client.readContract entryPoint args = .ok bytes → (f bytes).run = .ok answer) :
    AnsweredAs client entryPoint args
      (failing (anyhow (client.readContract entryPoint args)) >>= f) answer := by
  unfold AnsweredAs
  cases hread : client.readContract entryPoint args with
  | error e => rfl
  | ok bytes => exact hf bytes hread

-- ============================================================ the handlers

/-- `get_storage_at` answers with the slot. -/
theorem returns_getStorageAt (hid : chain.contractId ≠ []) (store : Store) (addr : Address)
    (slot : B256) :
    Returns chain store (Engine.handleGetStorageAt (NodeClient.buildGetStorageAtArgs addr slot))
      (beBytes32 (chain.slot store addr (u256FromBeSlice slot.bytes))).bytes := by
  have hlen : (addr.bytes ++ slot.bytes).length = 52 := by
    rw [List.length_append, addr.len, slot.len]
  have hfirst : first20 (addr.bytes ++ slot.bytes) = some addr := by
    rw [first20, List.take_append_of_le_length (le_of_eq addr.len.symm)]
    exact first20_bytes addr
  have hslot : ((addr.bytes ++ slot.bytes).drop 20).take 32 = slot.bytes := by
    rw [List.drop_append_of_le_length (le_of_eq addr.len.symm),
      List.drop_of_length_le (le_of_eq addr.len), List.nil_append,
      List.take_of_length_le (le_of_eq slot.len)]
  refine returns_of_reads hid (reads_handleGetStorageAt _) ?_
  intro call tr r hall h
  unfold Engine.handleGetStorageAt NodeClient.buildGetStorageAtArgs at h
  rw [if_neg (by omega)] at h
  simp only [hfirst, hslot] at h
  obtain ⟨value, t₁, t₂, h₁, h₂, rfl⟩ := exec_bind_ok.mp h
  rw [List.forall_mem_append] at hall
  rw [exec_storage_eq hall.1 h₁] at h₂
  exact exec_ret_ok h₂

/-- The code at an address of a world. -/
def World.codeAt (w : World) (addr : Address) : Bytes :=
  match w.account addr with
  | some info => w.code info.codeHash
  | none => []

/-- `get_code` answers with the code of the account. -/
theorem returns_getCode (hid : chain.contractId ≠ []) (store : Store) (addr : Address) :
    Returns chain store (Engine.handleGetCode (NodeClient.buildGetCodeArgs addr))
      ((chain.world store).codeAt addr) := by
  refine returns_of_reads hid (reads_handleGetCode _) ?_
  intro call tr r hall h
  unfold Engine.handleGetCode NodeClient.buildGetCodeArgs at h
  simp only [first20_bytes] at h
  obtain ⟨account, t₁, t₂, h₁, h₂, rfl⟩ := exec_bind_ok.mp h
  rw [List.forall_mem_append] at hall
  rw [exec_basic_eq hall.1 h₁] at h₂
  unfold World.codeAt Chain.world
  simp only
  cases hacc : chain.account store addr with
  | none =>
      rw [hacc] at h₂
      exact exec_ret_ok h₂
  | some info =>
      rw [hacc] at h₂
      obtain ⟨code, t₃, t₄, h₃, h₄, rfl⟩ := exec_bind_ok.mp h₂
      rw [List.forall_mem_append] at hall
      rw [exec_codeByHash_eq hall.2.1 h₃] at h₄
      exact exec_ret_ok h₄

section Requests

variable (hevm : build.evm = true) (hid : chain.contractId ≠ [])
  (hnode : NodeAnswers client chain build revm rlp store)
include hevm hid hnode

theorem readContract_account {addr : Address} {bytes : Bytes}
    (h : client.readContract NodeClient.EP_GET_ACCOUNT (buildGetAccountArgs addr) = .ok bytes) :
    bytes = accountReply (chain.account store addr) := by
  obtain ⟨store', hserves⟩ := readContract_serves hnode h
  have hexit := (serves_getAccount hevm hid hserves).2
  injection hexit

theorem readContract_storage {addr : Address} {slot : B256} {bytes : Bytes}
    (h : client.readContract NodeClient.EP_GET_STORAGE_AT
      (NodeClient.buildGetStorageAtArgs addr slot) = .ok bytes) :
    bytes = (beBytes32 (chain.slot store addr (u256FromBeSlice slot.bytes))).bytes := by
  obtain ⟨store', hserves⟩ := readContract_serves hnode h
  have hexit := (serves_returns hserves (dispatch_view hevm _).2.1
    (reads_handleGetStorageAt _).quiet (returns_getStorageAt hid store addr slot)).2
  injection hexit

theorem readContract_code {addr : Address} {bytes : Bytes}
    (h : client.readContract NodeClient.EP_GET_CODE (NodeClient.buildGetCodeArgs addr)
      = .ok bytes) : bytes = (chain.world store).codeAt addr := by
  obtain ⟨store', hserves⟩ := readContract_serves hnode h
  have hexit := (serves_returns hserves (dispatch_view hevm _).2.2.1
    (reads_handleGetCode _).quiet (returns_getCode hid store addr)).2
  injection hexit

/-- `read_account` and what is done with the account. -/
theorem answeredAs_account {α : Type} (addr : Address) {f : Option EvmAccount → Handler α}
    {answer : Except HandlerError α}
    (hf : (f ((chain.account store addr).map toEvmAccount)).run = .ok answer) :
    AnsweredAs client NodeClient.EP_GET_ACCOUNT (buildGetAccountArgs addr)
      (client.readAccount addr >>= f) answer := by
  unfold NodeClient.readAccount
  rw [bind_assoc]
  refine answeredAs_reading fun bytes hread => ?_
  rw [readContract_account hevm hid hnode hread, decodeAccount_reply]
  exact hf

end Requests

/-- The tag "pending" in the second parameter. -/
def AsksPending (params : Value) : Prop := paramStr params 1 = .ok "pending"

instance (params : Value) : Decidable (AsksPending params) :=
  inferInstanceAs (Decidable (_ = _))

/-- The answer about a nonce on chain, and the pending nonces after it: the
tag "pending" counts on to a later nonce that is tracked, and drops one that
the chain has reached. -/
def countAnswer (pending : PendingNonceStore) (now : Nat) (params : Value) (addr : Address)
    (onChain : UInt64) : Value × PendingNonceStore :=
  let tracked := pending.getUnexpired now addr
  if AsksPending params then
    (quantity (max onChain (tracked.getD 0)),
      if tracked.any fun nonce => nonce ≤ onChain then pending.remove addr else pending)
  else (quantity onChain, pending)

theorem max_of_lt {m n : UInt64} (h : m < n) : max m n = n :=
  if_pos (UInt64.le_of_lt h)

theorem max_of_not_lt {m n : UInt64} (h : ¬ m < n) : max m n = m := by
  show (if m ≤ n then n else m) = m
  by_cases hle : m ≤ n
  · rw [if_pos hle]
    exact UInt64.le_antisymm (UInt64.not_lt.mp h) hle
  · rw [if_neg hle]

/-- Under the lock. -/
theorem countPending_eq (pending : PendingNonceStore) (now : Nat) (addr : Address)
    (onChain : UInt64) :
    countPending pending now addr onChain
      = (max onChain ((pending.getUnexpired now addr).getD 0),
        if (pending.getUnexpired now addr).any fun nonce => nonce ≤ onChain then
          pending.remove addr else pending) := by
  unfold countPending
  cases pending.getUnexpired now addr with
  | none => exact congrArg (·, pending) (max_of_not_lt UInt64.not_lt_zero).symm
  | some nonce =>
      simp only [Option.getD_some, Option.any_some, decide_eq_true_eq]
      by_cases hlater : onChain < nonce
      · rw [if_pos hlater, max_of_lt hlater, if_neg (UInt64.not_le.mpr hlater)]
      · rw [if_neg hlater, max_of_not_lt hlater, if_pos (UInt64.not_lt.mp hlater)]

theorem blockTag_pending (params : Value) :
    (paramStr params 1).toOption.getD "latest" = "pending" ↔ AsksPending params := by
  unfold AsksPending
  cases paramStr params 1 with
  | error e =>
      have hother : "latest" ≠ "pending" := by decide
      exact iff_of_false hother nofun
  | ok text => exact ⟨congrArg Except.ok, Except.ok.inj⟩

variable [HexCrate]

/-- The address in the first parameter. -/
def AddressIn (params : Value) (addr : Address) : Prop :=
  ∃ text, paramStr params 0 = .ok text ∧ parseAddress text = .ok addr

theorem addressParam_run {params : Value} {addr : Address} (h : AddressIn params addr) :
    NodeClient.addressParam params 0 = pure addr := by
  obtain ⟨text, htext, haddr⟩ := h
  unfold NodeClient.addressParam badParam
  rw [htext]
  show failing (badParams (parseAddress text)) = _
  rw [haddr]
  rfl

theorem handleGetTxCount_eq (pending : PendingNonceStore) (now : Nat) (params : Value) :
    client.handleGetTxCount pending now params = (do
      let addr ← NodeClient.addressParam params 0
      let account ← client.readAccount addr
      return countAnswer pending now params addr ((account.map EvmAccount.nonce).getD 0)) := by
  unfold NodeClient.handleGetTxCount
  congr 1
  funext addr
  congr 1
  funext account
  unfold countAnswer
  by_cases hpending : AsksPending params
  · rw [if_pos hpending, if_neg (not_not.mpr ((blockTag_pending params).mpr hpending)),
      countPending_eq]
  · rw [if_neg hpending, if_pos (mt (blockTag_pending params).mp hpending)]

/-- Over a node that runs the contract on this store: balance, nonce, code
and storage, asked for an address, are answered with those of the world of
the store, and nothing else (but for the tag "pending", which counts the
relayed transactions); where the node refuses the read, its error is handed
on. -/
theorem stateReads_world (hevm : build.evm = true) (hid : chain.contractId ≠ [])
    (hnode : NodeAnswers client chain build revm rlp store) {params : Value} {addr : Address}
    (haddr : AddressIn params addr) :
    AnsweredAs client NodeClient.EP_GET_ACCOUNT (buildGetAccountArgs addr)
      (client.handleGetBalance params)
      (.ok (numberHex ((((chain.world store).account addr).map AccountInfo.balance).getD 0).toNat)) ∧
    (∀ pending now, AnsweredAs client NodeClient.EP_GET_ACCOUNT (buildGetAccountArgs addr)
      (client.handleGetTxCount pending now params)
      (.ok (countAnswer pending now params addr (nonceOf ((chain.world store).account addr))))) ∧
    AnsweredAs client NodeClient.EP_GET_CODE (NodeClient.buildGetCodeArgs addr)
      (client.handleGetCode params) (.ok (dataHex ((chain.world store).codeAt addr))) ∧
    ∀ text slot, paramStr params 1 = .ok text → parseB32 text = .ok slot →
      AnsweredAs client NodeClient.EP_GET_STORAGE_AT
        (NodeClient.buildGetStorageAtArgs addr slot) (client.handleGetStorageAt params)
        (.ok (dataHex (beBytes32
          ((chain.world store).storage addr (u256FromBeSlice slot.bytes))).bytes)) := by
  have hparam := addressParam_run haddr
  refine ⟨?_, ?_, ?_, ?_⟩
  · unfold NodeClient.handleGetBalance
    rw [hparam, pure_bind]
    refine answeredAs_account hevm hid hnode addr ?_
    show _ = Except.ok (Except.ok (numberHex
      (((chain.account store addr).map AccountInfo.balance).getD 0).toNat))
    cases chain.account store addr with
    | none => rfl
    | some info =>
        have hnumber : quantityFromBe32 (beBytes32 info.balance)
            = numberHex info.balance.toNat := by
          rw [quantityFromBe32_eq, beBytes32, ofBe_beBytes]
          exact congrArg numberHex (Nat.mod_eq_of_lt (info.balance.isLt.trans_le (by norm_num)))
        exact congrArg (fun v => Except.ok (Except.ok v)) hnumber
  · intro pending now
    rw [handleGetTxCount_eq, hparam, pure_bind]
    refine answeredAs_account hevm hid hnode addr ?_
    show _ = Except.ok (Except.ok (countAnswer pending now params addr
      (nonceOf (chain.account store addr))))
    cases chain.account store addr with
    | none => rfl
    | some info => rfl
  · unfold NodeClient.handleGetCode
    rw [hparam, pure_bind]
    refine answeredAs_reading fun bytes hread => ?_
    rw [readContract_code hevm hid hnode hread]
    rfl
  · intro slotText slot hslotText hslot
    obtain ⟨text, htext, haddr⟩ := haddr
    have heq : client.handleGetStorageAt params = (do
        let bytes ← failing (anyhow (client.readContract NodeClient.EP_GET_STORAGE_AT
          (NodeClient.buildGetStorageAtArgs addr slot)))
        return dataHex bytes) := by
      unfold NodeClient.handleGetStorageAt badParam
      rw [htext, hslotText]
      simp only [badParams, failing, pure_bind, haddr, hslot]
    rw [heq]
    refine answeredAs_reading fun bytes hread => ?_
    rw [readContract_storage hevm hid hnode hread]
    rfl

end Reads

-- =============================================================== one node

section MapNode

variable (chain : Chain) (build : Build) (revm : Revm) (rlp : AlloyRlp) (store : Store)

/-- The call in a request for `chain.read_contract`. -/
def requestedCall (req : Value) : Option Sys.Arguments := do
  let params ← req.get "params"
  let entryPoint ← (params.get "entry_point").bind Value.asU64
  let args ← strictEngines.urlSafeNoPad (trimPadding (← params.getStr "args"))
  return ⟨UInt32.ofNat entryPoint, args⟩

/-- What a node posts back that ran the contract so. -/
def postBack : Except Exit Unit → Value
  | .error (.success data) =>
      .object [("result", .object [("result", .string (encodeB64 data))])]
  | _ => .object [("error", .string "reverted")]

/-- A node that runs the contract on the host that keeps a map. -/
def mapNode : NodeClient where
  post req :=
    match requestedCall req with
    | none => .error "bad request"
    | some call =>
        let r := (start build revm rlp).run (mapHost chain call) store
        if r.trace.all fun e => decide (e.2.out.length < 2 ^ 32) then .ok (postBack r.outcome)
        else .error "out of memory"
  b64 := strictEngines
  checks := .on
  display _ := "reverted"
  debug := id
  engineContractAddrB58check := "1E8igxyDU3hjbqvcoWXGFG2pRR5xLcAaoE"

variable {chain build revm rlp store}

theorem asU64_toNat (n : UInt32) : Value.asU64 (.number n.toNat) = some n.toNat := by
  have hlt := n.toNat_lt
  have hpow : (2 : Int) ^ 64 = 18446744073709551616 := by norm_num
  unfold Value.asU64
  simp only [Int.toNat_natCast]
  rw [if_pos]
  exact ⟨Int.natCast_nonneg _, by rw [hpow]; omega⟩

theorem requestedCall_eq (req : Value) {params : Value} {text : String} {n : Int} {entryPoint : Nat}
    {args : Bytes} (hparams : req.get "params" = some params)
    (hentry : params.get "entry_point" = some (.number n))
    (hnumber : Value.asU64 (.number n) = some entryPoint)
    (htext : params.getStr "args" = some text)
    (hargs : strictEngines.urlSafeNoPad (trimPadding text) = some args) :
    requestedCall req = some ⟨UInt32.ofNat entryPoint, args⟩ := by
  unfold requestedCall
  rw [hparams]
  simp only [Option.bind_eq_bind, Option.bind_some, hentry, hnumber, htext, hargs]
  rfl

/-- It reads the call that the proxy asks for. -/
theorem requestedCall_request (client : NodeClient) (entryPoint : UInt32) (args : Bytes) :
    requestedCall (NodeClient.rpcRequest "chain.read_contract"
      (client.readParams entryPoint (encodeB64 args))) = some ⟨entryPoint, args⟩ := by
  have hargs : strictEngines.urlSafeNoPad (trimPadding (encodeB64 args)) = some args := by
    rw [encodeB64, base64Encode_eq, trimPadding_spell64]
    exact crateEngines_strict.noPad_reads args
  have hcall := requestedCall_eq (NodeClient.rpcRequest "chain.read_contract"
    (client.readParams entryPoint (encodeB64 args))) rfl rfl (asU64_toNat entryPoint) rfl hargs
  rwa [UInt32.ofNat_toNat] at hcall

/-- What it posts back about a call. -/
theorem mapNode_post {req resp : Value} {call : Sys.Arguments}
    (hcall : requestedCall req = some call)
    (h : (mapNode chain build revm rlp store).post req = .ok resp) :
    (∀ e ∈ ((start build revm rlp).run (mapHost chain call) store).trace,
      e.2.out.length < 2 ^ 32) ∧
    resp = postBack ((start build revm rlp).run (mapHost chain call) store).outcome := by
  simp only [mapNode, hcall] at h
  split at h
  next hfits =>
    injection h with h
    exact ⟨fun e he => of_decide_eq_true (List.all_eq_true.mp hfits e he), h.symm⟩
  next => cases h

/-- .. and it posts it, where the replies to the contract fit. -/
theorem mapNode_posts {req : Value} {call : Sys.Arguments}
    (hcall : requestedCall req = some call)
    (hfits : ((start build revm rlp).run (mapHost chain call) store).trace.all
      (fun e => decide (e.2.out.length < 2 ^ 32)) = true) :
    (mapNode chain build revm rlp store).post req
      = .ok (postBack ((start build revm rlp).run (mapHost chain call) store).outcome) := by
  simp only [mapNode, hcall]
  rw [if_pos hfits]

/-- A result is posted back of a success only. -/
theorem postBack_result {o : Except Exit Unit} {result : Value}
    (herr : (postBack o).get "error" = none) (hresult : (postBack o).get "result" = some result) :
    ∃ data, o = .error (.success data) ∧ (result.getStr "result").getD "" = encodeB64 data := by
  cases o with
  | ok _ => cases herr
  | error x =>
      cases x with
      | failure msg => cases herr
      | success data =>
          cases hresult
          exact ⟨data, rfl, rfl⟩

theorem mapNode_answers :
    NodeAnswers (mapNode chain build revm rlp store) chain build revm rlp store where
  engines := crateEngines_strict
  answers entryPoint args resp result hpost herr hresult := by
    obtain ⟨hlen, rfl⟩ := mapNode_post (requestedCall_request _ entryPoint args) hpost
    obtain ⟨data, hout, htext⟩ := postBack_result herr hresult
    exact ⟨data, _, mapRun_serves hout hlen, htext⟩

/-- Whether a run of the contract returns, and each reply in it fits. -/
def returnsIn (r : Lib.Run Syscall (fun _ => Reply) Exit Unit Store) : Bool :=
  (match r.outcome with
    | .error (.success _) => true
    | _ => false) && r.trace.all fun e => decide (e.2.out.length < 2 ^ 32)

/-- A read is answered where the contract returns. -/
theorem mapNode_reads {entryPoint : UInt32} {args : Bytes}
    (h : returnsIn ((start build revm rlp).run (mapHost chain ⟨entryPoint, args⟩) store) = true) :
    ((mapNode chain build revm rlp store).readContract entryPoint args).isOk = true := by
  unfold returnsIn at h
  rw [Bool.and_eq_true] at h
  obtain ⟨hout, hfits⟩ := h
  have hpost := mapNode_posts (requestedCall_request (mapNode chain build revm rlp store)
    entryPoint args) hfits
  split at hout
  next data hdata =>
    rw [hdata] at hpost
    rw [readContract_posted crateEngines_strict hpost rfl rfl rfl]
    rfl
  next => cases hout

end MapNode

/-- The node behind the sample transfer, and its sender asked for. -/
def transferredNode : NodeClient :=
  mapNode sampleChain evmBuild transferRevm strictRlp transferred

def senderParams (tag : String) : Value :=
  .array [.string ("0x" ++ hexEncode zeroTransfer.sender.bytes), .string tag]

/-- The pending nonces, where the sender's next one is tracked. -/
def trackedNonce (nonce : UInt64) : PendingNonceStore :=
  (PendingNonceStore.new 8 100).advance 0 zeroTransfer.sender nonce

/-- Behind the transfer the nonce is 1. Two transactions that were relayed
since then count with the tag "pending"; a pending nonce that the chain has
reached is dropped. -/
theorem transferred_read :
    (transferredNode.handleGetTxCount (trackedNonce 3) 10 (senderParams "latest")).run
      = .ok (.ok (.string "0x1", trackedNonce 3)) ∧
    (transferredNode.handleGetTxCount (trackedNonce 3) 10 (senderParams "pending")).run
      = .ok (.ok (.string "0x3", trackedNonce 3)) ∧
    (transferredNode.handleGetTxCount (trackedNonce 1) 10 (senderParams "pending")).run
      = .ok (.ok (.string "0x1", (trackedNonce 1).remove zeroTransfer.sender)) := by
  have hread : (transferredNode.readContract NodeClient.EP_GET_ACCOUNT
      (buildGetAccountArgs zeroTransfer.sender)).isOk = true := mapNode_reads (by decide +kernel)
  have hnonce : nonceOf ((sampleChain.world transferred).account zeroTransfer.sender) = 1 := by
    decide +kernel
  have hnode : NodeAnswers transferredNode sampleChain evmBuild transferRevm strictRlp transferred :=
    mapNode_answers
  have haddr : ∀ tag, AddressIn (senderParams tag) zeroTransfer.sender :=
    fun tag => ⟨_, rfl, parseAddress_dataHex _⟩
  have hcount := fun tag => (stateReads_world rfl (by decide) hnode (haddr tag)).2.1
  rw [hnonce] at hcount
  exact ⟨run_of_answeredAs (hcount "latest" (trackedNonce 3) 10) hread,
    run_of_answeredAs (hcount "pending" (trackedNonce 3) 10) hread,
    run_of_answeredAs (hcount "pending" (trackedNonce 1) 10) hread⟩

end KoinosEvm.Proofs
