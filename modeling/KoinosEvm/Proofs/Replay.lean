/-
Replay protection over whole runs.

A run is any sequence of contract calls, each from the store the one
before it left. Of all entry points only a submission writes outside the
test space (`uses_dispatch`), and a submission only behind a transaction
that parsed, is for this chain and has its sender's stored nonce
(`submit_ends`); what it writes is revm's change set, account by account
(`performs_commit`). So a call leaves the EVM's objects alone or spends the
sender's nonce (`calls_cases`), no call lowers a nonce, and the counters of
Lib/Ratchet.lean say the rest.
-/
import KoinosEvm.Lib.Ratchet
import KoinosEvm.Proofs.CommitUpdate
import KoinosEvm.Proofs.SubmitEvents

namespace KoinosEvm.Proofs

open Engine Lib

-- ================================================== what revm is held to

/-- A change set over the accounts it was computed from: the caller's
nonce moves by one, no other is lowered, and what is removed was created
by the same transaction, at an address that had no nonce. -/
structure Changes (accounts : Address → Option AccountInfo) (caller : Address)
    (state : EvmState) : Prop where
  raises : ∃ entry ∈ state.accounts, entry.1 = caller ∧ entry.2.touched = true ∧
    entry.2.selfdestructed = false ∧
    entry.2.info.nonce.toNat = (nonceOf (accounts caller)).toNat + 1
  keeps : ∀ entry ∈ state.accounts, entry.2.touched = true →
    (nonceOf (accounts entry.1)).toNat ≤ entry.2.info.nonce.toNat
  destroys : ∀ entry ∈ state.accounts, entry.2.selfdestructed = true →
    entry.2.created = true
  creates : ∀ entry ∈ state.accounts, entry.2.created = true →
    nonceOf (accounts entry.1) = 0

/-- The database answered every account read from these accounts. -/
def ReadsFrom (accounts : Address → Option AccountInfo) (e : Ev DbOp DbRes) : Prop :=
  ∀ address, ∀ r : Except KoinosDbError (Option AccountInfo),
    e = ⟨.basic address, r⟩ → r = .ok (accounts address)

/-- revm's executions end in such change sets. -/
def Conforms (revm : Revm) : Prop :=
  ∀ cfg block tx accounts tr result state,
    Exec (revm.transact cfg block tx) tr (.ok (.ok (result, state))) →
    (∀ e ∈ tr, ReadsFrom accounts e) → Changes accounts tx.caller state

section Nonces

variable {chain : Chain} {call : Sys.Arguments} {store store' : Store}

/-- The nonce a store holds for an address. -/
def nonceAt (chain : Chain) (store : Store) (address : Address) : Nat :=
  (nonceOf (chain.account store address)).toNat

/-- Through the engine's database, revm's change set is over the stored
accounts. -/
theorem transact_changes {revm : Revm} (hrevm : Conforms revm) {block : BlockEnv}
    {tx : TxEnv} {tr : List HostEv} {result : ExecutionResult} {state : EvmState}
    (h : Exec (transact revm block tx) tr (.ok (.ok (result, state))))
    (hall : ∀ e ∈ tr, Answers chain call store e) :
    Changes (chain.account store) tx.caller state := by
  have hop : ∀ op t r, Exec (databaseOp op) t (.ok r) →
      (∀ e ∈ t, Answers chain call store e) → ReadsFrom (chain.account store) ⟨op, r⟩ := by
    intro op t r hexec hanswers address r' heq
    cases heq
    exact exec_basic_eq hanswers hexec
  have hpanic : ∀ (x : RevmPanic) t a,
      ¬ Exec (panicHandler : HostM (Except EvmError (ExecutionResult × EvmState))) t (.ok a) := by
    intro x t a hexec
    cases (exec_fatal hexec).1
  obtain ⟨outer, hexec, hreads⟩ := exec_interp (R := fun op r =>
    ReadsFrom (chain.account store) ⟨op, r⟩) hop hpanic h hall
  exact hrevm _ _ _ _ _ _ _ hexec hreads

/-- A committed change set raises the caller's nonce by one and lowers
none. -/
theorem commit_nonces {caller : Address} {state : EvmState} {tr : List HostEv}
    (hchanges : Changes (chain.account store) caller state)
    (h : Exec (commit state) tr (.ok ())) (hobeys : Obeys chain call store tr store') :
    nonceAt chain store' caller = nonceAt chain store caller + 1 ∧
      ∀ address, nonceAt chain store address ≤ nonceAt chain store' address := by
  rw [performs_commit state call store tr store' h hobeys]
  have hwritten : ∀ {address account}, (address, account) ∈ state.accounts → Live account →
      nonceAt chain (store.writeAll (commitWrites chain state)) address
        = account.info.nonce.toNat := by
    intro address account hmem hlive
    rw [nonceAt, account_live hmem hlive]
    rfl
  refine ⟨?_, ?_⟩
  · obtain ⟨⟨address, account⟩, hmem, rfl, htouched, hsd, hnonce⟩ := hchanges.raises
    rw [hwritten hmem ⟨htouched, hsd⟩]
    exact hnonce
  · intro address
    by_cases hentry : ∃ account, (address, account) ∈ state.accounts ∧ account.touched = true
    · obtain ⟨account, hmem, htouched⟩ := hentry
      cases hsd : account.selfdestructed with
      | true =>
          -- removed: the address had no nonce to lose
          have hzero := hchanges.creates _ hmem (hchanges.destroys _ hmem hsd)
          rw [nonceAt, show nonceOf (chain.account store address) = 0 from hzero]
          exact Nat.zero_le _
      | false =>
          rw [hwritten hmem ⟨htouched, hsd⟩]
          exact hchanges.keeps _ hmem htouched
    · refine le_of_eq ?_
      rw [nonceAt, nonceAt, account_untouched fun account hmem => ?_]
      exact Bool.not_eq_true _ ▸ fun htouched => hentry ⟨account, hmem, htouched⟩

end Nonces

-- ============================================== all the other handlers

theorem quiet_writesTo (S : ObjectSpace → Prop) {op : Syscall} (h : Quiet op) :
    WritesTo S op := by
  cases op <;> trivial

/-- A program that only reads writes nowhere. -/
theorem Reads.writesTo {α : Type} {p : HostM α} (h : Reads p) (S : ObjectSpace → Prop) :
    Uses (WritesTo S) Aborts p := h.quiet.mono fun _ => quiet_writesTo S

/-- The Phase-0 space. -/
def InTestSpace (space : ObjectSpace) : Prop := space.id = SPACE_TEST

/-- `store_value` chooses the key, not the space. -/
theorem uses_handleStoreValue (args : Bytes) :
    Uses (WritesTo InTestSpace) Aborts (handleStoreValue args) := by
  unfold handleStoreValue
  split
  · exact uses_halt ⟨_, rfl⟩
  · simp only
    split
    · exact uses_fatal (fun _ => trivial) _ _
    · unfold testSpace engineSpace
      rw [bind_assoc]
      refine uses_bind (uses_contractZone (fun _ => trivial) trivial) fun zone => ?_
      rw [pure_bind]
      refine uses_bind (uses_put (fun _ => trivial) rfl) fun _ => ?_
      exact uses_bind (uses_log (fun _ => trivial) _) fun _ => uses_pure _

theorem reads_log (msg : String) : Reads (Sys.log msg) :=
  ⟨uses_log quiet_log msg, governed_log msg⟩

theorem reads_handleReadValue (args : Bytes) : Reads (handleReadValue args) := by
  refine reads_bind (reads_engineSpace _) fun space => ?_
  refine reads_bind (reads_getObject _ _) fun object => ?_
  cases object with
  | some value => exact reads_bind (reads_log _) fun _ => reads_pure _
  | none => exact reads_bind (reads_log _) fun _ => reads_pure _

theorem reads_handleEcho (args : Bytes) : Reads (handleEcho args) :=
  reads_bind (reads_log _) fun _ => reads_pure _

theorem reads_handleGetAccount (args : Bytes) : Reads (handleGetAccount args) := by
  unfold handleGetAccount
  split
  · exact reads_pure _
  · refine reads_bind (reads_basic _) fun r => ?_
    split <;> exact reads_pure _

theorem reads_handleGetStorageAt (args : Bytes) : Reads (handleGetStorageAt args) := by
  unfold handleGetStorageAt
  split
  · exact reads_pure _
  · split
    · exact reads_pure _
    · refine reads_bind (reads_storage _ _) fun r => ?_
      split <;> exact reads_pure _

theorem reads_handleGetCode (args : Bytes) : Reads (handleGetCode args) := by
  unfold handleGetCode
  split
  · exact reads_pure _
  · refine reads_bind (reads_basic _) fun r => ?_
    split
    · refine reads_bind (reads_codeByHash _) fun r => ?_
      split <;> exact reads_pure _
    · exact reads_pure _

/-- Without `dev_unsafe_caller`, every entry point but `submit_raw_tx`
writes to the test space or not at all. -/
theorem uses_dispatch {build : Build} (hdev : build.devUnsafeCaller = false) (revm : Revm)
    (rlp : AlloyRlp) {call : Sys.Arguments} (hentry : call.entryPoint ≠ EP_SUBMIT_RAW_TX) :
    Uses (WritesTo InTestSpace) Aborts (dispatch build revm rlp call) := by
  have hlog : ∀ msg, WritesTo InTestSpace (.log msg) := fun _ => trivial
  have hunsafe : ¬ build.devUnsafeCaller = true := by simp [hdev]
  unfold dispatch
  refine uses_ite (fun _ => uses_handleStoreValue _) fun _ => ?_
  refine uses_ite (fun _ => (reads_handleReadValue _).writesTo _) fun _ => ?_
  refine uses_ite (fun _ => (reads_handleEcho _).writesTo _) fun _ => ?_
  refine uses_ite (fun h => absurd h.2 hentry) fun _ => ?_
  refine uses_ite (fun _ => ?_) fun _ => ?_
  · exact (quiet_handleCallView revm _).mono fun _ => quiet_writesTo _
  refine uses_ite (fun _ => (reads_handleGetAccount _).writesTo _) fun _ => ?_
  refine uses_ite (fun _ => (reads_handleGetStorageAt _).writesTo _) fun _ => ?_
  refine uses_ite (fun _ => (reads_handleGetCode _).writesTo _) fun _ => ?_
  refine uses_ite (fun h => absurd h.1 hunsafe) fun _ => ?_
  refine uses_ite (fun h => absurd h.1 hunsafe) fun _ => ?_
  exact uses_ite (fun _ => uses_fatal hlog _ _) fun _ => uses_fatal hlog _ _

-- ========================================================= a submission

section Submission

variable {chain : Chain} {revm : Revm} {rlp : AlloyRlp} {call : Sys.Arguments}
  {store store' : Store} {args : Bytes} {tr : List HostEv}

/-- The transaction in the call is authentic, for this chain and next in
its sender's order. -/
structure Admits (chain : Chain) (rlp : AlloyRlp) (store : Store) (args : Bytes)
    (p : ParsedTx) : Prop where
  parse : (parseRawTx rlp (syscallCrypto chain.crypto) (stripRawTx args) :
    Except TxParseError ParsedTx) = .ok p
  chainId : p.chainId = some ENGINE_CHAIN_ID
  nonce : p.nonce = nonceOf (chain.account store p.sender)

/-- What passed the engine's checks is admitted, on a chain with a
contract id. -/
theorem Passes.admits {p : ParsedTx} (h : Passes rlp args p tr)
    (hall : ∀ e ∈ tr, Answers chain call store e) :
    Admits chain rlp store args p ∧ chain.contractId ≠ [] := by
  obtain ⟨hparse, hread, hnonce⟩ := h
  rw [List.forall_mem_append] at hall
  have hstored := exec_basic_eq hall.2 hread
  injection hstored with hstored
  rw [hstored] at hnonce
  refine ⟨⟨exec_parseRaw_eq hall.1 hparse.parse, hparse.chain, hnonce⟩, ?_⟩
  obtain ⟨space, t₁, t₂, hspace, -, rfl⟩ := exec_bind_ok.mp hread
  exact contractId_of_space (List.forall_mem_append.mp hall.2).1 hspace

/-- A submission writes nothing, or is admitted, raises the sender's nonce
by one and lowers none. -/
theorem submit_store (hrevm : Conforms revm) {o : Except Exit Bytes}
    (h : Exec (handleSubmitRawTx revm rlp args) tr o)
    (hobeys : Obeys chain call store tr store') :
    store' = store ∨ ∃ p, Admits chain rlp store args p ∧
      nonceAt chain store' p.sender = nonceAt chain store p.sender + 1 ∧
      ∀ address, nonceAt chain store address ≤ nonceAt chain store' address := by
  have hstill : ∀ {t : List HostEv}, (∀ e ∈ t, Quiet e.1) →
      ∀ e ∈ t, WritesTo (fun _ => False) e.1 := fun hq e he => quiet_writesTo _ (hq e he)
  cases submit_ends h with
  | @rejects pre post _ hrej hend =>
      refine Or.inl (obeys_still hobeys ?_)
      obtain ⟨lines, rest, msg, hlines, hexec, rfl⟩ := hend
      rw [List.forall_mem_append, List.forall_mem_append]
      refine ⟨hstill hrej.quiet, hstill fun e he => isLog_quiet (hlines e he), ?_⟩
      exact exec_uses hexec (uses_rejectSubmit (fun _ => trivial) (fun _ _ _ => trivial) msg)
  | @commits pre post _ p result state heval hend =>
      refine Or.inr ⟨p, ?_⟩
      obtain ⟨mid, hpre, hpost⟩ := obeys_append.mp hobeys
      obtain ⟨rfl, hall⟩ := obeys_quiet hpre heval.quiet
      obtain ⟨hpass, hblock, hrun⟩ := heval
      rw [List.forall_mem_append, List.forall_mem_append] at hall
      obtain ⟨hadmits, hid⟩ := hpass.admits hall.1.1
      have hchanges := transact_changes hrevm hrun hall.2
      rcases exec_bind.mp hend with ⟨x, hx, -⟩ | ⟨_, t₁, t₂, hcommit, hresponse, rfl⟩
      · -- the chain accepts the writes of a commit
        have hsmooth := obeys_smooth hpost hid (exec_uses hx (eventless_commit state))
        exact absurd hsmooth ((governed_commit state).blames hx)
      · obtain ⟨mid', hpost₁, hpost₂⟩ := obeys_append.mp hpost
        have hresp := exec_uses hresponse
          (uses_response (P := WritesTo fun _ => False) (fun _ => trivial)
            (fun _ _ _ => trivial) result)
        rw [obeys_still hpost₂ hresp]
        exact ⟨hadmits, commit_nonces hchanges hcommit hpost₁⟩
  | stalls hquiet _ _ => exact Or.inl (obeys_still hobeys (hstill hquiet))
  | panics heval _ => exact Or.inl (obeys_still hobeys (hstill heval.quiet))

end Submission

-- ============================================================= the runs

/-- A call of the contract, from one store to the next. -/
structure Step where
  call : Sys.Arguments
  before : Store
  after : Store

section Runs

variable (chain : Chain) (build : Build) (revm : Revm) (rlp : AlloyRlp)

/-- The step is an execution of the contract on the chain. What an aborted
call wrote may stay or be undone. -/
def Calls (s : Step) : Prop :=
  ∃ tr o final, Exec (start build revm rlp) tr o ∧ Obeys chain s.call s.before tr final ∧
    (s.after = final ∨ (∃ msg, o = .error (.failure msg)) ∧ s.after = s.before)

/-- The spaces of the EVM's state. -/
def evmSpaces : List UInt32 := [SPACE_ACCOUNTS, SPACE_CODE, SPACE_STORAGE]

/-- The step changed an object of the EVM's state. -/
def ChangesEvm (s : Step) : Prop :=
  ∃ id ∈ evmSpaces, ∃ key, s.after (chain.space id) key ≠ s.before (chain.space id) key

/-- A run: each call starts from the store the one before it left. -/
structure IsRun (steps : List Step) : Prop where
  calls : ∀ s ∈ steps, Calls chain build revm rlp s
  linked : Linked Step.before Step.after steps

variable {chain build revm rlp}

/-- `_start` runs the arm of the call. -/
theorem start_dispatch {call : Sys.Arguments} {store store' : Store} {tr : List HostEv}
    {o : Except Exit Unit} (h : Exec (start build revm rlp) tr o)
    (hobeys : Obeys chain call store tr store') :
    ∃ t r, Exec (dispatch build revm rlp call) t r ∧ Obeys chain call store t store' := by
  have hreads : Reads Sys.getArguments :=
    reads_bind (reads_callSystem rfl (by simp)) fun _ => reads_pure _
  rcases exec_bind.mp h with ⟨x, hx, -⟩ | ⟨args, t₁, t₂, hargs, hrest, rfl⟩
  · obtain ⟨-, hall⟩ := obeys_quiet hobeys (exec_uses hx hreads.quiet)
    cases exec_getArguments_eq hall hx
  · obtain ⟨mid, hobeys₁, hobeys₂⟩ := obeys_append.mp hobeys
    obtain ⟨rfl, hall⟩ := obeys_quiet hobeys₁ (exec_uses hargs hreads.quiet)
    have heq := exec_getArguments_eq hall hargs
    injection heq with heq
    subst heq
    rcases exec_bind.mp hrest with ⟨x, hx, -⟩ | ⟨ret, t₃, t₄, hret, hexit, rfl⟩
    · exact ⟨t₂, _, hx, hobeys₂⟩
    · obtain ⟨rfl, -⟩ := exec_halt.mp hexit
      rw [List.append_nil] at hobeys₂
      exact ⟨t₃, _, hret, hobeys₂⟩

variable (chain) in
/-- A step that leaves the store as it was. -/
theorem Step.still {s : Step} (h : s.after = s.before) :
    (∀ address, nonceAt chain s.before address ≤ nonceAt chain s.after address) ∧
      ¬ ChangesEvm chain s := by
  rw [ChangesEvm, h]
  refine ⟨fun _ => le_rfl, ?_⟩
  intro hch
  obtain ⟨id, -, key, hne⟩ := hch
  exact hne rfl

/-- A step whose writes are in the test space. -/
theorem Step.elsewhere {s : Step} {tr : List HostEv}
    (hobeys : Obeys chain s.call s.before tr s.after)
    (hw : ∀ e ∈ tr, WritesTo InTestSpace e.1) :
    (∀ address, nonceAt chain s.before address ≤ nonceAt chain s.after address) ∧
      ¬ ChangesEvm chain s := by
  have hsame : ∀ id ∈ evmSpaces, ∀ key,
      s.after (chain.space id) key = s.before (chain.space id) key := by
    intro id hid key
    refine obeys_frame hobeys hw ?_ key
    intro htest
    have hid' : id = SPACE_TEST := htest
    rw [hid'] at hid
    exact absurd hid (by decide)
  refine ⟨?_, ?_⟩
  · intro address
    unfold nonceAt Chain.account
    rw [hsame SPACE_ACCOUNTS (by decide)]
  · intro hch
    obtain ⟨id, hid, key, hne⟩ := hch
    exact hne (hsame id hid key)

/-- A call leaves the EVM's state alone, or it is a submission that is
admitted and raises its sender's nonce; it lowers none either way. -/
theorem calls_cases (hevm : build.evm = true) (hdev : build.devUnsafeCaller = false)
    (hrevm : Conforms revm) {s : Step} (h : Calls chain build revm rlp s) :
    (∀ address, nonceAt chain s.before address ≤ nonceAt chain s.after address) ∧
      (ChangesEvm chain s → s.call.entryPoint = EP_SUBMIT_RAW_TX ∧
        ∃ p, Admits chain rlp s.before s.call.arguments p ∧
          nonceAt chain s.after p.sender = nonceAt chain s.before p.sender + 1) := by
  obtain ⟨tr, o, final, hexec, hobeys, hafter⟩ := h
  rcases hafter with rfl | ⟨-, hundone⟩
  · obtain ⟨t, r, hrun, hobeys⟩ := start_dispatch hexec hobeys
    by_cases hentry : s.call.entryPoint = EP_SUBMIT_RAW_TX
    · have harm : dispatch build revm rlp s.call
          = handleSubmitRawTx revm rlp s.call.arguments := by
        unfold dispatch
        rw [hentry, hevm]
        rfl
      rw [harm] at hrun
      rcases submit_store hrevm hrun hobeys with hsame | ⟨p, hadmits, hraised, hkept⟩
      · obtain ⟨hkept, hno⟩ := Step.still chain hsame
        exact ⟨hkept, fun hch => absurd hch hno⟩
      · exact ⟨hkept, fun _ => ⟨hentry, p, hadmits, hraised⟩⟩
    · have hw := exec_uses hrun (uses_dispatch hdev revm rlp hentry)
      obtain ⟨hkept, hno⟩ := Step.elsewhere hobeys hw
      exact ⟨hkept, fun hch => absurd hch hno⟩
  · obtain ⟨hkept, hno⟩ := Step.still chain hundone
    exact ⟨hkept, fun hch => absurd hch hno⟩

/-- In every run, the EVM's state changes only in submissions that are
admitted and spend their sender's nonce, and no raw transaction changes it
in two of them. -/
theorem evmState_replaySafe (hevm : build.evm = true) (hdev : build.devUnsafeCaller = false)
    (hrevm : Conforms revm) {steps : List Step} (hrun : IsRun chain build revm rlp steps) :
    (∀ s ∈ steps, ChangesEvm chain s → s.call.entryPoint = EP_SUBMIT_RAW_TX ∧
      ∃ p, Admits chain rlp s.before s.call.arguments p ∧
        nonceAt chain s.after p.sender = nonceAt chain s.before p.sender + 1) ∧
    steps.Pairwise fun s t => ChangesEvm chain s → ChangesEvm chain t →
      stripRawTx s.call.arguments ≠ stripRawTx t.call.arguments := by
  have hcases := fun s hs => calls_cases hevm hdev hrevm (hrun.calls s hs)
  refine ⟨fun s hs => (hcases s hs).2, ?_⟩
  have hkeeps : ∀ s ∈ steps, Keeps Step.before Step.after (nonceAt chain) s :=
    fun s hs => (hcases s hs).1
  refine (spends_once hrun.linked hkeeps).imp_of_mem ?_
  intro s t hs ht hspends hchs hcht hraw
  obtain ⟨-, p, hp, hraised⟩ := (hcases s hs).2 hchs
  obtain ⟨-, q, hq, hraised'⟩ := (hcases t ht).2 hcht
  -- the same bytes parse to the same transaction
  have hpq : q = p := by
    have hparse := hq.parse
    rw [← hraw, hp.parse] at hparse
    injection hparse with hparse
    exact hparse.symm
  subst hpq
  have hcount : ∀ {store : Store}, q.nonce = nonceOf (chain.account store q.sender) →
      nonceAt chain store q.sender = q.nonce.toNat := by
    intro store hnonce
    rw [nonceAt, ← hnonce]
  rw [hcount hp.nonce] at hraised
  rw [hcount hq.nonce] at hraised'
  exact hspends q.sender q.nonce.toNat ⟨hcount hp.nonce, hraised⟩ ⟨hcount hq.nonce, hraised'⟩

end Runs

-- ============================================================== one run

theorem touch_nonce (info : Option AccountInfo) : (touch info).info.nonce = nonceOf info := by
  cases info with
  | none => rfl
  | some info => rfl

/-- The change set of a transfer over the accounts it was computed from. -/
theorem transferState_changes {accounts : Address → Option AccountInfo}
    {caller toAddr coinbase : Address}
    (hmax : nonceOf (accounts caller) ≠ 0xffffffffffffffff) :
    Changes accounts caller (transferState caller toAddr coinbase (accounts caller)
      (accounts toAddr) (accounts coinbase)) := by
  have hnext : (nonceOf (accounts caller) + 1).toNat
      = (nonceOf (accounts caller)).toNat + 1 := by
    have hne : (nonceOf (accounts caller)).toNat ≠ 2 ^ 64 - 1 := fun h =>
      hmax (UInt64.toNat_inj.mp h)
    have hlt := (nonceOf (accounts caller)).toNat_lt
    rw [UInt64.toNat_add]
    exact Nat.mod_eq_of_lt (by have : (1 : UInt64).toNat = 1 := rfl; omega)
  -- the caller's entry, and the others as they were
  have hentries : ∀ entry ∈ (transferState caller toAddr coinbase (accounts caller)
      (accounts toAddr) (accounts coinbase)).accounts,
      entry.2.selfdestructed = false ∧ entry.2.created = false ∧
        (nonceOf (accounts entry.1)).toNat ≤ entry.2.info.nonce.toNat := by
    have hsame : ∀ address, (nonceOf (accounts address)).toNat
        ≤ (touch (accounts address)).info.nonce.toNat := fun address =>
      le_of_eq (by rw [touch_nonce])
    unfold transferState
    rw [List.forall_mem_cons, List.forall_mem_append]
    refine ⟨⟨rfl, rfl, ?_⟩, ?_, ?_⟩
    · show _ ≤ ((touch (accounts caller)).info.nonce + 1).toNat
      rw [touch_nonce, hnext]
      exact Nat.le_succ _
    · intro entry hentry
      split at hentry
      · cases hentry
      · rw [List.mem_singleton.mp hentry]
        exact ⟨rfl, rfl, hsame toAddr⟩
    · intro entry hentry
      split at hentry
      · cases hentry
      · rw [List.mem_singleton.mp hentry]
        exact ⟨rfl, rfl, hsame coinbase⟩
  refine ⟨⟨_, List.mem_cons_self, rfl, rfl, rfl, ?_⟩, ?_, ?_, ?_⟩
  · show ((touch (accounts caller)).info.nonce + 1).toNat = _
    rw [touch_nonce, hnext]
  · exact fun entry hentry _ => (hentries entry hentry).2.2
  · intro entry hentry hsd
    rw [(hentries entry hentry).1] at hsd
    cases hsd
  · intro entry hentry hcreated
    rw [(hentries entry hentry).2.1] at hcreated
    cases hcreated

theorem transferRevm_conforms : Conforms transferRevm := by
  intro cfg block tx accounts tr result state h hreads
  have hask : ∀ {address : Address} {t : List (Ev DbOp DbRes)}
      {r : Except KoinosDbError (Option AccountInfo)},
      Exec (askBasic address) t (.ok r) → (∀ e ∈ t, ReadsFrom accounts e) →
      r = .ok (accounts address) := by
    intro address t r hexec hall
    obtain ⟨r', rfl, hr⟩ := exec_ask.mp hexec
    injection hr with hr
    rw [hr]
    exact hall _ (List.mem_singleton_self _) address r' rfl
  unfold transferRevm at h
  simp only at h
  cases hto : tx.transactTo with
  | create =>
      rw [hto] at h
      cases (exec_ret.mp h).2
  | call toAddr =>
      rw [hto] at h
      simp only at h
      split at h
      · cases (exec_ret.mp h).2
      · obtain ⟨caller, t₁, u₁, h₁, hrest₁, rfl⟩ := exec_bind_ok.mp h
        obtain ⟨recipient, t₂, u₂, h₂, hrest₂, rfl⟩ := exec_bind_ok.mp hrest₁
        obtain ⟨coinbase, t₃, u₃, h₃, hrest₃, rfl⟩ := exec_bind_ok.mp hrest₂
        simp only [List.forall_mem_append] at hreads
        obtain ⟨hr₁, hr₂, hr₃, -⟩ := hreads
        rw [hask h₁ hr₁, hask h₂ hr₂, hask h₃ hr₃] at hrest₃
        simp only at hrest₃
        split at hrest₃
        · cases (exec_ret.mp hrest₃).2
        next hnonce =>
          rw [touch_nonce, not_or] at hnonce
          have hstate := (exec_ret.mp hrest₃).2
          injection hstate with hstate
          injection hstate with hstate
          injection hstate with _ hstate
          rw [hstate]
          exact transferState_changes hnonce.2

/-- One call on the host that keeps a map. -/
@[irreducible] def submitRun (store : Store) : Run Syscall (fun _ => Reply) Exit Unit Store :=
  (start evmBuild transferRevm strictRlp).run
    (mapHost sampleChain submitZeroTransfer) store

theorem submitRun_calls {store : Store}
    (h : ∀ e ∈ (submitRun store).trace, e.2.out.length < 2 ^ 32) :
    Calls sampleChain evmBuild transferRevm strictRlp
      ⟨submitZeroTransfer, store, (submitRun store).state⟩ := by
  have hobeys : Obeys sampleChain submitZeroTransfer store (submitRun store).trace
      (submitRun store).state := by
    unfold submitRun at h ⊢
    exact run_obeys _ _ h
  have hexec : Exec (start evmBuild transferRevm strictRlp) (submitRun store).trace
      (submitRun store).outcome := by
    unfold submitRun
    exact run_exec _ _ _
  exact ⟨_, _, _, hexec, hobeys, Or.inl rfl⟩

/-- The sample transfer, and the same bytes again. -/
def replaySteps : List Step :=
  [⟨submitZeroTransfer, emptyStore, (submitRun emptyStore).state⟩,
    ⟨submitZeroTransfer, (submitRun emptyStore).state,
      (submitRun (submitRun emptyStore).state).state⟩]

theorem zeroTransfer_replaySafe :
    (∀ s ∈ replaySteps, ChangesEvm sampleChain s →
      s.call.entryPoint = EP_SUBMIT_RAW_TX ∧
        ∃ p, Admits sampleChain strictRlp s.before s.call.arguments p ∧
          nonceAt sampleChain s.after p.sender = nonceAt sampleChain s.before p.sender + 1) ∧
    replaySteps.Pairwise fun s t => ChangesEvm sampleChain s → ChangesEvm sampleChain t →
      stripRawTx s.call.arguments ≠ stripRawTx t.call.arguments := by
  have hrun : IsRun sampleChain evmBuild transferRevm strictRlp replaySteps := by
    refine ⟨?_, .cons_cons rfl (.singleton _)⟩
    unfold replaySteps
    rw [List.forall_mem_cons, List.forall_mem_cons]
    refine ⟨submitRun_calls ?_, submitRun_calls ?_, by simp⟩
    · decide +kernel
    · decide +kernel
  exact evmState_replaySafe rfl rfl transferRevm_conforms hrun

end KoinosEvm.Proofs
