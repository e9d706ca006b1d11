/-
The contract as a ledger of Ethereum transactions.

The ledger's state is a world, and its step is what the chain's users mean
by a transaction (`LedgerStep`): one that is valid in the world is run by
revm over it, and the change set is applied; a valid one that revm refuses,
and one that is not valid, leave the world and cost nothing. A query is
answered from the world (`Query.Answer`).

The engine is this ledger: a submission that returns is one step over the
world of the store, its reply and its events are those of the step's outcome
(`submit_ledger`), and every other call moves nothing. So a history of calls
on the chain, which undoes what an aborted call wrote, is a history of the
ledger, reply by reply and event by event (`history_ledger`).
-/
import KoinosEvm.Proofs.EthCall
import KoinosEvm.Proofs.ReportedStatus

namespace KoinosEvm.Proofs

open Engine Lib Proxy

-- ============================================================ the ledger

/-- What a transaction came to. -/
structure TxOutcome where
  result : EvmResult
  logs : List Log

/-- .. one that did not run. -/
def TxOutcome.rejected (msg : Bytes) : TxOutcome := ⟨⟨false, msg, 0, none⟩, []⟩

/-- .. and one that ran: only a success keeps its logs. -/
def TxOutcome.executed (result : ExecutionResult) : TxOutcome where
  result := viewResult (.ok result)
  logs := match result with
    | .success _ logs _ => logs
    | .revert .. => []
    | .halt .. => []

/-- The events of an outcome. -/
def TxOutcome.events (o : TxOutcome) : List Emitted :=
  o.logs.map logEvent ++ [resultEvent o.result.success o.result.gasUsed o.result.contractAddress]

section Ledger

variable (crypto : CryptoSys Id) (revm : Revm) (rlp : AlloyRlp) (w : World)

/-- The raw transaction is authentic, for this chain and next in its
sender's order. -/
structure Valid (raw : Bytes) (p : ParsedTx) : Prop where
  parse : (parseRawTx rlp (syscallCrypto crypto) raw : Except TxParseError ParsedTx) = .ok p
  chainId : p.chainId = some ENGINE_CHAIN_ID
  nonce : p.nonce = nonceOf (w.account p.sender)

/-- What revm makes of the transaction over the world. -/
inductive Executes (p : ParsedTx) : Except EvmError (ExecutionResult × EvmState) → Prop
  | intro {number timestamp : U256} {tr : List (Ev DbOp DbRes)}
      {r : Except EvmError (ExecutionResult × EvmState)} :
      Exec (revm.transact buildCfgEnv (viewBlock number timestamp) (txEnvOf p)) tr (.ok r) →
      (∀ e ∈ tr, ShownBy w e) → Executes p r

/-- A transaction of the ledger. -/
inductive LedgerStep (raw : Bytes) : TxOutcome → World → Prop
  | executed {p : ParsedTx} {result : ExecutionResult} {state : EvmState} {w' : World} :
      Valid crypto rlp w raw p → Executes revm w p (.ok (result, state)) →
      (CodesAgree state → Updates state w w') → LedgerStep raw (TxOutcome.executed result) w'
  | refused {p : ParsedTx} {e : EvmError} {msg : Bytes} :
      Valid crypto rlp w raw p → Executes revm w p (.error e) →
      LedgerStep raw (.rejected msg) w
  | invalid {msg : Bytes} : (∀ p, ¬ Valid crypto rlp w raw p) →
      LedgerStep raw (.rejected msg) w

end Ledger

/-- What the view entry points are asked. -/
inductive Query where
  | account (addr : Address)
  | storage (addr : Address) (slot : B256)
  | code (addr : Address)
  | view (args : CallViewArgs)

/-- The call that asks it. -/
def Query.call : Query → Sys.Arguments
  | .account addr => ⟨EP_GET_ACCOUNT, buildGetAccountArgs addr⟩
  | .storage addr slot => ⟨EP_GET_STORAGE_AT, NodeClient.buildGetStorageAtArgs addr slot⟩
  | .code addr => ⟨EP_GET_CODE, NodeClient.buildGetCodeArgs addr⟩
  | .view args => ⟨EP_CALL_VIEW, buildCallViewArgs args⟩

/-- What the world says to it. -/
def Query.Answer (revm : Revm) (w : World) : Query → Bytes → Prop
  | .account addr, ret => ret = accountReply (w.account addr)
  | .storage addr slot, ret =>
      ret = (beBytes32 (w.storage addr (u256FromBeSlice slot.bytes))).bytes
  | .code addr, ret => ret = w.codeAt addr
  | .view args, ret =>
      ∃ result, Views revm w (viewTx args) result ∧ ret = encodeResult (viewResult result)

/-- A call as the chain records it: how it exits, and its events. -/
structure Applied where
  call : Sys.Arguments
  exit : Exit
  events : List Emitted

/-- A call of the ledger. -/
structure LedgerMove (crypto : CryptoSys Id) (revm : Revm) (rlp : AlloyRlp) (w : World)
    (a : Applied) (w' : World) : Prop where
  submits : a.call.entryPoint = Engine.EP_SUBMIT_RAW_TX → ∀ ret, a.exit = .success ret →
    ∃ o, LedgerStep crypto revm rlp w (stripRawTx a.call.arguments) o w' ∧
      ret = encodeResult o.result ∧ a.events = o.events
  stays : (a.call.entryPoint = Engine.EP_SUBMIT_RAW_TX → ∃ msg, a.exit = .failure msg) →
    w' = w ∧ a.events = []
  answers : ∀ (q : Query) (ret : Bytes), a.call = q.call → a.exit = .success ret →
    q.Answer revm w ret

-- ========================================================== a submission

section Submission

variable {chain : Chain} {revm : Revm} {rlp : AlloyRlp} {call : Sys.Arguments}
  {store store' : Store} {args : Bytes} {tr : List HostEv}

/-- A response that returns says the outcome of the result. -/
theorem response_outcome {result : ExecutionResult} {ret : Bytes}
    (h : Exec (executionResultToResponse result true) tr (.ok ret)) :
    eventsOf tr = (TxOutcome.executed result).events ∧
      ret = encodeResult (TxOutcome.executed result).result := by
  cases result with
  | success gasUsed logs output =>
      have hend : ∀ (data : Bytes) (addr : Option Address),
          Exec (do
            emitLogs logs
            emitEvmResultEvent true gasUsed addr
            return encodeEvmResult true data gasUsed addr) tr (.ok ret) →
          eventsOf tr = logs.map logEvent ++ [resultEvent true gasUsed addr] ∧
            ret = encodeEvmResult true data gasUsed addr := by
        intro data addr h
        obtain ⟨_, t₁, t₂, h₁, h₂, rfl⟩ := exec_bind_ok.mp h
        obtain ⟨hev, -, hret⟩ := exec_resultEvent h₂
        rw [eventsOf_append, (exec_emitLogs_ok h₁).1, hev]
        exact ⟨rfl, hret⟩
      cases output with
      | call data => exact hend data.bytes none h
      | create data addr => exact hend data.bytes addr h
  | revert gasUsed output =>
      obtain ⟨hev, -, hret⟩ := exec_resultEvent h
      exact ⟨hev, hret⟩
  | halt gasUsed =>
      obtain ⟨hev, -, hret⟩ := exec_resultEvent h
      exact ⟨hev, hret⟩

/-- What revm ran behind the engine's checks: a valid transaction, over the
world of the store. -/
theorem Evaluates.executes {p : ParsedTx}
    {r : Except EvmError (ExecutionResult × EvmState)}
    (h : Evaluates revm rlp args p (.ok r) tr) (hall : ∀ e ∈ tr, Answers chain call store e) :
    Valid chain.crypto rlp (chain.world store) (stripRawTx args) p ∧
      Executes revm (chain.world store) p r := by
  obtain ⟨hpass, hblock, hrun⟩ := h
  rw [List.forall_mem_append, List.forall_mem_append] at hall
  obtain ⟨hadmits, -⟩ := hpass.admits hall.1.1
  obtain ⟨head, t₁, t₂, -, hret, rfl⟩ := exec_bind_ok.mp hblock
  obtain ⟨outer, hexec, hshown⟩ := exec_shows hrun hall.2
  rw [exec_ret_ok hret] at hexec
  exact ⟨⟨hadmits.parse, hadmits.chainId, hadmits.nonce⟩, .intro hexec hshown⟩

/-- A rejection is for a transaction that is not valid, or that revm
refused. -/
theorem Rejected.ledgerStep (h : Rejected revm rlp args tr)
    (hall : ∀ e ∈ tr, Answers chain call store e) (msg : Bytes) :
    LedgerStep chain.crypto revm rlp (chain.world store) (stripRawTx args) (.rejected msg)
      (chain.world store) := by
  -- what is valid is what the parser returned
  have hparsed : ∀ {t : List HostEv} {r : Except TxParseError ParsedTx} {p : ParsedTx},
      Exec (parseRaw rlp (stripRawTx args)) t (.ok r) →
      (∀ e ∈ t, Answers chain call store e) →
      Valid chain.crypto rlp (chain.world store) (stripRawTx args) p → r = .ok p := by
    intro t r p hexec hanswers hvalid
    rw [← exec_parseRaw_eq hanswers hexec]
    exact hvalid.parse
  cases h with
  | empty hempty =>
      refine .invalid fun p hvalid => ?_
      have hparse := hvalid.parse
      rw [hempty] at hparse
      cases hparse
  | parse _ hfail =>
      refine .invalid fun p hvalid => ?_
      cases hparsed hfail hall hvalid
  | chainId _ hok hcid hne =>
      refine .invalid fun p hvalid => ?_
      have heq := hparsed hok hall hvalid
      injection heq with heq
      subst heq
      have hchain := hvalid.chainId
      rw [hcid] at hchain
      injection hchain with hchain
      exact hne hchain
  | read hparse hfail =>
      -- the stored account decodes
      rw [List.forall_mem_append] at hall
      cases exec_basic_eq hall.2 hfail
  | nonce hparse hread hne =>
      rw [List.forall_mem_append] at hall
      refine .invalid fun p hvalid => ?_
      have heq := hparsed hparse.parse hall.1 hvalid
      injection heq with heq
      subst heq
      have hstored := exec_basic_eq hall.2 hread
      injection hstored with hstored
      rw [hstored] at hne
      exact hne hvalid.nonce
  | evm heval =>
      obtain ⟨hvalid, hexec⟩ := heval.executes hall
      exact .refused hvalid hexec

/-- A submission that returns is a step of the ledger, with the events and
the reply of its outcome. -/
theorem submit_ledger {ret : Bytes} (h : Exec (handleSubmitRawTx revm rlp args) tr (.ok ret))
    (hobeys : Obeys chain call store tr store') :
    ∃ o, LedgerStep chain.crypto revm rlp (chain.world store) (stripRawTx args) o
        (chain.world store') ∧
      eventsOf tr = o.events ∧ ret = encodeResult o.result := by
  cases submit_ends h with
  | @rejects pre post _ hrej hend =>
      obtain ⟨mid, hpre, hpost⟩ := obeys_append.mp hobeys
      obtain ⟨rfl, hall⟩ := obeys_quiet hpre hrej.quiet
      obtain ⟨hev, -, msg, hret⟩ := endsRejecting_ok hend
      obtain ⟨lines, rest, text, hlines, hexec, rfl⟩ := hend
      have hstill : ∀ e ∈ lines ++ rest, WritesTo (fun _ => False) e.1 := by
        rw [List.forall_mem_append]
        refine ⟨fun e he => quiet_writesTo _ (isLog_quiet (hlines e he)), ?_⟩
        exact exec_uses hexec (uses_rejectSubmit (fun _ => trivial) (fun _ _ _ => trivial) text)
      obtain rfl := obeys_still hpost hstill
      refine ⟨.rejected msg, hrej.ledgerStep hall msg, ?_, hret⟩
      rw [eventsOf_append, (quiet_trace hrej.quiet).1, hev]
      rfl
  | @commits pre post _ p result state heval hend =>
      obtain ⟨mid, hpre, hpost⟩ := obeys_append.mp hobeys
      obtain ⟨rfl, hall⟩ := obeys_quiet hpre heval.quiet
      obtain ⟨hvalid, hexec⟩ := heval.executes hall
      obtain ⟨_, t₁, t₂, hcommit, hresponse, rfl⟩ := exec_bind_ok.mp hend
      obtain ⟨mid', hpost₁, hpost₂⟩ := obeys_append.mp hpost
      have hresp := exec_uses hresponse
        (uses_response (P := WritesTo fun _ => False) (fun _ => trivial)
          (fun _ _ _ => trivial) result)
      obtain rfl := obeys_still hpost₂ hresp
      obtain ⟨hev, hret⟩ := response_outcome hresponse
      refine ⟨TxOutcome.executed result, .executed hvalid hexec fun hcodes => ?_, ?_, hret⟩
      · rw [performs_commit state call mid t₁ _ hcommit hpost₁]
        exact updates_writeAll hcodes
      · rw [eventsOf_append, (quiet_trace heval.quiet).1, eventsOf_append,
          eventless_trace (exec_uses hcommit (eventless_commit state)), hev]
        rfl

end Submission

-- ======================================================= the other calls

theorem quiet_eventless {op : Syscall} (h : Quiet op) : Eventless op := by
  intro name data impacted heq
  subst heq
  cases h

/-- Without `dev_unsafe_caller`, only a submission emits events. -/
theorem eventless_dispatch {build : Build} (hdev : build.devUnsafeCaller = false) (revm : Revm)
    (rlp : AlloyRlp) {call : Sys.Arguments} (hentry : call.entryPoint ≠ Engine.EP_SUBMIT_RAW_TX) :
    Uses Eventless Aborts (dispatch build revm rlp call) := by
  have hlog : ∀ msg, Eventless (.log msg) := fun _ => quiet_eventless (quiet_log _)
  have hreads : ∀ {p : HostM Bytes}, Uses Quiet Aborts p → Uses Eventless Aborts p :=
    fun h => h.mono fun _ => quiet_eventless
  have hunsafe : ¬ build.devUnsafeCaller = true := by simp [hdev]
  unfold Engine.dispatch
  refine uses_ite (fun _ => ?_) fun _ => ?_
  · -- the one write of the test space
    unfold handleStoreValue
    split
    · exact uses_halt ⟨_, rfl⟩
    · simp only
      split
      · exact uses_fatal hlog _ _
      · refine uses_bind (uses_engineSpace hlog (quiet_eventless rfl) _) fun space => ?_
        refine uses_bind (uses_put hlog (by simp [Eventless])) fun _ => ?_
        exact uses_bind (uses_log hlog _) fun _ => uses_pure _
  refine uses_ite (fun _ => hreads (reads_handleReadValue _).quiet) fun _ => ?_
  refine uses_ite (fun _ => hreads (reads_handleEcho _).quiet) fun _ => ?_
  refine uses_ite (fun h => absurd h.2 hentry) fun _ => ?_
  refine uses_ite (fun _ => hreads (quiet_handleCallView revm _)) fun _ => ?_
  refine uses_ite (fun _ => hreads (reads_handleGetAccount _).quiet) fun _ => ?_
  refine uses_ite (fun _ => hreads (reads_handleGetStorageAt _).quiet) fun _ => ?_
  refine uses_ite (fun _ => hreads (reads_handleGetCode _).quiet) fun _ => ?_
  refine uses_ite (fun h => absurd h.1 hunsafe) fun _ => ?_
  refine uses_ite (fun h => absurd h.1 hunsafe) fun _ => ?_
  exact uses_ite (fun _ => uses_fatal hlog _ _) fun _ => uses_fatal hlog _ _

/-- What is written to the test space does not show. -/
theorem world_frame {chain : Chain} {call : Sys.Arguments} {store store' : Store}
    {tr : List HostEv} (hobeys : Obeys chain call store tr store')
    (hw : ∀ e ∈ tr, WritesTo InTestSpace e.1) : chain.world store' = chain.world store := by
  have hsame : ∀ id ∈ evmSpaces, ∀ key,
      store' (chain.space id) key = store (chain.space id) key := by
    intro id hid key
    refine obeys_frame hobeys hw ?_ key
    intro htest
    have hid' : id = SPACE_TEST := htest
    rw [hid'] at hid
    exact absurd hid (by decide)
  have haccount : chain.account store' = chain.account store := by
    funext address
    rw [Chain.account, Chain.account, hsame SPACE_ACCOUNTS (by decide)]
  have hslot : chain.slot store' = chain.slot store := by
    funext address index
    rw [Chain.slot, Chain.slot, hsame SPACE_STORAGE (by decide)]
  have hcode : chain.code store' = chain.code store := by
    funext codeHash
    rw [Chain.code, Chain.code, hsame SPACE_CODE (by decide)]
  unfold Chain.world
  rw [haccount, hslot, hcode]

-- ============================================================== histories

section Histories

variable (chain : Chain) (build : Build) (revm : Revm) (rlp : AlloyRlp)

/-- From this store the call is applied so, and leaves that store: an
aborted call leaves no trace. -/
def Applies (store : Store) (a : Applied) (store' : Store) : Prop :=
  ∃ tr final, Exec (start build revm rlp) tr (.error a.exit) ∧
    Obeys chain a.call store tr final ∧
    (∀ data, a.exit = .success data → store' = final ∧ a.events = eventsOf tr) ∧
    (∀ msg, a.exit = .failure msg → store' = store ∧ a.events = [])

variable {chain build revm rlp} {store store' : Store} {a : Applied}

/-- A call that is applied is served. -/
theorem Applies.serves (h : Applies chain build revm rlp store a store') :
    Serves chain build revm rlp store ⟨a.call, a.exit⟩ store' := by
  obtain ⟨tr, final, hexec, hobeys, hkept, hundone⟩ := h
  refine ⟨tr, final, hexec, hobeys, ?_⟩
  cases hexit : a.exit with
  | success data => exact Or.inl (hkept data hexit).1
  | failure msg => exact Or.inr ⟨⟨msg, rfl⟩, (hundone msg hexit).1⟩

/-- A query that is answered is answered from the world. -/
theorem applies_answer (hevm : build.evm = true) (hid : chain.contractId ≠ [])
    (h : Applies chain build revm rlp store a store') {q : Query} {ret : Bytes}
    (hcall : a.call = q.call) (hexit : a.exit = .success ret) :
    q.Answer revm (chain.world store) ret := by
  have hserves := h.serves
  rw [hcall, hexit] at hserves
  cases q with
  | account addr =>
      have hret := (serves_getAccount hevm hid hserves).2
      injection hret
  | storage addr slot =>
      have hret := (serves_returns hserves (dispatch_view hevm _).2.1
        (reads_handleGetStorageAt _).quiet (returns_getStorageAt hid store addr slot)).2
      injection hret
  | code addr =>
      have hret := (serves_returns hserves (dispatch_view hevm _).2.2.1
        (reads_handleGetCode _).quiet (returns_getCode hid store addr)).2
      injection hret
  | view args =>
      obtain ⟨-, t, r, hrun, hall, hret⟩ := serves_reading hserves (dispatch_view hevm _).2.2.2
        (quiet_handleCallView revm _)
      cases r with
      | error x =>
          -- a halt of a view is an abort
          obtain ⟨msg, rfl⟩ := exec_halts hrun (quiet_handleCallView revm _)
          cases hret
      | ok reply =>
          injection hret with hret
          rw [hret]
          exact exec_callView hrun hall

/-- A call on the chain is a call of the ledger. -/
theorem applies_ledger (hevm : build.evm = true) (hdev : build.devUnsafeCaller = false)
    (hid : chain.contractId ≠ []) (h : Applies chain build revm rlp store a store') :
    LedgerMove chain.crypto revm rlp (chain.world store) a (chain.world store') := by
  have hanswers : ∀ (q : Query) (ret : Bytes), a.call = q.call → a.exit = .success ret →
      q.Answer revm (chain.world store) ret :=
    fun _ _ hcall hexit => applies_answer hevm hid h hcall hexit
  obtain ⟨tr, final, hexec, hobeys, hkept, hundone⟩ := h
  obtain ⟨t, r, hrun, hobeys, hexit, hev⟩ := start_exits hexec hobeys
  refine ⟨?_, ?_, hanswers⟩
  · intro hentry ret hret
    obtain ⟨rfl, hevents⟩ := hkept ret hret
    have harm : dispatch build revm rlp a.call = handleSubmitRawTx revm rlp a.call.arguments := by
      rw [← dispatch_submit hevm, ← hentry]
    rw [harm] at hrun
    cases r with
    | error x =>
        obtain ⟨msg, rfl⟩ := submit_aborts hrun
        rw [hret] at hexit
        cases hexit
    | ok reply =>
        rw [hret] at hexit
        injection hexit with hexit
        subst hexit
        obtain ⟨o, hstep, hsays, hreply⟩ := submit_ledger hrun hobeys
        exact ⟨o, hstep, hreply, by rw [hevents, hev, hsays]⟩
  · intro hother
    cases hout : a.exit with
    | failure msg =>
        obtain ⟨rfl, hevents⟩ := hundone msg hout
        exact ⟨rfl, hevents⟩
    | success data =>
        obtain ⟨rfl, hevents⟩ := hkept data hout
        have hentry : a.call.entryPoint ≠ Engine.EP_SUBMIT_RAW_TX := by
          intro hentry
          obtain ⟨msg, hmsg⟩ := hother hentry
          rw [hout] at hmsg
          cases hmsg
        refine ⟨world_frame hobeys (exec_uses hrun (uses_dispatch hdev revm rlp hentry)), ?_⟩
        rw [hevents, hev]
        exact eventless_trace (exec_uses hrun (eventless_dispatch hdev revm rlp hentry))

/-- Every history of calls on the chain, read through the world of its
stores, is a history of the ledger, with the same replies and the same
events. -/
theorem history_ledger (hevm : build.evm = true) (hdev : build.devUnsafeCaller = false)
    (hid : chain.contractId ≠ []) {calls : List Applied}
    (h : History (Applies chain build revm rlp) store calls store') :
    History (LedgerMove chain.crypto revm rlp) (chain.world store) calls
      (chain.world store') := by
  have hmoves := h.simulates chain.world id fun _ _ _ hcall =>
    applies_ledger hevm hdev hid hcall
  rw [List.map_id] at hmoves
  exact hmoves

end Histories

-- =========================================================== one history

/-- A call on the sample host, as the chain records it. -/
def recorded (call : Sys.Arguments) (store : Store) : Applied where
  call := call
  exit := exitIn (servedRun call store)
  events := eventsOf (servedRun call store).trace

/-- The call did not abort. -/
def exitsWell : Exit → Bool
  | .success _ => true
  | .failure _ => false

/-- .. and then it is applied. -/
theorem recorded_applies (call : Sys.Arguments) (store : Store)
    (hout : (servedRun call store).outcome = .error (exitIn (servedRun call store)))
    (hdone : exitsWell (exitIn (servedRun call store)) = true)
    (hlen : ∀ e ∈ (servedRun call store).trace, e.2.out.length < 2 ^ 32) :
    Applies sampleChain evmBuild transferRevm strictRlp store (recorded call store)
      (servedRun call store).state := by
  have hexec : Exec (start evmBuild transferRevm strictRlp) (servedRun call store).trace
      (servedRun call store).outcome := by
    unfold servedRun
    exact run_exec _ _ _
  have hobeys : Obeys sampleChain call store (servedRun call store).trace
      (servedRun call store).state := by
    unfold servedRun at hlen ⊢
    exact run_obeys _ _ hlen
  rw [hout] at hexec
  refine ⟨_, _, hexec, hobeys, fun _ _ => ⟨rfl, rfl⟩, ?_⟩
  intro msg hmsg
  rw [show exitIn (servedRun call store) = .failure msg from hmsg] at hdone
  cases hdone

/-- A question, the sample transfer and the question again, on the ledger. -/
theorem recorded_ledger :
    History (LedgerMove sampleChain.crypto transferRevm strictRlp)
      (sampleChain.world emptyStore)
      [recorded askSender emptyStore, recorded submitZeroTransfer asked,
        recorded askSender transferred]
      (sampleChain.world (servedRun askSender transferred).state) := by
  have h₁ := recorded_applies askSender emptyStore (by decide +kernel) (by decide +kernel)
    (by decide +kernel)
  have h₂ := recorded_applies submitZeroTransfer asked (by decide +kernel) (by decide +kernel)
    (by decide +kernel)
  have h₃ := recorded_applies askSender transferred (by decide +kernel) (by decide +kernel)
    (by decide +kernel)
  exact history_ledger rfl rfl (by decide) (.cons h₁ (.cons h₂ (.cons h₃ .nil)))

end KoinosEvm.Proofs
