/-
What a submission leaves in the receipt.

A submission that returns has emitted its logs and then one `evm.result`,
whose flag, gas and address are those of the bytes it returns. The three
ends of `submit_ends` that can return are a rejection (`exec_rejectSubmit`)
and a committed execution (`exec_response`); a stall and a panic abort. A
rejection never wrote: its prefix is quiet, and one and the same trace
cannot hold a rejection and an execution (`Evaluates.rejected`).
-/
import KoinosEvm.Proofs.Commit
import KoinosEvm.Proofs.EventRoundTrip

namespace KoinosEvm.Proofs

open Engine Lib

variable {revm : Revm} {rlp : AlloyRlp} {args : Bytes}

-- ========================================== a trace decides its stages

theorem Parses.unique {p q : ParsedTx} {xs ys zs ws : List HostEv}
    (h : Parses rlp args p xs) (h' : Parses rlp args q ys) (heq : xs ++ zs = ys ++ ws) :
    p = q ∧ xs = ys ∧ zs = ws := by
  obtain ⟨hx, ho, hz⟩ := exec_unique h.parse h'.parse heq
  injection ho with ho
  injection ho with ho
  exact ⟨ho, hx, hz⟩

/-- One trace, one read of the sender's account. -/
theorem basic_unique {p q : ParsedTx} {r r' : Except KoinosDbError (Option AccountInfo)}
    {t₁ t₂ s₁ s₂ zs ws : List HostEv} (hp : Parses rlp args p t₁)
    (hr : Exec (basic p.sender) t₂ (.ok r)) (hq : Parses rlp args q s₁)
    (hr' : Exec (basic q.sender) s₂ (.ok r')) (heq : t₁ ++ t₂ ++ zs = s₁ ++ s₂ ++ ws) :
    p = q ∧ r = r' ∧ t₁ ++ t₂ = s₁ ++ s₂ ∧ zs = ws := by
  rw [List.append_assoc, List.append_assoc] at heq
  obtain ⟨rfl, rfl, hrest⟩ := hp.unique hq heq
  obtain ⟨rfl, ho, hz⟩ := exec_unique hr hr' hrest
  injection ho with ho
  exact ⟨rfl, ho, rfl, hz⟩

theorem Passes.unique {p q : ParsedTx} {xs ys zs ws : List HostEv}
    (h : Passes rlp args p xs) (h' : Passes rlp args q ys) (heq : xs ++ zs = ys ++ ws) :
    p = q ∧ xs = ys ∧ zs = ws := by
  obtain ⟨hparse, hread, -⟩ := h
  obtain ⟨hparse', hread', -⟩ := h'
  obtain ⟨hpq, -, hx, hz⟩ := basic_unique hparse hread hparse' hread' heq
  exact ⟨hpq, hx, hz⟩

theorem Evaluates.unique {p q : ParsedTx}
    {r r' : Except Exit (Except EvmError (ExecutionResult × EvmState))}
    {xs ys zs ws : List HostEv} (h : Evaluates revm rlp args p r xs)
    (h' : Evaluates revm rlp args q r' ys) (heq : xs ++ zs = ys ++ ws) :
    p = q ∧ r = r' ∧ xs = ys ∧ zs = ws := by
  obtain ⟨hpass, hblock, hrun⟩ := h
  obtain ⟨hpass', hblock', hrun'⟩ := h'
  simp only [List.append_assoc] at heq
  obtain ⟨rfl, rfl, heq₁⟩ := hpass.unique hpass' heq
  obtain ⟨rfl, hb, heq₂⟩ := exec_unique hblock hblock' heq₁
  injection hb with hb
  subst hb
  obtain ⟨rfl, ho, hz⟩ := exec_unique hrun hrun' heq₂
  exact ⟨rfl, ho, rfl, hz⟩

/-- What revm ran is rejected for revm's error only. -/
theorem Evaluates.rejected {p : ParsedTx}
    {r : Except Exit (Except EvmError (ExecutionResult × EvmState))}
    {xs ys zs ws : List HostEv} (h : Evaluates revm rlp args p r xs)
    (h' : Rejected revm rlp args ys) (heq : xs ++ zs = ys ++ ws) :
    ∃ e, r = .ok (.error e) := by
  have hpass : ∃ t rest, Passes rlp args p t ∧ xs = t ++ rest := by
    obtain ⟨hpass, -, -⟩ := h
    exact ⟨_, _, hpass, List.append_assoc ..⟩
  obtain ⟨t, rest, hpass, rfl⟩ := hpass
  obtain ⟨hparse, hread, hnonce⟩ := hpass
  cases h' with
  | empty hempty => exact absurd hempty hparse.nonempty
  | parse _ hfail =>
      simp only [List.append_assoc] at heq
      obtain ⟨-, ho, -⟩ := exec_unique hparse.parse hfail heq
      cases ho
  | chainId _ hok hcid hne =>
      simp only [List.append_assoc] at heq
      obtain ⟨-, ho, -⟩ := exec_unique hparse.parse hok heq
      injection ho with ho
      injection ho with ho
      subst ho
      rw [hparse.chain] at hcid
      injection hcid with hcid
      exact absurd hcid.symm hne
  | read hparse' hfail =>
      rw [List.append_assoc (_ ++ _)] at heq
      obtain ⟨-, hr, -, -⟩ := basic_unique hparse hread hparse' hfail heq
      cases hr
  | nonce hparse' hread' hne =>
      rw [List.append_assoc (_ ++ _)] at heq
      obtain ⟨rfl, hr, -, -⟩ := basic_unique hparse hread hparse' hread' heq
      injection hr with hr
      rw [hr] at hnonce
      exact absurd hnonce hne
  | evm heval =>
      obtain ⟨-, hr, -, -⟩ := h.unique heval heq
      exact ⟨_, hr⟩

-- ============================================================= the ends

section Uses

variable {P : Syscall → Prop} (hlog : ∀ msg, P (.log msg))
  (hevent : ∀ name data impacted, P (.event name data impacted))
include hlog hevent

/-- A response emits and logs. -/
theorem uses_response (result : ExecutionResult) :
    Uses P Aborts (executionResultToResponse result true) := by
  have hresult : ∀ success gasUsed addr,
      Uses P Aborts (emitEvmResultEvent success gasUsed addr) :=
    fun _ _ _ => uses_event hlog (hevent _ _ _)
  cases result with
  | success gasUsed logs output =>
      refine uses_bind (uses_forM (fun _ => uses_event hlog (hevent _ _ _)) _) fun _ => ?_
      cases output with
      | call data => exact uses_bind (hresult _ _ _) fun _ => uses_pure _
      | create data addr => exact uses_bind (hresult _ _ _) fun _ => uses_pure _
  | revert gasUsed output => exact uses_bind (hresult _ _ _) fun _ => uses_pure _
  | halt gasUsed => exact uses_bind (hresult _ _ _) fun _ => uses_pure _

theorem uses_rejectSubmit (msg : Bytes) : Uses P Aborts (rejectSubmit msg) :=
  uses_bind (uses_event hlog (hevent _ _ _)) fun _ => uses_pure _

end Uses

theorem isLog_quiet {e : HostEv} (h : IsLog e) : Quiet e.1 := by
  obtain ⟨call, reply⟩ := e
  obtain ⟨msg, rfl⟩ := h
  rfl

/-- One result is emitted, and the response returned. -/
theorem exec_resultEvent {success : Bool} {gasUsed : UInt64} {contractAddress : Option Address}
    {response : Bytes} {tr : List HostEv} {ret : Bytes}
    (h : Exec (do
      emitEvmResultEvent success gasUsed contractAddress
      return response) tr (.ok ret)) :
    eventsOf tr = [resultEvent success gasUsed contractAddress] ∧ writesOf tr = [] ∧
      ret = response := by
  obtain ⟨u, t₁, t₂, h₁, h₂, rfl⟩ := exec_bind_ok.mp h
  obtain ⟨rfl, ho⟩ := exec_ret.mp h₂
  injection ho with ho
  rw [List.append_nil]
  exact ⟨(exec_event_ok h₁).1, (exec_event_ok h₁).2, ho⟩

/-- `reject_submit`: one failed result without gas. -/
theorem exec_rejectSubmit {msg : Bytes} {tr : List HostEv} {ret : Bytes}
    (h : Exec (rejectSubmit msg) tr (.ok ret)) :
    eventsOf tr = [resultEvent false 0 none] ∧ writesOf tr = [] ∧
      ret = encodeEvmResult false msg 0 none := exec_resultEvent h

theorem endsRejecting_ok {tr : List HostEv} {ret : Bytes} (h : EndsRejecting tr (.ok ret)) :
    eventsOf tr = [resultEvent false 0 none] ∧ writesOf tr = [] ∧
      ∃ msg, ret = encodeEvmResult false msg 0 none := by
  obtain ⟨lines, rest, msg, hlines, hexec, rfl⟩ := h
  obtain ⟨hev, hwr, hret⟩ := exec_rejectSubmit hexec
  obtain ⟨hev', hwr'⟩ := quiet_trace fun e he => isLog_quiet (hlines e he)
  rw [eventsOf_append, writesOf_append, hev, hwr, hev', hwr']
  exact ⟨rfl, rfl, msg, hret⟩

/-- What a response says: the events of the call, and the bytes it
returns. -/
def Responds (events : List Emitted) (ret : Bytes) (logs : List Log) (success : Bool)
    (gasUsed : UInt64) (contractAddress : Option Address) : Prop :=
  events = logs.map logEvent ++ [resultEvent success gasUsed contractAddress] ∧
    ∃ output, ret = encodeEvmResult success output gasUsed contractAddress

/-- The flag a result is reported with. -/
def succeeds : ExecutionResult → Bool
  | .success .. => true
  | .revert .. => false
  | .halt .. => false

/-- `execution_result_to_response` in the emitting paths. -/
theorem exec_response {result : ExecutionResult} {tr : List HostEv} {ret : Bytes}
    (h : Exec (executionResultToResponse result true) tr (.ok ret)) :
    writesOf tr = [] ∧ ∃ logs gasUsed contractAddress,
      Responds (eventsOf tr) ret logs (succeeds result) gasUsed contractAddress ∧
        (logs ≠ [] → succeeds result = true) := by
  cases result with
  | success gasUsed logs output =>
      have hend : ∀ (data : Bytes) (addr : Option Address),
          Exec (do
            emitLogs logs
            emitEvmResultEvent true gasUsed addr
            return encodeEvmResult true data gasUsed addr) tr (.ok ret) →
          writesOf tr = [] ∧
            Responds (eventsOf tr) ret logs true gasUsed addr := by
        intro data addr h
        obtain ⟨_, t₁, t₂, h₁, h₂, rfl⟩ := exec_bind_ok.mp h
        obtain ⟨hev, hwr⟩ := exec_emitLogs_ok h₁
        obtain ⟨hev', hwr', hret⟩ := exec_resultEvent h₂
        rw [writesOf_append, eventsOf_append, hev, hev', hwr, hwr']
        exact ⟨rfl, rfl, data, hret⟩
      cases output with
      | call data =>
          obtain ⟨hwr, hres⟩ := hend data.bytes none h
          exact ⟨hwr, logs, gasUsed, none, hres, fun _ => rfl⟩
      | create data addr =>
          obtain ⟨hwr, hres⟩ := hend data.bytes addr h
          exact ⟨hwr, logs, gasUsed, addr, hres, fun _ => rfl⟩
  | revert gasUsed output =>
      obtain ⟨hev, hwr, hret⟩ := exec_resultEvent h
      exact ⟨hwr, [], gasUsed, none, ⟨hev, _, hret⟩, fun hne => absurd rfl hne⟩
  | halt gasUsed =>
      obtain ⟨hev, hwr, hret⟩ := exec_resultEvent h
      exact ⟨hwr, [], gasUsed, none, ⟨hev, _, hret⟩, fun hne => absurd rfl hne⟩

/-- A committed execution responds. -/
theorem endsCommitting_ok {result : ExecutionResult} {state : EvmState}
    {tr : List HostEv} {ret : Bytes} (h : EndsCommitting result state tr (.ok ret)) :
    ∃ logs gasUsed contractAddress,
      Responds (eventsOf tr) ret logs (succeeds result) gasUsed contractAddress ∧
        (logs ≠ [] → succeeds result = true) := by
  obtain ⟨_, t₁, t₂, h₁, h₂, rfl⟩ := exec_bind_ok.mp h
  obtain ⟨-, hres⟩ := exec_response h₂
  rw [eventsOf_append, eventless_trace (exec_uses h₁ (eventless_commit state)),
    List.nil_append]
  exact hres

-- ======================================================= the view path

/-- `execution_result_to_response` in the read-only path. -/
theorem response_view (result : ExecutionResult) :
    Uses Quiet Aborts (executionResultToResponse result false) := by
  cases result with
  | success gasUsed logs output => cases output <;> exact uses_pure _
  | revert gasUsed output => exact uses_pure _
  | halt gasUsed => exact uses_pure _

theorem quiet_handleCallView (revm : Revm) (args : Bytes) :
    Uses Quiet Aborts (handleCallView revm args) := by
  refine uses_bind (uses_bind reads_buildBlockEnv.quiet fun block => ?_) fun r => ?_
  · refine uses_bind (quiet_transact _ _ _) fun r => ?_
    cases r with
    | error e => exact uses_pure _
    | ok out => exact uses_pure _
  · cases r with
    | ok result => exact response_view result
    | error e => exact uses_bind (uses_log quiet_log _) fun _ => uses_pure _

-- =========================================================== the result

/-- A submission that returns responds; a rejected one without gas and
without a write. -/
theorem submit_responds {tr : List HostEv} {ret : Bytes}
    (h : Exec (handleSubmitRawTx revm rlp args) tr (.ok ret)) :
    ∃ logs success gasUsed contractAddress,
      Responds (eventsOf tr) ret logs success gasUsed contractAddress ∧
      (logs ≠ [] → success = true) ∧
      ∀ pre, Rejected revm rlp args pre → pre <+: tr →
        success = false ∧ gasUsed = 0 ∧ writesOf tr = [] := by
  cases submit_ends h with
  | @rejects pre post _ hrej hend =>
      obtain ⟨hev, hwr, msg, hret⟩ := endsRejecting_ok hend
      obtain ⟨hev', hwr'⟩ := quiet_trace hrej.quiet
      rw [eventsOf_append, writesOf_append, hev, hwr, hev', hwr']
      refine ⟨[], false, 0, none, ⟨rfl, msg, hret⟩, fun hne => absurd rfl hne, ?_⟩
      intro _ _ _
      exact ⟨rfl, rfl, rfl⟩
  | @commits pre post _ p result state heval hend =>
      obtain ⟨logs, gasUsed, contractAddress, hres, hlogs⟩ := endsCommitting_ok hend
      rw [eventsOf_append, (quiet_trace heval.quiet).1, List.nil_append]
      refine ⟨logs, succeeds result, gasUsed, contractAddress, hres, hlogs, ?_⟩
      intro pre' hrej hpre
      obtain ⟨rest, heq⟩ := hpre
      obtain ⟨e, he⟩ := heval.rejected hrej heq.symm
      cases he

/-- A submission that returns emitted its logs and one result, in this
order and nothing else, returned the same result, and logged only if it
succeeded; a rejected one wrote nothing and used no gas. A view call
emits nothing and writes nothing, however it ends. -/
theorem submit_reports_once (revm : Revm) (rlp : AlloyRlp) :
    (∀ args tr ret, Exec (handleSubmitRawTx revm rlp args) tr (.ok ret) →
      ∃ logs success gasUsed contractAddress,
        Responds (eventsOf tr) ret logs success gasUsed contractAddress ∧
        (logs ≠ [] → success = true) ∧
        ∀ pre, Rejected revm rlp args pre → pre <+: tr →
          success = false ∧ gasUsed = 0 ∧ writesOf tr = []) ∧
    (∀ args tr o, Exec (handleCallView revm args) tr o →
      eventsOf tr = [] ∧ writesOf tr = []) := by
  refine ⟨?_, ?_⟩
  · intro args tr ret h
    exact submit_responds h
  · intro args tr o h
    exact quiet_trace (exec_uses h (quiet_handleCallView revm args))

/-- The sample transfer, run on a new contract. -/
def zeroTransferRun : Run Syscall (fun _ => Reply) Exit Bytes Store :=
  (handleSubmitRawTx transferRevm strictRlp submitZeroTransfer.arguments).run
    (mapHost sampleChain submitZeroTransfer) emptyStore

theorem zeroTransfer_reported :
    eventsOf zeroTransferRun.trace = [resultEvent true 21000 none] ∧
      ∃ logs success gasUsed contractAddress,
        Responds (eventsOf zeroTransferRun.trace) (encodeEvmResult true [] 21000 none) logs
          success gasUsed contractAddress := by
  have hexec : Exec (handleSubmitRawTx transferRevm strictRlp submitZeroTransfer.arguments)
      zeroTransferRun.trace zeroTransferRun.outcome := run_exec _ _ _
  rw [show zeroTransferRun.outcome = .ok (encodeEvmResult true [] 21000 none) by
    decide +kernel] at hexec
  refine ⟨by decide +kernel, ?_⟩
  obtain ⟨logs, success, gasUsed, contractAddress, hres, -⟩ :=
    (submit_reports_once transferRevm strictRlp).1 _ _ _ hexec
  exact ⟨logs, success, gasUsed, contractAddress, hres⟩

end KoinosEvm.Proofs
