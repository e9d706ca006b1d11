/-
The status of a relayed transaction, from the engine's call to the
proxy's receipt.

The chain keeps the events of a call that exits with success and drops
those of an aborted one; both kinds are included. The decoder starts from
success (`DecodedEvents.initial`), so a receipt without events reads as a
success: an aborted submission is reported as one although it emitted no
`evm.result` (`aborted_events`). A submission that comes to its end is
reported as it ended (`submit_reports`). Which of the two a run is, is
decided by the replies it gets (`Smooth`) and by revm.
-/
import KoinosEvm.Proofs.SubmitEvents

namespace KoinosEvm.Proofs

open Engine Proxy Lib

-- ======================================================== governed ends

theorem governed_response (result : ExecutionResult) :
    Governed Smooth (executionResultToResponse result true) := by
  cases result with
  | success gasUsed logs output =>
      refine governed_bind (governed_emitLogs logs) fun _ => ?_
      cases output with
      | call data => exact governed_bind (governed_event _ _ _) fun _ => governed_pure _
      | create data addr => exact governed_bind (governed_event _ _ _) fun _ => governed_pure _
  | revert gasUsed output => exact governed_bind (governed_event _ _ _) fun _ => governed_pure _
  | halt gasUsed => exact governed_bind (governed_event _ _ _) fun _ => governed_pure _

theorem governed_rejectSubmit (msg : Bytes) : Governed Smooth (rejectSubmit msg) :=
  governed_bind (governed_event _ _ _) fun _ => governed_pure _

section Returns

variable {revm : Revm} {rlp : AlloyRlp} {args : Bytes} {tr : List HostEv}

theorem Passes.smooth {p : ParsedTx} (h : Passes rlp args p tr) : ∀ e ∈ tr, Smooth e := by
  obtain ⟨hparse, hread, -⟩ := h
  rw [List.forall_mem_append]
  exact ⟨(reads_parseRaw rlp _).governed.ensures _ _ hparse.parse,
    (reads_basic _).governed.ensures _ _ hread⟩

theorem Evaluates.smooth {p : ParsedTx} {r : Except EvmError (ExecutionResult × EvmState)}
    (h : Evaluates revm rlp args p (.ok r) tr) : ∀ e ∈ tr, Smooth e := by
  obtain ⟨hpass, hblock, hrun⟩ := h
  rw [List.forall_mem_append, List.forall_mem_append]
  exact ⟨⟨hpass.smooth, reads_buildBlockEnv.governed.ensures _ _ hblock⟩,
    ensures_transact _ _ _ _ _ hrun⟩

theorem Rejected.smooth (h : Rejected revm rlp args tr) : ∀ e ∈ tr, Smooth e := by
  cases h with
  | empty _ => simp
  | parse _ hparse => exact (reads_parseRaw rlp _).governed.ensures _ _ hparse
  | chainId _ hparse _ _ => exact (reads_parseRaw rlp _).governed.ensures _ _ hparse
  | read hparse hread =>
      rw [List.forall_mem_append]
      exact ⟨(reads_parseRaw rlp _).governed.ensures _ _ hparse.parse,
        (reads_basic _).governed.ensures _ _ hread⟩
  | nonce hparse hread _ =>
      rw [List.forall_mem_append]
      exact ⟨(reads_parseRaw rlp _).governed.ensures _ _ hparse.parse,
        (reads_basic _).governed.ensures _ _ hread⟩
  | evm heval => exact heval.smooth

/-- The end of a rejection returns exactly when its event was accepted. -/
theorem endsRejecting_iff {o : Except Exit Bytes} (h : EndsRejecting tr o) :
    (∃ ret, o = .ok ret) ↔ ∀ e ∈ tr, Smooth e := by
  obtain ⟨lines, rest, msg, hlines, hexec, rfl⟩ := h
  rw [governed_rejectSubmit msg _ _ hexec, List.forall_mem_append]
  exact ⟨fun h => ⟨fun e he => smooth_of_isLog (hlines e he), h⟩, fun h => h.2⟩

/-- The end of an execution returns exactly when every write and every
event was accepted. -/
theorem endsCommitting_iff {result : ExecutionResult} {state : EvmState}
    {o : Except Exit Bytes} (h : EndsCommitting result state tr o) :
    (∃ ret, o = .ok ret) ↔ ∀ e ∈ tr, Smooth e :=
  governed_bind (governed_commit state) (fun _ => governed_response result) _ _ h

/-- A submission returns exactly when the replies were smooth and revm
did not halt. -/
theorem submit_returns_iff {o : Except Exit Bytes}
    (h : Exec (handleSubmitRawTx revm rlp args) tr o) :
    (∃ ret, o = .ok ret) ↔
      (∀ e ∈ tr, Smooth e) ∧ ¬ ∃ p x, Evaluates revm rlp args p (.error x) tr := by
  cases submit_ends h with
  | @rejects pre post _ hrej hend =>
      rw [endsRejecting_iff hend, List.forall_mem_append]
      refine ⟨?_, fun h => h.1.2⟩
      intro hsmooth
      refine ⟨⟨hrej.smooth, hsmooth⟩, ?_⟩
      intro hhalt
      obtain ⟨p, x, heval⟩ := hhalt
      obtain ⟨e, he⟩ := heval.rejected hrej (List.append_nil (pre ++ post))
      cases he
  | @commits pre post _ p result state heval hend =>
      rw [endsCommitting_iff hend, List.forall_mem_append]
      refine ⟨?_, fun h => h.1.2⟩
      intro hsmooth
      refine ⟨⟨heval.smooth, hsmooth⟩, ?_⟩
      intro hhalt
      obtain ⟨q, x, heval'⟩ := hhalt
      obtain ⟨-, he, -, -⟩ := heval.unique heval' (List.append_nil (pre ++ post)).symm
      cases he
  | stalls _ hrough _ =>
      refine ⟨?_, fun h => absurd h.1 hrough⟩
      intro hok
      obtain ⟨ret, hret⟩ := hok
      cases hret
  | panics heval _ =>
      refine ⟨?_, fun h => absurd ⟨_, _, heval⟩ h.2⟩
      intro hok
      obtain ⟨ret, hret⟩ := hok
      cases hret

end Returns

-- ======================================================= aborted calls

/-- A refused event is not in the receipt. -/
theorem exec_event_aborted {name : String} {data : Bytes} {impacted : List Bytes}
    {tr : List HostEv} {x : Exit} (h : Exec (Sys.event name data impacted) tr (.error x)) :
    eventsOf tr = [] := by
  obtain ⟨reply, ⟨-, -, hx⟩ | ⟨hrc, -, msg, reply', rfl⟩⟩ := exec_must h
  · cases hx
  · simp [eventsOf, eventOf, hrc]

/-- Only logs were emitted. -/
def OnlyLogs (tr : List HostEv) : Prop := ∀ e ∈ eventsOf tr, e.name = "evm.log"

theorem onlyLogs_of_nil {tr : List HostEv} (h : eventsOf tr = []) : OnlyLogs tr := by
  intro e he
  rw [h] at he
  cases he

theorem onlyLogs_append {xs ys : List HostEv} (hx : OnlyLogs xs) (hy : OnlyLogs ys) :
    OnlyLogs (xs ++ ys) := by
  unfold OnlyLogs
  rw [eventsOf_append, List.forall_mem_append]
  exact ⟨hx, hy⟩

theorem onlyLogs_cons_getArguments (reply : Reply) {tr : List HostEv} (h : OnlyLogs tr) :
    OnlyLogs (⟨.getArguments, reply⟩ :: tr) := h

theorem onlyLogs_emitLogs {logs : List Log} {tr : List HostEv} {o : Except Exit Unit}
    (h : Exec (emitLogs logs) tr o) : OnlyLogs tr := by
  induction logs generalizing tr with
  | nil =>
      obtain ⟨rfl, -⟩ := exec_ret.mp h
      exact onlyLogs_of_nil rfl
  | cons log logs ih =>
      rcases exec_bind.mp h with ⟨x, hx, -⟩ | ⟨_, t₁, t₂, h₁, h₂, rfl⟩
      · exact onlyLogs_of_nil (exec_event_aborted hx)
      · refine onlyLogs_append ?_ (ih h₂)
        intro e he
        rw [(exec_event_ok h₁).1] at he
        rw [List.mem_singleton.mp he]

/-- A response that aborts got no further than its logs. -/
theorem response_aborted {result : ExecutionResult} {tr : List HostEv} {x : Exit}
    (h : Exec (executionResultToResponse result true) tr (.error x)) : OnlyLogs tr := by
  have hlast : ∀ {success gasUsed addr ret} {t : List HostEv},
      Exec (emitEvmResultEvent success gasUsed addr >>= fun _ => (pure ret : HostM Bytes)) t
        (.error x) → OnlyLogs t := by
    intro success gasUsed addr ret t h
    rcases exec_bind.mp h with ⟨y, hy, -⟩ | ⟨_, t₁, t₂, -, h₂, -⟩
    · exact onlyLogs_of_nil (exec_event_aborted hy)
    · obtain ⟨-, hx⟩ := exec_ret.mp h₂
      cases hx
  cases result with
  | success gasUsed logs output =>
      rcases exec_bind.mp h with ⟨y, hy, -⟩ | ⟨_, t₁, t₂, h₁, h₂, rfl⟩
      · exact onlyLogs_emitLogs hy
      · refine onlyLogs_append (onlyLogs_emitLogs h₁) ?_
        cases output with
        | call data => exact hlast h₂
        | create data addr => exact hlast h₂
  | revert gasUsed output => exact hlast h
  | halt gasUsed => exact hlast h

/-- An aborted submission emitted no `evm.result`. -/
theorem aborted_events {revm : Revm} {rlp : AlloyRlp} {args : Bytes} {tr : List HostEv}
    {x : Exit} (h : Exec (handleSubmitRawTx revm rlp args) tr (.error x)) : OnlyLogs tr := by
  cases submit_ends h with
  | @rejects pre post _ hrej hend =>
      refine onlyLogs_append (onlyLogs_of_nil (quiet_trace hrej.quiet).1) ?_
      obtain ⟨lines, rest, msg, hlines, hexec, rfl⟩ := hend
      refine onlyLogs_append
        (onlyLogs_of_nil (quiet_trace fun e he => isLog_quiet (hlines e he)).1) ?_
      rcases exec_bind.mp hexec with ⟨y, hy, -⟩ | ⟨_, t₁, t₂, -, h₂, -⟩
      · exact onlyLogs_of_nil (exec_event_aborted hy)
      · obtain ⟨-, hx⟩ := exec_ret.mp h₂
        cases hx
  | @commits pre post _ p result state heval hend =>
      refine onlyLogs_append (onlyLogs_of_nil (quiet_trace heval.quiet).1) ?_
      rcases exec_bind.mp hend with ⟨y, hy, -⟩ | ⟨_, t₁, t₂, h₁, h₂, rfl⟩
      · exact onlyLogs_of_nil (eventless_trace (exec_uses hy (eventless_commit state)))
      · exact onlyLogs_append
          (onlyLogs_of_nil (eventless_trace (exec_uses h₁ (eventless_commit state))))
          (response_aborted h₂)
  | stalls hquiet _ _ => exact onlyLogs_of_nil (quiet_trace hquiet).1
  | panics heval _ => exact onlyLogs_of_nil (quiet_trace heval.quiet).1

/-- A submission that does not return aborts: it never exits with a
result of its own. -/
theorem submit_aborts {revm : Revm} {rlp : AlloyRlp} {args : Bytes} {tr : List HostEv}
    {x : Exit} (h : Exec (handleSubmitRawTx revm rlp args) tr (.error x)) : Aborts x := by
  cases submit_ends h with
  | rejects _ hend =>
      obtain ⟨lines, rest, msg, -, hexec, -⟩ := hend
      exact exec_halts hexec (uses_rejectSubmit (P := fun _ => True) (fun _ => trivial)
        (fun _ _ _ => trivial) msg)
  | @commits pre post _ p result state heval hend =>
      rcases exec_bind.mp hend with ⟨y, hy, hxy⟩ | ⟨_, t₁, t₂, -, h₂, -⟩
      · injection hxy with hxy
        rw [hxy]
        exact exec_halts hy (eventless_commit state)
      · exact exec_halts h₂ (uses_response (P := fun _ => True) (fun _ => trivial)
          (fun _ _ _ => trivial) result)
  | stalls _ _ hx => exact hx
  | panics _ hx => exact hx

-- ============================================================ the call

/-- The call is a submission: `get_arguments` says so. -/
def SubmitCall (args : Bytes) (tr : List HostEv) : Prop :=
  ∃ reply rest, tr = ⟨.getArguments, reply⟩ :: rest ∧ reply.rc = 0 ∧
    Sys.decodeArguments reply.out = ⟨EP_SUBMIT_RAW_TX, args⟩

section Start

variable {build : Build} {revm : Revm} {rlp : AlloyRlp} {args : Bytes} {tr : List HostEv}
  {o : Except Exit Unit}

/-- A submission runs the arm and exits with its bytes. -/
theorem start_submit (h : Exec (start build revm rlp) tr o) (hcall : SubmitCall args tr) :
    ∃ reply rest, tr = ⟨.getArguments, reply⟩ :: rest ∧
      Exec (dispatch build revm rlp ⟨EP_SUBMIT_RAW_TX, args⟩ >>= Sys.exitSuccess) rest o := by
  obtain ⟨reply, rest, rfl, hrc, hargs⟩ := hcall
  unfold start Sys.getArguments at h
  rw [bind_assoc] at h
  rcases exec_bind.mp h with ⟨x, hx, -⟩ | ⟨result, t₁, t₂, h₁, h₂, heq⟩
  · obtain ⟨_, ⟨-, -, hx⟩ | ⟨-, hx, -⟩⟩ := exec_callSystem hx
    · cases hx
    · cases hx
  · rw [pure_bind] at h₂
    obtain ⟨reply', ⟨-, rfl, hr⟩ | ⟨hrc', -, msg, reply'', rfl⟩⟩ := exec_callSystem h₁
    · injection heq with hhead htail
      injection hhead with _ hreply
      subst hreply
      injection hr with hr
      rw [hr, hargs] at h₂
      exact ⟨reply, rest, rfl, by rw [htail]; exact h₂⟩
    · injection heq with hhead htail
      injection hhead with _ hreply
      rw [hreply] at hrc
      exact absurd hrc hrc'

end Start

-- ========================================================= the receipt

/-- The `events` of the call's receipt: those emitted, as the node renders
them, if the call exited with success; none if it was aborted. -/
def Receipt (b64 : Base64) (tr : List HostEv) (o : Except Exit Unit)
    (events : Option (List Value)) : Prop :=
  match o with
  | .error (.success _) => ∃ evs, events = some evs ∧
      List.Forall₂ (Rendered b64) (eventsOf tr) evs
  | _ => events = none ∨ events = some []

/-- The proxy's status is `true` only if the engine emitted an
`evm.result` with `success = true`. -/
def ReportsTruly (checks : Checks) (b64 : Base64) (tr : List HostEv)
    (events : Option (List Value)) : Prop :=
  ∀ d, decodeReceiptEvents checks b64 events = .ok d → d.status = true →
    ∃ gasUsed contractAddress, resultEvent true gasUsed contractAddress ∈ eventsOf tr

section Status

variable {checks : Checks} {b64 : Base64} {build : Build} {revm : Revm} {rlp : AlloyRlp}
  {args : Bytes} {tr : List HostEv} {o : Except Exit Unit} {events : Option (List Value)}

/-- An aborted call reads as a success it did not emit. -/
theorem not_reportsTruly_of_aborted {msg : Bytes}
    (hreceipt : Receipt b64 tr (.error (.failure msg)) events) (hlogs : OnlyLogs tr) :
    ¬ ReportsTruly checks b64 tr events := by
  intro htrue
  have hdecode : decodeReceiptEvents checks b64 events = .ok .initial := by
    have hnone : events = none ∨ events = some [] := hreceipt
    rcases hnone with rfl | rfl
    · rfl
    · rfl
  obtain ⟨gasUsed, contractAddress, hmem⟩ := htrue _ hdecode rfl
  have hname : "evm.result" = "evm.log" := hlogs _ hmem
  exact absurd hname (by decide)

/-- A call that came to its end is reported as it ended. -/
theorem reportsTruly_of_returned {ret data : Bytes}
    {logs : List Log} {success : Bool} {gasUsed : UInt64} {contractAddress : Option Address}
    (hreceipt : Receipt b64 tr (.error (.success data)) events)
    (hres : Responds (eventsOf tr) ret logs success gasUsed contractAddress) :
    ReportsTruly checks b64 tr events := by
  obtain ⟨evs, rfl, hevs⟩ := hreceipt
  rw [hres.1] at hevs
  intro d hd hstatus
  rw [decodeReceiptEvents_rendered checks hevs] at hd
  injection hd with hd
  rw [← hd] at hstatus
  have hstatus : success = true := hstatus
  rw [hres.1, hstatus]
  exact ⟨gasUsed, contractAddress, by simp⟩

theorem smooth_getArguments (reply : Reply) : Smooth ⟨.getArguments, reply⟩ := by
  refine ⟨?_, ?_⟩
  · intro h
    cases h
  · intro h
    cases h

/-- The proxy reports a submission truly exactly when the build has the
EVM, every state and event syscall succeeded and every contract id was
there, and revm did not panic. -/
theorem reportedStatus_iff (h : Exec (start build revm rlp) tr o)
    (hcall : SubmitCall args tr) (hreceipt : Receipt b64 tr o events) :
    ReportsTruly checks b64 tr events ↔
      build.evm = true ∧ (∀ e ∈ tr, Smooth e) ∧
        ¬ ∃ p x, Evaluates revm rlp args p (.error x) tr.tail := by
  obtain ⟨reply, rest, rfl, hrun⟩ := start_submit h hcall
  by_cases hevm : build.evm = true
  · rw [dispatch_submit hevm] at hrun
    rcases exec_bind.mp hrun with ⟨x, hx, rfl⟩ | ⟨ret, t₁, t₂, hret, hexit, rfl⟩
    · -- aborted: neither side holds
      have hlogs := onlyLogs_cons_getArguments reply (aborted_events hx)
      have hreturns := submit_returns_iff hx
      obtain ⟨msg, rfl⟩ := submit_aborts hx
      refine iff_of_false (not_reportsTruly_of_aborted hreceipt hlogs) ?_
      intro hcond
      obtain ⟨-, hsmooth, hhalt⟩ := hcond
      rw [List.forall_mem_cons] at hsmooth
      obtain ⟨ret, hret⟩ := hreturns.mpr ⟨hsmooth.2, hhalt⟩
      cases hret
    · -- returned: both sides hold
      obtain ⟨rfl, rfl⟩ := exec_halt.mp hexit
      rw [List.append_nil] at hreceipt ⊢
      obtain ⟨hsmooth, hhalt⟩ := (submit_returns_iff hret).mp ⟨ret, rfl⟩
      obtain ⟨logs, success, gasUsed, contractAddress, hres, -⟩ := submit_responds hret
      refine iff_of_true (reportsTruly_of_returned hreceipt hres) ⟨hevm, ?_, hhalt⟩
      rw [List.forall_mem_cons]
      exact ⟨smooth_getArguments reply, hsmooth⟩
  · rw [dispatch_submit_disabled hevm] at hrun
    refine iff_of_false ?_ fun hcond => hevm hcond.1
    rw [bind_assoc] at hrun
    obtain ⟨rfl, hlines⟩ := exec_fatal hrun
    refine not_reportsTruly_of_aborted hreceipt (onlyLogs_cons_getArguments reply ?_)
    exact onlyLogs_of_nil (quiet_trace fun e he => isLog_quiet (hlines e he)).1

end Status

/-- The sample transfer on a host that does not accept writes. -/
@[irreducible] def refusedRun : Run Syscall (fun _ => Reply) Exit Unit Store :=
  (start evmBuild transferRevm strictRlp).run
    (refusing isWrite (mapHost sampleChain submitZeroTransfer)) emptyStore

theorem refusedRun_exec :
    Exec (start evmBuild transferRevm strictRlp) refusedRun.trace refusedRun.outcome := by
  unfold refusedRun
  exact run_exec _ _ _

theorem refusedRun_submits : SubmitCall submitZeroTransfer.arguments refusedRun.trace := by
  refine ⟨⟨0, encodeArguments submitZeroTransfer⟩, refusedRun.trace.tail, ?_, ?_, ?_⟩
  · decide +kernel
  · rfl
  · decide +kernel

theorem refusedRun_receipt :
    Receipt urlSafeBase64 refusedRun.trace refusedRun.outcome none := by
  rw [show refusedRun.outcome = .error (.failure (utf8 "state syscall 301 rc=1")) by
    decide +kernel]
  exact Or.inl rfl

theorem refusedWrite_misreported :
    Exec (start evmBuild transferRevm strictRlp) refusedRun.trace refusedRun.outcome ∧
      SubmitCall submitZeroTransfer.arguments refusedRun.trace ∧
      Receipt urlSafeBase64 refusedRun.trace refusedRun.outcome none ∧
      ¬ ReportsTruly .on urlSafeBase64 refusedRun.trace none := by
  refine ⟨refusedRun_exec, refusedRun_submits, refusedRun_receipt, ?_⟩
  intro h
  obtain ⟨gasUsed, contractAddress, hmem⟩ := h .initial rfl rfl
  rw [show eventsOf refusedRun.trace = [] by decide +kernel] at hmem
  cases hmem

theorem refusedWrite_status_iff :
    ReportsTruly .on urlSafeBase64 refusedRun.trace none ↔
      evmBuild.evm = true ∧ (∀ e ∈ refusedRun.trace, Smooth e) ∧
        ¬ ∃ p x, Evaluates transferRevm strictRlp submitZeroTransfer.arguments p (.error x)
          refusedRun.trace.tail :=
  reportedStatus_iff refusedRun_exec refusedRun_submits refusedRun_receipt

end KoinosEvm.Proofs
