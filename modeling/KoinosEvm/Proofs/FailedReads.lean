/-
Failed reads.

`call_system` logs a nonzero code and returns no bytes, `get_object` takes
no bytes for an absent object, and `basic`, `code_by_hash` and `storage`
take an absent object for the default. So the handler's error branch is
never reached, and a read that failed passes for an absent value: with the
sender's account unreadable a transaction of nonce 0 passes the nonce
check (`failed_basic`), whatever nonce the account has.

What is left is to say when that is harmless. A submission with a failed
read ends in a rejection or an abort unless it goes through: revm accepts
the transaction, the syscalls behind it succeed, and there is something to
report or to write (`GoesThrough`).
-/
import KoinosEvm.Proofs.ReportedStatus

namespace KoinosEvm.Proofs

open Engine Engine.Proto Lib

-- ======================================================= the nonce check

theorem readFails_append {xs ys : List HostEv} :
    ReadFails (xs ++ ys) ↔ ReadFails xs ∨ ReadFails ys := by
  unfold ReadFails
  refine ⟨?_, ?_⟩
  · intro h
    obtain ⟨space, key, reply, hmem, hrc⟩ := h
    rcases List.mem_append.mp hmem with hmem | hmem
    · exact Or.inl ⟨space, key, reply, hmem, hrc⟩
    · exact Or.inr ⟨space, key, reply, hmem, hrc⟩
  · intro h
    rcases h with ⟨space, key, reply, hmem, hrc⟩ | ⟨space, key, reply, hmem, hrc⟩
    · exact ⟨space, key, reply, List.mem_append_left _ hmem, hrc⟩
    · exact ⟨space, key, reply, List.mem_append_right _ hmem, hrc⟩

theorem not_readFails_of_uses {α : Type} {p : HostM α} {tr : List HostEv}
    {o : Except Exit α} (h : Exec p tr o)
    (hp : Uses (fun call => ∀ space key, call ≠ .getObject space key) Aborts p) :
    ¬ ReadFails tr := by
  intro hfail
  obtain ⟨space, key, reply, hmem, -⟩ := hfail
  exact exec_uses h hp _ hmem space key rfl

/-- A read that failed returns no object. -/
theorem failed_getObject {space : ObjectSpace} {key : Bytes} {tr : List HostEv}
    {object : Option Bytes} (h : Exec (Sys.getObject space key) tr (.ok object))
    (hfail : ReadFails tr) : object = none := by
  obtain ⟨result, t₁, t₂, h₁, h₂, rfl⟩ := exec_bind_ok.mp h
  obtain ⟨reply, ⟨hrc, rfl, -⟩ | ⟨-, hr, msg, reply', rfl⟩⟩ := exec_callSystem h₁
  · -- the only read of the trace succeeded
    have hrest : t₂ = [] := by
      split at h₂
      · exact (exec_ret.mp h₂).1
      · exact (exec_ret.mp h₂).1
    rw [hrest] at hfail
    obtain ⟨_, _, reply', hmem, hne⟩ := hfail
    cases List.mem_singleton.mp hmem
    exact absurd hrc hne
  · injection hr with hr
    rw [hr] at h₂
    obtain ⟨-, ho⟩ := exec_ret.mp h₂
    injection ho

/-- The sender's account, where it could not be read, is taken for
absent. -/
theorem failed_basic {address : Address} {tr : List HostEv}
    {r : Except KoinosDbError (Option AccountInfo)}
    (h : Exec (basic address) tr (.ok r)) (hfail : ReadFails tr) : r = .ok none := by
  obtain ⟨space, t₁, t₂, h₁, h₂, rfl⟩ := exec_bind_ok.mp h
  obtain ⟨object, t₃, t₄, h₃, h₄, rfl⟩ := exec_bind_ok.mp h₂
  have ht₄ : t₄ = [] := by
    cases object with
    | none => exact (exec_ret.mp h₄).1
    | some data => exact (exec_ret.mp h₄).1
  rw [readFails_append, readFails_append] at hfail
  rcases hfail with hfail | hfail | hfail
  · exact absurd hfail (not_readFails_of_uses h₁
      (uses_engineSpace (fun _ _ _ => by simp) (fun _ _ => by simp) _))
  · rw [failed_getObject h₃ hfail] at h₄
    obtain ⟨-, ho⟩ := exec_ret.mp h₄
    injection ho
  · rw [ht₄] at hfail
    obtain ⟨_, _, _, hmem, -⟩ := hfail
    cases hmem

-- ============================================================= the end

/-- A failed and a successful result are different events. -/
theorem resultEvent_success_inj {success success' : Bool} {gasUsed gasUsed' : UInt64}
    {addr addr' : Option Address}
    (h : resultEvent success gasUsed addr = resultEvent success' gasUsed' addr') :
    success = success' := by
  have hdata : encodeResultEvent success gasUsed addr
      = encodeResultEvent success' gasUsed' addr' := congrArg Emitted.data h
  have hcode : ∀ (b : Bool) (rest : Bytes),
      encodeTag 1 wireVarint ++ encodeVarint (if b then 1 else 0) ++ rest
        = 8 :: (if b then 1 else 0) :: rest := by
    intro b rest
    cases b
    · rfl
    · rfl
  unfold encodeResultEvent at hdata
  simp only [hcode, List.cons_append] at hdata
  injection hdata with _ hdata
  injection hdata with hflag _
  cases success <;> cases success' <;> first | rfl | cases hflag

/-- What a response says about its success. -/
theorem mem_responds_iff {events : List Emitted} {ret : Bytes} {logs : List Log}
    {success : Bool} {gasUsed : UInt64} {contractAddress : Option Address}
    (h : Responds events ret logs success gasUsed contractAddress) (b : Bool) :
    (∃ gasUsed' addr', resultEvent b gasUsed' addr' ∈ events) ↔ success = b := by
  rw [h.1]
  refine ⟨?_, ?_⟩
  · intro hmem
    obtain ⟨gasUsed', addr', hmem⟩ := hmem
    rcases List.mem_append.mp hmem with hmem | hmem
    · obtain ⟨log, -, hlog⟩ := List.mem_map.mp hmem
      have hname : "evm.log" = "evm.result" := congrArg Emitted.name hlog
      exact absurd hname (by decide)
    · exact (resultEvent_success_inj (List.mem_singleton.mp hmem)).symm
  · intro hb
    rw [hb]
    exact ⟨gasUsed, contractAddress, List.mem_append_right _ (List.mem_singleton_self _)⟩

section Safe

variable (revm : Revm) (rlp : AlloyRlp) (args : Bytes)

/-- The call returned a failure and left no write. -/
def EndsRejected (tr : List HostEv) (o : Except Exit Bytes) : Prop :=
  (∃ ret, o = .ok ret) ∧
    (∃ gasUsed contractAddress, resultEvent false gasUsed contractAddress ∈ eventsOf tr) ∧
    writesOf tr = []

/-- No failed read passes for an absent value: with one, the call is
aborted or rejected; and the nonce check does not pass on a sender's
account that could not be read. -/
structure ReadsSafely (tr : List HostEv) (o : Except Exit Bytes) : Prop where
  flagged : ReadFails tr → (∃ x, o = .error x) ∨ EndsRejected tr o
  sender : ∀ p t₁ t₂ account, Parses rlp args p t₁ →
    Exec (basic p.sender) t₂ (.ok (.ok account)) → t₁ ++ t₂ <+: tr → ReadFails t₂ →
    p.nonce ≠ nonceOf account

/-- revm accepts the transaction, every syscall behind it succeeds, and
its result is a success or its change set touches an account. -/
def GoesThrough (tr : List HostEv) : Prop :=
  ∃ p result state pre post, Evaluates revm rlp args p (.ok (.ok (result, state))) pre ∧
    tr = pre ++ post ∧ (∀ e ∈ post, Smooth e) ∧
    (succeeds result = true ∨ Touches state)

variable {revm rlp args} {tr : List HostEv} {o : Except Exit Bytes}

/-- A commit whose syscalls succeed leaves a rejection exactly if there
was nothing to report and nothing to write. -/
theorem endsCommitting_rejected_iff {result : ExecutionResult} {state : EvmState}
    {pre post : List HostEv} {ret : Bytes} (hpre : ∀ e ∈ pre, Quiet e.1)
    (h : EndsCommitting result state post (.ok ret)) :
    EndsRejected (pre ++ post) (.ok ret) ↔
      ¬ (succeeds result = true ∨ Touches state) := by
  obtain ⟨logs, gasUsed, contractAddress, hres, -⟩ := endsCommitting_ok h
  obtain ⟨_, t₁, t₂, h₁, h₂, rfl⟩ := exec_bind_ok.mp h
  obtain ⟨hev, hwr⟩ := quiet_trace hpre
  unfold EndsRejected
  rw [eventsOf_append, hev, List.nil_append, mem_responds_iff hres false, writesOf_append,
    hwr, List.nil_append, writesOf_append, (exec_response h₂).1, List.append_nil,
    commit_writes h₁, not_or, Bool.not_eq_true]
  exact ⟨fun h => h.2, fun h => ⟨⟨ret, rfl⟩, h⟩⟩

/-- A submission is aborted or rejected exactly if it does not go
through. -/
theorem submit_stopped_iff (h : Exec (handleSubmitRawTx revm rlp args) tr o) :
    ((∃ x, o = .error x) ∨ EndsRejected tr o) ↔ ¬ GoesThrough revm rlp args tr := by
  cases submit_ends h with
  | @rejects pre post _ hrej hend =>
      refine iff_of_true ?_ ?_
      · cases o with
        | error x => exact Or.inl ⟨x, rfl⟩
        | ok ret =>
            obtain ⟨hev, hwr, -⟩ := endsRejecting_ok hend
            obtain ⟨hev', hwr'⟩ := quiet_trace hrej.quiet
            right
            unfold EndsRejected
            rw [eventsOf_append, writesOf_append, hev, hwr, hev', hwr']
            exact ⟨⟨ret, rfl⟩, ⟨0, none, List.mem_singleton_self _⟩, rfl⟩
      · intro hthrough
        obtain ⟨p, result, state, pre', post', heval, heq, -, -⟩ := hthrough
        obtain ⟨e, he⟩ := heval.rejected hrej heq.symm
        cases he
  | @commits pre post _ p result state heval hend =>
      have hthrough : GoesThrough revm rlp args (pre ++ post) ↔
          (∀ e ∈ post, Smooth e) ∧ (succeeds result = true ∨ Touches state) := by
        refine ⟨?_, fun h => ⟨p, result, state, pre, post, heval, rfl, h⟩⟩
        intro h
        obtain ⟨p', result', state', pre', post', heval', heq, hcond⟩ := h
        obtain ⟨-, hr, -, rfl⟩ := heval.unique heval' heq
        injection hr with hr
        injection hr with hr
        injection hr with hres hst
        rw [hres, hst]
        exact hcond
      rw [hthrough, ← endsCommitting_iff hend]
      cases o with
      | error x =>
          refine iff_of_true (Or.inl ⟨x, rfl⟩) ?_
          intro h
          obtain ⟨⟨ret, hret⟩, -⟩ := h
          cases hret
      | ok ret =>
          rw [endsCommitting_rejected_iff heval.quiet hend]
          refine ⟨?_, ?_⟩
          · intro h hcond
            rcases h with ⟨x, hx⟩ | h
            · cases hx
            · exact h hcond.2
          · intro h
            exact Or.inr fun hcond => h ⟨⟨ret, rfl⟩, hcond⟩
  | @stalls _ x _ hrough _ =>
      refine iff_of_true (Or.inl ⟨x, rfl⟩) ?_
      intro hthrough
      obtain ⟨p, result, state, pre, post, heval, rfl, hsmooth, -⟩ := hthrough
      apply hrough
      rw [List.forall_mem_append]
      exact ⟨heval.smooth, hsmooth⟩
  | @panics _ q x heval _ =>
      refine iff_of_true (Or.inl ⟨x, rfl⟩) ?_
      intro hthrough
      obtain ⟨p, result, state, pre, post, heval', heq, -, -⟩ := hthrough
      obtain ⟨-, hr, -, -⟩ := heval.unique heval' ((List.append_nil _).trans heq)
      cases hr

/-- A submission reads safely exactly if it does not go through with a
failed read, and no transaction of nonce 0 meets a sender's account that
could not be read. -/
theorem failedReads_iff (h : Exec (handleSubmitRawTx revm rlp args) tr o) :
    ReadsSafely rlp args tr o ↔
      (ReadFails tr → ¬ GoesThrough revm rlp args tr) ∧
      ∀ p t₁ t₂ account, Parses rlp args p t₁ →
        Exec (basic p.sender) t₂ (.ok (.ok account)) → t₁ ++ t₂ <+: tr → ReadFails t₂ →
        p.nonce ≠ 0 := by
  have hzero : ∀ {address t₂ account}, Exec (basic address) t₂ (.ok (.ok account)) →
      ReadFails t₂ → nonceOf account = 0 := by
    intro address t₂ account hread hfail
    have hnone := failed_basic hread hfail
    injection hnone with hnone
    rw [hnone]
    rfl
  refine ⟨?_, ?_⟩
  · intro hsafe
    refine ⟨fun hfail => (submit_stopped_iff h).mp (hsafe.flagged hfail), ?_⟩
    intro p t₁ t₂ account hparse hread hpre hfail
    rw [← hzero hread hfail]
    exact hsafe.sender p t₁ t₂ account hparse hread hpre hfail
  · intro hcond
    refine ⟨fun hfail => (submit_stopped_iff h).mpr (hcond.1 hfail), ?_⟩
    intro p t₁ t₂ account hparse hread hpre hfail
    rw [hzero hread hfail]
    exact hcond.2 p t₁ t₂ account hparse hread hpre hfail

end Safe

-- ============================================================ a replay

/-- A store in which the sample transfer was already made: its sender's
nonce is 1. -/
def usedStore : Store :=
  emptyStore.set (sampleChain.space SPACE_ACCOUNTS) zeroTransfer.sender.bytes
    (some (serializeAccount ⟨0, 1, KECCAK_EMPTY, none⟩))

/-- The reads of the sender's account. -/
def readsSender : Syscall → Bool
  | .getObject space key =>
      space = sampleChain.space SPACE_ACCOUNTS ∧ key = zeroTransfer.sender.bytes
  | _ => false

/-- The same transfer again, on a host that fails to read the sender's
account. -/
@[irreducible] def unreadRun : Run Syscall (fun _ => Reply) Exit Bytes Store :=
  (handleSubmitRawTx transferRevm strictRlp submitZeroTransfer.arguments).run
    (refusing readsSender (mapHost sampleChain submitZeroTransfer)) usedStore

theorem unreadRun_exec :
    Exec (handleSubmitRawTx transferRevm strictRlp submitZeroTransfer.arguments)
      unreadRun.trace unreadRun.outcome := by
  unfold unreadRun
  exact run_exec _ _ _

theorem unreadRun_fails : ReadFails unreadRun.trace := by
  refine ⟨sampleChain.space SPACE_ACCOUNTS, zeroTransfer.sender.bytes, ⟨1, []⟩, ?_, ?_⟩
  · decide +kernel
  · decide

theorem unreadSender_replayed :
    (sampleChain.account usedStore zeroTransfer.sender).map AccountInfo.nonce = some 1 ∧
      zeroTransfer.nonce = 0 ∧
      Exec (handleSubmitRawTx transferRevm strictRlp submitZeroTransfer.arguments)
        unreadRun.trace unreadRun.outcome ∧
      ReadFails unreadRun.trace ∧
      eventsOf unreadRun.trace = [resultEvent true 21000 none] ∧
      ¬ ReadsSafely strictRlp submitZeroTransfer.arguments unreadRun.trace
        unreadRun.outcome := by
  refine ⟨by decide +kernel, rfl, unreadRun_exec, unreadRun_fails, by decide +kernel, ?_⟩
  intro hsafe
  have hok : unreadRun.outcome = .ok (encodeEvmResult true [] 21000 none) := by
    decide +kernel
  have hwrites : writesOf unreadRun.trace ≠ [] := by decide +kernel
  rcases hsafe.flagged unreadRun_fails with ⟨x, hx⟩ | hrej
  · rw [hok] at hx
    cases hx
  · exact hwrites hrej.2.2

theorem unreadSender_safe_iff :
    ReadsSafely strictRlp submitZeroTransfer.arguments unreadRun.trace unreadRun.outcome ↔
      (ReadFails unreadRun.trace →
        ¬ GoesThrough transferRevm strictRlp submitZeroTransfer.arguments unreadRun.trace) ∧
      ∀ p t₁ t₂ account, Parses strictRlp submitZeroTransfer.arguments p t₁ →
        Exec (basic p.sender) t₂ (.ok (.ok account)) → t₁ ++ t₂ <+: unreadRun.trace →
        ReadFails t₂ → p.nonce ≠ 0 :=
  failedReads_iff unreadRun_exec

end KoinosEvm.Proofs
