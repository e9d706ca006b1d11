/-
`handle_submit_raw_tx`, taken apart.

Everything in front of `commit` only reads: it makes no event and touches
no object (`Quiet`). So an execution of the handler is a quiet prefix and
one of three ends: a rejection, for one of six causes (`Rejected`); the
commit of a change set and the response to it, behind a transaction that
passed every check (`Evaluates`); or a halt inside the prefix.
`submit_cases` says this once, and the statements about submissions start
from it.
-/
import KoinosEvm.Proofs.HostCalls
import KoinosEvm.Proofs.TxPlan

namespace KoinosEvm.Proofs

open Engine Lib

-- =============================================================== quiet

/-- The syscall emits no event and changes no object. -/
def Quiet (call : Syscall) : Prop := isMust call = false

theorem quiet_log (msg : Bytes) : Quiet (.log msg) := rfl

theorem quiet_trace {tr : List HostEv} (h : ∀ e ∈ tr, Quiet e.1) :
    eventsOf tr = [] ∧ writesOf tr = [] := by
  refine ⟨?_, ?_⟩
  · apply List.filterMap_eq_nil_iff.mpr
    intro e he
    obtain ⟨call, reply⟩ := e
    have hq := h _ he
    cases call <;> first | rfl | cases hq
  · apply List.filter_eq_nil_iff.mpr
    intro e he
    obtain ⟨call, reply⟩ := e
    have hq := h _ he
    cases call <;> first | exact Bool.false_ne_true | cases hq

/-- A program that only reads: it is quiet, and it returns exactly when
the replies let it. -/
structure Reads {α : Type} (p : HostM α) : Prop where
  quiet : Uses Quiet Aborts p
  governed : Governed Smooth p

theorem reads_pure {α : Type} (a : α) : Reads (pure a : HostM α) :=
  ⟨uses_pure a, governed_pure a⟩

theorem reads_bind {α β : Type} {p : HostM α} {f : α → HostM β} (hp : Reads p)
    (hf : ∀ a, Reads (f a)) : Reads (p >>= f) :=
  ⟨uses_bind hp.quiet fun a => (hf a).quiet, governed_bind hp.governed fun a => (hf a).governed⟩

theorem reads_callSystem {call : Syscall} (h : Quiet call) (hid : call ≠ .getContractId) :
    Reads (callSystem call) :=
  ⟨uses_callSystem quiet_log h, governed_callSystem h hid⟩

theorem reads_hash (code : UInt64) (data : Bytes) : Reads (Sys.hash code data) :=
  reads_bind (reads_callSystem rfl (by simp)) fun _ => reads_pure _

theorem reads_recoverPublicKey (dsaType : UInt64) (signature digest : Bytes)
    (compressed : Bool) :
    Reads (Sys.recoverPublicKey dsaType signature digest compressed) :=
  reads_bind (reads_callSystem rfl (by simp)) fun _ => reads_pure _

theorem reads_getObject (space : ObjectSpace) (key : Bytes) :
    Reads (Sys.getObject space key) := by
  refine reads_bind (reads_callSystem rfl (by simp)) fun result => ?_
  split
  · exact reads_pure _
  · exact reads_pure _

theorem reads_engineSpace (id : UInt32) : Reads (engineSpace id) :=
  ⟨uses_engineSpace quiet_log rfl id, governed_engineSpace id⟩

theorem reads_buildBlockEnv : Reads buildBlockEnv :=
  reads_bind (reads_bind (reads_callSystem rfl (by simp)) fun _ => reads_pure _)
    fun _ => reads_pure _

-- ======================================================== the database

theorem reads_basic (address : Address) : Reads (basic address) := by
  refine reads_bind (reads_engineSpace _) fun space => ?_
  refine reads_bind (reads_getObject _ _) fun object => ?_
  cases object with
  | none => exact reads_pure _
  | some data => exact reads_pure _

theorem reads_codeByHash (codeHash : B256) : Reads (codeByHash codeHash) := by
  unfold codeByHash
  split
  · exact reads_pure _
  · refine reads_bind (reads_engineSpace _) fun space => ?_
    refine reads_bind (reads_getObject _ _) fun object => ?_
    cases object with
    | none => exact reads_pure _
    | some data => exact reads_pure _

theorem reads_storage (address : Address) (index : U256) :
    Reads (storage address index) := by
  refine reads_bind (reads_engineSpace _) fun space => ?_
  refine reads_bind (reads_getObject _ _) fun object => ?_
  cases object with
  | none => exact reads_pure _
  | some data =>
      show Reads (if data.length = 32 then _ else _)
      split
      · exact reads_pure _
      · exact reads_pure _

theorem reads_ecRecover (input : Bytes) (gasLimit : UInt64) :
    Reads (ecRecover input gasLimit) := by
  unfold ecRecover
  split
  · exact reads_pure _
  · simp only
    split
    · exact reads_pure _
    · split
      · exact reads_pure _
      · refine reads_bind (reads_recoverPublicKey _ _ _ _) fun pubkey => ?_
        split
        · exact reads_pure _
        · refine reads_bind (reads_hash _ _) fun multihash => ?_
          split
          · exact reads_pure _
          · exact reads_pure _

theorem reads_runPrecompile (p : Precompile) (input : Bytes) (gasLimit : UInt64) :
    Reads (runPrecompile p input gasLimit) := by
  cases p with
  | ecRecover => exact reads_ecRecover input gasLimit
  | sha256 =>
      simp only [runPrecompile, sha256Run]
      split
      · exact reads_pure _
      · refine reads_bind (reads_hash _ _) fun result => ?_
        split
        · exact reads_pure _
        · exact reads_pure _
  | ripemd160 =>
      simp only [runPrecompile, ripemd160Run]
      split
      · exact reads_pure _
      · refine reads_bind (reads_hash _ _) fun result => ?_
        split
        · exact reads_pure _
        · exact reads_pure _
  | identity =>
      simp only [runPrecompile, identityRun]
      split
      · exact reads_pure _
      · exact reads_pure _

theorem reads_databaseOp (op : DbOp) : Reads (databaseOp op) := by
  cases op with
  | basic address => exact reads_basic address
  | codeByHash codeHash => exact reads_codeByHash codeHash
  | storage address index => exact reads_storage address index
  | blockHash number => exact reads_pure _
  | precompile p input gasLimit => exact reads_runPrecompile p input gasLimit

section Transact

variable (revm : Revm) (block : BlockEnv) (tx : TxEnv)

/-- revm reads through a quiet database. -/
theorem quiet_transact : Uses Quiet Aborts (transact revm block tx) :=
  uses_interp (fun op => (reads_databaseOp op).quiet) (fun _ => uses_fatal quiet_log _ _) _

/-- Where revm returns, the replies were smooth. -/
theorem ensures_transact : Ensures Smooth (transact revm block tx) := by
  refine ensures_interp (fun op => (reads_databaseOp op).governed.ensures) ?_ _
  intro _ tr r h
  cases (exec_fatal h).1

end Transact

-- =========================================================== the parser

section Parser

variable {α β : Type}

/-- Sequencing under `ExceptT`. -/
theorem reads_bindE {x : ExceptT TxParseError HostM α} {f : α → ExceptT TxParseError HostM β}
    (hx : Reads x.run) (hf : ∀ a, Reads (f a).run) : Reads (x >>= f).run := by
  rw [ExceptT.run_bind]
  refine reads_bind hx fun r => ?_
  cases r with
  | ok a => exact hf a
  | error e => exact reads_pure _

theorem reads_liftE {p : HostM α} (hp : Reads p) :
    Reads (liftM p : ExceptT TxParseError HostM α).run := by
  show Reads (ExceptT.lift p).run
  rw [ExceptT.run_lift, map_eq_pure_bind]
  exact reads_bind hp fun _ => reads_pure _

theorem reads_throwE (e : TxParseError) :
    Reads (throw e : ExceptT TxParseError HostM α).run := reads_pure _

theorem reads_keccak256 (data : Bytes) : Reads (keccak256 Sys.crypto data).run := by
  refine reads_bindE (reads_liftE (reads_hash _ _)) fun multihash => ?_
  split
  · exact reads_throwE _
  · exact reads_pure _

theorem reads_recoverSender (msgHash : B256) (r s : U256) (yParity : UInt8) :
    Reads (recoverSender Sys.crypto msgHash r s yParity).run := by
  refine reads_bindE (reads_liftE (reads_recoverPublicKey _ _ _ _)) fun pubkey => ?_
  cases pubkeyXy pubkey with
  | none => exact reads_throwE _
  | some xy =>
      refine reads_bindE (reads_liftE (reads_hash _ _)) fun multihash => ?_
      split
      · exact reads_throwE _
      · exact reads_pure _

theorem reads_parseRaw (rlp : AlloyRlp) (raw : Bytes) : Reads (parseRaw rlp raw) := by
  obtain ⟨plan, -, hplan⟩ := parseRawTx_planned rlp raw
  have heq := hplan HostM (syscallCrypto Sys.crypto)
  unfold parseRaw
  rw [show parseRawTx rlp (syscallCrypto Sys.crypto) raw = _ from heq]
  cases plan with
  | error e => exact reads_throwE e
  | ok target =>
      refine reads_bindE (reads_keccak256 _) fun signingHash => ?_
      refine reads_bindE (reads_recoverSender _ _ _ _) fun sender => ?_
      exact reads_pure _

/-- What the parser accepts names a chain. -/
theorem parseRaw_chainId {rlp : AlloyRlp} {raw : Bytes} {tr : List HostEv} {p : ParsedTx}
    (h : Exec (parseRaw rlp raw) tr (.ok (.ok p))) : ∃ cid, p.chainId = some cid := by
  obtain ⟨plan, hsome, hplan⟩ := parseRawTx_planned rlp raw
  have heq := hplan HostM (syscallCrypto Sys.crypto)
  unfold parseRaw at h
  rw [show parseRawTx rlp (syscallCrypto Sys.crypto) raw = _ from heq] at h
  cases plan with
  | error e =>
      obtain ⟨-, hx⟩ := exec_ret.mp h
      cases hx
  | ok target =>
      obtain ⟨payload, q⟩ := target
      obtain ⟨cid, hcid⟩ := Option.isSome_iff_exists.mp (hsome payload q rfl)
      -- only the sender is filled in behind the plan
      simp only [Plan.act, recoverOver, ExceptT.run_bind] at h
      obtain ⟨r₁, _, _, -, h, -⟩ := exec_bind_ok.mp h
      cases r₁ with
      | error e =>
          obtain ⟨-, hx⟩ := exec_ret.mp h
          cases hx
      | ok signingHash =>
          obtain ⟨r₂, _, _, -, h, -⟩ := exec_bind_ok.mp h
          cases r₂ with
          | error e =>
              obtain ⟨-, hx⟩ := exec_ret.mp h
              cases hx
          | ok sender =>
              have hx := exec_ret_ok h
              injection hx with hx
              exact ⟨cid, by rw [hx]; exact hcid⟩

end Parser

-- =========================================================== the stages

section Stages

variable (revm : Revm) (rlp : AlloyRlp) (args : Bytes)

/-- The nonce an account read stands for. -/
def nonceOf : Option AccountInfo → UInt64
  | some info => info.nonce
  | none => 0

/-- The call's `raw_tx` parses and is for this chain. -/
structure Parses (p : ParsedTx) (tr : List HostEv) : Prop where
  nonempty : stripRawTx args ≠ []
  parse : Exec (parseRaw rlp (stripRawTx args)) tr (.ok (.ok p))
  chain : p.chainId = some ENGINE_CHAIN_ID

/-- And the sender's account was read, and has the transaction's nonce. -/
inductive Passes (p : ParsedTx) : List HostEv → Prop
  | intro {t₁ t₂ : List HostEv} {account : Option AccountInfo} :
      Parses rlp args p t₁ → Exec (basic p.sender) t₂ (.ok (.ok account)) →
      p.nonce = nonceOf account → Passes p (t₁ ++ t₂)

/-- And revm ran it, with this outcome: a result and a change set, an
error, or a halt. -/
inductive Evaluates (p : ParsedTx)
    (r : Except Exit (Except EvmError (ExecutionResult × EvmState))) : List HostEv → Prop
  | intro {t₁ t₂ t₃ : List HostEv} {block : BlockEnv} :
      Passes rlp args p t₁ → Exec buildBlockEnv t₂ (.ok block) →
      Exec (transact revm block (txEnvOf p)) t₃ r → Evaluates p r (t₁ ++ t₂ ++ t₃)

/-- The six ways a transaction is rejected before or by revm. -/
inductive Rejected : List HostEv → Prop
  | empty : stripRawTx args = [] → Rejected []
  | parse {tr : List HostEv} {e : TxParseError} : stripRawTx args ≠ [] →
      Exec (parseRaw rlp (stripRawTx args)) tr (.ok (.error e)) → Rejected tr
  | chainId {tr : List HostEv} {p : ParsedTx} {cid : UInt64} : stripRawTx args ≠ [] →
      Exec (parseRaw rlp (stripRawTx args)) tr (.ok (.ok p)) → p.chainId = some cid →
      cid ≠ ENGINE_CHAIN_ID → Rejected tr
  | read {t₁ t₂ : List HostEv} {p : ParsedTx} {e : KoinosDbError} : Parses rlp args p t₁ →
      Exec (basic p.sender) t₂ (.ok (.error e)) → Rejected (t₁ ++ t₂)
  | nonce {t₁ t₂ : List HostEv} {p : ParsedTx} {account : Option AccountInfo} :
      Parses rlp args p t₁ → Exec (basic p.sender) t₂ (.ok (.ok account)) →
      p.nonce ≠ nonceOf account → Rejected (t₁ ++ t₂)
  | evm {tr : List HostEv} {p : ParsedTx} {e : EvmError} :
      Evaluates revm rlp args p (.ok (.error e)) tr → Rejected tr

/-- The end of a rejection: perhaps a log line, then `reject_submit`. -/
def EndsRejecting (tr : List HostEv) (o : Except Exit Bytes) : Prop :=
  ∃ lines rest msg, (∀ e ∈ lines, IsLog e) ∧ Exec (rejectSubmit msg) rest o ∧
    tr = lines ++ rest

/-- The end of an execution: the change set, then the response. -/
def EndsCommitting (result : ExecutionResult) (state : EvmState) (tr : List HostEv)
    (o : Except Exit Bytes) : Prop :=
  Exec (do
    commit state
    executionResultToResponse result true) tr o

/-- How a submission ends. -/
inductive SubmitEnds : List HostEv → Except Exit Bytes → Prop
  | rejects {pre post : List HostEv} {o : Except Exit Bytes} :
      Rejected revm rlp args pre → EndsRejecting post o → SubmitEnds (pre ++ post) o
  | commits {pre post : List HostEv} {o : Except Exit Bytes} {p : ParsedTx}
      {result : ExecutionResult} {state : EvmState} :
      Evaluates revm rlp args p (.ok (.ok (result, state))) pre →
      EndsCommitting result state post o → SubmitEnds (pre ++ post) o
  /-- A reply the engine cannot go on from, before revm. -/
  | stalls {tr : List HostEv} {x : Exit} : (∀ e ∈ tr, Quiet e.1) →
      ¬ (∀ e ∈ tr, Smooth e) → Aborts x → SubmitEnds tr (.error x)
  | panics {tr : List HostEv} {p : ParsedTx} {x : Exit} :
      Evaluates revm rlp args p (.error x) tr → Aborts x → SubmitEnds tr (.error x)

end Stages

section Inversion

variable {revm : Revm} {rlp : AlloyRlp} {args : Bytes} {tr : List HostEv}
  {o : Except Exit Bytes}

theorem Parses.quiet {p : ParsedTx} (h : Parses rlp args p tr) : ∀ e ∈ tr, Quiet e.1 :=
  exec_uses h.parse (reads_parseRaw rlp _).quiet

theorem Passes.quiet {p : ParsedTx} (h : Passes rlp args p tr) : ∀ e ∈ tr, Quiet e.1 := by
  cases h with
  | intro hparse hread hnonce =>
      rw [List.forall_mem_append]
      exact ⟨hparse.quiet, exec_uses hread (reads_basic _).quiet⟩

theorem Evaluates.quiet {p : ParsedTx}
    {r : Except Exit (Except EvmError (ExecutionResult × EvmState))}
    (h : Evaluates revm rlp args p r tr) : ∀ e ∈ tr, Quiet e.1 := by
  cases h with
  | intro hpass hblock hrun =>
      rw [List.forall_mem_append, List.forall_mem_append]
      exact ⟨⟨hpass.quiet, exec_uses hblock reads_buildBlockEnv.quiet⟩,
        exec_uses hrun (quiet_transact _ _ _)⟩

theorem Rejected.quiet (h : Rejected revm rlp args tr) : ∀ e ∈ tr, Quiet e.1 := by
  cases h with
  | empty _ => simp
  | parse _ hparse => exact exec_uses hparse (reads_parseRaw rlp _).quiet
  | chainId _ hparse _ _ => exact exec_uses hparse (reads_parseRaw rlp _).quiet
  | read hparse hread =>
      rw [List.forall_mem_append]
      exact ⟨hparse.quiet, exec_uses hread (reads_basic _).quiet⟩
  | nonce hparse hread _ =>
      rw [List.forall_mem_append]
      exact ⟨hparse.quiet, exec_uses hread (reads_basic _).quiet⟩
  | evm heval => exact heval.quiet

theorem endsRejecting_plain {msg : Bytes} (h : Exec (rejectSubmit msg) tr o) :
    EndsRejecting tr o := ⟨[], tr, msg, by simp, h, rfl⟩

theorem endsRejecting_log {text : String} (h : Exec (logAndReject text) tr o) :
    EndsRejecting tr o := by
  rcases exec_bind.mp h with ⟨x, hx, -⟩ | ⟨u, t₁, t₂, h₁, h₂, rfl⟩
  · cases (exec_log hx).1
  · exact ⟨t₁, t₂, _, (exec_log h₁).2, h₂, rfl⟩

/-- A stage that reads and halts was given a reply it cannot go on
from. -/
theorem stalls_of_reads {α : Type} {p : HostM α} (hp : Reads p) (pre : List HostEv)
    {t : List HostEv} {x : Exit} (hpre : ∀ e ∈ pre, Quiet e.1) (h : Exec p t (.error x)) :
    SubmitEnds revm rlp args (pre ++ t) (.error x) := by
  refine .stalls ?_ ?_ (exec_halts h hp.quiet)
  · rw [List.forall_mem_append]
    exact ⟨hpre, exec_uses h hp.quiet⟩
  · intro hall
    exact hp.governed.blames h fun e he => hall e (List.mem_append_right _ he)

/-- Behind the checks: revm, then the commit or a rejection. -/
theorem executeSubmit_ends {p : ParsedTx} {pre : List HostEv} (hpass : Passes rlp args p pre)
    (h : Exec (executeSubmit revm p) tr o) : SubmitEnds revm rlp args (pre ++ tr) o := by
  unfold executeSubmit transactCommit at h
  rcases exec_bind.mp h with ⟨x, hx, rfl⟩ | ⟨block, t₁, t₂, hblock, hcommit, rfl⟩
  · exact stalls_of_reads reads_buildBlockEnv pre hpass.quiet hx
  · rw [bind_assoc] at hcommit
    rcases exec_bind.mp hcommit with ⟨x, hx, rfl⟩ | ⟨r, t₃, t₄, hrun, hend, rfl⟩
    · rw [← List.append_assoc]
      exact .panics ⟨hpass, hblock, hx⟩ (exec_halts hx (quiet_transact _ _ _))
    · rw [← List.append_assoc, ← List.append_assoc]
      cases r with
      | error e =>
          rw [pure_bind] at hend
          exact .rejects (.evm ⟨hpass, hblock, hrun⟩) (endsRejecting_log hend)
      | ok out =>
          obtain ⟨result, state⟩ := out
          refine .commits ⟨hpass, hblock, hrun⟩ ?_
          simp only [bind_assoc, pure_bind] at hend
          exact hend

/-- The nonce check. -/
theorem checkNonce_ends {p : ParsedTx} {pre : List HostEv} (hparse : Parses rlp args p pre)
    (h : Exec (checkNonce revm p) tr o) : SubmitEnds revm rlp args (pre ++ tr) o := by
  unfold checkNonce at h
  rcases exec_bind.mp h with ⟨x, hx, rfl⟩ | ⟨r, t₁, t₂, hread, hend, rfl⟩
  · exact stalls_of_reads (reads_basic _) pre hparse.quiet hx
  · rw [← List.append_assoc]
    cases r with
    | error e => exact .rejects (.read hparse hread) (endsRejecting_plain hend)
    | ok account =>
        change Exec (if p.nonce ≠ nonceOf account then _ else executeSubmit revm p) t₂ o
          at hend
        by_cases hnonce : p.nonce = nonceOf account
        · rw [if_neg (not_not.mpr hnonce)] at hend
          exact executeSubmit_ends (.intro hparse hread hnonce) hend
        · rw [if_pos hnonce] at hend
          exact .rejects (.nonce hparse hread hnonce) (endsRejecting_log hend)

/-- Every execution of the handler ends in one of the four ways. -/
theorem submit_ends (h : Exec (handleSubmitRawTx revm rlp args) tr o) :
    SubmitEnds revm rlp args tr o := by
  unfold handleSubmitRawTx at h
  by_cases hempty : stripRawTx args = []
  · rw [if_pos (List.isEmpty_iff.mpr hempty)] at h
    exact .rejects (.empty hempty) (endsRejecting_plain h)
  · rw [if_neg (fun h => hempty (List.isEmpty_iff.mp h))] at h
    rcases exec_bind.mp h with ⟨x, hx, rfl⟩ | ⟨r, t₁, t₂, hparse, hend, rfl⟩
    · exact stalls_of_reads (reads_parseRaw rlp _) [] (by simp) hx
    · cases r with
      | error e => exact .rejects (.parse hempty hparse) (endsRejecting_log hend)
      | ok p =>
          obtain ⟨cid, hcid⟩ := parseRaw_chainId hparse
          simp only [hcid] at hend
          by_cases hchain : cid = ENGINE_CHAIN_ID
          · rw [if_neg (not_not.mpr hchain)] at hend
            rw [hchain] at hcid
            exact checkNonce_ends ⟨hempty, hparse, hcid⟩ hend
          · rw [if_pos hchain] at hend
            exact .rejects (.chainId hempty hparse hcid hchain) (endsRejecting_log hend)

end Inversion

-- ====================================================== the entry point

/-- The Phase-0 entry points come first. -/
theorem submit_ne : EP_SUBMIT_RAW_TX ≠ EP_STORE_VALUE ∧ EP_SUBMIT_RAW_TX ≠ EP_READ_VALUE ∧
    EP_SUBMIT_RAW_TX ≠ EP_ECHO := by decide

section Arm

variable {build : Build} {revm : Revm} {rlp : AlloyRlp} {args : Bytes}

/-- The entry point's arm. -/
theorem dispatch_submit (hevm : build.evm = true) :
    dispatch build revm rlp ⟨EP_SUBMIT_RAW_TX, args⟩ = handleSubmitRawTx revm rlp args := by
  obtain ⟨hstore, hread, hecho⟩ := submit_ne
  unfold dispatch
  rw [if_neg hstore, if_neg hread, if_neg hecho, if_pos ⟨hevm, rfl⟩]

/-- A build without the EVM has no such arm. -/
theorem dispatch_submit_disabled (hevm : build.evm ≠ true) :
    dispatch build revm rlp ⟨EP_SUBMIT_RAW_TX, args⟩
      = (Sys.log "unknown entry point" >>= fun _ => Sys.exitError "unknown entry point") := by
  have hdev : build.devUnsafeCaller ≠ true := fun h => hevm (build.implied h)
  obtain ⟨hstore, hread, hecho⟩ := submit_ne
  unfold dispatch
  rw [if_neg hstore, if_neg hread, if_neg hecho, if_neg fun h => hevm h.1,
    if_neg fun h => hevm h.1, if_neg fun h => hevm h.1, if_neg fun h => hevm h.1,
    if_neg fun h => hevm h.1, if_neg fun h => hdev h.1, if_neg fun h => hdev h.1,
    if_neg fun h => hevm h.1]

end Arm

end KoinosEvm.Proofs
