/-
The contract, call by call, with what each call returns.

`Serves` is a call as in Replay.lean together with how it exits, and a
history of calls (Lib/History.lean) is what the contract's clients see: the
entry point runs (`serves_dispatch`), and an entry point that only reads
leaves the store and exits with what it returns (`serves_reading`).

On such histories the nonce that `get_account` reports is the counter the
replay protection counts with: it never falls, and where a submission of a
nonce has changed the EVM's state it is above that nonce from then on
(`reportedNonce_ratchet`).
-/
import KoinosEvm.Lib.Fallible
import KoinosEvm.Lib.History
import KoinosEvm.Proofs.EngineReplies
import KoinosEvm.Proofs.Replay

namespace KoinosEvm.Proofs

open Engine Lib Proxy

-- ============================================================= one call

/-- A call of the contract and how it exits. -/
structure Served where
  call : Sys.Arguments
  exit : Exit

/-- How a call exits whose arm ended so. -/
def exitOf : Except Exit Bytes → Exit
  | .ok data => .success data
  | .error x => x

section Serves

variable (chain : Chain) (build : Build) (revm : Revm) (rlp : AlloyRlp)

/-- From this store the call exits so and leaves that store. What an
aborted call wrote may stay or be undone. -/
def Serves (store : Store) (s : Served) (store' : Store) : Prop :=
  ∃ tr final, Exec (start build revm rlp) tr (.error s.exit) ∧
    Obeys chain s.call store tr final ∧
    (store' = final ∨ (∃ msg, s.exit = .failure msg) ∧ store' = store)

variable {chain build revm rlp} {store store' : Store} {s : Served}

theorem Serves.calls (h : Serves chain build revm rlp store s store') :
    Calls chain build revm rlp ⟨s.call, store, store'⟩ := by
  obtain ⟨tr, final, hexec, hobeys, hafter⟩ := h
  refine ⟨tr, _, final, hexec, hobeys, hafter.imp_right ?_⟩
  intro h
  obtain ⟨⟨msg, hmsg⟩, hsame⟩ := h
  exact ⟨⟨msg, congrArg Except.error hmsg⟩, hsame⟩

/-- `_start` runs the arm of the call and exits with its result. -/
theorem start_exits {call : Sys.Arguments} {tr : List HostEv} {x : Exit}
    (h : Exec (start build revm rlp) tr (.error x)) (hobeys : Obeys chain call store tr store') :
    ∃ t r, Exec (dispatch build revm rlp call) t r ∧ Obeys chain call store t store' ∧
      x = exitOf r ∧ eventsOf tr = eventsOf t := by
  have hreads : Reads Sys.getArguments :=
    reads_bind (reads_callSystem rfl (by simp)) fun _ => reads_pure _
  rcases exec_bind.mp h with ⟨y, hy, -⟩ | ⟨args, t₁, t₂, hargs, hrest, rfl⟩
  · obtain ⟨-, hall⟩ := obeys_quiet hobeys (exec_uses hy hreads.quiet)
    cases exec_getArguments_eq hall hy
  · obtain ⟨mid, hobeys₁, hobeys₂⟩ := obeys_append.mp hobeys
    have hquiet := exec_uses hargs hreads.quiet
    obtain ⟨rfl, hall⟩ := obeys_quiet hobeys₁ hquiet
    have heq := exec_getArguments_eq hall hargs
    injection heq with heq
    subst heq
    rw [eventsOf_append, (quiet_trace hquiet).1, List.nil_append]
    rcases exec_bind.mp hrest with ⟨y, hy, hxy⟩ | ⟨ret, t₃, t₄, hret, hexit, rfl⟩
    · injection hxy with hxy
      exact ⟨t₂, _, hy, hobeys₂, hxy, rfl⟩
    · obtain ⟨rfl, hx⟩ := exec_halt.mp hexit
      injection hx with hx
      rw [List.append_nil] at hobeys₂ ⊢
      exact ⟨t₃, _, hret, hobeys₂, hx, rfl⟩

/-- The arm of a served call, and the store behind it. -/
theorem serves_dispatch (h : Serves chain build revm rlp store s store') :
    ∃ t r final, Exec (dispatch build revm rlp s.call) t r ∧
      Obeys chain s.call store t final ∧ s.exit = exitOf r ∧
      (store' = final ∨ (∃ msg, s.exit = .failure msg) ∧ store' = store) := by
  obtain ⟨tr, final, hexec, hobeys, hafter⟩ := h
  obtain ⟨t, r, hrun, hobeys, hexit, -⟩ := start_exits hexec hobeys
  exact ⟨t, r, final, hrun, hobeys, hexit, hafter⟩

/-- An arm that only reads leaves the store, and the call exits with what
it returns. -/
theorem serves_reading (h : Serves chain build revm rlp store s store') {p : HostM Bytes}
    (harm : dispatch build revm rlp s.call = p) (hreads : Uses Quiet Aborts p) :
    store' = store ∧ ∃ t r, Exec p t r ∧ (∀ e ∈ t, Answers chain s.call store e) ∧
      s.exit = exitOf r := by
  obtain ⟨t, r, final, hrun, hobeys, hexit, hafter⟩ := serves_dispatch h
  rw [harm] at hrun
  obtain ⟨rfl, hall⟩ := obeys_quiet hobeys (exec_uses hrun hreads)
  refine ⟨?_, t, r, hrun, hall, hexit⟩
  rcases hafter with rfl | ⟨-, rfl⟩
  · rfl
  · rfl

/-- .. and where it can only return one thing, that is it. -/
theorem serves_returns (h : Serves chain build revm rlp store s store') {p : HostM Bytes}
    {data : Bytes} (harm : dispatch build revm rlp s.call = p)
    (hreads : Uses Quiet Aborts p) (hreturns : Returns chain store p data) :
    store' = store ∧ s.exit = .success data := by
  obtain ⟨hstore, t, r, hrun, hall, hexit⟩ := serves_reading h harm hreads
  rw [hreturns s.call t r hrun hall] at hexit
  exact ⟨hstore, hexit⟩

-- ========================================================= the view arms

/-- With the `evm` feature, the view entry points run their handlers. -/
theorem dispatch_view (hevm : build.evm = true) (args : Bytes) :
    dispatch build revm rlp ⟨EP_GET_ACCOUNT, args⟩ = handleGetAccount args ∧
    dispatch build revm rlp ⟨EP_GET_STORAGE_AT, args⟩ = handleGetStorageAt args ∧
    dispatch build revm rlp ⟨EP_GET_CODE, args⟩ = handleGetCode args ∧
    dispatch build revm rlp ⟨EP_CALL_VIEW, args⟩ = handleCallView revm args := by
  unfold dispatch
  rw [hevm]
  exact ⟨rfl, rfl, rfl, rfl⟩

/-- What `get_account` reports, as the proxy reads it. -/
theorem serves_getAccount (hevm : build.evm = true) (hid : chain.contractId ≠ [])
    {addr : Address} {x : Exit}
    (h : Serves chain build revm rlp store ⟨⟨EP_GET_ACCOUNT, buildGetAccountArgs addr⟩, x⟩
      store') :
    store' = store ∧ x = .success (accountReply (chain.account store addr)) :=
  serves_returns h (dispatch_view hevm _).1 (reads_handleGetAccount _).quiet
    (returns_getAccount hid store addr)

end Serves

-- ============================================================ the counter

section Nonces

variable {chain : Chain} {build : Build} {revm : Revm} {rlp : AlloyRlp}

/-- No call lowers a nonce. -/
theorem serves_nonces (hevm : build.evm = true) (hdev : build.devUnsafeCaller = false)
    (hrevm : Conforms revm) {store store' : Store} {s : Served}
    (h : Serves chain build revm rlp store s store') (address : Address) :
    nonceAt chain store address ≤ nonceAt chain store' address :=
  (calls_cases hevm hdev hrevm h.calls).1 address

/-- .. nor does a history of calls. -/
theorem history_nonces (hevm : build.evm = true) (hdev : build.devUnsafeCaller = false)
    (hrevm : Conforms revm) {store store' : Store} {calls : List Served}
    (h : History (Serves chain build revm rlp) store calls store') (address : Address) :
    nonceAt chain store address ≤ nonceAt chain store' address :=
  h.relates (R := fun a b => nonceAt chain a address ≤ nonceAt chain b address)
    (fun _ => le_rfl) (fun _ _ _ => le_trans) fun _ _ _ hs => serves_nonces hevm hdev hrevm hs address

/-- The nonce in a reply of `get_account`, as the proxy reads it. -/
def reportedNonce (checks : Checks) (s : Served) : Option UInt64 :=
  match s.exit with
  | .success data =>
      match decodeAccount checks data with
      | .ok (.ok account) => some ((account.map EvmAccount.nonce).getD 0)
      | _ => none
  | .failure _ => none

/-- The call asks for this account. -/
def AsksFor (addr : Address) (s : Served) : Prop :=
  s.call = ⟨EP_GET_ACCOUNT, buildGetAccountArgs addr⟩

/-- A query reports the stored nonce. -/
theorem reportedNonce_eq (checks : Checks) (hevm : build.evm = true)
    (hid : chain.contractId ≠ []) {store store' : Store} {s : Served} {addr : Address}
    (h : Serves chain build revm rlp store s store') (hasks : AsksFor addr s) :
    reportedNonce checks s = some (nonceOf (chain.account store addr)) := by
  obtain ⟨call, x⟩ := s
  obtain rfl : call = _ := hasks
  obtain ⟨-, rfl⟩ := serves_getAccount hevm hid h
  simp only [reportedNonce, decodeAccount_reply]
  cases chain.account store addr with
  | none => rfl
  | some info => rfl

/-- The submission with this sender and nonce changed the EVM's state. -/
def TookEffect (chain : Chain) (rlp : AlloyRlp) (store : Store) (s : Served) (store' : Store)
    (p : ParsedTx) : Prop :=
  ChangesEvm chain ⟨s.call, store, store'⟩ ∧ s.call.entryPoint = EP_SUBMIT_RAW_TX ∧
    (parseRawTx rlp (syscallCrypto chain.crypto) (stripRawTx s.call.arguments) :
      Except TxParseError ParsedTx) = .ok p

/-- What takes effect took the nonce that was next, and leaves the one
behind it. -/
theorem tookEffect_nonces (hevm : build.evm = true) (hdev : build.devUnsafeCaller = false)
    (hrevm : Conforms revm) {store store' : Store} {s : Served} {p : ParsedTx}
    (h : Serves chain build revm rlp store s store') (ht : TookEffect chain rlp store s store' p) :
    nonceAt chain store p.sender = p.nonce.toNat ∧
      nonceAt chain store' p.sender = p.nonce.toNat + 1 := by
  obtain ⟨hchanges, -, hparsed⟩ := ht
  obtain ⟨-, q, hq, hraised⟩ := (calls_cases hevm hdev hrevm h.calls).2 hchanges
  -- the same bytes parse to the same transaction
  have hpq : q = p := by
    have hparse := hq.parse
    rw [hparsed] at hparse
    injection hparse with hparse
    exact hparse.symm
  subst hpq
  have hnow : nonceAt chain store q.sender = q.nonce.toNat := by
    rw [nonceAt, ← hq.nonce]
  exact ⟨hnow, hraised.trans (by rw [hnow])⟩

/-- In every history of calls, at any two of them: the later of two reports
about an account is not below the earlier one; a report behind a submission
that took effect is above the submission's nonce; and a submission that
takes effect behind a report has a nonce that is not below it. -/
theorem reportedNonce_ratchet (checks : Checks) (hevm : build.evm = true)
    (hdev : build.devUnsafeCaller = false) (hrevm : Conforms revm)
    (hid : chain.contractId ≠ []) {store store₁ store₂ store₃ : Store} {s t : Served}
    {between : List Served}
    (hs : Serves chain build revm rlp store s store₁)
    (hbetween : History (Serves chain build revm rlp) store₁ between store₂)
    (ht : Serves chain build revm rlp store₂ t store₃) :
    (∀ addr, AsksFor addr s → AsksFor addr t →
      ∃ n m, reportedNonce checks s = some n ∧ reportedNonce checks t = some m ∧ n ≤ m) ∧
    (∀ p, TookEffect chain rlp store s store₁ p → AsksFor p.sender t →
      ∃ m, reportedNonce checks t = some m ∧ p.nonce < m) ∧
    (∀ p, AsksFor p.sender s → TookEffect chain rlp store₂ t store₃ p →
      ∃ n, reportedNonce checks s = some n ∧ n ≤ p.nonce) := by
  have hle := history_nonces hevm hdev hrevm hbetween
  have hfirst := serves_nonces hevm hdev hrevm hs
  refine ⟨?_, ?_, ?_⟩
  · intro addr hasks hasks'
    refine ⟨_, _, reportedNonce_eq checks hevm hid hs hasks,
      reportedNonce_eq checks hevm hid ht hasks', ?_⟩
    exact UInt64.le_iff_toNat_le.mpr ((hfirst addr).trans (hle addr))
  · intro p heffect hasks
    refine ⟨_, reportedNonce_eq checks hevm hid ht hasks, UInt64.lt_iff_toNat_lt.mpr ?_⟩
    have hafter := (tookEffect_nonces hevm hdev hrevm hs heffect).2
    have hkept := hle p.sender
    rw [hafter] at hkept
    exact hkept
  · intro p hasks heffect
    refine ⟨_, reportedNonce_eq checks hevm hid hs hasks, UInt64.le_iff_toNat_le.mpr ?_⟩
    rw [← (tookEffect_nonces hevm hdev hrevm ht heffect).1]
    exact (hfirst p.sender).trans (hle p.sender)

end Nonces

-- =========================================================== one history

/-- A call on the host that keeps a map is served. -/
theorem mapRun_serves {chain : Chain} {build : Build} {revm : Revm} {rlp : AlloyRlp}
    {call : Sys.Arguments} {store : Store} {x : Exit}
    (hout : ((start build revm rlp).run (mapHost chain call) store).outcome = .error x)
    (hlen : ∀ e ∈ ((start build revm rlp).run (mapHost chain call) store).trace,
      e.2.out.length < 2 ^ 32) :
    Serves chain build revm rlp store ⟨call, x⟩
      ((start build revm rlp).run (mapHost chain call) store).state := by
  refine ⟨_, _, ?_, run_obeys _ _ hlen, Or.inl rfl⟩
  rw [← hout]
  exact run_exec _ _ _

/-- How a run of the contract exits; `start` does not return. -/
def exitIn (r : Run Syscall (fun _ => Reply) Exit Unit Store) : Exit :=
  match r.outcome with
  | .error x => x
  | .ok _ => .success []

/-- A call on the sample host. -/
@[irreducible] def servedRun (call : Sys.Arguments) (store : Store) :
    Run Syscall (fun _ => Reply) Exit Unit Store :=
  (start evmBuild transferRevm strictRlp).run (mapHost sampleChain call) store

theorem servedRun_serves (call : Sys.Arguments) (store : Store)
    (hout : (servedRun call store).outcome = .error (exitIn (servedRun call store)))
    (hlen : ∀ e ∈ (servedRun call store).trace, e.2.out.length < 2 ^ 32) :
    Serves sampleChain evmBuild transferRevm strictRlp store
      ⟨call, exitIn (servedRun call store)⟩ (servedRun call store).state := by
  generalize hx : exitIn (servedRun call store) = x at hout ⊢
  unfold servedRun at hout hlen ⊢
  exact mapRun_serves hout hlen

/-- Asking for the sender of the sample transfer. -/
def askSender : Sys.Arguments :=
  ⟨EP_GET_ACCOUNT, buildGetAccountArgs zeroTransfer.sender⟩

/-- The stores behind the question, and behind the sample transfer. -/
def asked : Store := (servedRun askSender emptyStore).state

def transferred : Store := (servedRun submitZeroTransfer asked).state

theorem zeroTransfer_tookEffect : TookEffect sampleChain strictRlp asked
    ⟨submitZeroTransfer, exitIn (servedRun submitZeroTransfer asked)⟩ transferred zeroTransfer := by
  have hchanged : transferred (sampleChain.space SPACE_ACCOUNTS) zeroTransfer.sender.bytes
      ≠ asked (sampleChain.space SPACE_ACCOUNTS) zeroTransfer.sender.bytes := by decide +kernel
  exact ⟨⟨SPACE_ACCOUNTS, List.mem_cons_self, _, hchanged⟩, rfl,
    ok_of_toOption (by decide +kernel)⟩

/-- The sender's nonce, asked for before the transfer and after it, and the
transfer's own, which took effect in between. -/
theorem zeroTransfer_ratchet :
    (∃ n m, reportedNonce .on ⟨askSender, exitIn (servedRun askSender emptyStore)⟩ = some n ∧
      reportedNonce .on ⟨askSender, exitIn (servedRun askSender transferred)⟩ = some m ∧
      n ≤ m) ∧
    (∃ m, reportedNonce .on ⟨askSender, exitIn (servedRun askSender transferred)⟩ = some m ∧
      zeroTransfer.nonce < m) ∧
    ∃ n, reportedNonce .on ⟨askSender, exitIn (servedRun askSender emptyStore)⟩ = some n ∧
      n ≤ zeroTransfer.nonce := by
  have h₁ := servedRun_serves askSender emptyStore (by decide +kernel)
    (by decide +kernel)
  have h₂ := servedRun_serves submitZeroTransfer asked (by decide +kernel)
    (by decide +kernel)
  have h₃ := servedRun_serves askSender transferred (by decide +kernel)
    (by decide +kernel)
  have hreports := reportedNonce_ratchet .on rfl rfl transferRevm_conforms (by decide) h₁
    (.cons h₂ .nil) h₃
  have hbehind := reportedNonce_ratchet .on rfl rfl transferRevm_conforms (by decide) h₂ .nil h₃
  have hbefore := reportedNonce_ratchet .on rfl rfl transferRevm_conforms (by decide) h₁ .nil h₂
  exact ⟨hreports.1 zeroTransfer.sender rfl rfl,
    hbehind.2.1 zeroTransfer zeroTransfer_tookEffect rfl,
    hbefore.2.2 zeroTransfer rfl zeroTransfer_tookEffect⟩

end KoinosEvm.Proofs
