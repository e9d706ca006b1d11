/-
The relay of raw transactions and the upkeep of the operator's nonce
(rpc/src/rpc.rs: `handle_send_raw_tx` from its critical section on,
`submit_reserved_tx`, `reconcile_operator_nonce`), step by step.

The requests, the tasks they spawn and the reconcile cycles share the gate
(the lock of `operator_nonce`), the nonce behind it, the atomics
`last_submit_ok` and `inflight_submits`, and `tx_meta`. Taking and giving
back the gate, each use of an atomic and each answer of the node is a step;
any other may come between two. Who gets a free gate is open. Answers are
arbitrary; `fetch_operator_nonce` is one, down to the number it reads.

Of `tx_meta` the model has the Koinos id, empty in a placeholder. Its
evictions, and the rows that other tasks settle in the store, are acts. What
the relay writes elsewhere (`pending_nonce`, `upsert_tx`, logging) nothing
here reads. The clock does not go back, the nonce's `+ 1` wraps.
-/
import KoinosEvm.Basic
import Mathlib.Data.List.Infix
import Mathlib.Logic.Function.Basic

namespace KoinosEvm.Proxy

/-- What is fixed for the process: the quiet period of the reconciler, and
`build_relayed_tx` with `build_submit_tx_json`, down to the Koinos id. -/
structure RelayConfig where
  quietPeriodSecs : Nat
  build : Bytes → UInt64 → Except String Bytes

/-- A transaction to relay. -/
structure RelayJob where
  ethHash : B256
  rawTx : Bytes

-- ============================================================== the tasks

/-- Where a request is, and then the task it spawns. -/
inductive SubmitStage where
  /-- `handle_send_raw_tx`, at the gate. -/
  | queued
  /-- .. inside, before the dedupe. -/
  | deduping
  /-- .. which knew the transaction. -/
  | known
  /-- .. counted, with its placeholder. -/
  | reserved
  /-- `submit_reserved_tx`, at the gate. -/
  | spawned
  /-- .. inside. -/
  | entered
  /-- .. waiting for `fetch_operator_nonce`. -/
  | fetching
  /-- .. waiting for `submit_transaction`. -/
  | sending (resynced : Bool)
  /-- .. waiting for `fetch_operator_nonce` after a nonce error. -/
  | resyncing
  /-- .. accepted, the nonce advanced. -/
  | accepted (koinosTxId : Bytes)
  /-- .. failed, the placeholder removed. -/
  | failed
  /-- .. accepted, outside. -/
  | released (koinosTxId : Bytes)
  /-- .. with `last_submit_ok` stored. -/
  | stored (koinosTxId : Bytes)
  /-- .. done but for its `InflightGuard`. -/
  | closing
  | ended
  deriving DecidableEq

/-- Where a cycle of `reconcile_operator_nonce` is. -/
inductive CycleStage where
  /-- Waiting for `fetch_operator_nonce`. -/
  | fetching
  /-- At the gate. -/
  | fetched (chainNext : UInt64)
  /-- Inside. -/
  | checking (chainNext : UInt64)
  /-- .. the chain is behind, `last_submit_ok` is loaded. -/
  | timed (chainNext : UInt64) (quietFor : Nat)
  /-- .. both conditions hold. -/
  | cleared (chainNext : UInt64)
  /-- .. done. -/
  | leaving
  | ended
  deriving DecidableEq

/-- Who may hold the gate. -/
inductive Party where
  | submit (i : Nat)
  | cycle (j : Nat)
  deriving DecidableEq

/-- What a task goes on with. -/
inductive Wake where
  /-- Its own next step. -/
  | ready
  /-- What `fetch_operator_nonce` comes to. -/
  | nonce (r : Except String UInt64)
  /-- .. and `submit_transaction`. -/
  | submitted (r : Except String Unit)
  /-- The client is gone. -/
  | dropped

/-- What the tasks share, and the clock. -/
structure Shared where
  clock : Nat
  gate : Option Party
  operatorNonce : Option UInt64
  lastSubmitOk : Nat
  inflightSubmits : Nat
  txMeta : B256 → Option Bytes
  settled : B256 → Bool

namespace Shared

/-- `operator_nonce.lock()`, when the gate is free. -/
def take (sh : Shared) (me : Party) : Option Shared :=
  match sh.gate with
  | none => some { sh with gate := some me }
  | some _ => none

/-- The guard is dropped. -/
def release (sh : Shared) : Shared := { sh with gate := none }

/-- `tx_meta.remove`. -/
def removeMeta (sh : Shared) (ethHash : B256) : Shared :=
  { sh with txMeta := Function.update sh.txMeta ethHash none }

/-- `set_koinos_tx_id`, of an entry that is still there. -/
def setKoinosTxId (sh : Shared) (ethHash : B256) (id : Bytes) : Shared :=
  match sh.txMeta ethHash with
  | none => sh
  | some _ => { sh with txMeta := Function.update sh.txMeta ethHash (some id) }

/-- The dedupe knows the transaction. -/
def knows (sh : Shared) (ethHash : B256) : Bool :=
  (sh.txMeta ethHash).isSome || sh.settled ethHash

/-- `inflight_submits.fetch_add` and the placeholder. -/
def reserve (sh : Shared) (ethHash : B256) : Shared :=
  { sh with
    inflightSubmits := sh.inflightSubmits + 1
    txMeta := Function.update sh.txMeta ethHash (some []) }

end Shared

/-- `is_nonce_related_err`. -/
def isNonceRelatedErr (e : String) : Bool := "nonce".toList <:+: e.toLower.toList

/-- The match on `submit_result`. A transaction that cannot be built is not
sent. -/
def afterSubmit (cfg : RelayConfig) (job : RelayJob) (sh : Shared) (nonce : UInt64)
    (resynced : Bool) (r : Except String Unit) : Shared × SubmitStage :=
  match cfg.build job.rawTx nonce, r with
  | .ok koinosTxId, .ok () =>
      ({ sh with operatorNonce := some (nonce + 1) }, .accepted koinosTxId)
  | .error e, _ | .ok _, .error e =>
      if isNonceRelatedErr e && !resynced then (sh, .resyncing)
      else
        let cached := if isNonceRelatedErr e then none else sh.operatorNonce
        ({ sh with operatorNonce := cached }.removeMeta job.ethHash, .failed)

/-- A step of a request, or of its task. -/
def submitStep (cfg : RelayConfig) (i : Nat) (job : RelayJob) (sh : Shared) :
    SubmitStage → Wake → Option (Shared × SubmitStage)
  | .queued, .dropped => some (sh, .ended)
  | .queued, .ready => (sh.take (.submit i)).map (·, .deduping)
  | .deduping, .ready =>
      if sh.knows job.ethHash then some (sh, .known)
      else some (sh.reserve job.ethHash, .reserved)
  | .known, .ready => some (sh.release, .ended)
  | .reserved, .ready => some (sh.release, .spawned)
  | .spawned, .ready => (sh.take (.submit i)).map (·, .entered)
  | .entered, .ready =>
      match sh.operatorNonce with
      | none => some (sh, .fetching)
      | some _ => some (sh, .sending false)
  | .fetching, .nonce (.ok n) => some ({ sh with operatorNonce := some n }, .sending false)
  | .fetching, .nonce (.error _) => some (sh.removeMeta job.ethHash, .failed)
  | .sending resynced, .submitted r =>
      sh.operatorNonce.map fun nonce => afterSubmit cfg job sh nonce resynced r
  | .resyncing, .nonce (.ok n) => some ({ sh with operatorNonce := some n }, .sending true)
  | .resyncing, .nonce (.error _) =>
      some ({ sh with operatorNonce := none }.removeMeta job.ethHash, .failed)
  | .accepted koinosTxId, .ready => some (sh.release, .released koinosTxId)
  | .failed, .ready => some (sh.release, .closing)
  | .released koinosTxId, .ready =>
      some ({ sh with lastSubmitOk := sh.clock }, .stored koinosTxId)
  | .stored koinosTxId, .ready => some (sh.setKoinosTxId job.ethHash koinosTxId, .closing)
  | .closing, .ready => some ({ sh with inflightSubmits := sh.inflightSubmits - 1 }, .ended)
  | _, _ => none

/-- A step of a reconcile cycle. -/
def cycleStep (cfg : RelayConfig) (j : Nat) (sh : Shared) :
    CycleStage → Wake → Option (Shared × CycleStage)
  | .fetching, .nonce (.ok chainNext) => some (sh, .fetched chainNext)
  | .fetching, .nonce (.error _) => some (sh, .ended)
  | .fetched chainNext, .ready => (sh.take (.cycle j)).map (·, .checking chainNext)
  | .checking chainNext, .ready =>
      match sh.operatorNonce with
      | none => some (sh, .leaving)
      | some cached =>
          if cached < chainNext then
            some ({ sh with operatorNonce := some chainNext }, .leaving)
          else if chainNext < cached then
            some (sh, .timed chainNext (sh.clock - sh.lastSubmitOk))
          else some (sh, .leaving)
  | .timed chainNext quietFor, .ready =>
      if sh.inflightSubmits = 0 ∧ cfg.quietPeriodSecs ≤ quietFor then
        some (sh, .cleared chainNext)
      else some (sh, .leaving)
  | .cleared chainNext, .ready => some ({ sh with operatorNonce := some chainNext }, .leaving)
  | .leaving, .ready => some (sh.release, .ended)
  | _, _ => none

-- ============================================================== the proxy

/-- The proxy: what is shared, the requests in the order they came, and the
cycles. -/
structure RelayState extends Shared where
  submits : List (RelayJob × SubmitStage)
  cycles : List CycleStage

/-- The acts. -/
inductive RelayAct where
  | tick (secs : Nat)
  /-- `eth_sendRawTransaction` comes to its critical section. -/
  | request (job : RelayJob)
  /-- A tick of the reconciler. -/
  | reconcile
  /-- A request, or its task, takes a step. -/
  | submit (i : Nat) (wake : Wake)
  /-- A cycle takes a step. -/
  | cycle (j : Nat) (wake : Wake)
  /-- An entry of `tx_meta` expires, or gives way to another. -/
  | evict (ethHash : B256)
  /-- The store has a receipt from now on. -/
  | settle (ethHash : B256)

namespace RelayState

/-- A proxy that has just started. -/
def start (clock : Nat) : RelayState where
  clock := clock
  gate := none
  operatorNonce := none
  lastSubmitOk := 0
  inflightSubmits := 0
  txMeta := fun _ => none
  settled := fun _ => false
  submits := []
  cycles := []

/-- One act. -/
def step (cfg : RelayConfig) (s : RelayState) : RelayAct → Option RelayState
  | .tick secs => some { s with clock := s.clock + secs }
  | .request job => some { s with submits := s.submits ++ [(job, .queued)] }
  | .reconcile => some { s with cycles := s.cycles ++ [.fetching] }
  | .submit i wake =>
      match s.submits[i]? with
      | none => none
      | some (job, stage) =>
          (submitStep cfg i job s.toShared stage wake).map fun (sh, stage) =>
            { s with toShared := sh, submits := s.submits.set i (job, stage) }
  | .cycle j wake =>
      match s.cycles[j]? with
      | none => none
      | some stage =>
          (cycleStep cfg j s.toShared stage wake).map fun (sh, stage) =>
            { s with toShared := sh, cycles := s.cycles.set j stage }
  | .evict ethHash => some { s with txMeta := Function.update s.txMeta ethHash none }
  | .settle ethHash => some { s with settled := Function.update s.settled ethHash true }

end RelayState

end KoinosEvm.Proxy
