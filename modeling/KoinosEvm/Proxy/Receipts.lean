/-
The tasks that settle receipts from the chain (rpc/src/rpc.rs:
`poll_pending_receipts`, `handle_get_tx_receipt`), step by step.

Each reads the store, asks the chain and then writes. Every operation of the
store is atomic, and what other tasks do comes between: the step that reads,
the chain's answer and each write are acts of their own. The calls of
`index_tx` (the indexer) and of `upsert_tx` (the relay) are acts too. The
chain's answer is any receipt; SQL errors are not modelled (Db.lean).
-/
import KoinosEvm.Proxy.Db
import Mathlib.Logic.Function.Basic

namespace KoinosEvm.Proxy

/-- What a task has in hand between two acts. -/
inductive ReceiptTask where
  /-- `poll_pending_receipts`, asking the chain for the first row. -/
  | polling (pending : List (B256 × Bytes))
  /-- .. with the answer; `none` is a row still pending or a failed fetch. -/
  | polled (ethHash : B256) (answer : Option ReceiptRow) (rest : List (B256 × Bytes))
  /-- `handle_get_tx_receipt`, asking the chain: the store had no receipt. -/
  | looking (ethHash : B256) (txMeta : TxMeta)
  /-- .. with a receipt, about to call `upsert_tx`. -/
  | found (ethHash : B256) (txMeta : TxMeta) (r : ReceiptRow)
  /-- .. about to call `set_receipt`. -/
  | upserted (ethHash : B256) (r : ReceiptRow)

/-- The store, and the tasks under way by number. -/
structure ReceiptState where
  db : Db
  tasks : Nat → Option ReceiptTask

/-- The acts. -/
inductive ReceiptAct where
  /-- A call of `index_tx`. -/
  | index (c : IndexCall)
  /-- A call of `upsert_tx` by the relay. -/
  | upsert (ethHash : B256) (txMeta : TxMeta)
  /-- `poll_pending_receipts` starts: `pending_txs(25)`. -/
  | startPoll (task : Nat)
  /-- `handle_get_tx_receipt` starts: `get_receipt`. -/
  | startReceipt (task : Nat) (ethHash : B256) (txMeta : TxMeta)
  /-- `fetch_receipt_from_chain` answers a task. -/
  | answer (task : Nat) (answer : Option ReceiptRow)
  /-- A task makes its next write. -/
  | write (task : Nat)

namespace ReceiptState

/-- The state with a task at another point, or done. -/
def withTask (s : ReceiptState) (task : Nat) (t : Option ReceiptTask) : ReceiptState :=
  { s with tasks := Function.update s.tasks task t }

/-- The head of the poller's loop. -/
def nextPoll (rest : List (B256 × Bytes)) : Option ReceiptTask :=
  if rest.isEmpty then none else some (.polling rest)

/-- One act. -/
def step (s : ReceiptState) : ReceiptAct → Option ReceiptState
  | .index c => some { s with db := indexOne s.db c }
  | .upsert ethHash txMeta => some { s with db := s.db.upsertTx ethHash txMeta }
  | .startPoll task =>
      match s.tasks task with
      | some _ => none
      | none => some (s.withTask task (nextPoll (s.db.pendingTxs 25)))
  | .startReceipt task ethHash txMeta =>
      match s.tasks task, s.db.getReceipt ethHash with
      | some _, _ => none
      | none, some _ => some s -- served from the store
      | none, none => some (s.withTask task (some (.looking ethHash txMeta)))
  | .answer task answer =>
      match s.tasks task with
      | some (.polling ((ethHash, _) :: rest)) =>
          some (s.withTask task (some (.polled ethHash answer rest)))
      | some (.looking ethHash txMeta) =>
          match answer with
          | none => some (s.withTask task none) -- not yet included
          | some r => some (s.withTask task (some (.found ethHash txMeta r)))
      | _ => none
  | .write task =>
      match s.tasks task with
      | some (.polled ethHash none rest) =>
          some ({ s with db := s.db.bumpPollAttempts ethHash }.withTask task (nextPoll rest))
      | some (.polled ethHash (some r) rest) =>
          some ({ s with db := s.db.settle ethHash r }.withTask task (nextPoll rest))
      | some (.found ethHash txMeta r) =>
          some ({ s with db := s.db.upsertTx ethHash txMeta }.withTask task
            (some (.upserted ethHash r)))
      | some (.upserted ethHash r) =>
          some ({ s with db := s.db.settle ethHash r }.withTask task none)
      | _ => none

end ReceiptState

end KoinosEvm.Proxy
