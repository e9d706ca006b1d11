/-
The one execution of a raw transaction among its rejected duplicates.

Whoever has the bytes can submit them again; the engine rejects them, and
the history has an entry without gas or logs. The store must show the
execution whatever the order. It does unless every report of the success
comes right behind one of the same height (`success_shown_iff`): a failure
placed there turns it away as already indexed.
-/
import KoinosEvm.Proofs.Placement

namespace KoinosEvm.Proofs

open Lib Proxy

/-- What a receipt says of an execution. The positions in the block are the
indexer's. -/
structure Outcome where
  status : Bool
  blockHeight : UInt64
  blockHash : Bytes
  gasUsed : UInt64
  contractAddress : Option Bytes
  logs : List (Bytes × List Bytes × Bytes)
  deriving DecidableEq

/-- The outcome a receipt reports. -/
def outcomeOf (r : ReceiptRow) : Outcome :=
  ⟨r.status, r.blockHeight, r.blockHash, r.gasUsed, r.contractAddress, r.logs.map contentOf⟩

/-- A successful execution. A log has at most four topics. -/
structure Execution where
  receipt : ReceiptRow
  success : receipt.status = true
  topics_le : ∀ l ∈ receipt.logs, l.topics.length ≤ 4

/-- `get_receipt` has the execution's outcome. -/
def Shows (db : Db) (hash : B256) (e : Execution) : Prop :=
  ∃ stored ∈ db.getReceipt hash, outcomeOf stored = outcomeOf e.receipt

/-- Every report of a success is of this execution. -/
def OneExecution (e : Execution) (calls : List IndexCall) : Prop :=
  ∀ c ∈ calls, c.receipt.status = true → outcomeOf c.receipt = outcomeOf e.receipt

section Shown

variable {db : Db} {hash : B256} {e : Execution} {calls : List IndexCall}

/-- The bound on topics is one on the outcome. -/
theorem topics_le_of_outcome {r : ReceiptRow} (h : outcomeOf r = outcomeOf e.receipt) :
    ∀ l ∈ r.logs, l.topics.length ≤ 4 := by
  intro l hl
  have hlogs : r.logs.map contentOf = e.receipt.logs.map contentOf := congrArg Outcome.logs h
  have hmem : contentOf l ∈ e.receipt.logs.map contentOf := hlogs ▸ List.mem_map_of_mem hl
  obtain ⟨l', hl', heq⟩ := List.mem_map.mp hmem
  have htopics : l'.topics = l.topics := congrArg (fun c => c.2.1) heq
  exact htopics ▸ e.topics_le l' hl'

/-- The topic columns hold all of an execution's topics. -/
theorem columnsOf_eq {r : ReceiptRow} (h : ∀ l ∈ r.logs, l.topics.length ≤ 4) :
    r.logs.map columnsOf = r.logs.map contentOf := by
  refine List.map_congr_left fun l hl => ?_
  rw [columnsOf, List.take_of_length_le (h l hl)]
  rfl

/-- What `index_tx` writes of the execution is shown. -/
theorem shows_writeIndexed {c : IndexCall} (h : outcomeOf c.receipt = outcomeOf e.receipt) :
    Shows (db.writeIndexed c.ethHash c.txMeta c.receipt c.timestamp) c.ethHash e := by
  unfold Shows Db.getReceipt
  rw [settled_writeIndexed_self, logsOf_eq _ logRows_writeIndexed_self]
  refine ⟨_, rfl, ?_⟩
  rw [← h]
  simp only [outcomeOf, settledAs, content_newLogs, columnsOf_eq (topics_le_of_outcome h)]

/-- A success in place is the execution, through a whole sequence. -/
theorem shows_of_succeeded (hcalls : ∀ c ∈ calls, c.ethHash = hash)
    (hsame : OneExecution e calls)
    (hstart : Succeeded (placement (db.settled hash)) → Shows db hash e) :
    Succeeded (placement ((indexAll db calls).settled hash))
      → Shows (indexAll db calls) hash e := by
  induction calls generalizing db with
  | nil => exact hstart
  | cons c calls ih =>
      rw [List.forall_mem_cons] at hcalls
      obtain ⟨rfl, hcalls⟩ := hcalls
      refine ih hcalls (fun x hx => hsame x (List.mem_cons_of_mem _ hx)) ?_
      intro hsucc
      by_cases h : skips (db.settled c.ethHash) c.receipt = true
      · rw [indexOne_of_skips h] at hsucc ⊢
        exact hstart hsucc
      · -- the call wrote, and what is in place is its own report
        rw [placement_indexOne, place_of_not_skipped (mt skips_iff_skippedAt.mpr h),
          succeeded_some] at hsucc
        rw [indexOne_of_not_skips h]
        exact shows_writeIndexed (hsame c List.mem_cons_self hsucc)

/-- What is shown and placed is a success in place. -/
theorem succeeded_of_shows (hplaced : placement (db.settled hash) ≠ none)
    (hshows : Shows db hash e) : Succeeded (placement (db.settled hash)) := by
  obtain ⟨stored, hstored, houtcome⟩ := hshows
  have hstatus : stored.status = true := (congrArg Outcome.status houtcome).trans e.success
  unfold Db.getReceipt at hstored
  cases hs : db.settled hash with
  | none =>
      rw [hs] at hplaced
      exact absurd rfl hplaced
  | some s =>
      rw [hs] at hstored hplaced
      cases hstored
      unfold placement at hplaced ⊢
      by_cases hindexed : s.txIndex.isSome = true
      · simpa [hindexed] using hstatus
      · simp [hindexed] at hplaced

/-- Calls for one transaction report nothing else. -/
theorem reportsOf_ne_nil (hcalls : ∀ c ∈ calls, c.ethHash = hash) (hne : calls ≠ []) :
    reportsOf calls hash ≠ [] := by
  obtain ⟨c, hc⟩ := List.exists_mem_of_ne_nil calls hne
  exact List.ne_nil_of_mem (mem_reportsOf.mpr ⟨c, hc, hcalls c hc, rfl⟩)

end Shown

/-- Of a transaction that the indexer has not written before, the store
shows the execution exactly if some report of the success is the first
report or not at the height of the one before it. -/
theorem success_shown_iff (db : Db) (hash : B256) (e : Execution) (calls : List IndexCall)
    (hfresh : placement (db.settled hash) = none) (hcalls : ∀ c ∈ calls, c.ethHash = hash)
    (hsame : OneExecution e calls) (hsome : ∃ c ∈ calls, c.receipt.status = true) :
    Shows (indexAll db calls) hash e ↔ TakesOver none (reportsOf calls hash) := by
  have hne : reportsOf calls hash ≠ [] := by
    obtain ⟨c, hc, -⟩ := hsome
    exact reportsOf_ne_nil hcalls (List.ne_nil_of_mem hc)
  have hend := succeeded_placeAll (placement (db.settled hash)) (reportsOf calls hash)
  rw [← placement_indexAll, hfresh] at hend
  have hnone : ¬ Succeeded (none : Option (Report UInt64)) := by simp [Succeeded]
  constructor
  · intro hshows
    have hplaced : placement ((indexAll db calls).settled hash) ≠ none := by
      rw [placement_indexAll]
      obtain ⟨p, hp⟩ := placeAll_ne_none (placement (db.settled hash)) hne
      rw [hp]
      exact Option.some_ne_none p
    exact (hend.mp (succeeded_of_shows hplaced hshows)).resolve_left hnone
  · intro htakes
    refine shows_of_succeeded hcalls hsame ?_ (hend.mpr (.inr htakes))
    rw [hfresh]
    exact fun h => absurd h hnone

/-- An execution in block `0xaa` of height 5. -/
def executedAtFive : Execution := ⟨sampleReceipt 5 [0xaa] true, rfl, by simp [sampleReceipt]⟩

/-- The call that reports it. -/
def executedCall : IndexCall := ⟨.zero 32, sampleMeta, executedAtFive.receipt, 0⟩

/-- A rejected duplicate in the same block. -/
def rejectedCall : IndexCall := ⟨.zero 32, sampleMeta, sampleReceipt 5 [0xaa] false, 0⟩

theorem oneExecution_of_mem {calls : List IndexCall}
    (h : ∀ c ∈ calls, c = executedCall ∨ c = rejectedCall) :
    OneExecution executedAtFive calls := by
  intro c hc hstatus
  rcases h c hc with rfl | rfl
  · rfl
  · cases hstatus

/-- The duplicate behind the execution is harmless. -/
theorem success_shown_before :
    Shows (indexAll .empty [executedCall, rejectedCall]) (.zero 32) executedAtFive := by
  refine (success_shown_iff .empty (.zero 32) executedAtFive _ rfl ?_ ?_ ?_).mpr ?_
  · simp [executedCall, rejectedCall]
  · exact oneExecution_of_mem (by simp)
  · exact ⟨executedCall, by simp, rfl⟩
  · exact .inl ⟨rfl, by simp⟩

/-- The duplicate in front of it hides it. -/
theorem success_hidden :
    OneExecution executedAtFive [rejectedCall, executedCall]
      ∧ ¬ Shows (indexAll .empty [rejectedCall, executedCall]) (.zero 32) executedAtFive := by
  refine ⟨oneExecution_of_mem (by simp), ?_⟩
  unfold Shows
  decide

end KoinosEvm.Proofs
