/-
The indexer's rows under the tasks that settle receipts.

A task reads that a transaction has no receipt, asks the chain, and then
writes what it was told. The indexer may write the row in between. A note
of what it has written since each task read the store (`noteIndexed`) says
which writes come too late (`Overtaken`): in every schedule, the rows of the
indexer are kept exactly if no `set_receipt` is overtaken
(`rows_kept_iff`). What carries this is that a task's transactions are the
indexer's exactly if they are in its note (`TaskNotes`).
-/
import KoinosEvm.Lib.Schedule
import KoinosEvm.Proxy.Receipts
import KoinosEvm.Proofs.Store

namespace KoinosEvm.Proofs

open Lib Proxy

-- ============================================================ the property

/-- The row is the indexer's. -/
def Indexed (db : Db) (hash : B256) : Prop :=
  ∃ s, db.settled hash = some s ∧ s.txIndex.isSome

/-- The indexer's rows and their logs are as they were. -/
def RowsKept (db db' : Db) : Prop :=
  ∀ hash, Indexed db hash →
    db'.settled hash = db.settled hash ∧ db'.logsOf hash = db.logsOf hash

/-- Only `index_tx` changes an indexer's row. -/
def KeepsRows (s : ReceiptState) (a : ReceiptAct) (s' : ReceiptState) : Prop :=
  match a with
  | .index _ => True
  | .upsert .. | .startPoll _ | .startReceipt .. | .answer .. | .write _ => RowsKept s.db s'.db

/-- What the indexer has written since each task read the store. -/
def noteIndexed (note : Nat → List B256) (s : ReceiptState) : ReceiptAct → Nat → List B256
  | .index c =>
      if (s.db.indexTx c.ethHash c.txMeta c.receipt c.timestamp).2 then
        fun task => c.ethHash :: note task
      else note
  | .startPoll task => Function.update note task []
  | .startReceipt task _ _ => Function.update note task []
  | .upsert .. | .answer .. | .write _ => note

/-- The write an act makes. -/
def writeOf (s : ReceiptState) : ReceiptAct → Option DbWrite
  | .index c => some (.index c)
  | .upsert ethHash txMeta => some (.upsert ethHash txMeta)
  | .startPoll _ | .startReceipt .. | .answer .. => none
  | .write task =>
      match s.tasks task with
      | some (.polled ethHash none _) => some (.bump ethHash)
      | some (.polled ethHash (some r) _) => some (.settle ethHash r)
      | some (.found ethHash txMeta _) => some (.upsert ethHash txMeta)
      | some (.upserted ethHash r) => some (.settle ethHash r)
      | some (.polling _) | some (.looking ..) | none => none

/-- The act is a `set_receipt`, and the indexer has written its transaction
since the task read the store. -/
def Overtaken (note : Nat → List B256) (s : ReceiptState) (a : ReceiptAct) : Prop :=
  ∃ task ethHash r, a = .write task ∧ writeOf s a = some (.settle ethHash r)
    ∧ ethHash ∈ note task

-- ========================================================= what acts do

/-- What each act does, and when. -/
inductive Moves (s : ReceiptState) : ReceiptAct → ReceiptState → Prop
  | index (c) : Moves s (.index c) { s with db := indexOne s.db c }
  | upsert (ethHash txMeta) :
      Moves s (.upsert ethHash txMeta) { s with db := s.db.upsertTx ethHash txMeta }
  | startPoll {task} (hfree : s.tasks task = none) :
      Moves s (.startPoll task)
        (s.withTask task (ReceiptState.nextPoll (s.db.pendingTxs 25)))
  | served {task ethHash txMeta} (hfree : s.tasks task = none) :
      Moves s (.startReceipt task ethHash txMeta) s
  | startReceipt {task ethHash} (txMeta) (hnone : s.db.getReceipt ethHash = none) :
      Moves s (.startReceipt task ethHash txMeta)
        (s.withTask task (some (.looking ethHash txMeta)))
  | pollAnswer {task ethHash id rest} (answer)
      (ht : s.tasks task = some (.polling ((ethHash, id) :: rest))) :
      Moves s (.answer task answer) (s.withTask task (some (.polled ethHash answer rest)))
  | notIncluded {task ethHash txMeta} (ht : s.tasks task = some (.looking ethHash txMeta)) :
      Moves s (.answer task none) (s.withTask task none)
  | included {task ethHash txMeta} (r) (ht : s.tasks task = some (.looking ethHash txMeta)) :
      Moves s (.answer task (some r)) (s.withTask task (some (.found ethHash txMeta r)))
  | bump {task ethHash rest} (ht : s.tasks task = some (.polled ethHash none rest)) :
      Moves s (.write task) ({ s with db := s.db.bumpPollAttempts ethHash }.withTask task
        (ReceiptState.nextPoll rest))
  | pollSettle {task ethHash r rest} (ht : s.tasks task = some (.polled ethHash (some r) rest)) :
      Moves s (.write task) ({ s with db := s.db.settle ethHash r }.withTask task
        (ReceiptState.nextPoll rest))
  | persist {task ethHash txMeta r} (ht : s.tasks task = some (.found ethHash txMeta r)) :
      Moves s (.write task) ({ s with db := s.db.upsertTx ethHash txMeta }.withTask task
        (some (.upserted ethHash r)))
  | settle {task ethHash r} (ht : s.tasks task = some (.upserted ethHash r)) :
      Moves s (.write task) ({ s with db := s.db.settle ethHash r }.withTask task none)

section Acts

variable {s s' : ReceiptState} {a : ReceiptAct} {db : Db} {hash : B256}

theorem moves_of_step (h : s.step a = some s') : Moves s a s' := by
  cases a with
  | index c =>
      cases h
      exact .index c
  | upsert ethHash txMeta =>
      cases h
      exact .upsert ethHash txMeta
  | startPoll task =>
      simp only [ReceiptState.step] at h
      split at h
      · cases h
      next hfree =>
        cases h
        exact .startPoll hfree
  | startReceipt task ethHash txMeta =>
      simp only [ReceiptState.step] at h
      split at h
      · cases h
      next hfree _ =>
        cases h
        exact .served hfree
      next hnone =>
        cases h
        exact .startReceipt txMeta hnone
  | answer task answer =>
      simp only [ReceiptState.step] at h
      split at h
      next ht =>
        cases h
        exact .pollAnswer answer ht
      next ht =>
        split at h
        · cases h
          exact .notIncluded ht
        next r =>
          cases h
          exact .included r ht
      · cases h
  | write task =>
      simp only [ReceiptState.step] at h
      split at h
      next ht =>
        cases h
        exact .bump ht
      next ht =>
        cases h
        exact .pollSettle ht
      next ht =>
        cases h
        exact .persist ht
      next ht =>
        cases h
        exact .settle ht
      · cases h

/-- An act changes the store by its write. -/
theorem Moves.db_eq (h : Moves s a s') :
    s'.db = ((writeOf s a).map (applyWrite s.db)).getD s.db := by
  cases h with
  | index | upsert | startPoll | served | startReceipt | pollAnswer | notIncluded
  | included => rfl
  | bump ht | pollSettle ht | persist ht | settle ht =>
      simp only [writeOf, ht]
      rfl

/-- The transactions a task may still write. -/
def hashesOf : ReceiptTask → List B256
  | .polling pending => pending.map Prod.fst
  | .polled ethHash _ rest => ethHash :: rest.map Prod.fst
  | .looking ethHash _ => [ethHash]
  | .found ethHash _ _ => [ethHash]
  | .upserted ethHash _ => [ethHash]

/-- The act starts the task. -/
def Starts (a : ReceiptAct) (task : Nat) : Prop :=
  a = .startPoll task ∨ ∃ ethHash txMeta, a = .startReceipt task ethHash txMeta

theorem nextPoll_hashes {rest : List (B256 × Bytes)} {t : ReceiptTask}
    (h : ReceiptState.nextPoll rest = some t) : hashesOf t = rest.map Prod.fst := by
  unfold ReceiptState.nextPoll at h
  split at h
  · cases h
  · cases h
    rfl

/-- A row that is polled is not settled. -/
theorem settled_of_pending {limit : Nat} (h : hash ∈ (db.pendingTxs limit).map Prod.fst) :
    db.settled hash = none := by
  rw [Db.pendingTxs, List.map_map] at h
  obtain ⟨row, hrow, rfl⟩ := List.mem_map.mp h
  have hmem := List.mem_of_mem_take hrow
  rw [List.mem_insertionSort, List.mem_reverse, List.mem_filter] at hmem
  obtain ⟨hrows, hpending⟩ := hmem
  have hnone : row.settled = none := by
    simp only [Bool.and_eq_true, Option.isNone_iff_eq_none] at hpending
    exact hpending.1.1
  exact (settled_of_mem hrows).trans hnone

theorem settled_of_getReceipt (h : db.getReceipt hash = none) : db.settled hash = none := by
  unfold Db.getReceipt at h
  exact Option.map_eq_none_iff.mp h

/-- A task at another point that holds no new transaction. -/
theorem origin_withTask {task id : Nat} {x : Option ReceiptTask} {t' : ReceiptTask}
    {db' : Db} (hsub : ∀ t', x = some t' → ∃ t, s.tasks task = some t ∧
      ∀ hash ∈ hashesOf t', hash ∈ hashesOf t)
    (ht' : ({ s with db := db' }.withTask task x).tasks id = some t')
    (hmem : hash ∈ hashesOf t') : ∃ t, s.tasks id = some t ∧ hash ∈ hashesOf t := by
  by_cases hid : id = task
  · subst hid
    have hx : x = some t' := by simpa [ReceiptState.withTask] using ht'
    obtain ⟨t, ht, hall⟩ := hsub t' hx
    exact ⟨t, ht, hall hash hmem⟩
  · have hold : s.tasks id = some t' := by simpa [ReceiptState.withTask, hid] using ht'
    exact ⟨t', hold, hmem⟩

/-- A task's transaction was its own before the act, or the act starts the
task and the transaction is not settled. -/
theorem Moves.origin (h : Moves s a s') {id : Nat} {t' : ReceiptTask}
    (ht' : s'.tasks id = some t') (hmem : hash ∈ hashesOf t') :
    (Starts a id ∧ s.db.settled hash = none)
      ∨ (¬ Starts a id ∧ ∃ t, s.tasks id = some t ∧ hash ∈ hashesOf t) := by
  cases h with
  | index | upsert => exact .inr ⟨by simp [Starts], t', ht', hmem⟩
  | @startPoll task hfree =>
      by_cases hid : id = task
      · subst hid
        have hx : ReceiptState.nextPoll (s.db.pendingTxs 25) = some t' := by
          simpa [ReceiptState.withTask] using ht'
        rw [nextPoll_hashes hx] at hmem
        exact .inl ⟨.inl rfl, settled_of_pending hmem⟩
      · have hold : s.tasks id = some t' := by simpa [ReceiptState.withTask, hid] using ht'
        exact .inr ⟨by simp [Starts, Ne.symm hid], t', hold, hmem⟩
  | @served task ethHash txMeta hfree =>
      have hid : task ≠ id := by
        rintro rfl
        rw [hfree] at ht'
        cases ht'
      exact .inr ⟨by simp [Starts, hid], t', ht', hmem⟩
  | @startReceipt task ethHash txMeta hnone =>
      by_cases hid : id = task
      · subst hid
        have hx : ReceiptTask.looking ethHash txMeta = t' := by
          simpa [ReceiptState.withTask] using ht'
        subst hx
        rw [List.mem_singleton.mp hmem]
        exact .inl ⟨.inr ⟨_, _, rfl⟩, settled_of_getReceipt hnone⟩
      · have hold : s.tasks id = some t' := by simpa [ReceiptState.withTask, hid] using ht'
        exact .inr ⟨by simp [Starts, Ne.symm hid], t', hold, hmem⟩
  | pollAnswer answer ht | included r ht | persist ht =>
      refine .inr ⟨by simp [Starts], origin_withTask (fun t' hx => ?_) ht' hmem⟩
      cases hx
      exact ⟨_, ht, fun _ h => h⟩
  | notIncluded ht | settle ht =>
      exact .inr ⟨by simp [Starts], origin_withTask (fun t' hx => by cases hx) ht' hmem⟩
  | bump ht | pollSettle ht =>
      refine .inr ⟨by simp [Starts], origin_withTask (fun t' hx => ⟨_, ht, ?_⟩) ht' hmem⟩
      rw [nextPoll_hashes hx]
      exact fun _ h => List.mem_cons_of_mem _ h

end Acts

-- ==================================================== the indexer's rows

section Rows

variable {db : Db} {hash k : B256} {r : ReceiptRow}

/-- A write that is no `index_tx` makes no row the indexer's. -/
theorem indexed_of_write {w : DbWrite} (hw : ∀ c, w ≠ .index c)
    (h : Indexed (applyWrite db w) k) : Indexed db k := by
  cases w with
  | index c => exact absurd rfl (hw c)
  | upsert ethHash txMeta =>
      obtain ⟨s, hs, hindex⟩ := h
      exact ⟨s, settled_upsertTx ▸ hs, hindex⟩
  | bump ethHash =>
      obtain ⟨s, hs, hindex⟩ := h
      exact ⟨s, settled_bump ▸ hs, hindex⟩
  | settle ethHash r =>
      by_contra hno
      obtain ⟨s, hs, hindex⟩ := h
      by_cases hk : k = ethHash
      · subst hk
        have hold : ∀ s, db.settled k = some s → s.txIndex = none := fun s hs => by
          by_contra hsome
          exact hno ⟨s, hs, Option.isSome_iff_ne_none.mpr hsome⟩
        rw [txIndex_settle hold s hs] at hindex
        cases hindex
      · exact hno ⟨s, (settled_settle_of_ne hk).symm.trans hs, hindex⟩

/-- .. and keeps the rows that are, unless it is a `set_receipt` of one. -/
theorem rowsKept_of_write {w : DbWrite} (hw : ∀ c, w ≠ .index c)
    (hsettle : ∀ ethHash r, w = .settle ethHash r → ¬ Indexed db ethHash) :
    RowsKept db (applyWrite db w) := by
  intro k hk
  cases w with
  | index c => exact absurd rfl (hw c)
  | upsert ethHash txMeta => exact ⟨settled_upsertTx, rfl⟩
  | bump ethHash => exact ⟨settled_bump, rfl⟩
  | settle ethHash r =>
      have hne : k ≠ ethHash := by
        rintro rfl
        exact hsettle k r rfl hk
      exact ⟨settled_settle_of_ne hne, logsOf_congr (logRows_settle_of_ne hne)⟩

/-- `set_receipt` takes the index from a row of the indexer. -/
theorem not_rowsKept_settle (h : Indexed db hash) : ¬ RowsKept db (db.settle hash r) := by
  intro hkept
  obtain ⟨s, hs, hindex⟩ := h
  have heq := (hkept hash ⟨s, hs, hindex⟩).1
  rw [settled_settle_self hs, hs] at heq
  cases heq
  cases hindex

/-- `index_tx` makes a row the indexer's where it writes it. -/
theorem indexed_indexTx {c : IndexCall} :
    Indexed (indexOne db c) k ↔ Indexed db k
      ∨ ((db.indexTx c.ethHash c.txMeta c.receipt c.timestamp).2 = true ∧ k = c.ethHash) := by
  unfold indexOne
  by_cases h : skips (db.settled c.ethHash) c.receipt = true
  · simp [indexTx_skip h]
  · rw [indexTx_write h]
    by_cases hk : k = c.ethHash
    · subst hk
      refine ⟨fun _ => .inr ⟨rfl, rfl⟩, fun _ => ?_⟩
      exact ⟨_, settled_writeIndexed_self, rfl⟩
    · unfold Indexed
      rw [settled_writeIndexed_of_ne hk]
      simp [hk]

end Rows

-- ============================================================ the invariant

/-- A task's transactions are the indexer's exactly if the indexer has
written them since the task read the store. -/
def TaskNotes (x : (Nat → List B256) × ReceiptState) : Prop :=
  ∀ task t, x.2.tasks task = some t → ∀ hash ∈ hashesOf t,
    hash ∈ x.1 task ↔ Indexed x.2.db hash

section Invariant

variable {note : Nat → List B256} {s s' : ReceiptState} {a : ReceiptAct}

/-- Whether the act is a call of `index_tx`. -/
def IsIndex (a : ReceiptAct) : Prop := ∃ c, a = .index c

theorem keepsRows_of_not_index (h : ¬ IsIndex a) :
    KeepsRows s a s' ↔ RowsKept s.db s'.db := by
  cases a with
  | index c => exact absurd ⟨c, rfl⟩ h
  | upsert | startPoll | startReceipt | answer | write => exact Iff.rfl

/-- An act that is no `index_tx` makes no such write. -/
theorem writeOf_not_index (h : ¬ IsIndex a) {w : DbWrite} (hw : writeOf s a = some w) :
    ∀ c, w ≠ .index c := by
  rintro c rfl
  cases a with
  | index c => exact h ⟨c, rfl⟩
  | upsert | startPoll | startReceipt | answer => cases hw
  | write task =>
      simp only [writeOf] at hw
      split at hw <;> cases hw

/-- A `set_receipt` is a task's, of a transaction it holds. -/
theorem task_of_settle (h : Moves s a s') {ethHash : B256} {r : ReceiptRow}
    (hw : writeOf s a = some (.settle ethHash r)) :
    ∃ task t, a = .write task ∧ s.tasks task = some t ∧ ethHash ∈ hashesOf t := by
  cases h with
  | index | upsert | startPoll | served | startReceipt | pollAnswer | notIncluded
  | included => cases hw
  | bump ht | persist ht =>
      simp only [writeOf, ht] at hw
      cases hw
  | pollSettle ht | settle ht =>
      simp only [writeOf, ht] at hw
      cases hw
      exact ⟨_, _, rfl, ht, List.mem_cons_self⟩

/-- Where tasks know what the indexer has written, an act keeps the
indexer's rows exactly if it is no `set_receipt` that comes too late. -/
theorem keepsRows_iff (hinv : TaskNotes (note, s)) (h : Moves s a s') :
    KeepsRows s a s' ↔ ¬ Overtaken note s a := by
  by_cases hindex : IsIndex a
  · obtain ⟨c, rfl⟩ := hindex
    refine ⟨?_, fun _ => trivial⟩
    rintro - ⟨_, _, _, ha, -⟩
    cases ha
  rw [keepsRows_of_not_index hindex, h.db_eq]
  cases hw : writeOf s a with
  | none =>
      refine ⟨?_, fun _ _ _ => ⟨rfl, rfl⟩⟩
      rintro - ⟨_, _, _, -, hw', -⟩
      rw [hw] at hw'
      cases hw'
  | some w =>
      constructor
      · -- the row of an overtaken `set_receipt` is the indexer's
        rintro hkept ⟨task, ethHash, r, rfl, hw', hnote⟩
        rw [hw] at hw'
        cases hw'
        obtain ⟨task', t, ha, ht, hmem⟩ := task_of_settle h hw
        cases ha
        exact not_rowsKept_settle ((hinv _ t ht ethHash hmem).mp hnote) hkept
      · intro hno
        refine rowsKept_of_write (writeOf_not_index hindex hw) ?_
        rintro ethHash r rfl hindexed
        obtain ⟨task, t, rfl, ht, hmem⟩ := task_of_settle h hw
        exact hno ⟨task, ethHash, r, rfl, hw, (hinv _ t ht ethHash hmem).mpr hindexed⟩

/-- A task that the act does not start has its note, and the act's write. -/
theorem mem_note_iff {task : Nat} {hash : B256} (hstarts : ¬ Starts a task)
    (hinv : hash ∈ note task ↔ Indexed s.db hash) (h : Moves s a s')
    (hkeeps : KeepsRows s a s') :
    hash ∈ noteIndexed note s a task ↔ Indexed s'.db hash := by
  by_cases hindex : IsIndex a
  · obtain ⟨c, rfl⟩ := hindex
    cases h
    rw [indexed_indexTx, ← hinv]
    simp only [noteIndexed]
    split
    next hwrote => simp [hwrote, or_comm]
    next hwrote => simp [hwrote]
  · have hnote : noteIndexed note s a task = note task := by
      cases a with
      | index c => exact absurd ⟨c, rfl⟩ hindex
      | upsert | answer | write => rfl
      | startPoll task' =>
          have hne : task ≠ task' := fun heq => hstarts (.inl (by rw [heq]))
          exact Function.update_of_ne hne _ _
      | startReceipt task' ethHash txMeta =>
          have hne : task ≠ task' := fun heq =>
            hstarts (.inr ⟨ethHash, txMeta, by rw [heq]⟩)
          exact Function.update_of_ne hne _ _
    rw [hnote, hinv]
    constructor
    · intro hold
      obtain ⟨x, hx, hsome⟩ := hold
      have hkept := (keepsRows_of_not_index hindex).mp hkeeps hash ⟨x, hx, hsome⟩
      exact ⟨x, hkept.1.trans hx, hsome⟩
    · intro hnew
      rw [h.db_eq] at hnew
      cases hw : writeOf s a with
      | none => simpa [hw] using hnew
      | some w =>
          rw [hw] at hnew
          exact indexed_of_write (writeOf_not_index hindex hw) hnew

/-- Acts that keep the indexer's rows keep the notes right. -/
theorem taskNotes_step (hinv : TaskNotes (note, s)) (h : Moves s a s')
    (hkeeps : KeepsRows s a s') : TaskNotes (noteIndexed note s a, s') := by
  intro task t' ht' hash hmem
  rcases h.origin ht' hmem with ⟨hstarts, hnone⟩ | ⟨hstarts, t, ht, hold⟩
  · -- the task has just read that the transaction is not settled
    have hindex : ¬ IsIndex a := by
      rintro ⟨c, rfl⟩
      rcases hstarts with hstarts | ⟨_, _, hstarts⟩ <;> cases hstarts
    have hdb : s'.db = s.db := by
      rw [h.db_eq]
      rcases hstarts with rfl | ⟨_, _, rfl⟩ <;> rfl
    have hnote : noteIndexed note s a task = [] := by
      rcases hstarts with rfl | ⟨_, _, rfl⟩
      · exact Function.update_self ..
      · exact Function.update_self ..
    simp [hnote, hdb, Indexed, hnone]
  · exact mem_note_iff hstarts (hinv task t ht hash hold) h hkeeps

end Invariant

-- ============================================================ every schedule

/-- A store, and no task under way. -/
def idle (db : Db) : ReceiptState := ⟨db, fun _ => none⟩

/-- In every schedule, no act but `index_tx` changes a row of the indexer
exactly if no `set_receipt` writes a transaction that the indexer has
written since the task read the store. -/
theorem rows_kept_iff (db : Db) (acts : List ReceiptAct) :
    Always ReceiptState.step KeepsRows (idle db) acts
      ↔ Always (watched ReceiptState.step noteIndexed)
          (fun x a _ => ¬ Overtaken x.1 x.2 a) (fun _ => [], idle db) acts := by
  rw [← always_watched noteIndexed (fun _ => [])]
  have hmoves {x x' : (Nat → List B256) × ReceiptState} {a : ReceiptAct}
      (h : watched ReceiptState.step noteIndexed x a = some x') :
      Moves x.2 a x'.2 ∧ x'.1 = noteIndexed x.1 x.2 a := by
    obtain ⟨s', hs', rfl⟩ := Option.map_eq_some_iff.mp h
    exact ⟨moves_of_step hs', rfl⟩
  refine always_iff TaskNotes (fun x a x' hinv h => ?_) (fun x a x' hinv h hP => ?_)
    (fun task t ht => by cases ht) acts
  · exact keepsRows_iff hinv (hmoves h).1
  · obtain ⟨hmove, hnote⟩ := hmoves h
    have hnext := taskNotes_step hinv hmove hP
    rwa [← hnote] at hnext

-- ================================================================ the gap

/-- The receipt the chain has for the sample. -/
def chainReceipt : ReceiptRow := sampleReceipt 5 [0xaa] true

/-- The poller reads the store, the indexer writes the row, and then the
poller does. -/
def pollerBehind : List ReceiptAct :=
  [.upsert (.zero 32) sampleMeta, .startPoll 0, .answer 0 (some chainReceipt),
   .index ⟨.zero 32, sampleMeta, chainReceipt, 0⟩, .write 0]

/-- The row loses its index. -/
theorem pollerBehind_downgrades :
    ¬ Always ReceiptState.step KeepsRows (idle .empty) pollerBehind := by
  rintro ⟨-, -, -, -, hkeeps, -⟩
  have hkept := (hkeeps (.zero 32) ⟨settledAs chainReceipt (some 0), rfl, rfl⟩).1
  cases hkept

end KoinosEvm.Proofs
