/-
The receipt poller treats a backlog evenly.

A transaction that is not settled is a key of `Lib.Backlog`, its
`poll_attempts` are its tries, and the poller's window is what is left of
the rows that `pending_txs` gave it (`backlogOf`). As long as there is one
poller and no row becomes pending, every act of every task is a step of the
backlog (`backlog_step`): the least attempted rows come first, the window
leaves out none that has fewer attempts, and whoever else writes the store
leaves the attempts alone. Ties, the size of the window and the cap do not
matter.
-/
import KoinosEvm.Lib.LeastServed
import KoinosEvm.Proofs.Downgrade

namespace KoinosEvm.Proofs

open Lib Proxy

-- ============================================================ the property

/-- The row waits for its receipt. -/
def Pending (db : Db) (hash : B256) (row : TxRow) : Prop :=
  db.txs.find? hash = some row ∧ row.settled = none ∧ row.koinosTxId.isSome

/-- What is left of a task's poll: the transactions to come, and the one that
the chain has answered for. -/
def pollPart : Option ReceiptTask → List B256 × Option B256
  | some (.polling pending) => (pending.map Prod.fst, none)
  | some (.polled ethHash _ rest) => (rest.map Prod.fst, some ethHash)
  | some (.looking ..) | some (.found ..) | some (.upserted ..) | none => ([], none)

/-- The transaction an act polls. -/
def pollOf (s : ReceiptState) : ReceiptAct → Option B256
  | .answer task _ =>
      match s.tasks task with
      | some (.polling ((ethHash, _) :: _)) => some ethHash
      | _ => none
  | .index _ | .upsert .. | .startPoll _ | .startReceipt .. | .write _ => none

/-- The transactions polled, the last one first. -/
def notePolls (polls : List B256) (s : ReceiptState) (a : ReceiptAct) : List B256 :=
  (pollOf s a).toList ++ polls

/-- One task polls, and no row becomes pending. -/
structure Undisturbed (poller : Nat) (s : ReceiptState) (a : ReceiptAct)
    (s' : ReceiptState) : Prop where
  onePoller : ∀ task, a = .startPoll task → task = poller
  noneNew : ∀ hash row', Pending s'.db hash row' → ∃ row, Pending s.db hash row

/-- The rows that are still pending are at most one attempt apart, and a row
is polled when all of them have been polled as often: a second time when
each has been polled. -/
structure EvenPolls (x : List B256 × ReceiptState) (a : ReceiptAct)
    (x' : List B256 × ReceiptState) : Prop where
  attempts : ∀ h g row row', Pending x'.2.db h row → Pending x'.2.db g row' →
    row.pollAttempts ≤ row'.pollAttempts + 1
  rounds : ∀ g, pollOf x.2 a = some g → ∀ h row, Pending x.2.db h row →
    x.1.count g ≤ x.1.count h
  again : ∀ g, pollOf x.2 a = some g → g ∈ x.1 → ∀ h row, Pending x.2.db h row → h ∈ x.1

-- ============================================================ the attempts

/-- The attempts counted for a transaction. -/
def attemptsOf (db : Db) (hash : B256) : Nat :=
  ((db.txs.find? hash).map TxRow.pollAttempts).getD 0

section Attempts

variable {db : Db} {hash k : B256} {row : TxRow}

theorem attemptsOf_pending (h : Pending db hash row) : attemptsOf db hash = row.pollAttempts := by
  rw [attemptsOf, h.1]
  rfl

/-- An upsert that leaves the attempts of the row there alone. -/
theorem attempts_upsert {db' : Db} {new : TxRow} {f : TxRow → TxRow}
    {hf : ∀ row, (f row).ethHash = row.ethHash}
    (htxs : db'.txs = db.txs.upsert new f hf)
    (hkeeps : ∀ row, (f row).pollAttempts = row.pollAttempts)
    (hrow : db.txs.find? hash = some row) : attemptsOf db' hash = attemptsOf db hash := by
  unfold attemptsOf
  rw [htxs]
  by_cases hk : new.ethHash = hash
  · rw [Table.find?_upsert_self _ hk, hrow]
    exact hkeeps row
  · rw [Table.find?_upsert_of_ne _ hk]

theorem attempts_settle {r : ReceiptRow} :
    attemptsOf (db.settle k r) hash = attemptsOf db hash := by
  unfold Db.settle Db.setReceipt attemptsOf
  cases hrow : db.txs.find? k with
  | none => rfl
  | some row =>
      by_cases hk : hash = k
      · subst hk
        simp only [Table.find?_modify_self, hrow]
        rfl
      · simp only [Table.find?_modify_of_ne _ hk]

theorem attempts_index {c : IndexCall} (hrow : db.txs.find? hash = some row) :
    attemptsOf (indexOne db c) hash = attemptsOf db hash := by
  unfold indexOne
  by_cases hskip : skips (db.settled c.ethHash) c.receipt = true
  · rw [indexTx_skip hskip]
  · rw [indexTx_write hskip]
    exact attempts_upsert rfl (fun _ => rfl) hrow

/-- Only `bump_poll_attempts` changes the attempts of a row. -/
theorem attempts_write {w : DbWrite} (hw : ∀ g, w ≠ .bump g)
    (hrow : db.txs.find? hash = some row) :
    attemptsOf (applyWrite db w) hash = attemptsOf db hash := by
  cases w with
  | index c => exact attempts_index hrow
  | upsert ethHash txMeta => exact attempts_upsert rfl (fun _ => rfl) hrow
  | bump g => exact absurd rfl (hw g)
  | settle ethHash r => exact attempts_settle

/-- It counts one more in its own row. -/
theorem attempts_bump (hrow : db.txs.find? hash = some row) :
    attemptsOf (db.bumpPollAttempts k) hash
      = attemptsOf db hash + if some k = some hash then 1 else 0 := by
  unfold Db.bumpPollAttempts attemptsOf
  by_cases hk : hash = k
  · subst hk
    rw [Table.find?_modify_self, hrow, if_pos rfl]
    rfl
  · rw [Table.find?_modify_of_ne _ hk, if_neg (fun heq => hk (Option.some.inj heq).symm)]
    rfl

/-- A row that is settled waits no more. -/
theorem not_pending_settle {r : ReceiptRow} : ¬ Pending (db.settle hash r) hash row := by
  rintro ⟨hrow, hnone, -⟩
  have hsettled : (db.settle hash r).settled hash = none := by
    rw [Db.settled, hrow]
    exact hnone
  rcases @settle_cases db hash r with ⟨hno, hsame⟩ | ⟨hsome, -⟩
  · rw [hsame, hno] at hrow
    cases hrow
  · rw [hsome] at hsettled
    cases hsettled

/-- An update that settles a row, or leaves it as it is, makes none pending. -/
theorem pending_of_modify {db' : Db} {row' : TxRow} (f : TxRow → TxRow)
    (hf : ∀ row, (f row).ethHash = row.ethHash) (htxs : db'.txs = db.txs.modify k f hf)
    (hsettled : ∀ row, (f row).settled = none → row.settled = none)
    (hid : ∀ row, (f row).koinosTxId = row.koinosTxId) (h : Pending db' hash row') :
    ∃ row, Pending db hash row := by
  obtain ⟨hrow', hnone, hsome⟩ := h
  rw [htxs] at hrow'
  by_cases hk : hash = k
  · subst hk
    rw [Table.find?_modify_self] at hrow'
    obtain ⟨row, hrow, rfl⟩ := Option.map_eq_some_iff.mp hrow'
    exact ⟨row, hrow, hsettled row hnone, hid row ▸ hsome⟩
  · rw [Table.find?_modify_of_ne _ hk] at hrow'
    exact ⟨row', hrow', hnone, hsome⟩

theorem pending_of_bump {row' : TxRow} (h : Pending (db.bumpPollAttempts k) hash row') :
    ∃ row, Pending db hash row :=
  pending_of_modify (fun row => { row with pollAttempts := row.pollAttempts + 1 }) (fun _ => rfl)
    rfl (fun _ hnone => hnone) (fun _ => rfl) h

theorem pending_of_settle {r : ReceiptRow} {row' : TxRow} (h : Pending (db.settle k r) hash row') :
    ∃ row, Pending db hash row := by
  unfold Db.settle Db.setReceipt at h
  cases hrow : db.txs.find? k with
  | none =>
      rw [hrow] at h
      exact ⟨row', h⟩
  | some row =>
      rw [hrow] at h
      refine pending_of_modify (fun row => { row with settled := some (settledAs r none) })
        (fun _ => rfl) rfl (fun _ hnone => ?_) (fun _ => rfl) h
      cases hnone

end Attempts

-- ============================================================= the backlog

/-- The pending rows as a backlog, in the hands of the poller. -/
def backlogOf (poller : Nat) (s : ReceiptState) : Backlog B256 where
  waiting := {hash | ∃ row, Pending s.db hash row}
  tries := attemptsOf s.db
  window := (pollPart (s.tasks poller)).1
  trying := (pollPart (s.tasks poller)).2

/-- The rows `pending_txs` selects, in its order. -/
def pendingRows (db : Db) : List TxRow :=
  (db.txs.rows.filter fun row =>
      row.settled.isNone && row.koinosTxId.isSome && row.pollAttempts < pollAttemptsCap).reverse
    |>.insertionSort fun a b => a.pollAttempts ≤ b.pollAttempts

section Window

variable {db : Db} {limit : Nat} {row : TxRow}

theorem mem_pendingRows : row ∈ pendingRows db
    ↔ Pending db row.ethHash row ∧ row.pollAttempts < pollAttemptsCap := by
  rw [pendingRows, List.mem_insertionSort, List.mem_reverse, List.mem_filter]
  simp only [Bool.and_eq_true, Option.isNone_iff_eq_none, decide_eq_true_iff]
  constructor
  · rintro ⟨hrow, ⟨hnone, hid⟩, hcap⟩
    exact ⟨⟨Table.find?_of_mem hrow, hnone, hid⟩, hcap⟩
  · rintro ⟨⟨hrow, hnone, hid⟩, hcap⟩
    exact ⟨Table.find?_mem hrow, ⟨hnone, hid⟩, hcap⟩

theorem pendingRows_sorted :
    (pendingRows db).Pairwise fun a b => a.pollAttempts ≤ b.pollAttempts := by
  have : Std.Total fun a b : TxRow => a.pollAttempts ≤ b.pollAttempts :=
    ⟨fun a b => Nat.le_total a.pollAttempts b.pollAttempts⟩
  have : IsTrans TxRow fun a b => a.pollAttempts ≤ b.pollAttempts :=
    ⟨fun _ _ _ => Nat.le_trans⟩
  exact List.pairwise_insertionSort _ _

theorem nodup_pendingRows : ((pendingRows db).map TxRow.ethHash).Nodup := by
  have hperm := ((List.perm_insertionSort (fun a b : TxRow => a.pollAttempts ≤ b.pollAttempts)
    _).trans (List.reverse_perm (db.txs.rows.filter fun row =>
      row.settled.isNone && row.koinosTxId.isSome && row.pollAttempts < pollAttemptsCap))).map
        TxRow.ethHash
  exact hperm.nodup_iff.mpr (db.txs.nodup.sublist (List.filter_sublist.map _))

theorem pendingTxs_hashes :
    (db.pendingTxs limit).map Prod.fst = ((pendingRows db).take limit).map TxRow.ethHash := by
  rw [Db.pendingTxs, List.map_map]
  rfl

/-- The hash of a row in the window is that of a pending one. -/
theorem pending_of_mem_window {hash : B256}
    (h : hash ∈ ((pendingRows db).take limit).map TxRow.ethHash) :
    ∃ row ∈ (pendingRows db).take limit, Pending db hash row ∧ row.ethHash = hash := by
  obtain ⟨row, hrow, rfl⟩ := List.mem_map.mp h
  exact ⟨row, hrow, (mem_pendingRows.mp (List.mem_of_mem_take hrow)).1, rfl⟩

/-- `pending_txs` draws up a window, of whatever size: what it leaves out is
behind it in the order, or at the cap. -/
theorem isWindow_pendingTxs (poller : Nat) (s : ReceiptState) :
    (backlogOf poller s).IsWindow ((s.db.pendingTxs limit).map Prod.fst) := by
  rw [pendingTxs_hashes]
  refine ⟨?_, ?_, ?_, ?_⟩
  · exact nodup_pendingRows.sublist ((List.take_sublist _ _).map _)
  · intro x hx
    obtain ⟨row, -, hrow, -⟩ := pending_of_mem_window hx
    exact ⟨row, hrow⟩
  · rw [List.pairwise_map]
    refine (pendingRows_sorted.sublist (List.take_sublist _ _)).imp_of_mem ?_
    intro a b ha hb hle
    have hpa := (mem_pendingRows.mp (List.mem_of_mem_take ha)).1
    have hpb := (mem_pendingRows.mp (List.mem_of_mem_take hb)).1
    show attemptsOf s.db a.ethHash ≤ attemptsOf s.db b.ethHash
    rw [attemptsOf_pending hpa, attemptsOf_pending hpb]
    exact hle
  · intro x hx h hh hout
    obtain ⟨row, hrow, hpending, -⟩ := pending_of_mem_window hx
    obtain ⟨left, hleft⟩ := hh
    show attemptsOf s.db x ≤ attemptsOf s.db h
    rw [attemptsOf_pending hpending, attemptsOf_pending hleft]
    have hcap := (mem_pendingRows.mp (List.mem_of_mem_take hrow)).2
    by_cases hbelow : left.pollAttempts < pollAttemptsCap
    · by_contra hle
      have hkey : left.ethHash = h := Table.find?_key hleft.1
      have hmem : left ∈ pendingRows s.db := mem_pendingRows.mpr ⟨hkey.symm ▸ hleft, hbelow⟩
      have htake := mem_take_of_pairwise pendingRows_sorted hmem hrow hle
      exact hout (List.mem_map.mpr ⟨left, htake, hkey⟩)
    · omega

end Window

-- ================================================================ the acts

/-- Nobody else polls. -/
def OnePoller (poller : Nat) (s : ReceiptState) : Prop :=
  ∀ task, task ≠ poller → pollPart (s.tasks task) = ([], none)

section Acts

variable {poller task : Nat} {s s' : ReceiptState} {a : ReceiptAct} {t : Option ReceiptTask}

theorem pollPart_nextPoll (rest : List (B256 × Bytes)) :
    pollPart (ReceiptState.nextPoll rest) = (rest.map Prod.fst, none) := by
  cases rest with
  | nil => rfl
  | cons x rest => rfl

/-- A task that polls is the poller. -/
theorem OnePoller.eq (hone : OnePoller poller s) (task : Nat)
    (ht : pollPart (s.tasks task) ≠ ([], none)) : task = poller := by
  by_contra hne
  exact ht (hone task hne)

theorem tasks_withTask_self : (s.withTask task t).tasks task = t := Function.update_self ..

theorem tasks_withTask_of_ne {id : Nat} (h : id ≠ task) :
    (s.withTask task t).tasks id = s.tasks id := Function.update_of_ne h _ _

/-- A task that does not poll, at another point where it does not. -/
theorem pollPart_withTask (hold : pollPart (s.tasks task) = ([], none))
    (hnew : pollPart t = ([], none)) (id : Nat) :
    pollPart ((s.withTask task t).tasks id) = pollPart (s.tasks id) := by
  by_cases hid : id = task
  · rw [hid, tasks_withTask_self, hnew, hold]
  · rw [tasks_withTask_of_ne hid]

/-- A lookup starts where no task is under way. -/
theorem free_of_startReceipt {ethHash : B256} {txMeta : TxMeta}
    (h : s.step (.startReceipt task ethHash txMeta) = some s') : s.tasks task = none := by
  simp only [ReceiptState.step] at h
  split at h
  · cases h
  next hfree _ => exact hfree
  next hfree _ => exact hfree

/-- The poller stays the only one. -/
theorem onePoller_step (hone : OnePoller poller s) (h : s.step a = some s')
    (hund : Undisturbed poller s a s') : OnePoller poller s' := by
  intro id hid
  have hkeep : ∀ {db : Db} {task : Nat} {t : Option ReceiptTask},
      (task ≠ poller → pollPart t = ([], none)) →
      pollPart (({ s with db := db }.withTask task t).tasks id) = ([], none) := by
    intro db task t ht
    by_cases heq : id = task
    · rw [heq, tasks_withTask_self]
      exact ht (heq ▸ hid)
    · rw [tasks_withTask_of_ne heq]
      exact hone id hid
  cases moves_of_step h with
  | index | upsert | served => exact hone id hid
  | @startPoll task hfree =>
      exact hkeep fun hne => absurd (hund.onePoller task rfl) hne
  | startReceipt | notIncluded | included | persist | settle => exact hkeep fun _ => rfl
  | pollAnswer answer ht =>
      exact hkeep fun hne => absurd (hone.eq _ (by rw [ht]; simp [pollPart])) hne
  | bump ht | pollSettle ht =>
      exact hkeep fun hne => absurd (hone.eq _ (by rw [ht]; simp [pollPart])) hne

/-- A write that is no bump counts no attempt. -/
theorem shrinks_of_moves (h : Moves s a s') (hund : Undisturbed poller s a s')
    (hbump : ∀ g, writeOf s a ≠ some (.bump g)) :
    (backlogOf poller s).Shrinks (backlogOf poller s') none := by
  rintro hash ⟨row', hrow'⟩
  obtain ⟨row, hrow⟩ := hund.noneNew hash row' hrow'
  refine ⟨⟨row, hrow⟩, ?_⟩
  show attemptsOf s'.db hash = attemptsOf s.db hash
  rw [h.db_eq]
  cases hw : writeOf s a with
  | none => rfl
  | some w => exact attempts_write (fun g heq => hbump g (heq ▸ hw)) hrow.1

/-- An act that neither polls nor ends a poll: rows leave, at most. -/
theorem backlog_leave (h : Moves s a s') (hund : Undisturbed poller s a s')
    (hbump : ∀ g, writeOf s a ≠ some (.bump g))
    (hpart : pollPart (s'.tasks poller) = pollPart (s.tasks poller)) :
    (backlogOf poller s).Step none (backlogOf poller s') :=
  .leave (shrinks_of_moves h hund hbump) (congrArg Prod.fst hpart) (congrArg Prod.snd hpart)

theorem backlogOf_withTask : backlogOf poller (s.withTask poller t)
    = { backlogOf poller s with window := (pollPart t).1, trying := (pollPart t).2 } := by
  unfold backlogOf
  rw [tasks_withTask_self]
  rfl

/-- Every act is a step of the backlog, a poll the turn of its row. -/
theorem backlog_step (hone : OnePoller poller s) (h : s.step a = some s')
    (hund : Undisturbed poller s a s') :
    (backlogOf poller s).Step (pollOf s a) (backlogOf poller s') := by
  have hmoves := moves_of_step h
  cases hmoves with
  | index c => exact backlog_leave (.index c) hund (fun _ hw => by cases hw) rfl
  | upsert ethHash txMeta =>
      exact backlog_leave (.upsert ethHash txMeta) hund (fun _ hw => by cases hw) rfl
  | @startPoll task hfree =>
      obtain rfl := hund.onePoller task rfl
      have hidle : pollPart (s.tasks task) = ([], none) := by
        rw [hfree]
        rfl
      rw [backlogOf_withTask, pollPart_nextPoll, ← congrArg Prod.snd hidle]
      exact .draw (congrArg Prod.fst hidle) (congrArg Prod.snd hidle) (isWindow_pendingTxs task s)
  | served hfree => exact backlog_leave (.served hfree) hund (fun _ hw => by cases hw) rfl
  | @startReceipt task ethHash txMeta hnone =>
      have hidle : pollPart (s.tasks task) = ([], none) := by
        rw [free_of_startReceipt h]
        rfl
      exact backlog_leave (.startReceipt txMeta hnone) hund (fun _ hw => by cases hw)
        (pollPart_withTask hidle rfl poller)
  | @pollAnswer task ethHash id rest answer ht =>
      obtain rfl := hone.eq task (by rw [ht]; simp [pollPart])
      have hpoll : pollOf s (.answer task answer) = some ethHash := by simp only [pollOf, ht]
      have hpart : pollPart (s.tasks task) = (ethHash :: rest.map Prod.fst, none) := by
        rw [ht]
        rfl
      rw [hpoll, backlogOf_withTask]
      exact .turn (congrArg Prod.fst hpart) (congrArg Prod.snd hpart)
  | @notIncluded task ethHash txMeta ht =>
      have hpoll : pollOf s (.answer task none) = none := by simp only [pollOf, ht]
      rw [hpoll]
      exact backlog_leave (.notIncluded ht) hund (fun _ hw => by cases hw)
        (pollPart_withTask (by rw [ht]; rfl) rfl poller)
  | @included task ethHash txMeta r ht =>
      have hpoll : pollOf s (.answer task (some r)) = none := by simp only [pollOf, ht]
      rw [hpoll]
      exact backlog_leave (.included r ht) hund (fun _ hw => by cases hw)
        (pollPart_withTask (by rw [ht]; rfl) rfl poller)
  | @bump task ethHash rest ht =>
      obtain rfl := hone.eq task (by rw [ht]; simp [pollPart])
      refine .fail (x := ethHash) ?_ ?_ ?_ ?_
      · show (pollPart (s.tasks task)).2 = some ethHash
        rw [ht]
        rfl
      · rintro hash ⟨row', hrow'⟩
        obtain ⟨row, hrow⟩ := hund.noneNew hash row' hrow'
        exact ⟨⟨row, hrow⟩, attempts_bump hrow.1⟩
      · rw [backlogOf_withTask, pollPart_nextPoll]
        show rest.map Prod.fst = (pollPart (s.tasks task)).1
        rw [ht]
        rfl
      · rw [backlogOf_withTask, pollPart_nextPoll]
  | @pollSettle task ethHash r rest ht =>
      obtain rfl := hone.eq task (by rw [ht]; simp [pollPart])
      refine .done (x := ethHash) ?_ ?_ ?_ ?_ ?_
      · show (pollPart (s.tasks task)).2 = some ethHash
        rw [ht]
        rfl
      · rintro ⟨row, hrow⟩
        exact not_pending_settle hrow
      · exact shrinks_of_moves (.pollSettle ht) hund fun g hw => by
          simp only [writeOf, ht] at hw
          cases hw
      · rw [backlogOf_withTask, pollPart_nextPoll]
        show rest.map Prod.fst = (pollPart (s.tasks task)).1
        rw [ht]
        rfl
      · rw [backlogOf_withTask, pollPart_nextPoll]
  | @persist task ethHash txMeta r ht =>
      exact backlog_leave (.persist ht) hund
        (fun _ hw => by simp only [writeOf, ht] at hw; cases hw)
        (pollPart_withTask (by rw [ht]; rfl) rfl poller)
  | @settle task ethHash r ht =>
      exact backlog_leave (.settle ht) hund
        (fun _ hw => by simp only [writeOf, ht] at hw; cases hw)
        (pollPart_withTask (by rw [ht]; rfl) rfl poller)

end Acts

-- ============================================================== the cycles

/-- An act of the poller. -/
def IsPollerAct (poller : Nat) : ReceiptAct → Prop
  | .startPoll task | .answer task _ | .write task => task = poller
  | .index _ | .upsert .. | .startReceipt .. => False

/-- A task that is done, or at a point of `poll_pending_receipts`. -/
def AtPoll : Option ReceiptTask → Prop
  | none | some (.polling _) | some (.polled ..) => True
  | some (.looking ..) | some (.found ..) | some (.upserted ..) => False

section Cycles

variable {poller : Nat} {s s' : ReceiptState} {a : ReceiptAct}

theorem atPoll_nextPoll (rest : List (B256 × Bytes)) : AtPoll (ReceiptState.nextPoll rest) := by
  cases rest with
  | nil => trivial
  | cons x rest => trivial

/-- The poller's own acts disturb nothing. -/
theorem undisturbed_of_pollerAct (hat : AtPoll (s.tasks poller)) (h : s.step a = some s')
    (ha : IsPollerAct poller a) : AtPoll (s'.tasks poller) ∧ Undisturbed poller s a s' := by
  cases moves_of_step h with
  | index | upsert | served | startReceipt => cases ha
  | @startPoll task hfree =>
      obtain rfl : task = poller := ha
      rw [tasks_withTask_self]
      refine ⟨atPoll_nextPoll _, ⟨?_, fun hash row' hrow' => ⟨row', hrow'⟩⟩⟩
      intro task' heq
      exact (ReceiptAct.startPoll.inj heq).symm
  | @pollAnswer task ethHash id rest answer ht =>
      obtain rfl : task = poller := ha
      rw [tasks_withTask_self]
      exact ⟨trivial, ⟨fun _ heq => (by cases heq), fun hash row' hrow' => ⟨row', hrow'⟩⟩⟩
  | @bump task ethHash rest ht =>
      obtain rfl : task = poller := ha
      rw [tasks_withTask_self]
      exact ⟨atPoll_nextPoll rest, ⟨fun _ heq => (by cases heq), fun _ _ => pending_of_bump⟩⟩
  | @pollSettle task ethHash r rest ht =>
      obtain rfl : task = poller := ha
      rw [tasks_withTask_self]
      exact ⟨atPoll_nextPoll rest, ⟨fun _ heq => (by cases heq), fun _ _ => pending_of_settle⟩⟩
  | notIncluded ht | included r ht | persist ht | settle ht =>
      obtain rfl := ha
      rw [ht] at hat
      cases hat

/-- Cycles of `poll_pending_receipts`, one after the other, whatever the chain
answers. -/
theorem undisturbed_cycles (hat : AtPoll (s.tasks poller)) {acts : List ReceiptAct}
    (hacts : ∀ a ∈ acts, IsPollerAct poller a) :
    Always ReceiptState.step (Undisturbed poller) s acts := by
  refine always_imp (Q := fun _ a _ => IsPollerAct poller a) (fun s => AtPoll (s.tasks poller))
    ?_ hat acts (always_of_forall fun a ha _ _ => hacts a ha)
  intro s a s' hat hstep ha
  exact undisturbed_of_pollerAct hat hstep ha

end Cycles

-- ============================================================ every schedule

/-- From equal attempts on, in every schedule in which one task polls and no
row becomes pending, whatever the polls end in and whoever else settles rows:
the rows that are left are at most one attempt apart, and polled in turn. -/
theorem polls_even (poller k : Nat) (s : ReceiptState) (acts : List ReceiptAct)
    (hnoPoll : ∀ task, pollPart (s.tasks task) = ([], none))
    (hequal : ∀ hash row, Pending s.db hash row → row.pollAttempts = k)
    (hruns : Always ReceiptState.step (Undisturbed poller) s acts) :
    Always (watched ReceiptState.step notePolls) EvenPolls ([], s) acts := by
  refine always_imp (Q := fun x a x' => Undisturbed poller x.2 a x'.2)
    (fun x => OnePoller poller x.2 ∧ (backlogOf poller x.2).Even k x.1) ?_ ?_ acts
    ((always_watched notePolls [] s acts).mpr hruns)
  · rintro ⟨polls, s⟩ a ⟨polls', s'⟩ ⟨hone, heven⟩ hnext hund
    obtain ⟨s₁, hstep, heq⟩ := Option.map_eq_some_iff.mp hnext
    cases heq
    have hback := backlog_step hone hstep hund
    have heven' := heven.step hback
    refine ⟨⟨onePoller_step hone hstep hund, heven'⟩, ?_, ?_, ?_⟩
    · intro h g row row' hrow hrow'
      have hclose := heven'.close ⟨row, hrow⟩ ⟨row', hrow'⟩
      rwa [← attemptsOf_pending hrow, ← attemptsOf_pending hrow']
    · intro g hpoll h row hrow
      rw [hpoll] at hback
      exact hback.fair heven h ⟨row, hrow⟩
    · intro g hpoll hpolled h row hrow
      rw [hpoll] at hback
      have hfair := hback.fair heven h ⟨row, hrow⟩
      exact List.count_pos_iff.mp (lt_of_lt_of_le (List.count_pos_iff.mpr hpolled) hfair)
  · refine ⟨fun task _ => hnoPoll task, .start ?_ ?_ ?_⟩
    · rintro hash ⟨row, hrow⟩
      exact (attemptsOf_pending hrow).trans (hequal hash row hrow)
    · exact congrArg Prod.fst (hnoPoll poller)
    · exact congrArg Prod.snd (hnoPoll poller)

/-- Two rows that nothing has polled. -/
def twoPending : Db :=
  (Db.empty.upsertTx (.zero 32) sampleMeta).upsertTx
    ⟨List.replicate 32 0xff, List.length_replicate⟩ sampleMeta

/-- A cycle that settles one of two rows and bumps the other, and the next
one. -/
def twoCycles : List ReceiptAct :=
  [.startPoll 0, .answer 0 (some chainReceipt), .write 0, .answer 0 none, .write 0,
   .startPoll 0, .answer 0 none, .write 0]

/-- Each row is polled, the one that stays pending twice. -/
theorem polls_even_sample :
    Always (watched ReceiptState.step notePolls) EvenPolls ([], idle twoPending) twoCycles
      ∧ (afterAll (watched ReceiptState.step notePolls) ([], idle twoPending) twoCycles).1
        = [.zero 32, .zero 32, ⟨List.replicate 32 0xff, List.length_replicate⟩]
      ∧ (afterAll ReceiptState.step (idle twoPending) twoCycles).db.txs.rows.map
          (fun row => (row.settled.isSome, row.pollAttempts)) = [(false, 2), (true, 0)] := by
  refine ⟨?_, by decide +kernel, by decide +kernel⟩
  apply polls_even 0 0
  · exact fun _ => rfl
  · rintro hash row ⟨hrow, -, -⟩
    have hzero : ∀ row ∈ twoPending.txs.rows, row.pollAttempts = 0 := by decide
    exact hzero row (Table.find?_mem hrow)
  · have hidle : AtPoll ((idle twoPending).tasks 0) := trivial
    apply undisturbed_cycles hidle
    intro a ha
    simp only [twoCycles, List.mem_cons, List.not_mem_nil, or_false] at ha
    rcases ha with rfl | rfl | rfl | rfl | rfl | rfl | rfl | rfl <;> rfl

end KoinosEvm.Proofs
