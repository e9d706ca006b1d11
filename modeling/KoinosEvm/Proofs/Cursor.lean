/-
The indexer's cursor over cycles and restarts.

An entry that the cursor has passed is not looked at again. So in each
cycle it should pass only entries of blocks that are final to that cycle,
and none that carries a transaction it did not index (`CursorSound`). What
passes the cursor by is an entry without a raw transaction: its block is
not looked up, and there may be one behind an operation that does not
decode. And the height of a block is that of the first one the node lists.
In every run, the cursor is sound exactly if no cycle passes such an entry
(`cursor_sound_iff`).
-/
import KoinosEvm.Lib.Schedule
import KoinosEvm.Proofs.CycleVisits
import KoinosEvm.Proofs.EntryCoverage
import Mathlib.Data.List.TakeWhile

namespace KoinosEvm.Proofs

open Lib Proxy

-- ============================================================== the runs

section Hex

variable [HexCrate]

/-- What the node answers in a cycle, and the height of the block that an
entry lies in then. Histories are numbered without gaps, and the header of a
block has its height. -/
structure Cycle (heightOfBlock : Bytes → UInt64) where
  replies : CycleReplies
  heightOf : Value → UInt64
  contiguous : ∀ page ∈ replies.pages, Contiguous page
  headers : ∀ page ∈ replies.pages, ∀ n i id reply height ts,
    (page n).rest i ("/block/" ++ id) = .ok reply → Proxy.readHeader reply = .ok (height, ts) →
      height = heightOfBlock (blockHashOf id)

/-- A tick of `run_indexer`, or a new process on the same store. -/
inductive IndexerAct (heightOfBlock : Bytes → UInt64) where
  | cycle (c : Cycle heightOfBlock)
  | restart

/-- A cycle, and the state it started in. -/
structure CycleRun (heightOfBlock : Bytes → UInt64) where
  st : IndexerState
  cycle : Cycle heightOfBlock

section Runs

variable (cfg : IndexerConfig) (pageSize : Nat) {heightOfBlock : Bytes → UInt64}

/-- One act. A cycle that panics ends the task. -/
def stepIndexer (st : IndexerState) : IndexerAct heightOfBlock → Option IndexerState
  | .cycle c => (runCycle cfg pageSize c.replies st).toOption
  | .restart => some { st with blockCache := [] }

/-- The cycles that have run. -/
def logCycle (log : List (CycleRun heightOfBlock)) (st : IndexerState) :
    IndexerAct heightOfBlock → List (CycleRun heightOfBlock)
  | .cycle c => ⟨st, c⟩ :: log
  | .restart => log

-- ========================================================== the property

/-- The entry was handed to `index_tx`, without an error. -/
def PassedToIndexTx (v : Visit) : Prop :=
  ∃ st, ∃ h : Handled cfg v.rest st v.entry, v.result = .ok (h.outcome, h.next)

/-- An operation of the entry has a raw transaction that decodes. -/
def CarriesTx (entry : Value) : Prop :=
  ∃ op ∈ submitOps cfg.engineAddr entry, ∃ decoded,
    EthTx.decodeAndRecover cfg.keccak cfg.secp (opRawTx cfg.b64 op) = .ok decoded

/-- The entry is final to the cycle, and it is indexed if there is something
to index. -/
def FinalHandled (run : CycleRun heightOfBlock) (v : Visit) : Prop :=
  (∃ lib ∈ libOf run.cycle.replies.headInfo, run.cycle.heightOf v.entry ≤ lib)
    ∧ (CarriesTx cfg v.entry → PassedToIndexTx cfg v)

/-- The cycle moved the cursor over the sequence number. -/
def MovedOver (run : CycleRun heightOfBlock) (s : UInt64) : Prop :=
  ∃ st', runCycle cfg pageSize run.cycle.replies run.st = .ok st'
    ∧ AdvancedOver run.st.db.indexerCursor st'.db.indexerCursor s

/-- Of every number up to the cursor, the cycle that moved the cursor over
it saw the entry and handled it. -/
def CursorSound (x : List (CycleRun heightOfBlock) × IndexerState) : Prop :=
  ∀ cursor ∈ x.2.db.indexerCursor, ∀ s ≤ cursor,
    (∃ run ∈ x.1, MovedOver cfg pageSize run s)
      ∧ ∀ run ∈ x.1, MovedOver cfg pageSize run s →
        ∃ v ∈ visitsOf cfg pageSize run.cycle.replies run.st,
          seqOf v.entry = s ∧ FinalHandled cfg run v

-- ========================================================= the condition

/-- The height of the first block that the node lists for the entry's
transaction. -/
def listedHeight (heightOfBlock : Bytes → UInt64) (v : Visit) : Option UInt64 :=
  ((v.rest ("/transaction/" ++ entryTxPath v.entry)).toOption.bind containingBlock).map
    fun id => heightOfBlock (blockHashOf id)

/-- The indexer finds a transaction in the entry. -/
def FindsTx (entry : Value) : Prop := ∃ rawTx decoded, EntryDecodes cfg entry rawTx decoded

/-- An entry without a transaction that the indexer finds is final, and has
none that decodes; any other is final if the first block listed is. -/
def MayPass (lib : UInt64) (c : Cycle heightOfBlock) (v : Visit) : Prop :=
  (FindsTx cfg v.entry → (∃ h ∈ listedHeight heightOfBlock v, h ≤ lib) →
      c.heightOf v.entry ≤ lib)
    ∧ (¬ FindsTx cfg v.entry → c.heightOf v.entry ≤ lib ∧ ¬ CarriesTx cfg v.entry)

/-- A cycle that comes to its end goes past no other entry. -/
def PassesOnlyFinal (st : IndexerState) : IndexerAct heightOfBlock → Prop
  | .cycle c =>
      Completes cfg pageSize c.replies st → ∀ lib ∈ libOf c.replies.headInfo,
        ∀ v ∈ passedOf cfg pageSize c.replies st, MayPass cfg lib c v
  | .restart => True

end Runs

-- ======================================================= heights of blocks

/-- What is remembered of blocks is so. -/
structure Truthful (heightOfBlock : Bytes → UInt64) (st : IndexerState) : Prop where
  cached : ∀ id height ts, st.blockCache.lookup id = some (height, ts) →
    height = heightOfBlock (blockHashOf id)
  stored : ∀ b ∈ st.db.blocks.rows, b.height = heightOfBlock b.blockHash

/-- The headers that the node answers with have the height of the block. -/
def HeadersTrue (heightOfBlock : Bytes → UInt64) (rest : String → Except String Value) : Prop :=
  ∀ id reply height ts, rest ("/block/" ++ id) = .ok reply →
    Proxy.readHeader reply = .ok (height, ts) → height = heightOfBlock (blockHashOf id)

section Heights

variable {cfg : IndexerConfig} {heightOfBlock : Bytes → UInt64} {st st' : IndexerState}
  {rest : String → Except String Value} {entry : Value} {id : String} {block : Resolved}
  {out : EntryOutcome}

theorem Truthful.getBlockByHash {hash : Bytes} {row : BlockRow} (h : Truthful heightOfBlock st)
    (hrow : st.db.getBlockByHash hash = some row) : row.height = heightOfBlock hash := by
  unfold Db.getBlockByHash at hrow
  have hmem := List.mem_of_find?_eq_some hrow
  rw [List.mem_insertionSort] at hmem
  have hhash : row.blockHash = hash := by simpa using List.find?_some hrow
  rw [h.stored row hmem, hhash]

theorem Truthful.cache {height ts : UInt64} (h : Truthful heightOfBlock st)
    (hheight : height = heightOfBlock (blockHashOf id)) :
    Truthful heightOfBlock (st.cache id height ts) := by
  refine ⟨fun id' height' ts' hlookup => ?_, h.stored⟩
  simp only [IndexerState.cache, List.lookup_cons] at hlookup
  split at hlookup
  next heq =>
    cases hlookup
    rw [hheight, beq_iff_eq.mp heq]
  next => exact h.cached id' height' ts' hlookup

/-- A block is found with its height, and remembered with it. -/
theorem ResolvedFrom.height (h : ResolvedFrom rest st id block st')
    (hst : Truthful heightOfBlock st) (hrest : HeadersTrue heightOfBlock rest) :
    block.height = heightOfBlock (blockHashOf block.blockId)
      ∧ Truthful heightOfBlock st'
      ∧ ∃ txInfo, rest ("/transaction/" ++ id) = .ok txInfo
        ∧ containingBlock txInfo = some block.blockId := by
  cases h with
  | cache htx hid hcache => exact ⟨hst.cached _ _ _ hcache, hst, _, htx, hid⟩
  | table htx hid hrow hheight heq =>
      have hblock := hheight.symm.trans (hst.getBlockByHash hrow)
      rw [heq]
      exact ⟨hblock, hst.cache hblock, _, htx, hid⟩
  | node htx hid hreply hheader heq =>
      have hblock := hrest _ _ _ _ hreply hheader
      rw [heq]
      exact ⟨hblock, hst.cache hblock, _, htx, hid⟩

/-- Indexing a transaction of a block stores the block with its height. -/
theorem Truthful.indexOne {db : Db} {call : IndexCall} {cache : List (String × UInt64 × UInt64)}
    (h : Truthful heightOfBlock ⟨db, cache⟩)
    (hcall : call.receipt.blockHeight = heightOfBlock call.receipt.blockHash) :
    Truthful heightOfBlock ⟨Proxy.indexOne db call, cache⟩ := by
  refine ⟨h.cached, ?_⟩
  by_cases hskip : skips (db.settled call.ethHash) call.receipt = true
  · rw [indexOne_of_skips hskip]
    exact h.stored
  · have hopen : ∀ b ∈ (openBlock db.blocks call.receipt call.timestamp).rows,
        b.height = heightOfBlock b.blockHash :=
      Table.forall_upsert h.stored hcall fun _ hb => hb
    have hcount : ∀ b ∈ (countTx (openBlock db.blocks call.receipt call.timestamp)
        call.receipt).rows, b.height = heightOfBlock b.blockHash :=
      Table.forall_modify hopen fun _ hb => hb
    rw [indexOne_of_not_skips hskip]
    exact hcount

theorem truthful_processEntry (hst : Truthful heightOfBlock st)
    (hrest : HeadersTrue heightOfBlock rest)
    (h : processEntry cfg rest st entry = .ok (.ok (out, st'))) : Truthful heightOfBlock st' := by
  rcases processEntry_ok h with ⟨-, rfl, -⟩ | ⟨e, -, rfl⟩
  · exact hst
  · obtain ⟨hheight, hfound, -⟩ := (resolveBlock_ok e.resolved).height hst hrest
    have hdb := (resolveBlock_ok e.resolved).db_eq
    have hfound : Truthful heightOfBlock ⟨st.db, e.found.blockCache⟩ := by
      rwa [← hdb]
    exact hfound.indexOne hheight

/-- Along visits, blocks keep their heights; each visit is made where they
have them. -/
theorem Visits.truthful {lib : UInt64} {c c' : CycleState} {vs : List Visit}
    (h : Visits cfg lib c vs c') (hst : Truthful heightOfBlock c.st)
    (hrest : ∀ v ∈ vs, HeadersTrue heightOfBlock v.rest) :
    Truthful heightOfBlock c'.st
      ∧ ∀ v ∈ vs, ∃ st, Truthful heightOfBlock st
        ∧ processEntry cfg v.rest st v.entry = .ok v.result := by
  induction h with
  | nil => exact ⟨hst, fun v hv => by cases hv⟩
  | @cons c v next vs c' hnext hresult _ ih =>
      rw [List.forall_mem_cons] at hrest
      have hafter : Truthful heightOfBlock (v.next c.st) := by
        unfold Visit.next
        split
        next heq => exact truthful_processEntry hst hrest.1 (heq ▸ hresult)
        · exact hst
      obtain ⟨hend, hall⟩ := ih (by rwa [applyOutcome_eq]) hrest.2
      refine ⟨hend, List.forall_mem_cons.mpr ⟨⟨c.st, hst, hresult⟩, hall⟩⟩

end Heights

-- ============================================================= one cycle

section Cycle

variable {cfg : IndexerConfig} {pageSize : Nat} {heightOfBlock : Bytes → UInt64}
  {st st' : IndexerState} {c : Cycle heightOfBlock} {v : Visit} {lib : UInt64}

theorem Cycle.headersTrue (h : FromPage c.replies.pages v) :
    HeadersTrue heightOfBlock v.rest := by
  obtain ⟨page, hpage, n, resp, i, -, -, hrest⟩ := h
  intro id reply height ts hreply hheader
  rw [hrest] at hreply
  exact c.headers page hpage n i id reply height ts hreply hheader

theorem Handled.outcome_height {rest : String → Except String Value} {entry : Value}
    (h : Handled cfg rest st entry) :
    h.outcome = .indexed h.block.height ∨ h.outcome = .alreadyIndexed h.block.height := by
  unfold Handled.outcome
  split
  · exact .inr rfl
  · exact .inl rfl

/-- A visit that passes the cursor passed an entry without a transaction,
or indexed one that it found at or below the LIB. -/
theorem passes_cases (hpasses : passes lib v = true)
    (hresult : processEntry cfg v.rest st v.entry = .ok v.result) :
    (¬ FindsTx cfg v.entry ∧ ¬ PassedToIndexTx cfg v)
      ∨ ∃ h : Handled cfg v.rest st v.entry, v.result = .ok (h.outcome, h.next)
        ∧ h.block.height ≤ lib := by
  cases hv : v.result with
  | error e =>
      unfold passes at hpasses
      rw [hv] at hpasses
      cases hpasses
  | ok x =>
      obtain ⟨out, st'⟩ := x
      rw [hv] at hresult
      rcases processEntry_ok hresult with ⟨-, -, hnone⟩ | ⟨h, rfl, rfl⟩
      · refine .inl ⟨fun ⟨rawTx, decoded, hdecodes⟩ => hnone rawTx decoded hdecodes, ?_⟩
        rintro ⟨_, h, -⟩
        exact hnone _ _ h.decodes
      · refine .inr ⟨h, rfl, ?_⟩
        unfold passes at hpasses
        rcases h.outcome_height with hout | hout
        · rw [hv, hout] at hpasses
          simpa using hpasses
        · rw [hv, hout] at hpasses
          simpa using hpasses

/-- An entry that passes the cursor was final and handled exactly if the
cycle may pass it. -/
theorem finalHandled_iff {run : CycleRun heightOfBlock} (hst : Truthful heightOfBlock st)
    (hlib : libOf run.cycle.replies.headInfo = some lib)
    (hfrom : FromPage run.cycle.replies.pages v) (hpasses : passes lib v = true)
    (hresult : processEntry cfg v.rest st v.entry = .ok v.result) :
    FinalHandled cfg run v ↔ MayPass cfg lib run.cycle v := by
  unfold FinalHandled MayPass
  rw [hlib]
  simp only [Option.mem_def, Option.some.injEq, exists_eq_left']
  rcases passes_cases hpasses hresult with ⟨hfinds, hpassed⟩ | ⟨h, hok, hle⟩
  · simp only [hfinds, hpassed, false_implies, true_and, not_false_eq_true, true_implies,
      imp_false]
  · have hfinds : FindsTx cfg v.entry := ⟨_, _, h.decodes⟩
    have hpassed : PassedToIndexTx cfg v := ⟨st, h, hok⟩
    obtain ⟨hheight, -, txInfo, htx, hid⟩ :=
      (resolveBlock_ok h.resolved).height hst (Cycle.headersTrue hfrom)
    have hlisted : listedHeight heightOfBlock v = some h.block.height := by
      unfold listedHeight
      rw [htx, hheight]
      simp only [Except.toOption, Option.bind_some, hid, Option.map_some]
    rw [hlisted]
    simp [hfinds, hpassed, hle]

end Cycle

-- ========================================================== the invariant

section Invariant

variable {cfg : IndexerConfig} {pageSize : Nat} {heightOfBlock : Bytes → UInt64}
  {log : List (CycleRun heightOfBlock)} {st st' : IndexerState} {c : Cycle heightOfBlock}
  {s : UInt64}

/-- The cursor is sound, it is at or above all it was moved over, and what
is remembered of blocks is so. -/
structure CursorInv (cfg : IndexerConfig) (pageSize : Nat)
    (x : List (CycleRun heightOfBlock) × IndexerState) : Prop where
  sound : CursorSound cfg pageSize x
  moved : ∀ run ∈ x.1, ∀ s, MovedOver cfg pageSize run s →
    ∃ cursor ∈ x.2.db.indexerCursor, s ≤ cursor
  next : HasNext x.2.db.indexerCursor
  truthful : Truthful heightOfBlock x.2

theorem movedOver_iff (h : runCycle cfg pageSize c.replies st = .ok st') :
    MovedOver cfg pageSize ⟨st, c⟩ s
      ↔ AdvancedOver st.db.indexerCursor st'.db.indexerCursor s := by
  constructor
  · rintro ⟨st'', h', hover⟩
    rw [h] at h'
    cases h'
    exact hover
  · exact fun hover => ⟨st', h, hover⟩

/-- A cycle that goes past an entry may do so exactly if the entry was final
and handled. -/
theorem finalHandled_of_passed (hst : Truthful heightOfBlock st) {lib : UInt64}
    (hlib : libOf c.replies.headInfo = some lib)
    (hcompletes : Completes cfg pageSize c.replies st) {v : Visit}
    (hv : v ∈ passedOf cfg pageSize c.replies st) :
    v ∈ visitsOf cfg pageSize c.replies st
      ∧ (FinalHandled cfg ⟨st, c⟩ v ↔ MayPass cfg lib c v) := by
  obtain ⟨lib', start, c', hlib', hstart, hwalk, -, hfrom, hpassed⟩ :=
    hcompletes.visits c.contiguous
  rw [hlib] at hlib'
  cases hlib'
  rw [hpassed] at hv
  have hmem := passed_initial.subset hv
  have hstart' : Truthful heightOfBlock start.st := by
    obtain ⟨next, rfl, -⟩ := cycleStart_ok hstart
    exact hst
  obtain ⟨-, hvisit⟩ := hwalk.truthful hstart' fun v hv => Cycle.headersTrue (hfrom v hv)
  obtain ⟨stv, hstv, hresult⟩ := hvisit v hmem
  exact ⟨hmem, finalHandled_iff hstv hlib (hfrom v hmem) (List.mem_takeWhile_imp hv) hresult⟩

/-- The cursor is sound after a cycle exactly if the cycle went past no entry
that it may not pass. -/
theorem cursorSound_cycle (hinv : CursorInv cfg pageSize (log, st))
    (h : runCycle cfg pageSize c.replies st = .ok st') :
    CursorSound cfg pageSize (⟨st, c⟩ :: log, st')
      ↔ PassesOnlyFinal cfg pageSize st (.cycle c) := by
  have hover_iff {s : UInt64} := advancedOver_iff (s := s) c.contiguous hinv.next h
  constructor
  · intro hsound hcompletes lib hlib v hv
    obtain ⟨hmem, hfinal_iff⟩ := finalHandled_of_passed hinv.truthful hlib hcompletes hv
    have hover := hover_iff.mpr ⟨hcompletes, v, hv, rfl⟩
    obtain ⟨cursor, hcursor, hle⟩ := hover.2
    obtain ⟨w, hw, hseq, hfinal⟩ :=
      (hsound cursor hcursor _ hle).2 ⟨st, c⟩ List.mem_cons_self ((movedOver_iff h).mpr hover)
    obtain ⟨_, _, _, _, _, _, hnum, _⟩ := hcompletes.visits c.contiguous
    rw [hnum.eq_of_seq hw hmem hseq] at hfinal
    exact hfinal_iff.mp hfinal
  · intro hclean cursor hcursor s hle
    by_cases hold : ∃ old ∈ st.db.indexerCursor, s ≤ old
    · -- the cursor was above `s` before
      obtain ⟨old, hmem, hbelow⟩ := hold
      obtain ⟨⟨run, hrun, hmoved⟩, hall⟩ := hinv.sound old hmem s hbelow
      refine ⟨⟨run, List.mem_cons_of_mem _ hrun, hmoved⟩, fun run' hrun' hmoved' => ?_⟩
      rcases List.mem_cons.mp hrun' with rfl | hrun'
      · have habove := ((movedOver_iff h).mp hmoved').1 old hmem
        exact absurd habove (UInt64.not_lt.mpr hbelow)
      · exact hall run' hrun' hmoved'
    · have hover : AdvancedOver st.db.indexerCursor st'.db.indexerCursor s :=
        ⟨fun old hmem => UInt64.not_le.mp fun hbelow => hold ⟨old, hmem, hbelow⟩,
          cursor, hcursor, hle⟩
      obtain ⟨hcompletes, v, hv, rfl⟩ := hover_iff.mp hover
      obtain ⟨lib, -, -, hlib, -⟩ := id hcompletes
      obtain ⟨hmem, hfinal_iff⟩ := finalHandled_of_passed hinv.truthful hlib hcompletes hv
      refine ⟨⟨_, List.mem_cons_self, (movedOver_iff h).mpr hover⟩, fun run hrun hmoved => ?_⟩
      rcases List.mem_cons.mp hrun with rfl | hrun
      · exact ⟨v, hmem, rfl, hfinal_iff.mpr (hclean hcompletes lib hlib v hv)⟩
      · exact absurd (hinv.moved run hrun _ hmoved) hold

theorem truthful_runCycle (hst : Truthful heightOfBlock st)
    (h : runCycle cfg pageSize c.replies st = .ok st') : Truthful heightOfBlock st' := by
  unfold runCycle at h
  split at h
  next =>
    cases h
    exact hst
  next lib hlib =>
    obtain ⟨start, hstart, h⟩ := bind_ok h
    obtain ⟨⟨completed, c'⟩, hpages, h⟩ := bind_ok h
    obtain ⟨next, rfl, -⟩ := cycleStart_ok hstart
    obtain ⟨hwalk, -, hfrom⟩ := cycle_visits c.contiguous hpages
    obtain ⟨hend, -⟩ := hwalk.truthful hst fun v hv => Cycle.headersTrue (hfrom v hv)
    cases completed with
    | false =>
        cases h
        exact hend
    | true =>
        obtain rfl := Except.ok.inj h
        show Truthful heightOfBlock (saveCursor st.db.indexerCursor c')
        unfold saveCursor
        split
        · split
          · exact ⟨hend.cached, hend.stored⟩
          · exact hend
        · exact hend

theorem cursorInv_cycle (hinv : CursorInv cfg pageSize (log, st))
    (h : runCycle cfg pageSize c.replies st = .ok st')
    (hsound : CursorSound cfg pageSize (⟨st, c⟩ :: log, st')) :
    CursorInv cfg pageSize (⟨st, c⟩ :: log, st') := by
  obtain ⟨hnext, hforward⟩ := runCycle_forward c.contiguous hinv.next h
  refine ⟨hsound, fun run hrun s hmoved => ?_, hnext, truthful_runCycle hinv.truthful h⟩
  rcases List.mem_cons.mp hrun with rfl | hrun
  · exact ((movedOver_iff h).mp hmoved).2
  · obtain ⟨old, hmem, hle⟩ := hinv.moved run hrun s hmoved
    obtain ⟨cursor, hcursor, hle'⟩ := hforward old hmem
    exact ⟨cursor, hcursor, UInt64.le_trans hle hle'⟩

theorem stepIndexer_cycle (h : stepIndexer cfg pageSize st (.cycle c) = some st') :
    runCycle cfg pageSize c.replies st = .ok st' := by
  cases hrun : runCycle cfg pageSize c.replies st with
  | error e =>
      simp only [stepIndexer, hrun, Except.toOption] at h
      cases h
  | ok st'' =>
      simp only [stepIndexer, hrun, Except.toOption] at h
      rw [Option.some.inj h]

theorem cursorInv_start :
    CursorInv cfg pageSize (([] : List (CycleRun heightOfBlock)), ⟨.empty, []⟩) where
  sound := fun cursor hcursor => by cases hcursor
  moved := fun run hrun => by cases hrun
  next := fun cursor hcursor => by cases hcursor
  truthful := ⟨fun id height ts hlookup => by simp at hlookup, fun b hb => by cases hb⟩

end Invariant

-- ============================================================== every run

/-- From a new store, the cursor is sound after every act exactly if no
cycle goes past an entry that it may not pass. -/
theorem cursor_sound_iff (cfg : IndexerConfig) (pageSize : Nat) {heightOfBlock : Bytes → UInt64}
    (acts : List (IndexerAct heightOfBlock)) :
    Always (watched (stepIndexer cfg pageSize) logCycle)
        (fun _ _ x' => CursorSound cfg pageSize x') ([], ⟨.empty, []⟩) acts
      ↔ Always (stepIndexer cfg pageSize) (fun st a _ => PassesOnlyFinal cfg pageSize st a)
          ⟨.empty, []⟩ acts := by
  rw [← always_watched logCycle []]
  refine always_iff (CursorInv cfg pageSize) (fun x a x' hinv h => ?_)
    (fun x a x' hinv h hsound => ?_) cursorInv_start acts
  · obtain ⟨st', hstep, rfl⟩ := Option.map_eq_some_iff.mp h
    cases a with
    | restart =>
        cases hstep
        exact ⟨fun _ => trivial, fun _ => hinv.sound⟩
    | cycle c => exact cursorSound_cycle hinv (stepIndexer_cycle hstep)
  · obtain ⟨st', hstep, rfl⟩ := Option.map_eq_some_iff.mp h
    cases a with
    | restart =>
        cases hstep
        have htruthful : Truthful heightOfBlock { x.2 with blockCache := [] } :=
          ⟨fun id height ts hlookup => by simp at hlookup, hinv.truthful.stored⟩
        exact ⟨hsound, hinv.moved, hinv.next, htruthful⟩
    | cycle c => exact cursorInv_cycle hinv (stepIndexer_cycle hstep) hsound

end Hex

-- ============================================================ a transfer

/-- A node whose history is one transfer to the engine, in block 9 of which
5 are final. -/
def transferNode : CycleReplies where
  headInfo := .ok (.object [("last_irreversible_block", .string "5")])
  pages := [fun n =>
    { resp := .ok (if n = 0 then .object [("values", .array [.object []])] else .null)
      rest := fun _ _ => .error "not found" }]

/-- The cycle that sees the transfer. -/
def transferCycle : Cycle fun _ => 9 where
  replies := transferNode
  heightOf := fun _ => 9
  contiguous := by
    intro page hpage n resp hresp i entry hentry
    rw [List.mem_singleton.mp hpage] at hresp
    by_cases hn : n = 0
    · subst hn
      cases hresp
      cases i with
      | zero =>
          cases hentry
          exact ⟨rfl, by decide⟩
      | succ i => cases hentry
    · simp only [hn, if_false] at hresp
      cases hresp
      cases hentry
  headers := by
    intro page hpage n i id reply height ts hreply
    rw [List.mem_singleton.mp hpage] at hreply
    cases hreply

/-- The cursor goes past the transfer while its block is not final. -/
theorem transfer_passed :
    ¬ Always (watched (stepIndexer sampleConfig 100) logCycle)
        (fun _ _ x' => CursorSound sampleConfig 100 x') ([], ⟨.empty, []⟩)
        [.cycle transferCycle] := by
  have hrun : runCycle sampleConfig 100 transferNode ⟨.empty, []⟩
      = .ok ⟨Db.empty.setCursor 0, []⟩ := by rfl
  have hstep : watched (stepIndexer sampleConfig 100) logCycle ([], ⟨.empty, []⟩)
      (.cycle transferCycle)
        = some ([⟨⟨.empty, []⟩, transferCycle⟩], ⟨Db.empty.setCursor 0, []⟩) := by
    unfold watched stepIndexer
    show ((runCycle sampleConfig 100 transferNode ⟨.empty, []⟩).toOption).map _ = _
    rw [hrun]
    rfl
  rw [always_cons_some hstep]
  rintro ⟨hsound, -⟩
  have hmoved : MovedOver sampleConfig 100 ⟨⟨.empty, []⟩, transferCycle⟩ 0 :=
    ⟨_, hrun, ⟨fun c hc => (by cases hc), 0, rfl, UInt64.le_refl 0⟩⟩
  obtain ⟨v, -, -, ⟨lib, hlib, hle⟩, -⟩ :=
    (hsound 0 rfl 0 (UInt64.le_refl 0)).2 _ List.mem_cons_self hmoved
  have hfive : libOf transferNode.headInfo = some 5 := by rfl
  change lib ∈ libOf transferNode.headInfo at hlib
  rw [hfive] at hlib
  cases hlib
  have hnine : ¬ (9 : UInt64) ≤ 5 := by decide
  exact hnine hle

end KoinosEvm.Proofs
