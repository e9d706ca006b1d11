/-
The indexer's `run_cycle` (rpc/src/indexer.rs): page through the account
history from the cursor, process each entry, move the cursor.

The node is outside. Its answer to `get_account_history` depends on the
sequence number asked for, and it answers a cycle a number of times; an
error, or no answer any more, ends the cycle in the middle. Arithmetic on
sequence numbers is `u64`, which panics or wraps with the build.
-/
import KoinosEvm.Proxy.ProcessEntry

namespace KoinosEvm.Proxy

/-- `n + 1` on a `u64`. -/
def nextU64 (checks : Checks) (n : UInt64) : Except Panic UInt64 :=
  if checks = .on ∧ n.toNat + 1 = 2 ^ 64 then .error .addOverflow else .ok (n + 1)

theorem nextU64_toNat {checks : Checks} {a b : UInt64} (h : nextU64 checks a = .ok b)
    (hlt : a.toNat + 1 < 2 ^ 64) : b.toNat = a.toNat + 1 := by
  unfold nextU64 at h
  split at h
  · cases h
  · cases h
    rw [UInt64.toNat_add]
    exact Nat.mod_eq_of_lt hlt

/-- A build with overflow checks has no next number only after the last. -/
theorem nextU64_on {a b : UInt64} (h : nextU64 .on a = .ok b) : a.toNat + 1 < 2 ^ 64 := by
  have hbound := a.toNat_lt
  unfold nextU64 at h
  split at h
  next => cases h
  next hfits =>
    have hne : a.toNat + 1 ≠ 2 ^ 64 := fun heq => hfits ⟨rfl, heq⟩
    omega

/-- An answer to `get_account_history`, and what the node answers to `GET`s
while the `i`th entry of the page is processed. -/
structure PageReply where
  resp : Except String Value
  rest : Nat → String → Except String Value

/-- The entries of the page. -/
def PageReply.values (resp : Value) : List Value :=
  ((resp.get "values").bind Value.asArray).getD []

/-- What the node answers in a cycle. -/
structure CycleReplies where
  headInfo : Except String Value
  pages : List (UInt64 → PageReply)

/-- The locals of `run_cycle`, with the state they are about. -/
structure CycleState where
  st : IndexerState
  nextSeq : UInt64
  cursorCandidate : Option UInt64
  cursorFrozen : Bool

/-- The entry's `seq_num`, left out where it is 0. -/
def seqOf (entry : Value) : UInt64 := (entry.getU64 "seq_num").getD 0

/-- The match on an entry's outcome. -/
def applyOutcome (lib seq : UInt64) (c : CycleState)
    (result : Except String (EntryOutcome × IndexerState)) : CycleState :=
  match result with
  | .ok (.indexed blockHeight, st) | .ok (.alreadyIndexed blockHeight, st) =>
      if !c.cursorFrozen && blockHeight ≤ lib then
        { c with st := st, cursorCandidate := some seq }
      else { c with st := st, cursorFrozen := true }
  | .ok (.notEvm, st) =>
      if !c.cursorFrozen then { c with st := st, cursorCandidate := some seq }
      else { c with st := st }
  | .error _ => { c with cursorFrozen := true }

variable [HexCrate]

/-- The body of the loop over a page. -/
def visitEntry (cfg : IndexerConfig) (lib : UInt64) (rest : String → Except String Value)
    (c : CycleState) (entry : Value) : Except Panic CycleState := do
  let seq := seqOf entry
  let nextSeq ← nextU64 cfg.checks seq
  let result ← processEntry cfg rest c.st entry
  return applyOutcome lib seq { c with nextSeq := nextSeq } result

/-- The loop over a page; `i` entries of it are done. -/
def visitPage (cfg : IndexerConfig) (lib : UInt64)
    (rest : Nat → String → Except String Value) :
    Nat → CycleState → List Value → Except Panic CycleState
  | _, c, [] => .ok c
  | i, c, entry :: entries => do
      let c ← visitEntry cfg lib (rest i) c entry
      visitPage cfg lib rest (i + 1) c entries

/-- The loop over the pages: whether it came to its end, and the state. -/
def visitPages (cfg : IndexerConfig) (lib : UInt64) (pageSize : Nat) :
    List (UInt64 → PageReply) → CycleState → Except Panic (Bool × CycleState)
  | [], c => .ok (false, c)
  | page :: pages, c =>
      let reply := page c.nextSeq
      match reply.resp with
      | .error _ => .ok (false, c)
      | .ok resp =>
          let values := PageReply.values resp
          if values.isEmpty then .ok (true, c)
          else do
            let c ← visitPage cfg lib reply.rest 0 c values
            if values.length < pageSize then return (true, c) -- caught up to head
            else visitPages cfg lib pageSize pages c

/-- The state a cycle starts its loop in. -/
def cycleStart (cfg : IndexerConfig) (st : IndexerState) : Except Panic CycleState := do
  let cursor := st.db.indexerCursor
  let nextSeq ←
    match cursor with
    | some c => nextU64 cfg.checks c
    | none => .ok 0
  return ⟨st, nextSeq, cursor, false⟩

/-- The last irreversible block of `get_head_info`. -/
def libOf (headInfo : Except String Value) : Option UInt64 :=
  headInfo.toOption.bind (·.getU64 "last_irreversible_block")

/-- `set_meta`, where the loop came to its end with another cursor. -/
def saveCursor (cursor : Option UInt64) (c : CycleState) : IndexerState :=
  match c.cursorCandidate with
  | some candidate =>
      if c.cursorCandidate ≠ cursor then { c.st with db := c.st.db.setCursor candidate } else c.st
  | none => c.st

/-- `run_cycle`. What it has indexed stays when it fails. -/
def runCycle (cfg : IndexerConfig) (pageSize : Nat) (replies : CycleReplies)
    (st : IndexerState) : Except Panic IndexerState :=
  match libOf replies.headInfo with
  | none => .ok st
  | some lib => do
      let start ← cycleStart cfg st
      let (completed, c) ← visitPages cfg lib pageSize replies.pages start
      return if completed then saveCursor start.cursorCandidate c else c.st

end KoinosEvm.Proxy
