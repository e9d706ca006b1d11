/-
The entries a cycle of the indexer goes over.

`visitsOf` lists them with what came of each; `Visits` is one walk of the
loop's state along such a list, across the pages. Where the node answers
from the sequence number asked for, the entries are numbered on from the
cursor (`cycle_visits`). The cursor moves to the last entry before the first
one that stops it (`passes`), and so passes exactly the entries before that
(`advancedOver_iff`).
-/
import KoinosEvm.Proxy.RunCycle
import KoinosEvm.Proofs.ProcessEntry

namespace KoinosEvm.Proofs

open Lib Proxy

-- ============================================================== the visits

/-- An entry that a cycle processed. -/
structure Visit where
  rest : String → Except String Value
  entry : Value
  result : Except String (EntryOutcome × IndexerState)

/-- The state after a visit. -/
def Visit.next (v : Visit) (st : IndexerState) : IndexerState :=
  match v.result with
  | .ok (_, st') => st'
  | .error _ => st

/-- The outcome lets the cursor pass. -/
def passes (lib : UInt64) (v : Visit) : Bool :=
  match v.result with
  | .ok (.indexed blockHeight, _) | .ok (.alreadyIndexed blockHeight, _) => blockHeight ≤ lib
  | .ok (.notEvm, _) => true
  | .error _ => false

/-- The visits before the first one that stops the cursor. -/
def passed (lib : UInt64) (vs : List Visit) : List Visit := vs.takeWhile (passes lib)

theorem passed_initial {lib : UInt64} {vs : List Visit} : passed lib vs <+: vs := List.takeWhile_prefix _

/-- What a visit does to the loop's state. -/
theorem applyOutcome_eq (lib : UInt64) (c : CycleState) (v : Visit) :
    applyOutcome lib (seqOf v.entry) c v.result
      = { c with
          st := v.next c.st
          cursorFrozen := c.cursorFrozen || !passes lib v
          cursorCandidate :=
            if c.cursorFrozen = false ∧ passes lib v = true then some (seqOf v.entry)
            else c.cursorCandidate } := by
  obtain ⟨st, nextSeq, candidate, frozen⟩ := c
  obtain ⟨rest, entry, result⟩ := v
  cases result with
  | error e => simp [applyOutcome, Visit.next, passes]
  | ok x =>
      obtain ⟨out, st'⟩ := x
      cases out with
      | indexed height | alreadyIndexed height =>
          by_cases hle : height ≤ lib
          · cases frozen <;> simp [applyOutcome, Visit.next, passes, hle]
          · simp [applyOutcome, Visit.next, passes, hle]
      | notEvm => cases frozen <;> simp [applyOutcome, Visit.next, passes]

-- ============================================================ the numbers

section Numbers

variable {vs ws : List Visit} {v : Visit} {n : Nat}

/-- The visits are numbered from `n` on. -/
def NumberedFrom (n : Nat) (vs : List Visit) : Prop :=
  ∀ k v, vs[k]? = some v → (seqOf v.entry).toNat = n + k ∧ n + k + 1 < 2 ^ 64

theorem NumberedFrom.append (hvs : NumberedFrom n vs) (hws : NumberedFrom (n + vs.length) ws) :
    NumberedFrom n (vs ++ ws) := by
  intro k v hk
  by_cases hlt : k < vs.length
  · rw [List.getElem?_append_left hlt] at hk
    exact hvs k v hk
  · rw [List.getElem?_append_right (Nat.le_of_not_lt hlt)] at hk
    have := hws _ v hk
    omega

theorem NumberedFrom.of_initial (h : NumberedFrom n vs) (hws : ws <+: vs) :
    NumberedFrom n ws := by
  obtain ⟨rest, rfl⟩ := hws
  intro k v hk
  obtain ⟨hlt, -⟩ := List.getElem?_eq_some_iff.mp hk
  exact h k v ((List.getElem?_append_left hlt).trans hk)

/-- Numbered visits are told apart by their numbers. -/
theorem NumberedFrom.eq_of_seq {w : Visit} (h : NumberedFrom n vs) (hv : v ∈ vs) (hw : w ∈ vs)
    (heq : seqOf v.entry = seqOf w.entry) : v = w := by
  obtain ⟨i, hi⟩ := List.getElem?_of_mem hv
  obtain ⟨j, hj⟩ := List.getElem?_of_mem hw
  have hvseq := (h i v hi).1
  have hwseq := (h j w hj).1
  have hij : i = j := by
    rw [heq] at hvseq
    omega
  subst hij
  exact Option.some.inj (hi.symm.trans hj)

/-- The numbers of numbered visits have no gap. -/
theorem NumberedFrom.exists_seq_iff {s : UInt64} (h : NumberedFrom n vs) :
    (∃ v ∈ vs, seqOf v.entry = s) ↔ n ≤ s.toNat ∧ s.toNat < n + vs.length := by
  constructor
  · rintro ⟨v, hv, rfl⟩
    obtain ⟨k, hk⟩ := List.getElem?_of_mem hv
    obtain ⟨hlt, -⟩ := List.getElem?_eq_some_iff.mp hk
    have hseq := (h k v hk).1
    omega
  · rintro ⟨hle, hlt⟩
    have hk : s.toNat - n < vs.length := by omega
    have hget := List.getElem?_eq_getElem hk
    refine ⟨_, List.mem_of_getElem? hget, UInt64.toNat_inj.mp ?_⟩
    rw [(h _ _ hget).1]
    omega

/-- The last of them has the greatest. -/
theorem NumberedFrom.getLast (h : NumberedFrom n vs) (hv : v ∈ vs.getLast?) :
    (seqOf v.entry).toNat + 1 = n + vs.length ∧ n + vs.length < 2 ^ 64 := by
  rw [List.getLast?_eq_getElem?, Option.mem_def] at hv
  obtain ⟨hlt, -⟩ := List.getElem?_eq_some_iff.mp hv
  obtain ⟨hseq, hnext⟩ := h _ v hv
  omega

end Numbers

-- =============================================================== the walk

variable [HexCrate]

section Visits

variable (cfg : IndexerConfig) (lib : UInt64)

/-- The visits of a page. -/
def pageVisits (rest : Nat → String → Except String Value) :
    Nat → CycleState → List Value → List Visit
  | _, _, [] => []
  | i, c, entry :: entries =>
      match processEntry cfg (rest i) c.st entry, visitEntry cfg lib (rest i) c entry with
      | .ok result, .ok c' => ⟨rest i, entry, result⟩ :: pageVisits rest (i + 1) c' entries
      | _, _ => []

/-- .. of the pages of a cycle. -/
def cycleVisits (pageSize : Nat) : List (UInt64 → PageReply) → CycleState → List Visit
  | [], _ => []
  | page :: pages, c =>
      match (page c.nextSeq).resp with
      | .error _ => []
      | .ok resp =>
          let values := PageReply.values resp
          if values.isEmpty then []
          else
            pageVisits cfg lib (page c.nextSeq).rest 0 c values ++
              match visitPage cfg lib (page c.nextSeq).rest 0 c values with
              | .error _ => []
              | .ok c' => if values.length < pageSize then [] else cycleVisits pageSize pages c'

/-- The loop's state goes along the visits. -/
inductive Visits : CycleState → List Visit → CycleState → Prop
  | nil {c} : Visits c [] c
  | cons {c v next vs c'} (hnext : nextU64 cfg.checks (seqOf v.entry) = .ok next)
      (hresult : processEntry cfg v.rest c.st v.entry = .ok v.result)
      (hrest : Visits (applyOutcome lib (seqOf v.entry) { c with nextSeq := next } v.result)
        vs c') : Visits c (v :: vs) c'

end Visits

/-- The visits of a cycle that starts in `st`. -/
def visitsOf (cfg : IndexerConfig) (pageSize : Nat) (replies : CycleReplies)
    (st : IndexerState) : List Visit :=
  match libOf replies.headInfo, cycleStart cfg st with
  | some lib, .ok c => cycleVisits cfg lib pageSize replies.pages c
  | _, _ => []

/-- Answers start at the number asked for and count up, in a history of
fewer than `2 ^ 64 - 1` entries. -/
def Contiguous (page : UInt64 → PageReply) : Prop :=
  ∀ n resp, (page n).resp = .ok resp →
    ∀ i entry, (PageReply.values resp)[i]? = some entry →
      (seqOf entry).toNat = n.toNat + i ∧ n.toNat + i + 1 < 2 ^ 64

/-- The visit is of an entry of some page. -/
def FromPage (pages : List (UInt64 → PageReply)) (v : Visit) : Prop :=
  ∃ page ∈ pages, ∃ n resp i, (page n).resp = .ok resp
    ∧ (PageReply.values resp)[i]? = some v.entry ∧ v.rest = (page n).rest i

section Walk

variable {cfg : IndexerConfig} {lib : UInt64} {c c' c'' : CycleState} {v : Visit}
  {vs ws : List Visit} {rest : Nat → String → Except String Value} {n : Nat}

theorem Visits.append (h : Visits cfg lib c vs c') (h' : Visits cfg lib c' ws c'') :
    Visits cfg lib c (vs ++ ws) c'' := by
  induction h with
  | nil => exact h'
  | cons hnext hresult _ ih => exact .cons hnext hresult (ih h')

theorem visitEntry_ok {entry : Value} {rest : String → Except String Value}
    (h : visitEntry cfg lib rest c entry = .ok c') :
    ∃ next result, nextU64 cfg.checks (seqOf entry) = .ok next
      ∧ processEntry cfg rest c.st entry = .ok result
      ∧ c' = applyOutcome lib (seqOf entry) { c with nextSeq := next } result := by
  unfold visitEntry at h
  obtain ⟨next, hnext, h⟩ := bind_ok h
  obtain ⟨result, hresult, h⟩ := bind_ok h
  exact ⟨next, result, hnext, hresult, (Except.ok.inj h).symm⟩

/-- A page that is gone through is walked along its visits, one for each
entry. -/
theorem page_visits {entries : List Value} {i : Nat}
    (h : visitPage cfg lib rest i c entries = .ok c') :
    Visits cfg lib c (pageVisits cfg lib rest i c entries) c'
      ∧ (pageVisits cfg lib rest i c entries).length = entries.length
      ∧ ∀ k v, (pageVisits cfg lib rest i c entries)[k]? = some v →
        entries[k]? = some v.entry ∧ v.rest = rest (i + k) := by
  induction entries generalizing i c with
  | nil =>
      cases h
      exact ⟨.nil, rfl, fun k v hk => by simp [pageVisits] at hk⟩
  | cons entry entries ih =>
      unfold visitPage at h
      obtain ⟨c₁, hvisit, h⟩ := bind_ok h
      obtain ⟨next, result, hnext, hresult, rfl⟩ := visitEntry_ok hvisit
      obtain ⟨hvisits, hlength, hfrom⟩ := ih h
      simp only [pageVisits, hresult, hvisit]
      refine ⟨.cons hnext hresult hvisits, by simp [hlength], fun k v hk => ?_⟩
      cases k with
      | zero =>
          cases hk
          exact ⟨rfl, rfl⟩
      | succ k =>
          obtain ⟨hentry, hrest⟩ := hfrom k v hk
          exact ⟨hentry, by rw [hrest, Nat.add_assoc, Nat.add_comm 1 k]⟩

/-- Behind numbered visits, the loop asks for the number after them. -/
theorem Visits.nextSeq (h : Visits cfg lib c vs c') (hnum : NumberedFrom c.nextSeq.toNat vs) :
    c'.nextSeq.toNat = c.nextSeq.toNat + vs.length := by
  induction h with
  | nil => rfl
  | @cons c v next vs c' hnext _ _ ih =>
      obtain ⟨hseq, hlt⟩ := hnum 0 v rfl
      rw [← hseq, Nat.add_zero] at hlt
      have hstep := nextU64_toNat hnext (by omega)
      rw [applyOutcome_eq] at ih
      have hrest : NumberedFrom next.toNat vs := by
        intro k w hk
        have := hnum (k + 1) w hk
        omega
      rw [ih hrest, List.length_cons]
      show next.toNat + _ = _
      omega

/-- A cycle that does not panic walks along its visits, numbered on from the
number it first asks for. -/
theorem cycle_visits {pageSize : Nat} {pages : List (UInt64 → PageReply)} {done : Bool}
    (hcontig : ∀ page ∈ pages, Contiguous page)
    (h : visitPages cfg lib pageSize pages c = .ok (done, c')) :
    Visits cfg lib c (cycleVisits cfg lib pageSize pages c) c'
      ∧ NumberedFrom c.nextSeq.toNat (cycleVisits cfg lib pageSize pages c)
      ∧ ∀ v ∈ cycleVisits cfg lib pageSize pages c, FromPage pages v := by
  induction pages generalizing c with
  | nil =>
      cases h
      exact ⟨.nil, fun k v hk => by simp [cycleVisits] at hk, fun v hv => by cases hv⟩
  | cons page pages ih =>
      rw [List.forall_mem_cons] at hcontig
      obtain ⟨hpage, hpages⟩ := hcontig
      have hnil {c : CycleState} : Visits cfg lib c [] c ∧ NumberedFrom c.nextSeq.toNat []
          ∧ ∀ v ∈ [], FromPage (page :: pages) v :=
        ⟨.nil, fun k v hk => by simp at hk, fun v hv => by cases hv⟩
      cases hresp : (page c.nextSeq).resp with
      | error e =>
          simp only [visitPages, hresp] at h
          cases h
          simp only [cycleVisits, hresp]
          exact hnil
      | ok resp =>
          simp only [visitPages, hresp] at h
          simp only [cycleVisits, hresp]
          split at h
          next hempty =>
            cases h
            rw [if_pos hempty]
            exact hnil
          next hentries =>
            rw [if_neg hentries]
            obtain ⟨c₁, hvisit, h⟩ := bind_ok h
            obtain ⟨hwalk, hlength, hfrom⟩ := page_visits hvisit
            have hnum : NumberedFrom c.nextSeq.toNat
                (pageVisits cfg lib (page c.nextSeq).rest 0 c (PageReply.values resp)) :=
              fun k v hk => hpage _ _ hresp k _ (hfrom k v hk).1
            have hmem : ∀ v ∈ pageVisits cfg lib (page c.nextSeq).rest 0 c
                (PageReply.values resp), FromPage (page :: pages) v := by
              intro v hv
              obtain ⟨k, hk⟩ := List.getElem?_of_mem hv
              obtain ⟨hentry, hrest⟩ := hfrom k v hk
              rw [Nat.zero_add] at hrest
              exact ⟨page, List.mem_cons_self, _, _, k, hresp, hentry, hrest⟩
            simp only [hvisit]
            split at h
            next hshort =>
              cases h
              rw [if_pos hshort, List.append_nil]
              exact ⟨hwalk, hnum, hmem⟩
            next hfull =>
              rw [if_neg hfull]
              obtain ⟨hwalk', hnum', hmem'⟩ := ih hpages h
              rw [hwalk.nextSeq hnum] at hnum'
              refine ⟨hwalk.append hwalk', hnum.append hnum', fun v hv => ?_⟩
              rcases List.mem_append.mp hv with hv | hv
              · exact hmem v hv
              · obtain ⟨page', hpage', hfrom'⟩ := hmem' v hv
                exact ⟨page', List.mem_cons_of_mem _ hpage', hfrom'⟩

-- ============================================================= the cursor

/-- Once the cursor is frozen it stays where it is. -/
theorem Visits.candidate_frozen (h : Visits cfg lib c vs c') (hf : c.cursorFrozen = true) :
    c'.cursorCandidate = c.cursorCandidate := by
  induction h with
  | nil => rfl
  | @cons c v next vs c' hnext hresult hrest ih =>
      rw [applyOutcome_eq] at ih
      rw [ih (by simp [hf])]
      exact if_neg (by simp [hf])

/-- The candidate is the last entry passed. -/
theorem Visits.candidate (h : Visits cfg lib c vs c') (hf : c.cursorFrozen = false) :
    c'.cursorCandidate
      = ((passed lib vs).getLast?.map fun v => seqOf v.entry).or c.cursorCandidate := by
  induction h with
  | nil => rfl
  | @cons c v next vs c' hnext hresult hrest ih =>
      rw [applyOutcome_eq] at ih hrest
      by_cases hv : passes lib v = true
      · -- the candidate moves to the entry
        have hpassed : passed lib (v :: vs) = v :: passed lib vs :=
          List.takeWhile_cons_of_pos hv
        rw [ih (by simp [hf, hv]), hpassed, List.getLast?_cons]
        simp only [hf, hv, and_self, if_true]
        cases (passed lib vs).getLast? with
        | none => rfl
        | some w => rfl
      · -- the cursor freezes
        have hpassed : passed lib (v :: vs) = [] := List.takeWhile_cons_of_neg hv
        rw [hrest.candidate_frozen (by simp [hv]), hpassed]
        exact if_neg fun hboth => hv hboth.2

omit [HexCrate] in
theorem cursor_indexOne {db : Db} {call : IndexCall} :
    (indexOne db call).indexerCursor = db.indexerCursor := by
  by_cases h : skips (db.settled call.ethHash) call.receipt = true
  · rw [indexOne_of_skips h]
  · rw [indexOne_of_not_skips h]
    rfl

/-- Processing an entry does not touch the stored cursor. -/
theorem cursor_processEntry {rest : String → Except String Value} {st st' : IndexerState}
    {entry : Value} {out : EntryOutcome}
    (h : processEntry cfg rest st entry = .ok (.ok (out, st'))) :
    st'.db.indexerCursor = st.db.indexerCursor := by
  rcases processEntry_ok h with ⟨-, rfl, -⟩ | ⟨e, -, rfl⟩
  · rfl
  · exact cursor_indexOne

theorem Visits.cursor (h : Visits cfg lib c vs c') :
    c'.st.db.indexerCursor = c.st.db.indexerCursor := by
  induction h with
  | nil => rfl
  | @cons c v next vs c' hnext hresult _ ih =>
      rw [ih, applyOutcome_eq]
      unfold Visit.next
      split
      next out st' heq =>
        rw [heq] at hresult
        exact cursor_processEntry hresult
      · rfl

end Walk

-- ============================================================== a cycle

/-- The cycle's loop comes to its end. -/
def Completes (cfg : IndexerConfig) (pageSize : Nat) (replies : CycleReplies)
    (st : IndexerState) : Prop :=
  ∃ lib start c, libOf replies.headInfo = some lib ∧ cycleStart cfg st = .ok start
    ∧ visitPages cfg lib pageSize replies.pages start = .ok (true, c)

/-- The entries over which the cycle moves the cursor. -/
def passedOf (cfg : IndexerConfig) (pageSize : Nat) (replies : CycleReplies)
    (st : IndexerState) : List Visit :=
  match libOf replies.headInfo with
  | none => []
  | some lib => passed lib (visitsOf cfg pageSize replies st)

/-- The cursor moves from below `s` to `s` or above. -/
def AdvancedOver (before after : Option UInt64) (s : UInt64) : Prop :=
  (∀ c ∈ before, c < s) ∧ ∃ c ∈ after, s ≤ c

/-- A cursor that has a next sequence number. -/
def HasNext (cursor : Option UInt64) : Prop := ∀ c ∈ cursor, c.toNat + 1 < 2 ^ 64

section Cycle

variable {cfg : IndexerConfig} {pageSize : Nat} {replies : CycleReplies}
  {st st' : IndexerState} {s : UInt64}

omit [HexCrate] in
theorem cycleStart_ok {start : CycleState} (h : cycleStart cfg st = .ok start) :
    ∃ next, start = ⟨st, next, st.db.indexerCursor, false⟩
      ∧ match st.db.indexerCursor with
        | none => next = 0
        | some c => nextU64 cfg.checks c = .ok next := by
  unfold cycleStart at h
  cases hcursor : st.db.indexerCursor with
  | none =>
      rw [hcursor] at h
      cases h
      exact ⟨0, rfl, rfl⟩
  | some c =>
      rw [hcursor] at h
      obtain ⟨next, hnext, h⟩ := bind_ok h
      exact ⟨next, (Except.ok.inj h).symm, hnext⟩

omit [HexCrate] in
/-- The cursor is below `s` exactly if the first number asked for is not
above it. -/
theorem below_iff {start : CycleState} (h : cycleStart cfg st = .ok start)
    (hnext : HasNext st.db.indexerCursor) :
    (∀ c ∈ st.db.indexerCursor, c < s) ↔ start.nextSeq.toNat ≤ s.toNat := by
  obtain ⟨next, rfl, hfrom⟩ := cycleStart_ok h
  cases hcursor : st.db.indexerCursor with
  | none =>
      rw [hcursor] at hfrom
      subst hfrom
      simp
  | some c =>
      rw [hcursor] at hfrom
      have heq := nextU64_toNat hfrom (hnext c hcursor)
      simp only [Option.mem_def, Option.some.injEq, forall_eq', UInt64.lt_iff_toNat_lt]
      omega

omit [HexCrate] in
theorem saveCursor_cursor {c : CycleState} (hcand : c.cursorCandidate = none →
    c.st.db.indexerCursor = none) (hold : c.st.db.indexerCursor = st.db.indexerCursor) :
    (saveCursor st.db.indexerCursor c).db.indexerCursor = c.cursorCandidate := by
  unfold saveCursor
  split
  next candidate hsome =>
    split
    · exact hsome.symm
    next hsame => rw [hold, ← not_not.mp hsame]
  next hnone => rw [hcand hnone, hnone]

theorem visitsOf_eq {lib : UInt64} {start : CycleState} (hlib : libOf replies.headInfo = some lib)
    (hstart : cycleStart cfg st = .ok start) :
    visitsOf cfg pageSize replies st = cycleVisits cfg lib pageSize replies.pages start := by
  unfold visitsOf
  rw [hlib, hstart]

theorem passedOf_eq {lib : UInt64} (hlib : libOf replies.headInfo = some lib) :
    passedOf cfg pageSize replies st = passed lib (visitsOf cfg pageSize replies st) := by
  unfold passedOf
  rw [hlib]

/-- A cycle that does not panic leaves the cursor, or it comes to its end
and the cursor is at the last entry passed. -/
theorem runCycle_cursor (hcontig : ∀ page ∈ replies.pages, Contiguous page)
    (h : runCycle cfg pageSize replies st = .ok st') :
    (¬ Completes cfg pageSize replies st ∧ st'.db.indexerCursor = st.db.indexerCursor)
      ∨ (Completes cfg pageSize replies st ∧ st'.db.indexerCursor
          = ((passedOf cfg pageSize replies st).getLast?.map fun v => seqOf v.entry).or
            st.db.indexerCursor) := by
  unfold runCycle at h
  cases hlib : libOf replies.headInfo with
  | none =>
      rw [hlib] at h
      cases h
      refine .inl ⟨?_, rfl⟩
      rintro ⟨lib, -, -, hlib', -⟩
      rw [hlib] at hlib'
      cases hlib'
  | some lib =>
      rw [hlib] at h
      obtain ⟨start, hstart, h⟩ := bind_ok h
      obtain ⟨⟨completed, c⟩, hpages, h⟩ := bind_ok h
      obtain ⟨next, hstartEq, -⟩ := cycleStart_ok hstart
      obtain ⟨hvisits, -, -⟩ := cycle_visits hcontig hpages
      have hcursor : c.st.db.indexerCursor = st.db.indexerCursor := by
        rw [hvisits.cursor, hstartEq]
      cases completed with
      | false =>
          cases h
          refine .inl ⟨?_, hcursor⟩
          rintro ⟨lib', start', c', hlib', hstart', hpages'⟩
          rw [hlib] at hlib'
          cases hlib'
          rw [hstart] at hstart'
          cases hstart'
          rw [hpages] at hpages'
          cases hpages'
      | true =>
          refine .inr ⟨⟨lib, start, c, hlib, hstart, hpages⟩, ?_⟩
          have hcand := hvisits.candidate (by rw [hstartEq])
          rw [← visitsOf_eq hlib hstart, hstartEq] at hcand
          rw [passedOf_eq hlib, ← hcand]
          obtain rfl := Except.ok.inj h
          have hold : start.cursorCandidate = st.db.indexerCursor := by rw [hstartEq]
          rw [hold]
          refine saveCursor_cursor (fun hnone => ?_) hcursor
          rw [hcand, Option.or_eq_none_iff] at hnone
          rw [hcursor]
          exact hnone.2

/-- The visits of a cycle whose loop comes to its end. -/
theorem Completes.visits (hcontig : ∀ page ∈ replies.pages, Contiguous page)
    (h : Completes cfg pageSize replies st) :
    ∃ lib start c, libOf replies.headInfo = some lib ∧ cycleStart cfg st = .ok start
      ∧ Visits cfg lib start (visitsOf cfg pageSize replies st) c
      ∧ NumberedFrom start.nextSeq.toNat (visitsOf cfg pageSize replies st)
      ∧ (∀ v ∈ visitsOf cfg pageSize replies st, FromPage replies.pages v)
      ∧ passedOf cfg pageSize replies st = passed lib (visitsOf cfg pageSize replies st) := by
  obtain ⟨lib, start, c, hlib, hstart, hpages⟩ := h
  obtain ⟨hwalk, hnum, hfrom⟩ := cycle_visits hcontig hpages
  rw [← visitsOf_eq hlib hstart] at hwalk hnum hfrom
  exact ⟨lib, start, c, hlib, hstart, hwalk, hnum, hfrom, passedOf_eq hlib⟩

omit [HexCrate] in
theorem not_advancedOver_self {cursor : Option UInt64} : ¬ AdvancedOver cursor cursor s := by
  rintro ⟨hbelow, c, hc, hle⟩
  exact absurd (hbelow c hc) (UInt64.not_lt.mpr hle)

/-- The cycle moves the cursor over exactly the entries it passes. -/
theorem advancedOver_iff (hcontig : ∀ page ∈ replies.pages, Contiguous page)
    (hnext : HasNext st.db.indexerCursor) (h : runCycle cfg pageSize replies st = .ok st') :
    AdvancedOver st.db.indexerCursor st'.db.indexerCursor s
      ↔ Completes cfg pageSize replies st
        ∧ ∃ v ∈ passedOf cfg pageSize replies st, seqOf v.entry = s := by
  rcases runCycle_cursor hcontig h with ⟨hfails, heq⟩ | ⟨hcompletes, heq⟩
  · rw [heq]
    exact ⟨fun hover => absurd hover not_advancedOver_self, fun hdone => absurd hdone.1 hfails⟩
  obtain ⟨lib, start, c, hlib, hstart, -, hnum, -, hpassed⟩ := hcompletes.visits hcontig
  have hnum : NumberedFrom start.nextSeq.toNat (passedOf cfg pageSize replies st) := by
    rw [hpassed]
    exact hnum.of_initial passed_initial
  rw [and_iff_right hcompletes, hnum.exists_seq_iff]
  cases hlast : (passedOf cfg pageSize replies st).getLast? with
  | none =>
      rw [hlast] at heq
      rw [List.getLast?_eq_none_iff.mp hlast, heq]
      refine ⟨fun hover => absurd hover not_advancedOver_self, ?_⟩
      rintro ⟨hle, hlt⟩
      exact absurd hlt (Nat.not_lt.mpr hle)
  | some v =>
      have hseq := (hnum.getLast hlast).1
      rw [hlast] at heq
      unfold AdvancedOver
      rw [below_iff hstart hnext, heq]
      simp only [Option.map_some, Option.some_or, Option.mem_def, Option.some.injEq,
        exists_eq_left', UInt64.le_iff_toNat_le]
      omega

/-- The cursor stays at a number that has a next one, and does not go
back. -/
theorem runCycle_forward (hcontig : ∀ page ∈ replies.pages, Contiguous page)
    (hnext : HasNext st.db.indexerCursor) (h : runCycle cfg pageSize replies st = .ok st') :
    HasNext st'.db.indexerCursor
      ∧ ∀ c ∈ st.db.indexerCursor, ∃ c' ∈ st'.db.indexerCursor, c ≤ c' := by
  have hsame : HasNext st.db.indexerCursor
      ∧ ∀ c ∈ st.db.indexerCursor, ∃ c' ∈ st.db.indexerCursor, c ≤ c' :=
    ⟨hnext, fun c hc => ⟨c, hc, UInt64.le_refl c⟩⟩
  rcases runCycle_cursor hcontig h with ⟨-, heq⟩ | ⟨hcompletes, heq⟩
  · rwa [heq]
  obtain ⟨lib, start, c, hlib, hstart, -, hnum, -, hpassed⟩ := hcompletes.visits hcontig
  cases hlast : (passedOf cfg pageSize replies st).getLast? with
  | none =>
      rw [hlast] at heq
      rwa [heq]
  | some v =>
      rw [hpassed] at hlast
      obtain ⟨hseq, hlt⟩ := (hnum.of_initial passed_initial).getLast hlast
      rw [hpassed, hlast, Option.map_some, Option.some_or] at heq
      rw [heq]
      refine ⟨fun c hc => ?_, fun c hc => ⟨seqOf v.entry, rfl, ?_⟩⟩
      · cases hc
        omega
      · have hpos : 0 < (passed lib (visitsOf cfg pageSize replies st)).length :=
          List.length_pos_of_mem (List.mem_of_getLast? hlast)
        have hbelow : c < seqOf v.entry :=
          (below_iff hstart hnext).mpr (by omega) c hc
        exact UInt64.le_of_lt hbelow

end Cycle

end KoinosEvm.Proofs
