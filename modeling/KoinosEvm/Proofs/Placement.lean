/-
Where the indexer has put a transaction, and what further reports of it do
to that.

A placement is a height and a status. A report of the same height is
skipped, and so is a failure where a success is in place; any other report
takes its place. `TakesOver` says of the reports alone that a success gets
through: it is not at the height of the report before it. Two facts carry
the module: what is in place is a success only through `TakesOver`
(`succeeded_placeAll`), and it is at the height of one of the reports
(`placeAll_failed_height`, `placeAll_success_height`). Together they say
when a second pass over the same reports finds each one skipped
(`settles_iff`).

The store does this per transaction (`placement_indexAll`). Its rows and
counters stand still exactly where every report is skipped
(`indexAll_eq_self_iff`), the counters of a block only ever growing.
-/
import KoinosEvm.Proofs.Store
import Mathlib.Data.List.Induction

namespace KoinosEvm.Proofs

open Lib Proxy

-- ============================================================ placements

section Placement

variable {H : Type} [DecidableEq H]

/-- A report of a transaction, and what is in place once it is taken. -/
structure Report (H : Type) where
  height : H
  status : Bool
  deriving DecidableEq

/-- The report changes nothing. -/
def SkippedAt (placed : Option (Report H)) (e : Report H) : Prop :=
  ∃ p, placed = some p ∧ (p.height = e.height ∨ (p.status = true ∧ e.status = false))

/-- A success is in place. -/
def Succeeded (placed : Option (Report H)) : Prop := ∃ p, placed = some p ∧ p.status = true

instance (placed : Option (Report H)) (e : Report H) : Decidable (SkippedAt placed e) :=
  decidable_of_iff (∃ p ∈ placed, p.height = e.height ∨ (p.status = true ∧ e.status = false))
    (by simp [SkippedAt, Option.mem_def])

/-- One report. -/
def place (placed : Option (Report H)) (e : Report H) : Option (Report H) :=
  if SkippedAt placed e then placed else some e

/-- Reports, in order. -/
def placeAll (placed : Option (Report H)) (es : List (Report H)) : Option (Report H) :=
  es.foldl place placed

/-- A success that is the first report, or not at the height of the one
before it. -/
def TakesOver (before : Option H) : List (Report H) → Prop
  | [] => False
  | e :: es => (e.status = true ∧ before ≠ some e.height) ∨ TakesOver (some e.height) es

omit [DecidableEq H] in
theorem skippedAt_some {p e : Report H} :
    SkippedAt (some p) e ↔ p.height = e.height ∨ (p.status = true ∧ e.status = false) := by
  simp [SkippedAt]

omit [DecidableEq H] in
@[simp] theorem succeeded_some {p : Report H} : Succeeded (some p) ↔ p.status = true := by
  simp [Succeeded]

theorem place_of_skipped {placed : Option (Report H)} {e : Report H}
    (h : SkippedAt placed e) : place placed e = placed := if_pos h

theorem place_of_not_skipped {placed : Option (Report H)} {e : Report H}
    (h : ¬ SkippedAt placed e) : place placed e = some e := if_neg h

theorem placeAll_append (placed : Option (Report H)) (xs ys : List (Report H)) :
    placeAll placed (xs ++ ys) = placeAll (placeAll placed xs) ys := List.foldl_append

theorem placeAll_concat (placed : Option (Report H)) (es : List (Report H)) (e : Report H) :
    placeAll placed (es ++ [e]) = place (placeAll placed es) e := placeAll_append ..

/-- A success in place stays one. -/
theorem succeeded_place_of_succeeded {placed : Option (Report H)} (e : Report H)
    (h : Succeeded placed) : Succeeded (place placed e) := by
  obtain ⟨p, rfl, hp⟩ := h
  by_cases hskip : SkippedAt (some p) e
  · rw [place_of_skipped hskip]
    exact ⟨p, rfl, hp⟩
  · rw [place_of_not_skipped hskip]
    refine ⟨e, rfl, ?_⟩
    rw [skippedAt_some, not_or, not_and, Bool.not_eq_false] at hskip
    exact hskip.2 hp

omit [DecidableEq H] in
/-- Where no success is in place, the report is skipped only at its height. -/
theorem skippedAt_iff_of_failed {placed : Option (Report H)} {e : Report H}
    (h : ¬ Succeeded placed) : SkippedAt placed e ↔ placed.map Report.height = some e.height := by
  cases placed with
  | none => simp [SkippedAt]
  | some p =>
      have hp : p.status ≠ true := fun hp => h ⟨p, rfl, hp⟩
      simp [skippedAt_some, hp]

/-- A success is in place at the end exactly if it was at the start or a
report of one took over. -/
theorem succeeded_placeAll (placed : Option (Report H)) (es : List (Report H)) :
    Succeeded (placeAll placed es)
      ↔ Succeeded placed ∨ TakesOver (placed.map Report.height) es := by
  induction es generalizing placed with
  | nil => simp [placeAll, TakesOver]
  | cons e es ih =>
      rw [placeAll, List.foldl_cons, ← placeAll, ih]
      by_cases hsucc : Succeeded placed
      · exact ⟨fun _ => .inl hsucc, fun _ => .inl (succeeded_place_of_succeeded e hsucc)⟩
      · by_cases hskip : SkippedAt placed e
        · have hheight := (skippedAt_iff_of_failed hsucc).mp hskip
          rw [place_of_skipped hskip, TakesOver, hheight]
          simp [hsucc]
        · have hheight := mt (skippedAt_iff_of_failed hsucc).mpr hskip
          rw [place_of_not_skipped hskip, TakesOver]
          simp [hsucc, hheight]

/-- A failure in place at the end is at the height of the last report. -/
theorem placeAll_failed_height {placed : Option (Report H)} {es : List (Report H)}
    {p : Report H} (hes : es ≠ []) (h : placeAll placed es = some p) (hp : p.status = false) :
    ∃ e ∈ es, e.height = p.height := by
  obtain ⟨es, e, rfl⟩ := (List.eq_nil_or_concat' es).resolve_left hes
  refine ⟨e, by simp, ?_⟩
  rw [placeAll_concat] at h
  by_cases hskip : SkippedAt (placeAll placed es) e
  · rw [place_of_skipped hskip] at h
    rw [h, skippedAt_some] at hskip
    have hheight : p.height = e.height := by simpa [hp] using hskip
    exact hheight.symm
  · rw [place_of_not_skipped hskip] at h
    cases h
    rfl

/-- A success in place at the end is at the height of a reported success, if
there is any. -/
theorem placeAll_success_height {placed : Option (Report H)} {es : List (Report H)}
    {p : Report H} (hes : ∃ e ∈ es, e.status = true) (h : placeAll placed es = some p)
    (hp : p.status = true) : ∃ e ∈ es, e.status = true ∧ e.height = p.height := by
  induction es using List.reverseRecOn with
  | nil => simp at hes
  | append_singleton es e ih =>
      rw [placeAll_concat] at h
      by_cases hskip : SkippedAt (placeAll placed es) e
      · rw [place_of_skipped hskip] at h
        rw [h, skippedAt_some] at hskip
        cases he : e.status with
        | true =>
            have hheight : p.height = e.height := by simpa [he] using hskip
            exact ⟨e, by simp, he, hheight.symm⟩
        | false =>
            -- the success is among the reports before
            have hes' : ∃ e ∈ es, e.status = true := by
              obtain ⟨x, hx, hxs⟩ := hes
              rcases List.mem_append.mp hx with hx | hx
              · exact ⟨x, hx, hxs⟩
              · rw [List.mem_singleton.mp hx, he] at hxs
                cases hxs
            obtain ⟨x, hx, hxs⟩ := ih hes' h
            exact ⟨x, List.mem_append_left _ hx, hxs⟩
      · rw [place_of_not_skipped hskip] at h
        cases h
        exact ⟨p, by simp, hp, rfl⟩

/-- The reports of a transaction that a second pass finds in place: all at
one height, or with every success at one height and a success in place. -/
def SettlesFrom (placed : Option (Report H)) (es : List (Report H)) : Prop :=
  (∀ e ∈ es, ∀ e' ∈ es, e.height = e'.height)
    ∨ ((∀ e ∈ es, ∀ e' ∈ es, e.status = true → e'.status = true → e.height = e'.height)
        ∧ (Succeeded placed ∨ TakesOver (placed.map Report.height) es))

/-- Something is in place once there was a report. -/
theorem placeAll_ne_none (placed : Option (Report H)) {es : List (Report H)} (hes : es ≠ []) :
    ∃ p, placeAll placed es = some p := by
  obtain ⟨es, e, rfl⟩ := (List.eq_nil_or_concat' es).resolve_left hes
  rw [placeAll_concat]
  by_cases hskip : SkippedAt (placeAll placed es) e
  · rw [place_of_skipped hskip]
    obtain ⟨p, hp, -⟩ := hskip
    exact ⟨p, hp⟩
  · exact ⟨e, place_of_not_skipped hskip⟩

/-- A second pass over the reports skips each one exactly if they settle. -/
theorem settles_iff (placed : Option (Report H)) (es : List (Report H)) :
    (∀ e ∈ es, SkippedAt (placeAll placed es) e) ↔ SettlesFrom placed es := by
  by_cases hes : es = []
  · subst hes
    simp [SettlesFrom]
  obtain ⟨p, hp⟩ := placeAll_ne_none placed hes
  have hend := succeeded_placeAll placed es
  rw [hp] at hend
  rw [hp]
  unfold SettlesFrom
  rw [← hend]
  simp only [skippedAt_some]
  cases hstatus : p.status with
  | false =>
      -- a failure in place skips its own height only
      obtain ⟨x, hx, hxp⟩ := placeAll_failed_height hes hp hstatus
      have hno : ¬ Succeeded (some p) := by simp [hstatus]
      constructor
      · intro h
        have hall : ∀ e ∈ es, p.height = e.height := fun e he => by simpa using h e he
        exact .inl fun e he e' he' => (hall e he).symm.trans (hall e' he')
      · rintro (hall | ⟨-, hs⟩)
        · exact fun e he => .inl (hxp.symm.trans (hall x hx e he))
        · exact absurd hs hno
  | true =>
      constructor
      · intro h
        refine .inr ⟨?_, p, rfl, hstatus⟩
        have htrue : ∀ e ∈ es, e.status = true → p.height = e.height := fun e he hes => by
          simpa [hes] using h e he
        exact fun e he e' he' h1 h2 => (htrue e he h1).symm.trans (htrue e' he' h2)
      · intro h e he
        cases hes : e.status with
        | false => exact .inr ⟨rfl, rfl⟩
        | true =>
            -- the success in place is at the height of a reported one
            obtain ⟨x, hx, hxs, hxp⟩ := placeAll_success_height ⟨e, he, hes⟩ hp hstatus
            refine .inl (hxp.symm.trans ?_)
            rcases h with hall | ⟨hall, -⟩
            · exact hall x hx e he
            · exact hall x hx e he hxs hes

end Placement

-- ================================================ the store's placements

/-- What the call reports. -/
def reportOf (r : ReceiptRow) : Report UInt64 := ⟨r.blockHeight, r.status⟩

/-- The reports of one transaction. -/
def reportsOf (calls : List IndexCall) (hash : B256) : List (Report UInt64) :=
  (calls.filter fun c => c.ethHash = hash).map fun c => reportOf c.receipt

theorem mem_reportsOf {calls : List IndexCall} {hash : B256} {e : Report UInt64} :
    e ∈ reportsOf calls hash ↔ ∃ c ∈ calls, c.ethHash = hash ∧ reportOf c.receipt = e := by
  simp [reportsOf, and_assoc]

/-- What the receipt columns say is in place: a provisional receipt is not. -/
def placement (s : Option Settled) : Option (Report UInt64) :=
  match s with
  | none => none
  | some s => if s.txIndex.isSome then some ⟨s.blockHeight, s.status⟩ else none

/-- Nothing is in place in a row that the indexer has not written. -/
theorem placement_eq_none {s : Option Settled} :
    placement s = none ↔ ∀ x, s = some x → x.txIndex = none := by
  cases s with
  | none => simp [placement]
  | some s => simp [placement]

/-- The store after a list of calls. -/
def indexAll (db : Db) (calls : List IndexCall) : Db := calls.foldl indexOne db

section Pass

variable {db : Db} {c : IndexCall} {hash : B256}

theorem skips_iff_skippedAt {s : Option Settled} {r : ReceiptRow} :
    skips s r = true ↔ SkippedAt (placement s) (reportOf r) := by
  rw [skips_iff]
  cases s with
  | none => simp [placement, SkippedAt]
  | some s =>
      by_cases h : s.txIndex.isSome = true
      · simp [placement, h, skippedAt_some, reportOf]
      · simp [placement, h, SkippedAt]

theorem indexOne_of_skips (h : skips (db.settled c.ethHash) c.receipt = true) :
    indexOne db c = db := by
  unfold indexOne
  rw [indexTx_skip h]

theorem indexOne_of_not_skips (h : ¬ skips (db.settled c.ethHash) c.receipt = true) :
    indexOne db c = db.writeIndexed c.ethHash c.txMeta c.receipt c.timestamp := by
  unfold indexOne
  rw [indexTx_write h]

theorem settled_indexOne_of_ne (h : hash ≠ c.ethHash) :
    (indexOne db c).settled hash = db.settled hash := settled_indexTx_of_ne h

theorem placement_indexOne :
    placement ((indexOne db c).settled c.ethHash)
      = place (placement (db.settled c.ethHash)) (reportOf c.receipt) := by
  by_cases h : skips (db.settled c.ethHash) c.receipt = true
  · rw [indexOne_of_skips h, place_of_skipped (skips_iff_skippedAt.mp h)]
  · rw [indexOne_of_not_skips h, place_of_not_skipped (mt skips_iff_skippedAt.mpr h),
      settled_writeIndexed_self]
    rfl

theorem indexAll_append (xs ys : List IndexCall) :
    indexAll db (xs ++ ys) = indexAll (indexAll db xs) ys := List.foldl_append

/-- A pass treats every transaction by its own reports. -/
theorem placement_indexAll (calls : List IndexCall) :
    placement ((indexAll db calls).settled hash)
      = placeAll (placement (db.settled hash)) (reportsOf calls hash) := by
  induction calls using List.reverseRecOn with
  | nil => rfl
  | append_singleton calls c ih =>
      rw [indexAll_append]
      show placement ((indexOne (indexAll db calls) c).settled hash) = _
      by_cases h : c.ethHash = hash
      · subst h
        have hreports : reportsOf (calls ++ [c]) c.ethHash
            = reportsOf calls c.ethHash ++ [reportOf c.receipt] := by
          simp [reportsOf]
        rw [placement_indexOne, ih, hreports, placeAll_concat]
      · have hreports : reportsOf (calls ++ [c]) hash = reportsOf calls hash := by
          simp [reportsOf, h]
        rw [settled_indexOne_of_ne (Ne.symm h), ih, hreports]

/-- The counters of a block only grow. -/
theorem counters_indexOne_mono (height : UInt64) :
    (counters db.blocks height).1 ≤ (counters (indexOne db c).blocks height).1 := by
  by_cases h : skips (db.settled c.ethHash) c.receipt = true
  · rw [indexOne_of_skips h]
  · rw [indexOne_of_not_skips h]
    by_cases hh : height = c.receipt.blockHeight
    · rw [hh, counters_writeIndexed_self]
      exact Nat.le_succ _
    · rw [counters_writeIndexed_of_ne hh]

theorem counters_indexAll_mono (calls : List IndexCall) (height : UInt64) :
    (counters db.blocks height).1 ≤ (counters (indexAll db calls).blocks height).1 := by
  induction calls generalizing db with
  | nil => exact le_rfl
  | cons c calls ih =>
      calc (counters db.blocks height).1
          ≤ (counters (indexOne db c).blocks height).1 := counters_indexOne_mono height
        _ ≤ (counters (indexAll (indexOne db c) calls).blocks height).1 := ih

/-- A pass changes nothing exactly if each of its calls is skipped. -/
theorem indexAll_eq_self_iff (calls : List IndexCall) :
    indexAll db calls = db ↔ ∀ c ∈ calls, skips (db.settled c.ethHash) c.receipt = true := by
  induction calls with
  | nil => simp [indexAll]
  | cons c calls ih =>
      rw [List.forall_mem_cons]
      by_cases h : skips (db.settled c.ethHash) c.receipt = true
      · rw [indexAll, List.foldl_cons, indexOne_of_skips h, ← indexAll, ih]
        simp [h]
      · -- the first call counts its transaction, and no later one takes that back
        refine ⟨fun heq => absurd ?_ (Nat.lt_irrefl (counters db.blocks c.receipt.blockHeight).1),
          fun hall => absurd hall.1 h⟩
        calc (counters db.blocks c.receipt.blockHeight).1
            < (counters (indexOne db c).blocks c.receipt.blockHeight).1 := by
              rw [indexOne_of_not_skips h, counters_writeIndexed_self]
              exact Nat.lt_succ_self _
          _ ≤ (counters (indexAll (indexOne db c) calls).blocks c.receipt.blockHeight).1 :=
              counters_indexAll_mono calls _
          _ = (counters db.blocks c.receipt.blockHeight).1 := by
              show (counters (indexAll db (c :: calls)).blocks _).1 = _
              rw [heq]

end Pass

end KoinosEvm.Proofs
