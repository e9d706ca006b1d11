/-
Indexing a history again.

Above the last irreversible block every cycle of the indexer goes over the
entries it has already indexed, and then on to new ones. Whether that leaves
the index as one pass over the history would is a matter of the reports of
each transaction (`SettledBy`): a transaction that only failed, at two
heights, moves at every pass and is counted again (`repass_iff`).
-/
import KoinosEvm.Proofs.Placement

namespace KoinosEvm.Proofs

open Lib Proxy

/-- A pass over the calls leaves every transaction where a second one finds
it. -/
def SettledBy (db : Db) (calls : List IndexCall) : Prop :=
  ∀ hash, SettlesFrom (placement (db.settled hash)) (reportsOf calls hash)

/-- A history, processed in cycles: each goes over a tail of what is done
and then on. -/
inductive Cycles : List IndexCall → List (List IndexCall) → Prop
  | start : Cycles [] []
  | cycle {done again new cycles} : Cycles done cycles → again <:+ done →
      Cycles (done ++ new) (cycles ++ [again ++ new])

/-- The store after the cycles. -/
def indexCycles (db : Db) (cycles : List (List IndexCall)) : Db := cycles.foldl indexAll db

variable {db : Db} {calls : List IndexCall}

/-- After a pass, a call is skipped exactly as its report is. -/
theorem skips_indexAll_iff {c : IndexCall} :
    skips ((indexAll db calls).settled c.ethHash) c.receipt = true
      ↔ SkippedAt (placeAll (placement (db.settled c.ethHash)) (reportsOf calls c.ethHash))
          (reportOf c.receipt) := by
  rw [skips_iff_skippedAt, placement_indexAll]

/-- After a pass over a history that settles, each of its calls is skipped. -/
theorem settles_iff_skips :
    SettledBy db calls
      ↔ ∀ c ∈ calls, skips ((indexAll db calls).settled c.ethHash) c.receipt = true := by
  unfold SettledBy
  simp only [skips_indexAll_iff, ← settles_iff]
  constructor
  · exact fun h c hc => h c.ethHash _ (mem_reportsOf.mpr ⟨c, hc, rfl, rfl⟩)
  · intro h hash e he
    obtain ⟨c, hc, rfl, rfl⟩ := mem_reportsOf.mp he
    exact h c hc

/-- Going again over a tail of a history that settles changes nothing. -/
theorem indexAll_again {again : List IndexCall} (h : SettledBy db calls)
    (hagain : again <:+ calls) : indexAll (indexAll db calls) again = indexAll db calls :=
  (indexAll_eq_self_iff again).mpr fun c hc =>
    settles_iff_skips.mp h c (hagain.subset hc)

/-- Where every history so far settles, the cycles do not show. -/
theorem indexCycles_eq {cycles : List (List IndexCall)} (hcycles : Cycles calls cycles)
    (h : ∀ pre, pre <+: calls → SettledBy db pre) :
    indexCycles db cycles = indexAll db calls := by
  induction hcycles with
  | start => rfl
  | @cycle done again new cycles _ hagain ih =>
      have hdone : done <+: done ++ new := List.prefix_append done new
      have hprev := ih fun pre hpre => h pre (hpre.trans hdone)
      calc indexCycles db (cycles ++ [again ++ new])
          = indexAll (indexCycles db cycles) (again ++ new) := by
            simp only [indexCycles, List.foldl_append, List.foldl_cons, List.foldl_nil]
        _ = indexAll (indexAll (indexAll db done) again) new := by
            rw [hprev, indexAll_append]
        _ = indexAll db (done ++ new) := by
            rw [indexAll_again (h done hdone) hagain, indexAll_append]

/-- A second pass over a history changes nothing exactly if the history
settles; and the index is that of one pass, at every point of the history
and however it was cut into cycles, exactly if it settles up to every
point. -/
theorem repass_iff (db : Db) (calls : List IndexCall) :
    (indexAll (indexAll db calls) calls = indexAll db calls ↔ SettledBy db calls)
      ∧ ((∀ pre cycles, pre <+: calls → Cycles pre cycles →
            indexCycles db cycles = indexAll db pre)
          ↔ ∀ pre, pre <+: calls → SettledBy db pre) := by
  have hagain (calls : List IndexCall) :
      indexAll (indexAll db calls) calls = indexAll db calls ↔ SettledBy db calls := by
    rw [indexAll_eq_self_iff, settles_iff_skips]
  refine ⟨hagain calls, ?_, ?_⟩
  · -- two cycles over the whole of `pre` are two passes
    intro h pre hpre
    refine (hagain pre).mp ?_
    have hone : Cycles pre [pre] := .cycle .start List.suffix_rfl
    have htwo : Cycles (pre ++ []) [pre, pre ++ []] := .cycle hone List.suffix_rfl
    rw [List.append_nil] at htwo
    exact h pre _ hpre htwo
  · intro h pre cycles hpre hcycles
    exact indexCycles_eq hcycles fun pre' hpre' => h pre' (hpre'.trans hpre)

/-- A transaction that failed at height 5 and again at height 6. -/
def failedTwice : List IndexCall :=
  [⟨.zero 32, sampleMeta, sampleReceipt 5 [0xaa] false, 0⟩,
   ⟨.zero 32, sampleMeta, sampleReceipt 6 [0xbb] false, 0⟩]

/-- The second pass numbers it anew. -/
theorem repass_moves :
    indexAll (indexAll .empty failedTwice) failedTwice ≠ indexAll .empty failedTwice := by
  intro h
  have hsettled := congrArg (fun db => db.settled (.zero 32)) h
  revert hsettled
  decide

end KoinosEvm.Proofs
