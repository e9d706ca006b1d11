/-
Which raw transaction: the engine's answer and the indexer's.

The engine runs the LAST field 1 of its arguments and reads no further
than the first malformed field. The indexer files the operation under the
FIRST field 1 and reads on over malformed ones. By `items_eq` the indexer
sees the engine's fields and then what it makes of the rest, so the two
answers differ in two ways only: the well-formed fields hold field 1
twice with different bytes at the two ends, or they hold none and the
indexer finds one behind them. `indexedRawTx_agrees_iff` says exactly
that.
-/
import KoinosEvm.Engine.Messages
import KoinosEvm.Proxy.Indexer
import KoinosEvm.Proofs.Wire

namespace KoinosEvm.Proofs

open Engine Engine.Proto Proxy

-- ================================================ occurrences of field 1

/-- The payloads of the length-delimited fields 1, in order. -/
def rawTxFields (fs : List Field) : List Bytes :=
  fs.filterMap fun (n, v) => if n = 1 then getBytes v else none

/-- Both programs mean the same fields by `raw_tx`. -/
theorem isRawTxField_toProto (f : Field) :
    isRawTxField (toProto f) = true ↔ ∃ bs, f = (1, .lengthDelimited bs) := by
  obtain ⟨n, v⟩ := f
  cases v with
  | varint v => simp [isRawTxField, toProto]
  | lengthDelimited bs => simp [isRawTxField, toProto]

/-- The engine keeps the last occurrence. -/
theorem stripRawTx_eq (args : Bytes) :
    stripRawTx args = (rawTxFields (fieldsOf args)).getLast?.getD [] := by
  unfold stripRawTx
  generalize hbase : ([] : Bytes) = base
  clear hbase
  induction fieldsOf args generalizing base with
  | nil => rfl
  | cons f fs ih =>
      obtain ⟨n, v⟩ := f
      rw [List.foldl_cons, ih]
      simp only [rawTxFields, List.filterMap_cons]
      split
      · cases v with
        | varint v => rfl
        | lengthDelimited bs =>
            simp only [getBytes, Option.getD_some]
            rw [List.getLast?_cons]
            rfl
      · rfl

/-- The indexer, reading the engine's fields first, takes the first
occurrence; only when there is none does it look behind them. -/
theorem firstRawTx_fields (fs : List Field) (tail : List ProtoItem) :
    firstRawTx (fs.map (fun f => ProtoItem.ok (toProto f)) ++ tail)
      = match rawTxFields fs with
        | first :: _ => .ok (some first)
        | [] => firstRawTx tail := by
  induction fs with
  | nil => rfl
  | cons f fs ih =>
      by_cases hf : isRawTxField (toProto f) = true
      · obtain ⟨bs, rfl⟩ := (isRawTxField_toProto f).mp hf
        simp only [List.map_cons, List.cons_append, firstRawTx, findFlatten]
        rw [if_pos hf]
        rfl
      · have hnext : firstRawTx ((f :: fs).map (fun f => ProtoItem.ok (toProto f))
            ++ tail)
            = firstRawTx (fs.map (fun f => ProtoItem.ok (toProto f)) ++ tail) := by
          simp only [List.map_cons, List.cons_append, firstRawTx, findFlatten]
          rw [if_neg hf]
        rw [hnext, ih]
        obtain ⟨n, v⟩ := f
        have hskip : (if n = 1 then getBytes v else none) = none := by
          by_contra hne
          obtain ⟨bs, hbs⟩ := Option.ne_none_iff_exists'.mp hne
          apply hf
          rw [isRawTxField_toProto]
          split at hbs
          next hn1 =>
            cases v with
            | varint v => cases hbs
            | lengthDelimited bs' => exact ⟨bs', by rw [hn1]⟩
          next => cases hbs
        simp only [rawTxFields, List.filterMap_cons, hskip]

-- ======================================================= the condition

/-- Reading on behind the engine's stop, errors skipped, the indexer
meets no field 1, or an empty one first, and no panic before that. -/
def NothingBehind : List ProtoItem → Prop
  | [] => True
  | .err _ :: rest => NothingBehind rest
  | .panic _ :: _ => False
  | .ok f :: rest =>
      if isRawTxField f then f.payload = [] else NothingBehind rest

theorem nothingBehind_iff (tail : List ProtoItem) :
    (∃ found, firstRawTx tail = .ok found ∧ found.getD [] = [])
      ↔ NothingBehind tail := by
  induction tail with
  | nil => exact ⟨fun _ => trivial, fun _ => ⟨none, rfl, rfl⟩⟩
  | cons x tail ih =>
      cases x with
      | err e => exact ih
      | panic p =>
          constructor
          · rintro ⟨found, h, -⟩
            cases h
          · exact False.elim
      | ok f =>
          simp only [firstRawTx, findFlatten, NothingBehind]
          split
          · constructor
            · rintro ⟨found, h, hd⟩
              injection h with h
              rw [← h] at hd
              exact hd
            · intro h
              exact ⟨some f.payload, rfl, h⟩
          · exact ih

/-- The arguments name one raw transaction to both readers. -/
def RawTxUnambiguous (checks : Checks) (args : Bytes) : Prop :=
  match rawTxFields (fieldsOf args) with
  | first :: rest => ∀ last, rest.getLast? = some last → last = first
  | [] =>
      NothingBehind
        (ProtoIter.items checks ⟨args, (FieldIter.new args).stop.pos⟩)

/-- The indexer survives the arguments and files them under the bytes
the engine runs; none and empty are the same answer. -/
def IndexNamesExecuted (checks : Checks) (args : Bytes) : Prop :=
  ∃ found, indexedRawTx checks args = .ok found ∧ found.getD [] = stripRawTx args

-- ========================================================= the result

/-- The indexer names the transaction the engine runs exactly on
unambiguous arguments. -/
theorem indexedRawTx_agrees_iff (checks : Checks) (args : NativeBuf) :
    IndexNamesExecuted checks args.bytes ↔ RawTxUnambiguous checks args.bytes := by
  have hitems : itemsOf checks args.bytes
      = (fieldsOf args.bytes).map (fun f => .ok (toProto f))
        ++ ProtoIter.items checks
            ⟨args.bytes, (FieldIter.new args.bytes).stop.pos⟩ :=
    items_eq _ (FieldIter.new args.bytes) args.fits
  unfold IndexNamesExecuted RawTxUnambiguous indexedRawTx
  rw [hitems, firstRawTx_fields, stripRawTx_eq]
  cases hocc : rawTxFields (fieldsOf args.bytes) with
  | nil => exact nothingBehind_iff _
  | cons first rest =>
      rw [List.getLast?_cons, Option.getD_some]
      simp only
      cases hlast : rest.getLast? with
      | none => simp
      | some last =>
          constructor
          · rintro ⟨found, hf, hd⟩ last' hl
            injection hf with hf
            injection hl with hl
            rw [← hf] at hd
            rw [← hl]
            exact hd.symm
          · intro h
            exact ⟨some first, rfl, (h last rfl).symm⟩

/-- Two fields 1, `AA` then `BB`: the engine runs `BB`, the index says
`AA`. -/
def doubledRawTx : Bytes := [0x0a, 0x01, 0xaa, 0x0a, 0x01, 0xbb]

theorem doubledRawTx_misnamed :
    stripRawTx doubledRawTx = [0xbb]
      ∧ indexedRawTx .off doubledRawTx = .ok (some [0xaa])
      ∧ ¬ IndexNamesExecuted .off doubledRawTx := by
  have he : stripRawTx doubledRawTx = [0xbb] := by decide +kernel
  have hi : indexedRawTx .off doubledRawTx = .ok (some [0xaa]) := by
    decide +kernel
  refine ⟨he, hi, ?_⟩
  rintro ⟨found, hf, hd⟩
  rw [hi] at hf
  injection hf with hf
  rw [he, ← hf] at hd
  exact absurd hd (by decide)

end KoinosEvm.Proofs
