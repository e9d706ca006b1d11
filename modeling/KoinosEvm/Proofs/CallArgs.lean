/-
The arguments of `eth_call`, from the proxy to the engine.

What `build_call_view_args` writes are the fields of the arguments that are
there (`callFields`), each as the engine reads it, so that the engine's
`parse_call_args` finds every argument as it was, and its own default for
one that is not. The gas limit has no way to be absent: zero is left out,
and the engine takes its default for it (`parseCallArgs_build`).
-/
import KoinosEvm.Engine.Handlers
import KoinosEvm.Proofs.SubmitTxJson

namespace KoinosEvm.Proofs

open Lib Engine Engine.Proto Proxy

-- ============================================================== the fields

/-- A fixed-width argument, where there is one. -/
def optionField {k : Nat} (n : Nat) (a : Option (FixedBytes k)) : List Field :=
  (a.map fun a => (n, FieldValue.lengthDelimited a.bytes)).toList

/-- The fields of the arguments. -/
def callFields (args : CallViewArgs) : List Field :=
  optionField 1 args.caller ++ optionField 2 args.toAddr ++ optionField 3 args.value
    ++ bytesField 4 args.data.bytes ++ varintField 5 args.gasLimit

theorem buildCallViewArgs_eq (args : CallViewArgs) :
    buildCallViewArgs args = (callFields args).flatMap wire := by
  have hdata : (if args.data.bytes.isEmpty then [] else Proxy.writeBytesField 4 args.data.bytes)
      = (bytesField 4 args.data.bytes).flatMap wire := by
    rw [bytesField]
    split
    · rfl
    · exact (writeBytesField_eq_wire 4 _ rfl).trans (List.flatMap_singleton _ _).symm
  have hgas : (if 0 < args.gasLimit then
        writeVarint ((5 : UInt32) <<< 3).toUInt64 ++ writeVarint args.gasLimit
      else []) = (varintField 5 args.gasLimit).flatMap wire := by
    rw [varintField, writeVarint_eq_encodeVarint, writeVarint_eq_encodeVarint]
    by_cases hzero : args.gasLimit = 0
    · rw [hzero]
      rfl
    · rw [if_pos (UInt64.pos_iff_ne_zero.mpr hzero), if_neg hzero, List.flatMap_singleton]
      rfl
  rw [callFields, List.flatMap_append, List.flatMap_append, List.flatMap_append,
    List.flatMap_append, ← hdata, ← hgas]
  refine congrArg (· ++ _) (congrArg (· ++ _) (congrArg₂ (· ++ ·) (congrArg₂ (· ++ ·)
    ?caller ?toAddr) ?value))
  case caller =>
    cases args.caller with
    | none => rfl
    | some a => exact (writeBytesField_eq_wire 1 _ rfl).trans (List.flatMap_singleton _ _).symm
  case toAddr =>
    cases args.toAddr with
    | none => rfl
    | some a => exact (writeBytesField_eq_wire 2 _ rfl).trans (List.flatMap_singleton _ _).symm
  case value =>
    cases args.value with
    | none => rfl
    | some v => exact (writeBytesField_eq_wire 3 _ rfl).trans (List.flatMap_singleton _ _).symm

theorem carries_optionField {k n : Nat} (a : Option (FixedBytes k))
    (hk : k < 2 ^ 64) (hn : n ≠ 0 ∧ n < 2 ^ 32) :
    ∀ f ∈ optionField n a, Carries f := by
  intro f hf
  cases a with
  | none => cases hf
  | some a =>
      rw [List.mem_singleton.mp hf]
      exact ⟨hn.1, hn.2, by rw [a.len]; exact hk⟩

/-- The engine finds the fields that were written. -/
theorem fieldsOf_buildCallViewArgs (args : CallViewArgs) :
    fieldsOf (buildCallViewArgs args) = callFields args := by
  have hdata : args.data.bytes.length < 2 ^ 64 := by
    have h := args.data.fits
    omega
  have hcarries : ∀ f ∈ callFields args, Carries f := by
    rw [callFields, List.forall_mem_append, List.forall_mem_append, List.forall_mem_append,
      List.forall_mem_append]
    refine ⟨⟨⟨⟨?_, ?_⟩, ?_⟩, ?_⟩, ?_⟩
    · exact carries_optionField _ (by decide) (by decide)
    · exact carries_optionField _ (by decide) (by decide)
    · exact carries_optionField _ (by decide) (by decide)
    · exact carries_bytesField hdata (by decide)
    · exact carries_varintField _ (by decide)
  rw [buildCallViewArgs_eq, fieldsOf_wire hcarries]

-- ============================================================ their reader

theorem first20_bytes (a : Address) : first20 a.bytes = some a := by
  rw [first20, List.take_of_length_le (le_of_eq a.len)]
  exact FixedBytes.ofBytes?_bytes a

section Reader

variable (read : EvmCallArgs)

theorem foldl_caller (a : Option Address) :
    (optionField 1 a).foldl callArgsField read
      = { read with caller := a.getD read.caller } := by
  cases a with
  | none => rfl
  | some a =>
      have hread : (getBytes (.lengthDelimited a.bytes)).bind first20 = some a := first20_bytes a
      show callArgsField read (1, .lengthDelimited a.bytes) = _
      simp only [callArgsField, hread]
      rfl

theorem foldl_to (a : Option Address) :
    (optionField 2 a).foldl callArgsField read
      = { read with toAddr := a.or read.toAddr } := by
  cases a with
  | none => rfl
  | some a =>
      have hread : (getBytes (.lengthDelimited a.bytes)).bind first20 = some a := first20_bytes a
      show callArgsField read (2, .lengthDelimited a.bytes) = _
      simp only [callArgsField, hread]
      rfl

theorem foldl_value (v : Option B256) :
    (optionField 3 v).foldl callArgsField read
      = { read with value := (v.map fun v => u256FromBeSlice v.bytes).getD read.value } := by
  cases v with
  | none => rfl
  | some v => exact if_pos v.len

theorem foldl_data (data : Bytes) :
    (bytesField 4 data).foldl callArgsField read
      = { read with data := if data.isEmpty then read.data else data } := by
  unfold bytesField
  split
  · rfl
  · rfl

theorem foldl_gasLimit (gas : UInt64) :
    (varintField 5 gas).foldl callArgsField read
      = { read with gasLimit := if gas = 0 then read.gasLimit else gas } := by
  unfold varintField
  split
  · rfl
  · rfl

end Reader

-- ============================================================= round trip

/-- The fields that are written, read into the default. -/
theorem parseCallArgs_fields (args : CallViewArgs) :
    parseCallArgs (buildCallViewArgs args) =
      ⟨args.caller.getD (FixedBytes.zero 20), args.toAddr,
        (args.value.map fun v => BitVec.ofNat 256 (ofBe v.bytes)).getD 0, args.data.bytes,
        if args.gasLimit = 0 then 30000000 else args.gasLimit⟩ := by
  have hdata : (if args.data.bytes.isEmpty then [] else args.data.bytes)
      = args.data.bytes := by
    split
    · next h => exact (List.isEmpty_iff.mp h).symm
    · rfl
  rw [parseCallArgs, fieldsOf_buildCallViewArgs, callFields, List.foldl_append,
    List.foldl_append, List.foldl_append, List.foldl_append, foldl_caller, foldl_to,
    foldl_value, foldl_data, foldl_gasLimit]
  simp only [hdata, Option.or_none]
  rfl

/-- The engine reads every argument as the proxy had it, and thirty million
for a gas limit of zero. -/
theorem parseCallArgs_build (args : CallViewArgs) :
    parseCallArgs (buildCallViewArgs args) =
      { caller := args.caller.getD (FixedBytes.zero 20)
        toAddr := args.toAddr
        value := (args.value.map fun v => BitVec.ofNat 256 (ofBe v.bytes)).getD 0
        data := args.data.bytes
        gasLimit := if args.gasLimit = 0 then 30000000 else args.gasLimit } :=
  parseCallArgs_fields args

/-- A gas limit of zero is not what the engine reads. -/
theorem parseCallArgs_gasLimit_zero :
    ∃ args : CallViewArgs, args.gasLimit = 0
      ∧ (parseCallArgs (buildCallViewArgs args)).gasLimit ≠ args.gasLimit :=
  ⟨⟨none, none, none, ⟨[], by decide⟩, 0⟩, rfl, by decide⟩

end KoinosEvm.Proofs
