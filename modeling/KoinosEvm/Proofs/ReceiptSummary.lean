/-
`decode_receipt_events` in closed form.

The decoder is a left fold with an accumulator; what it computes is
simpler to say per event. An event contributes the fields of its payload:
a failure report, gas reports, address reports, or one log. The decoded
receipt is then a summary of the contributions: failed if any event
reports failure, the last gas and address report, and the logs numbered
in order (`decodeReceiptEvents_eq`). A payload that panics the reader
panics the whole decoder.
-/
import KoinosEvm.Proxy.Events
import KoinosEvm.Proofs.Wire

namespace KoinosEvm.Proofs

open Proxy

-- ===================================================== flattened items

/-- The fields among the items. -/
def okFields (items : List ProtoItem) : List ProtoField :=
  items.filterMap fun
    | .ok f => some f
    | _ => none

/-- Whether an item is a panic. -/
def isPanic : ProtoItem → Bool
  | .panic _ => true
  | _ => false

/-- The panic a build raises. -/
def panicOf : Checks → Panic
  | .on => .addOverflow
  | .off => .sliceOrder

/-- The length-delimited arm panics with the build's panic only. -/
theorem take_panic {checks : Checks} {buf : Bytes} {pos field len : Nat} {p : Panic}
    (h : (ProtoIter.take checks buf pos field len).1 = .panic p) :
    p = panicOf checks := by
  unfold ProtoIter.take at h
  split at h
  next hov =>
    injection h with h
    rw [← h, hov.1]
    rfl
  next hno =>
    simp only at h
    split at h
    · cases h
    · split at h
      next hlt =>
        injection h with h
        rw [← h]
        cases checks with
        | on =>
            -- with checks on, an addition that got here did not wrap
            have hfit : pos + len < 2 ^ 64 := by
              by_contra hge
              exact hno ⟨rfl, by omega⟩
            rw [Nat.mod_eq_of_lt hfit] at hlt
            omega
        | off => rfl
      · cases h

theorem items_panic {checks : Checks} {bytes : Bytes} {p : Panic}
    (h : ProtoItem.panic p ∈ itemsOf checks bytes) : p = panicOf checks := by
  obtain ⟨it, it', -, hn⟩ := (Lib.mem_collect_iff (protoIter_decreasing checks)).mp h
  obtain ⟨-, hcase⟩ := protoIter_next_cases hn
  rcases hcase with ⟨e, q, -, hx, -⟩ | ⟨tag, q, -, hcase⟩
  · cases hx
  · rcases hcase with ⟨-, v, q, -, hx, -⟩ | ⟨e, q, -, hx, -⟩ |
      ⟨-, len, q, -, hx⟩ | ⟨e, hx, -⟩
    · cases hx
    · cases hx
    · exact take_panic (congrArg Prod.fst hx).symm
    · cases hx

/-- A flattened `for` loop folds over the fields, unless it panics. -/
theorem forFlatten_eq {β : Type} (body : β → ProtoField → β) (k : Panic) :
    ∀ (items : List ProtoItem) (acc : β),
      (∀ p, ProtoItem.panic p ∈ items → p = k) →
      forFlatten body acc items
        = if items.any isPanic then .error k
          else .ok ((okFields items).foldl body acc) := by
  intro items
  induction items with
  | nil => intro acc _; rfl
  | cons x items ih =>
      intro acc hk
      have htail : ∀ p, ProtoItem.panic p ∈ items → p = k :=
        fun p hp => hk p (List.mem_cons_of_mem _ hp)
      cases x with
      | ok f => exact ih (body acc f) htail
      | err e => exact ih acc htail
      | panic p =>
          have hp : p = k := hk p List.mem_cons_self
          rw [hp]
          rfl

-- ================================================= fields of a result

/-- Some field says `success = 0`. -/
def failsIn (fs : List ProtoField) : Bool :=
  fs.any fun f => f.field == 1 && f.wtype == 0 && f.varint == 0

/-- The `gas_used` values. -/
def gasIn (fs : List ProtoField) : List UInt64 :=
  fs.filterMap fun f =>
    if f.field = 2 ∧ f.wtype = 0 then some f.varint else none

/-- The `contract_address` values of the right length. -/
def addressIn (fs : List ProtoField) : List Bytes :=
  fs.filterMap fun f =>
    if f.field = 3 ∧ f.wtype = 2 ∧ f.payload.length = 20 then some f.payload
    else none

section Append

variable (fs gs : List ProtoField)

theorem failsIn_append : failsIn (fs ++ gs) = (failsIn fs || failsIn gs) := List.any_append

theorem gasIn_append : gasIn (fs ++ gs) = gasIn fs ++ gasIn gs := List.filterMap_append

theorem addressIn_append : addressIn (fs ++ gs) = addressIn fs ++ addressIn gs :=
  List.filterMap_append

end Append

/-- One field is the summary of a one-field message. -/
theorem resultField_eq (out : DecodedEvents) (f : ProtoField) :
    resultField out f =
      { status := out.status && !failsIn [f]
        gasUsed := (gasIn [f]).getLast?.getD out.gasUsed
        contractAddress := ((addressIn [f]).getLast?).or out.contractAddress
        logs := out.logs } := by
  obtain ⟨status, gas, addr, logs⟩ := out
  obtain ⟨field, wtype, payload, varint⟩ := f
  unfold resultField
  split
  next h1 h0 =>
    simp only at h1 h0
    subst h1 h0
    by_cases hv : varint = 0 <;> simp [failsIn, gasIn, addressIn, hv]
  next h2 h0 =>
    simp only at h2 h0
    subst h2 h0
    simp [failsIn, gasIn, addressIn]
  next h3 h2 =>
    simp only at h3 h2
    subst h3 h2
    by_cases hl : payload.length = 20 <;> simp [failsIn, gasIn, addressIn, hl]
  next h1 h2 h3 =>
    simp only at h1 h2 h3
    have hf : failsIn [⟨field, wtype, payload, varint⟩] = false := by
      simp only [failsIn, List.any_cons, List.any_nil, Bool.or_false,
        Bool.and_eq_false_imp, Bool.and_eq_true, beq_iff_eq]
      exact fun h => absurd h.2 (h1 h.1)
    have hg : gasIn [⟨field, wtype, payload, varint⟩] = [] := by
      simp only [gasIn, List.filterMap_cons, List.filterMap_nil]
      rw [if_neg (fun h => h2 h.1 h.2)]
    have ha : addressIn [⟨field, wtype, payload, varint⟩] = [] := by
      simp only [addressIn, List.filterMap_cons, List.filterMap_nil]
      rw [if_neg (fun h => h3 h.1 h.2.1)]
    simp [hf, hg, ha]

/-- Later reports win over earlier ones. -/
theorem getLast?_append_getD {α : Type} (xs ys : List α) (d : α) :
    (xs ++ ys).getLast?.getD d = ys.getLast?.getD (xs.getLast?.getD d) := by
  rw [List.getLast?_append]
  cases ys.getLast? <;> rfl

theorem getLast?_append_or {α : Type} (xs ys : List α) (d : Option α) :
    ((xs ++ ys).getLast?).or d = (ys.getLast?).or ((xs.getLast?).or d) := by
  rw [List.getLast?_append]
  cases ys.getLast? <;> rfl

/-- The loop over the fields of an `evm.result` payload. -/
theorem foldl_resultField :
    ∀ (fs : List ProtoField) (out : DecodedEvents),
      fs.foldl resultField out =
        { status := out.status && !failsIn fs
          gasUsed := (gasIn fs).getLast?.getD out.gasUsed
          contractAddress := ((addressIn fs).getLast?).or out.contractAddress
          logs := out.logs } := by
  intro fs
  induction fs with
  | nil => intro out; simp [failsIn, gasIn, addressIn]
  | cons f fs ih =>
      intro out
      have hfail : failsIn (f :: fs) = (failsIn [f] || failsIn fs) := failsIn_append [f] fs
      have hgas : gasIn (f :: fs) = gasIn [f] ++ gasIn fs := gasIn_append [f] fs
      have haddr : addressIn (f :: fs) = addressIn [f] ++ addressIn fs := addressIn_append [f] fs
      rw [List.foldl_cons, ih, resultField_eq, hfail, hgas, haddr,
        getLast?_append_getD, getLast?_append_or]
      simp [Bool.and_assoc]

-- ==================================================== one event's share

/-- The payload of an event of the given name, where it is base64. -/
def payloadOf (b64 : Base64) (name : String) (ev : Value) : Option Bytes :=
  if (ev.getStr "name").getD "" = name then
    decodeB64Lax b64 ((ev.getStr "data").getD "")
  else none

variable (checks : Checks) (b64 : Base64)

/-- The items the decoder reads of an event of the given name. -/
def eventItems (name : String) (ev : Value) : List ProtoItem :=
  ((payloadOf b64 name ev).map (itemsOf checks)).getD []

/-- The event panics the decoder. -/
def panics (ev : Value) : Bool :=
  (eventItems checks b64 "evm.result" ev).any isPanic
    || (eventItems checks b64 "evm.log" ev).any isPanic

/-- The fields of an `evm.result` payload. -/
def resultFields (ev : Value) : List ProtoField :=
  okFields (eventItems checks b64 "evm.result" ev)

/-- The event reports failure: an explicit `success = 0`. -/
def reportsFailure (ev : Value) : Bool := failsIn (resultFields checks b64 ev)

/-- The `gas_used` fields of the event. -/
def gasReports (ev : Value) : List UInt64 := gasIn (resultFields checks b64 ev)

/-- The 20-byte `contract_address` fields of the event. -/
def addressReports (ev : Value) : List Bytes :=
  addressIn (resultFields checks b64 ev)

/-- The log of an `evm.log` event. -/
def logOf (ev : Value) : Option LogParts :=
  (payloadOf b64 "evm.log" ev).map fun bytes =>
    (okFields (itemsOf checks bytes)).foldl logField ⟨[], [], []⟩

/-- Number logs from `i` on. -/
def numbered (i : Nat) : List LogParts → List LogRow
  | [] => []
  | parts :: rest =>
      ⟨i, parts.address, parts.topics, parts.logData⟩ :: numbered (i + 1) rest

/-- What a list of events makes of a loop state. -/
def absorb (st : EventScan) (evs : List Value) : EventScan where
  out :=
    { status := st.out.status && !evs.any (reportsFailure checks b64)
      gasUsed := (evs.flatMap (gasReports checks b64)).getLast?.getD st.out.gasUsed
      contractAddress :=
        ((evs.flatMap (addressReports checks b64)).getLast?).or
          st.out.contractAddress
      logs := st.out.logs ++ numbered st.logIndex (evs.filterMap (logOf checks b64)) }
  logIndex := st.logIndex + (evs.filterMap (logOf checks b64)).length

variable {checks b64}

theorem numbered_append (i : Nat) (xs ys : List LogParts) :
    numbered i (xs ++ ys) = numbered i xs ++ numbered (i + xs.length) ys := by
  induction xs generalizing i with
  | nil => simp [numbered]
  | cons x xs ih =>
      simp only [List.cons_append, numbered, ih, List.length_cons]
      rw [show i + 1 + xs.length = i + (xs.length + 1) by omega]

/-- Absorbing event by event or all at once is the same. -/
theorem absorb_append (st : EventScan) (xs ys : List Value) :
    absorb checks b64 (absorb checks b64 st xs) ys
      = absorb checks b64 st (xs ++ ys) := by
  simp only [absorb, List.flatMap_append, List.filterMap_append, List.any_append,
    getLast?_append_getD, getLast?_append_or, numbered_append, List.append_assoc,
    List.length_append, Bool.not_or, Bool.and_assoc, Nat.add_assoc]

/-- The loop body: panic, or absorb the event. -/
theorem scanEvent_eq (st : EventScan) (ev : Value) :
    scanEvent checks b64 st ev
      = if panics checks b64 ev then .error (panicOf checks)
        else .ok (absorb checks b64 st [ev]) := by
  unfold scanEvent
  simp only
  by_cases hres : (ev.getStr "name").getD "" = "evm.result"
  · have hlog : payloadOf b64 "evm.log" ev = none := by
      rw [payloadOf, hres]
      rfl
    have hpay : payloadOf b64 "evm.result" ev
        = decodeB64Lax b64 ((ev.getStr "data").getD "") := if_pos hres
    rw [if_pos hres]
    cases hd : decodeB64Lax b64 ((ev.getStr "data").getD "") with
    | none =>
        rw [hd] at hpay
        simp [panics, absorb, eventItems, reportsFailure, gasReports, addressReports,
          resultFields, logOf, hlog, hpay, failsIn, gasIn, addressIn, okFields,
          numbered]
        rfl
    | some bytes =>
        rw [hd] at hpay
        simp only
        rw [forFlatten_eq _ (panicOf checks) _ _ (fun _ => items_panic)]
        cases hp : (itemsOf checks bytes).any isPanic with
        | true =>
            simp [panics, eventItems, hpay, hp]
        | false =>
            simp [panics, absorb, eventItems, reportsFailure, gasReports,
              addressReports, resultFields, logOf, hlog, hpay, hp, numbered,
              foldl_resultField]
  · have hpay : payloadOf b64 "evm.result" ev = none := if_neg hres
    rw [if_neg hres]
    by_cases hlog : (ev.getStr "name").getD "" = "evm.log"
    · have hpaylog : payloadOf b64 "evm.log" ev
          = decodeB64Lax b64 ((ev.getStr "data").getD "") := if_pos hlog
      rw [if_pos hlog]
      cases hd : decodeB64Lax b64 ((ev.getStr "data").getD "") with
      | none =>
          rw [hd] at hpaylog
          simp [panics, absorb, eventItems, reportsFailure, gasReports,
            addressReports, resultFields, logOf, hpay, hpaylog, failsIn, gasIn,
            addressIn, okFields, numbered]
          rfl
      | some bytes =>
          rw [hd] at hpaylog
          simp only
          rw [forFlatten_eq _ (panicOf checks) _ _ (fun _ => items_panic)]
          cases hp : (itemsOf checks bytes).any isPanic with
          | true =>
              simp [panics, eventItems, hpay, hpaylog, hp]
          | false =>
              simp [panics, absorb, eventItems, reportsFailure, gasReports,
                addressReports, resultFields, logOf, hpay, hpaylog, hp, failsIn,
                gasIn, addressIn, okFields, numbered]
    · have hpaylog : payloadOf b64 "evm.log" ev = none := if_neg hlog
      rw [if_neg hlog]
      simp [panics, absorb, eventItems, reportsFailure, gasReports, addressReports,
        resultFields, logOf, hpay, hpaylog, failsIn, gasIn, addressIn, okFields,
        numbered]
      rfl

/-- The whole loop. -/
theorem foldlM_scanEvent :
    ∀ (evs : List Value) (st : EventScan),
      evs.foldlM (scanEvent checks b64) st
        = if evs.any (panics checks b64) then .error (panicOf checks)
          else .ok (absorb checks b64 st evs) := by
  intro evs
  induction evs with
  | nil =>
      intro st
      simp [absorb, numbered]
      rfl
  | cons ev evs ih =>
      intro st
      rw [List.foldlM_cons, scanEvent_eq]
      cases hp : panics checks b64 ev with
      | true => simp [hp]; rfl
      | false =>
          have hbind : (Except.ok (absorb checks b64 st [ev]) >>= fun s' =>
              evs.foldlM (scanEvent checks b64) s')
              = evs.foldlM (scanEvent checks b64) (absorb checks b64 st [ev]) := rfl
          simp only [hp, Bool.false_eq_true, if_false, hbind, List.any_cons,
            Bool.false_or]
          rw [ih, absorb_append, List.singleton_append]

variable (checks b64)

/-- The summary of a list of events. -/
def summary (evs : List Value) : DecodedEvents :=
  (absorb checks b64 ⟨.initial, 0⟩ evs).out

variable {checks b64}

/-- `decode_receipt_events` in closed form. -/
theorem decodeReceiptEvents_eq (evs : List Value) :
    decodeReceiptEvents checks b64 (some evs)
      = if evs.any (panics checks b64) then .error (panicOf checks)
        else .ok (summary checks b64 evs) := by
  unfold decodeReceiptEvents
  simp only [foldlM_scanEvent]
  cases evs.any (panics checks b64) <;> rfl

end KoinosEvm.Proofs
