/-
Engine events on the proxy's side.

`emit_logs` and `emit_evm_result_event` write protobuf payloads with the
engine's encoders, the node renders the events as JSON with base64 data,
and `decode_receipt_events` reads them back with a protobuf reader and
defaults of its own. The payloads are concatenations of `wire` fields
(`encodeLog_eq`, `encodeResultEvent_eq`), so the proxy sees exactly these
fields (`itemsOf_wire`); what the encoders drop is what the decoder
starts from. Over a list of events the closed form of the decoder
(Proofs/ReceiptSummary.lean) does the rest.
-/
import KoinosEvm.Proofs.HostCalls
import KoinosEvm.Proofs.ReceiptSummary

namespace KoinosEvm.Proofs

open Engine Engine.Proto Proxy Lib

-- ================================================= payloads as fields

/-- The fields of an `evm.log` payload. -/
def logFields (log : Log) : List Field :=
  bytesField 1 log.address.bytes
    ++ log.topics.flatMap (fun topic => bytesField 2 topic.bytes)
    ++ bytesField 3 log.data.bytes

/-- The fields of an `evm.result` payload. -/
def resultEventFields (success : Bool) (gasUsed : UInt64)
    (contractAddress : Option Address) : List Field :=
  (1, .varint (if success then 1 else 0)) :: varintField 2 gasUsed
    ++ (match contractAddress with
        | some addr => bytesField 3 addr.bytes
        | none => [])

theorem encodeLog_eq (log : Log) : encodeLog log = (logFields log).flatMap wire := by
  unfold encodeLog logFields
  simp only [encodeBytesField_eq, List.flatMap_append, List.flatMap_assoc]

theorem encodeResultEvent_eq (success : Bool) (gasUsed : UInt64)
    (contractAddress : Option Address) :
    encodeResultEvent success gasUsed contractAddress
      = (resultEventFields success gasUsed contractAddress).flatMap wire := by
  unfold encodeResultEvent resultEventFields
  cases contractAddress with
  | none =>
      simp [encodeVarintField_eq, wire]
  | some addr =>
      simp [encodeVarintField_eq, encodeBytesField_eq, wire]

theorem carries_logFields (log : Log) : ∀ f ∈ logFields log, Carries f := by
  unfold logFields
  rw [List.forall_mem_append, List.forall_mem_append]
  refine ⟨⟨carries_fixed _ (by decide) (by decide), ?_⟩, ?_⟩
  · intro f hf
    obtain ⟨topic, -, hf⟩ := List.mem_flatMap.mp hf
    exact carries_fixed topic (by decide) (by decide) f hf
  · exact carries_bytesField (lt_trans log.data.fits (by decide)) (by decide)

theorem carries_resultEventFields (success : Bool) (gasUsed : UInt64)
    (contractAddress : Option Address) :
    ∀ f ∈ resultEventFields success gasUsed contractAddress, Carries f := by
  unfold resultEventFields
  rw [List.cons_append, List.forall_mem_cons, List.forall_mem_append]
  refine ⟨⟨by decide, by decide⟩, carries_varintField gasUsed (by decide), ?_⟩
  cases contractAddress with
  | none => simp
  | some addr => exact carries_fixed addr (by decide) (by decide)

-- ======================================================= payload sizes

/-- A log's payload is far from the proxy's address space. -/
theorem length_encodeLog_lt (log : Log) : (encodeLog log).length < 2 ^ 63 := by
  have hdata := log.data.fits
  have hpayload : ∀ f ∈ logFields log, (toProto f).payload.length ≤ 2 ^ 31 := by
    unfold logFields
    rw [List.forall_mem_append, List.forall_mem_append]
    refine ⟨⟨?_, ?_⟩, ?_⟩
    · intro f hf
      rw [payload_bytesField hf, log.address.len]
      omega
    · intro f hf
      obtain ⟨topic, -, hf⟩ := List.mem_flatMap.mp hf
      rw [payload_bytesField hf, topic.len]
      omega
    · intro f hf
      rw [payload_bytesField hf]
      omega
  have hcount : (logFields log).length ≤ 6 := by
    have htopics : (log.topics.flatMap fun topic => bytesField 2 topic.bytes).length
        = log.topics.length := by
      simp only [bytesField_fixed, List.length_flatMap, List.length_singleton,
        List.map_const', List.sum_replicate, Nat.nsmul_eq_mul, Nat.mul_one]
    have h1 := length_bytesField_le 1 log.address.bytes
    have h3 := length_bytesField_le 3 log.data.bytes
    have h4 := log.topics_le
    unfold logFields
    rw [List.length_append, List.length_append, htopics]
    omega
  rw [encodeLog_eq]
  calc ((logFields log).flatMap wire).length
      ≤ (logFields log).length * (20 + 2 ^ 31) := length_flatMap_wire_le hpayload
    _ ≤ 6 * (20 + 2 ^ 31) := Nat.mul_le_mul_right _ hcount
    _ < 2 ^ 63 := by norm_num

theorem length_encodeResultEvent_lt (success : Bool) (gasUsed : UInt64)
    (contractAddress : Option Address) :
    (encodeResultEvent success gasUsed contractAddress).length < 2 ^ 63 := by
  have hpayload : ∀ f ∈ resultEventFields success gasUsed contractAddress,
      (toProto f).payload.length ≤ 20 := by
    unfold resultEventFields
    rw [List.cons_append, List.forall_mem_cons, List.forall_mem_append]
    refine ⟨by simp [toProto], ?_, ?_⟩
    · intro f hf
      unfold varintField at hf
      split at hf
      · cases hf
      · rw [List.mem_singleton.mp hf]
        exact Nat.zero_le _
    · cases contractAddress with
      | none => simp
      | some addr =>
          intro f hf
          rw [payload_bytesField hf, addr.len]
  have hcount : (resultEventFields success gasUsed contractAddress).length ≤ 3 := by
    have h2 := length_varintField_le 2 gasUsed
    unfold resultEventFields
    rw [List.cons_append, List.length_cons, List.length_append]
    cases contractAddress with
    | none =>
        simp only [List.length_nil]
        omega
    | some addr =>
        have h3 := length_bytesField_le 3 addr.bytes
        simp only
        omega
  rw [encodeResultEvent_eq]
  calc ((resultEventFields success gasUsed contractAddress).flatMap wire).length
      ≤ (resultEventFields success gasUsed contractAddress).length * (20 + 20) :=
        length_flatMap_wire_le hpayload
    _ ≤ 3 * (20 + 20) := Nat.mul_le_mul_right _ hcount
    _ < 2 ^ 63 := by norm_num

-- ======================================================= one event each

/-- What the proxy reads of an `evm.log` payload. -/
theorem okFields_encodeLog (checks : Checks) (log : Log) :
    itemsOf checks (encodeLog log) = (logFields log).map fun f => .ok (toProto f) := by
  have hlen := length_encodeLog_lt log
  rw [encodeLog_eq] at hlen ⊢
  exact itemsOf_wire (carries_logFields log) hlen

theorem okFields_encodeResultEvent (checks : Checks) (success : Bool) (gasUsed : UInt64)
    (contractAddress : Option Address) :
    itemsOf checks (encodeResultEvent success gasUsed contractAddress)
      = (resultEventFields success gasUsed contractAddress).map
          fun f => .ok (toProto f) := by
  have hlen := length_encodeResultEvent_lt success gasUsed contractAddress
  rw [encodeResultEvent_eq] at hlen ⊢
  exact itemsOf_wire (carries_resultEventFields success gasUsed contractAddress) hlen

theorem okFields_map_ok (fs : List Field) :
    okFields (fs.map fun f => .ok (toProto f)) = fs.map toProto := by
  induction fs with
  | nil => rfl
  | cons f fs ih => exact congrArg (toProto f :: ·) ih

theorem any_isPanic_map_ok (fs : List Field) :
    (fs.map fun f => ProtoItem.ok (toProto f)).any isPanic = false := by
  rw [List.any_map, List.any_eq_false]
  intro f _
  exact Bool.false_ne_true

/-- The parts of a log, as the proxy stores them. -/
def logParts (log : Log) : LogParts :=
  ⟨log.address.bytes, log.topics.map FixedBytes.bytes, log.data.bytes⟩

/-- The topics loop: the fields arrive one by one, in order. -/
theorem foldl_logField_topics (topics : List B256) :
    ∀ acc : LogParts,
      ((topics.flatMap fun topic => bytesField 2 topic.bytes).map toProto).foldl logField acc
        = { acc with topics := acc.topics ++ topics.map FixedBytes.bytes } := by
  induction topics with
  | nil =>
      intro acc
      simp
  | cons topic topics ih =>
      intro acc
      rw [List.flatMap_cons, bytesField_fixed, List.map_append, List.foldl_append, ih]
      simp [toProto, logField]

/-- The fields of a log make up the log. -/
theorem foldl_logField (log : Log) :
    ((logFields log).map toProto).foldl logField ⟨[], [], []⟩ = logParts log := by
  unfold logFields
  rw [List.map_append, List.map_append, List.foldl_append, List.foldl_append,
    bytesField_fixed, List.map_singleton, List.foldl_cons, List.foldl_nil,
    foldl_logField_topics]
  unfold bytesField
  by_cases hdata : log.data.bytes.isEmpty = true
  · -- empty data is not written; the decoder starts from it
    rw [if_pos hdata]
    have hnil := List.isEmpty_iff.mp hdata
    simp [toProto, logField, logParts, log.address.len, hnil]
  · rw [if_neg hdata]
    simp [toProto, logField, logParts, log.address.len]

/-- The gas of a result is no status and no address. -/
theorem summaries_gas (gasUsed : UInt64) :
    failsIn ((varintField 2 gasUsed).map toProto) = false
      ∧ (gasIn ((varintField 2 gasUsed).map toProto)).getLast?.getD 0 = gasUsed
      ∧ addressIn ((varintField 2 gasUsed).map toProto) = [] := by
  unfold varintField
  by_cases hgas : gasUsed = 0
  · -- zero gas is not written; the decoder starts from it
    rw [if_pos hgas, hgas]
    exact ⟨rfl, rfl, rfl⟩
  · rw [if_neg hgas]
    exact ⟨rfl, rfl, rfl⟩

/-- An address is no status and no gas. -/
theorem summaries_address (addr : Address) :
    failsIn ((bytesField 3 addr.bytes).map toProto) = false
      ∧ gasIn ((bytesField 3 addr.bytes).map toProto) = []
      ∧ addressIn ((bytesField 3 addr.bytes).map toProto) = [addr.bytes] := by
  rw [bytesField_fixed]
  exact ⟨rfl, rfl, by simp [addressIn, toProto, addr.len]⟩

/-- The fields of a result, read by the decoder's summaries. -/
theorem summaries_resultEventFields (success : Bool) (gasUsed : UInt64)
    (contractAddress : Option Address) :
    failsIn ((resultEventFields success gasUsed contractAddress).map toProto) = !success ∧
      (gasIn ((resultEventFields success gasUsed contractAddress).map toProto)).getLast?.getD 0
        = gasUsed ∧
      (addressIn ((resultEventFields success gasUsed contractAddress).map
        toProto)).getLast? = contractAddress.map FixedBytes.bytes := by
  have hstatus : failsIn [toProto (1, .varint (if success then 1 else 0))] = !success
      ∧ gasIn [toProto (1, .varint (if success then 1 else 0))] = []
      ∧ addressIn [toProto (1, .varint (if success then 1 else 0))] = [] := by
    cases success with
    | true => exact ⟨rfl, rfl, rfl⟩
    | false => exact ⟨rfl, rfl, rfl⟩
  obtain ⟨hgasFails, hgas, hgasAddress⟩ := summaries_gas gasUsed
  unfold resultEventFields
  rw [List.map_append, List.map_cons, ← List.singleton_append]
  simp only [failsIn_append, gasIn_append, addressIn_append, hstatus, hgasFails, hgasAddress,
    Bool.or_false, List.nil_append]
  cases contractAddress with
  | none =>
      have hnil : gasIn ([].map toProto) = [] := rfl
      refine ⟨Bool.or_false _, ?_, rfl⟩
      rw [hnil, List.append_nil]
      exact hgas
  | some addr =>
      obtain ⟨haddrFails, haddrGas, haddr⟩ := summaries_address addr
      rw [haddrFails, haddrGas, haddr, Bool.or_false, List.append_nil]
      exact ⟨rfl, hgas, rfl⟩

-- ============================================================ the node

/-- The event a log becomes. -/
def logEvent (log : Log) : Emitted :=
  ⟨"evm.log", encodeLog log, log.address.bytes :: log.topics.map FixedBytes.bytes⟩

/-- The event a result becomes. -/
def resultEvent (success : Bool) (gasUsed : UInt64) (contractAddress : Option Address) :
    Emitted :=
  ⟨"evm.result", encodeResultEvent success gasUsed contractAddress, []⟩

/-- The node's JSON of an event: its name, and its data in base64 that
decodes back. An empty field may be left out. -/
structure Rendered (b64 : Base64) (e : Emitted) (ev : Value) : Prop where
  name : (ev.getStr "name").getD "" = e.name
  data : decodeB64Lax b64 ((ev.getStr "data").getD "") = some e.data

section Decode

variable (checks : Checks) {b64 : Base64}

theorem payloadOf_rendered {e : Emitted} {ev : Value} (h : Rendered b64 e ev)
    (name : String) :
    payloadOf b64 name ev = if e.name = name then some e.data else none := by
  unfold payloadOf
  rw [h.name, h.data]

/-- A rendered log adds its row and nothing else. -/
theorem absorb_log {log : Log} {ev : Value} (h : Rendered b64 (logEvent log) ev)
    (st : EventScan) :
    panics checks b64 ev = false ∧
      absorb checks b64 st [ev]
        = ⟨{ st.out with logs := st.out.logs ++ numbered st.logIndex [logParts log] },
            st.logIndex + 1⟩ := by
  have hres : payloadOf b64 "evm.result" ev = none := by
    rw [payloadOf_rendered h]
    rfl
  have hlog : payloadOf b64 "evm.log" ev = some (encodeLog log) := by
    rw [payloadOf_rendered h]
    rfl
  refine ⟨?_, ?_⟩
  · simp only [panics, eventItems, hres, hlog, Option.map_none, Option.map_some,
      Option.getD_none, Option.getD_some, okFields_encodeLog, any_isPanic_map_ok,
      List.any_nil, Bool.or_self]
  · simp [absorb, reportsFailure, gasReports, addressReports, resultFields, eventItems,
      hres, logOf, hlog, okFields_encodeLog, foldl_logField, okFields, failsIn, gasIn,
      addressIn]

/-- A rendered result sets the three fields and nothing else. -/
theorem absorb_result {success : Bool} {gasUsed : UInt64}
    {contractAddress : Option Address} {ev : Value}
    (h : Rendered b64 (resultEvent success gasUsed contractAddress) ev) (logs : List LogRow)
    (i : Nat) :
    panics checks b64 ev = false ∧
      absorb checks b64 ⟨⟨true, 0, none, logs⟩, i⟩ [ev]
        = ⟨⟨success, gasUsed, contractAddress.map FixedBytes.bytes, logs⟩, i⟩ := by
  have hres : payloadOf b64 "evm.result" ev
      = some (encodeResultEvent success gasUsed contractAddress) := by
    rw [payloadOf_rendered h]
    rfl
  have hlog : payloadOf b64 "evm.log" ev = none := by
    rw [payloadOf_rendered h]
    rfl
  obtain ⟨hfails, hgas, haddr⟩ := summaries_resultEventFields success gasUsed contractAddress
  refine ⟨?_, ?_⟩
  · simp only [panics, eventItems, hres, hlog, Option.map_none, Option.map_some,
      Option.getD_none, Option.getD_some, okFields_encodeResultEvent, any_isPanic_map_ok,
      List.any_nil, Bool.or_self]
  · simp [absorb, reportsFailure, gasReports, addressReports, resultFields, eventItems,
      hres, logOf, hlog, okFields_encodeResultEvent, okFields_map_ok, hfails, hgas, haddr,
      numbered]

/-- The rendered logs, one by one. -/
theorem absorb_logs :
    ∀ {logs : List Log} {evs : List Value},
      List.Forall₂ (Rendered b64) (logs.map logEvent) evs → ∀ st : EventScan,
      evs.any (panics checks b64) = false ∧
        absorb checks b64 st evs
          = ⟨{ st.out with
                logs := st.out.logs ++ numbered st.logIndex (logs.map logParts) },
              st.logIndex + logs.length⟩ := by
  intro logs
  induction logs with
  | nil =>
      intro evs h st
      cases h
      simp [absorb, numbered]
  | cons log logs ih =>
      intro evs h st
      cases h with
      | @cons _ ev _ evs hev hevs =>
          obtain ⟨hp, ha⟩ := absorb_log checks hev st
          obtain ⟨hps, has⟩ := ih hevs (absorb checks b64 st [ev])
          refine ⟨?_, ?_⟩
          · rw [List.any_cons, hp, hps]
            rfl
          · rw [← List.singleton_append, ← absorb_append, has, ha]
            simp only [numbered, List.map_cons, List.append_assoc, List.singleton_append,
              List.length_cons, EventScan.mk.injEq, true_and]
            omega

/-- The rendered events of a run, logs first, decode to what was
emitted. -/
theorem decodeReceiptEvents_rendered {logs : List Log} {success : Bool} {gasUsed : UInt64}
    {contractAddress : Option Address} {evs : List Value}
    (h : List.Forall₂ (Rendered b64)
      (logs.map logEvent ++ [resultEvent success gasUsed contractAddress]) evs) :
    decodeReceiptEvents checks b64 (some evs)
      = .ok ⟨success, gasUsed, contractAddress.map FixedBytes.bytes,
          numbered 0 (logs.map logParts)⟩ := by
  -- split the JSON where the logs end
  have htake := (List.forall₂_take_append _ _ _ h.flip).flip
  have hdrop := (List.forall₂_drop_append _ _ _ h.flip).flip
  rw [decodeReceiptEvents_eq, summary,
    ← List.take_append_drop (logs.map logEvent).length evs]
  generalize evs.take (logs.map logEvent).length = front at htake ⊢
  generalize evs.drop (logs.map logEvent).length = back at hdrop ⊢
  cases hdrop with
  | @cons _ ev _ _ hev hnil =>
      cases hnil
      obtain ⟨hp₁, ha₁⟩ := absorb_logs checks htake ⟨.initial, 0⟩
      obtain ⟨hp₂, ha₂⟩ := absorb_result checks hev
        (numbered 0 (logs.map logParts)) (0 + logs.length)
      rw [List.any_append, hp₁, List.any_cons, hp₂, ← absorb_append, ha₁]
      simp only [DecodedEvents.initial, List.nil_append]
      rw [ha₂]
      rfl

end Decode

-- ============================================================ the trip

/-- An event the host accepted is in the receipt. -/
theorem exec_event_ok {name : String} {data : Bytes} {impacted : List Bytes}
    {tr : List HostEv} (h : Exec (Sys.event name data impacted) tr (.ok ())) :
    eventsOf tr = [⟨name, data, impacted⟩] ∧ writesOf tr = [] := by
  obtain ⟨reply, ⟨hrc, rfl, -⟩ | ⟨-, ⟨msg, hx⟩, -⟩⟩ := exec_must h
  · refine ⟨?_, rfl⟩
    simp [eventsOf, eventOf, hrc]
  · cases hx

/-- `emit_logs`, log by log. -/
theorem exec_emitLogs_ok {logs : List Log} {tr : List HostEv}
    (h : Exec (emitLogs logs) tr (.ok ())) :
    eventsOf tr = logs.map logEvent ∧ writesOf tr = [] := by
  induction logs generalizing tr with
  | nil =>
      obtain ⟨rfl, -⟩ := exec_ret.mp h
      exact ⟨rfl, rfl⟩
  | cons log logs ih =>
      obtain ⟨_, tr₁, tr₂, h₁, h₂, rfl⟩ := exec_bind_ok.mp h
      obtain ⟨he₁, hw₁⟩ := exec_event_ok h₁
      obtain ⟨he₂, hw₂⟩ := ih h₂
      rw [eventsOf_append, writesOf_append, he₁, he₂, hw₁, hw₂]
      exact ⟨rfl, rfl⟩

theorem governed_emitLogs (logs : List Log) : Governed Smooth (emitLogs logs) :=
  governed_forM (fun _ => governed_event _ _ _) logs

/-- Where the host accepts every event, `emit_logs` and
`emit_evm_result_event` run to their end, and the receipt the proxy
decodes from the node's JSON holds exactly the success flag, the gas, the
contract address and the logs, numbered from 0 in order. -/
theorem engineEvents_roundTrip (checks : Checks) (b64 : Base64) (logs : List Log)
    (success : Bool) (gasUsed : UInt64) (contractAddress : Option Address)
    {tr : List HostEv} {o : Except Exit Unit}
    (h : Exec (do
      emitLogs logs
      emitEvmResultEvent success gasUsed contractAddress) tr o)
    (hhost : ∀ e ∈ tr, e.2.rc = 0) {evs : List Value}
    (hnode : List.Forall₂ (Rendered b64) (eventsOf tr) evs) :
    o = .ok () ∧
      decodeReceiptEvents checks b64 (some evs)
        = .ok ⟨success, gasUsed, contractAddress.map FixedBytes.bytes,
            numbered 0 (logs.map logParts)⟩ := by
  have hno : ∀ e ∈ tr, e.1 ≠ .getContractId := by
    refine exec_uses (P := (· ≠ .getContractId)) (Q := Aborts) h
      (uses_bind (uses_forM (fun log => ?_) logs) fun _ => ?_)
    · exact uses_event (fun _ => by simp) (by simp)
    · exact uses_event (fun _ => by simp) (by simp)
  have hsmooth : ∀ e ∈ tr, Smooth e :=
    fun e he => ⟨fun _ => hhost e he, fun hid => absurd hid (hno e he)⟩
  have hok : ∃ u, o = .ok u :=
    (governed_bind (governed_emitLogs logs) (fun _ => governed_event _ _ _) tr o h).mpr
      hsmooth
  obtain ⟨u, rfl⟩ := hok
  refine ⟨rfl, ?_⟩
  obtain ⟨_, tr₁, tr₂, h₁, h₂, rfl⟩ := exec_bind_ok.mp h
  rw [eventsOf_append, (exec_emitLogs_ok h₁).1, (exec_event_ok h₂).1] at hnode
  exact decodeReceiptEvents_rendered checks hnode

-- ========================================================= one receipt

/-- The value of a base64url digit. -/
def sextet (c : Char) : Option Nat :=
  if 'A' ≤ c ∧ c ≤ 'Z' then some (c.toNat - 'A'.toNat)
  else if 'a' ≤ c ∧ c ≤ 'z' then some (c.toNat - 'a'.toNat + 26)
  else if '0' ≤ c ∧ c ≤ '9' then some (c.toNat - '0'.toNat + 52)
  else if c = '-' then some 62
  else if c = '_' then some 63
  else none

/-- The URL-safe alphabet without padding, left-over bits zero. -/
def urlSafeNoPad : List Char → Option Bytes
  | [] => some []
  | a :: b :: c :: d :: rest => do
      let n := (← sextet a) * 2 ^ 18 + (← sextet b) * 2 ^ 12 + (← sextet c) * 2 ^ 6
        + (← sextet d)
      return UInt8.ofNat (n / 2 ^ 16) :: UInt8.ofNat (n / 2 ^ 8) :: UInt8.ofNat n
        :: (← urlSafeNoPad rest)
  | [a, b, c] => do
      let n := (← sextet a) * 2 ^ 12 + (← sextet b) * 2 ^ 6 + (← sextet c)
      if n % 4 = 0 then return [UInt8.ofNat (n / 2 ^ 10), UInt8.ofNat (n / 4)] else none
  | [a, b] => do
      let n := (← sextet a) * 2 ^ 6 + (← sextet b)
      if n % 16 = 0 then return [UInt8.ofNat (n / 16)] else none
  | [_] => none

/-- A base64 crate that only needs its URL-safe engine. -/
def urlSafeBase64 : Base64 := ⟨fun s => urlSafeNoPad s.toList, fun _ => none⟩

/-- A log with one topic. -/
def sampleLog : Log where
  address := ⟨List.replicate 20 0x11, rfl⟩
  topics := [⟨List.replicate 32 0x22, rfl⟩]
  topics_le := by decide
  data := ⟨[0x2a], by decide⟩

/-- The node's JSON of that log and a successful call. -/
def sampleEvents : List Value :=
  [.object [("name", .string "evm.log"), ("data", .string
      "ChQRERERERERERERERERERERERERERIgIiIiIiIiIiIiIiIiIiIiIiIiIiIiIiIiIiIiIiIiIiIaASo=")],
    .object [("name", .string "evm.result"), ("data", .string "CAEQiKQB")]]

/-- A host that accepts everything. -/
def acceptingHost : (call : Syscall) → Unit → Reply × Unit := fun _ _ => (⟨0, []⟩, ())

theorem sampleEvents_decoded :
    decodeReceiptEvents .on urlSafeBase64 (some sampleEvents)
      = .ok ⟨true, 21000, none,
          [⟨0, List.replicate 20 0x11, [List.replicate 32 0x22], [0x2a]⟩]⟩ := by
  have hexec := run_exec acceptingHost (do
    emitLogs [sampleLog]
    emitEvmResultEvent true 21000 none) ()
  refine (engineEvents_roundTrip .on urlSafeBase64 [sampleLog] true 21000 none hexec
    ?_ ?_).2
  · decide +kernel
  · refine .cons ⟨?_, ?_⟩ (.cons ⟨?_, ?_⟩ .nil)
    · decide +kernel
    · decide +kernel
    · decide +kernel
    · decide +kernel

end KoinosEvm.Proofs
