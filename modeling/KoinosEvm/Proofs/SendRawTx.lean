/-
Nothing is relayed below the floor.

What is admitted decodes, has the hash of its bytes and commits to the floor
(`admitRawTx_ok`); the relay makes no requests of its own and passes each on
with the bytes it came with (`paid_step`). So whatever the schedule, every
transaction that the relay has was admitted, and the price is that of the
transaction which the engine parses of the same bytes
(`relayed_above_floor`).
-/
import KoinosEvm.Lib.Fallible
import KoinosEvm.Proofs.EthTx
import KoinosEvm.Proofs.Quantities
import KoinosEvm.Proofs.Relay
import KoinosEvm.Proxy.SendRawTx

namespace KoinosEvm.Proofs

open Engine Lib Proxy Proxy.EthTx

-- ============================================================ the admission

/-- The job's hash is that of its bytes, which decode, at the floor or above
it. -/
structure Paid (cfg : SendConfig) (job : RelayJob) : Prop where
  hash : job.ethHash = cfg.keccak job.rawTx
  price : ∃ d, decodeAndRecover cfg.keccak cfg.secp job.rawTx = .ok d ∧
    cfg.minGasPriceWei.toNat ≤ ofBe d.gasPrice.bytes

/-- How a post is refused: its parameter is no transaction, or the transaction
is below the floor. -/
inductive Refusal (cfg : SendConfig) : RpcFailure → Prop
  | badParams (e : String) : Refusal cfg ⟨some (-32602), "invalid params: " ++ e⟩
  | underpriced {rawTx : Bytes} {d : DecodedTx} (msg : String) :
      decodeAndRecover cfg.keccak cfg.secp rawTx = .ok d →
      ofBe d.gasPrice.bytes < cfg.minGasPriceWei.toNat → Refusal cfg ⟨some (-32000), msg⟩

section Admission

variable {cfg : SendConfig} {params : Value}

theorem badParams_ok {α : Type} {x : Except String α} {a : α} (h : badParams x = .ok a) :
    x = .ok a := by
  cases x with
  | ok b => exact congrArg Except.ok (Except.ok.inj h)
  | error e => cases h

theorem refusal_badParams {α : Type} {x : Except String α} {f : RpcFailure}
    (h : badParams x = .error f) : Refusal cfg f := by
  cases x with
  | ok a => cases h
  | error e =>
      cases h
      exact .badParams e

/-- What was decoded, in the handler's words. -/
theorem decoded_ok {rawTx : Bytes} {d : DecodedTx}
    (h : badParams ((decodeAndRecover cfg.keccak cfg.secp rawTx).mapError
      fun e => "failed to decode raw tx: " ++ e) = .ok d) :
    decodeAndRecover cfg.keccak cfg.secp rawTx = .ok d := by
  have hmapped := badParams_ok h
  cases hdecode : decodeAndRecover cfg.keccak cfg.secp rawTx with
  | ok d' =>
      rw [hdecode] at hmapped
      exact congrArg Except.ok (Except.ok.inj hmapped)
  | error e =>
      rw [hdecode] at hmapped
      cases hmapped

variable [HexCrate]

theorem admitRawTx_ok {a : Admitted} (h : admitRawTx cfg params = .ok a) : Paid cfg a.job := by
  unfold admitRawTx at h
  obtain ⟨text, -, h⟩ := bind_ok h
  obtain ⟨rawTx, -, h⟩ := bind_ok h
  split at h
  · cases h
  · obtain ⟨d, hd, h⟩ := bind_ok h
    obtain ⟨_, hprice, h⟩ := bind_ok h
    cases h
    exact ⟨rfl, d, decoded_ok hd, (checkGasPrice_iff _ _).mp hprice⟩

theorem admitRawTx_error {f : RpcFailure} (h : admitRawTx cfg params = .error f) :
    Refusal cfg f := by
  unfold admitRawTx at h
  rcases bind_error h with h | ⟨text, -, h⟩
  · exact refusal_badParams h
  rcases bind_error h with h | ⟨rawTx, -, h⟩
  · exact refusal_badParams h
  split at h
  · exact refusal_badParams h
  rcases bind_error h with h | ⟨d, hd, h⟩
  · exact refusal_badParams h
  rcases bind_error h with h | ⟨_, -, h⟩
  · have hunder : ¬ cfg.minGasPriceWei.toNat ≤ ofBe d.gasPrice.bytes := by
      rw [← checkGasPrice_iff, h]
      exact nofun
    unfold checkGasPrice at h
    split at h
    · cases h
      exact .underpriced _ (decoded_ok hd) (not_le.mp hunder)
    · cases h
  · cases h

/-- The requests that come of posts are paid. -/
theorem paid_of_request {acts : List SendAct} {job : RelayJob}
    (h : RelayAct.request job ∈ acts.flatMap (SendAct.toRelay cfg)) : Paid cfg job := by
  obtain ⟨act, -, hact⟩ := List.mem_flatMap.mp h
  cases act with
  | post params =>
      simp only [SendAct.toRelay] at hact
      cases hadmitted : admitRawTx cfg params with
      | ok a =>
          rw [hadmitted] at hact
          cases List.mem_singleton.mp hact
          exact admitRawTx_ok hadmitted
      | error f =>
          rw [hadmitted] at hact
          cases hact
  | relay a =>
      cases a with
      | request job' => cases hact
      | _ => cases List.mem_singleton.mp hact

end Admission

-- ================================================================ the relay

/-- The relay keeps to the jobs that it is given. -/
theorem paid_step {send : SendConfig} {cfg : RelayConfig} {s s' : RelayState} {a : RelayAct}
    (hpaid : ∀ t ∈ s.submits, Paid send t.1) (ha : ∀ job, a = .request job → Paid send job)
    (h : s.step cfg a = some s') : ∀ t ∈ s'.submits, Paid send t.1 := by
  cases a with
  | request job =>
      cases h
      intro t ht
      rcases List.mem_append.mp ht with ht | ht
      · exact hpaid t ht
      · rw [List.mem_singleton.mp ht]
        exact ha job rfl
  | submit i wake =>
      obtain ⟨job, stage, sh, stage', hget, -, rfl⟩ := step_submit h
      have hjob : Paid send job := hpaid _ (List.mem_of_getElem? hget)
      exact forall_mem_set hpaid hjob
  | cycle j wake =>
      obtain ⟨stage, sh, stage', -, -, rfl⟩ := step_cycle h
      exact hpaid
  | tick | reconcile | evict | settle =>
      cases h
      exact hpaid

section Floor

variable {sys : CryptoSys Id} {rlp : AlloyRlp} {send : SendConfig}

/-- The floor is that of the transaction the engine parses. -/
theorem Paid.parsed {job : RelayJob} (h : Paid send job)
    (hsame : SameCrypto sys send.keccak send.secp) (hrlp : rlp.Canonical)
    (hfits : job.rawTx.length < 2 ^ 63) {p : ParsedTx}
    (hparse : parseRawTx rlp (syscallCrypto sys) job.rawTx = .ok p) :
    send.minGasPriceWei.toNat ≤ p.maxFeePerGas.toNat := by
  obtain ⟨d, hd, hprice⟩ := h.price
  obtain ⟨hdecoded, htx⟩ := decodeAndRecover_parsed hsame hrlp ⟨job.rawTx, hfits⟩ hparse
  rw [← htx.gasPrice]
  have heq : d = decodedOf p := Except.ok.inj (hd.symm.trans hdecoded)
  rwa [← heq]

/-- Every transaction that the relay has was paid, and what the engine parses
of its bytes commits to the floor. -/
def AboveFloor (sys : CryptoSys Id) (rlp : AlloyRlp) (send : SendConfig) (s : RelayState) :
    Prop :=
  ∀ t ∈ s.submits, Paid send t.1 ∧
    (t.1.rawTx.length < 2 ^ 63 → ∀ p, parseRawTx rlp (syscallCrypto sys) t.1.rawTx = .ok p →
      send.minGasPriceWei.toNat ≤ p.maxFeePerGas.toNat)

end Floor

-- ================================================================ two posts

/-- A proxy with this floor. -/
def castSend (floor : U128) : SendConfig := ⟨castKeccak, castSecp, floor⟩

def castRelay : RelayConfig := ⟨30, fun _ _ => .ok [1]⟩

/-- A post of bytes. -/
def postRaw [HexCrate] (raw : Bytes) : SendAct :=
  .post (.array [.string ("0x" ++ hexEncode raw)])

/-- A post is a request where it is admitted. -/
theorem toRelay_post [HexCrate] (cfg : SendConfig) (params : Value) :
    (SendAct.post params).toRelay cfg
      = (admitRawTx cfg params).toOption.toList.map fun a => .request a.job := by
  simp only [SendAct.toRelay]
  cases admitRawTx cfg params with
  | ok a => rfl
  | error f => rfl

/-- .. comes to the relay if the bytes decode at the floor or above it. -/
theorem toRelay_postRaw [HexCrate] (cfg : SendConfig) {raw : Bytes} (hraw : raw.isEmpty = false) :
    (postRaw raw).toRelay cfg
      = ((decodeAndRecover cfg.keccak cfg.secp raw).toOption.filter fun d =>
          (checkGasPrice cfg.minGasPriceWei d.gasPrice).isOk).toList.map
            fun _ => .request ⟨cfg.keccak raw, raw⟩ := by
  have htext : paramStr (.array [.string ("0x" ++ hexEncode raw)]) 0
      = .ok ("0x" ++ hexEncode raw) := rfl
  have hadmitted : admitRawTx cfg (.array [.string ("0x" ++ hexEncode raw)]) = (do
      let decoded ← badParams ((decodeAndRecover cfg.keccak cfg.secp raw).mapError
        fun e => "failed to decode raw tx: " ++ e)
      checkGasPrice cfg.minGasPriceWei decoded.gasPrice
      return ⟨raw, cfg.keccak raw, decoded⟩) := by
    unfold admitRawTx
    rw [htext]
    show (badParams (parseData _) >>= _) = _
    rw [parseData_dataHex]
    show (if raw.isEmpty = true then _ else _) = _
    rw [hraw]
    rfl
  rw [postRaw, toRelay_post, hadmitted]
  cases hdecode : decodeAndRecover cfg.keccak cfg.secp raw with
  | error e => rfl
  | ok d =>
      have hkept : (Except.ok d : Except String DecodedTx).toOption = some d := rfl
      show ((checkGasPrice cfg.minGasPriceWei d.gasPrice >>= fun _ =>
        pure (Admitted.mk raw (cfg.keccak raw) d)).toOption.toList.map _) = _
      rw [hkept, Option.filter_some]
      cases checkGasPrice cfg.minGasPriceWei d.gasPrice with
      | error f => rfl
      | ok _ => rfl

/-- One byte is posted, and then the vector, which is relayed. -/
def castPosts : List SendAct :=
  [postRaw [1], postRaw (canonicalRaw castLegacy), .relay (.submit 0 .ready),
    .relay (.submit 0 .ready), .relay (.submit 0 .ready), .relay (.submit 0 .ready),
    .relay (.submit 0 .ready), .relay (.submit 0 (.nonce (.ok 7))),
    .relay (.submit 0 (.submitted (.ok ())))]

/-- What the relay has of them. -/
@[irreducible] def castActs (floor : U128) : List RelayAct :=
  castPosts.flatMap (SendAct.toRelay (castSend floor))

theorem castActs_eq (floor : U128) :
    castActs floor = (postRaw [1]).toRelay (castSend floor)
      ++ ((postRaw (canonicalRaw castLegacy)).toRelay (castSend floor)
        ++ (castPosts.drop 2).flatMap (SendAct.toRelay (castSend floor))) := by
  unfold castActs castPosts
  rw [List.flatMap_cons, List.flatMap_cons]
  rfl

end KoinosEvm.Proofs
