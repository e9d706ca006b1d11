/-
What is signed is what is submitted.

The node reads the JSON object by Koinos' conventions (`readTransaction`)
and serialises what it has read (`TxHeader.bytes`, `CallContract.bytes`) by
the rules of proto3 (Lib/Protobuf.lean). The proxy has hashed and signed
bytes that it wrote by hand. All three varint writers are the same function
(`writeVarint_eq`, `encodeVarint_eq`), so a field that is written is the
field of proto3, if it would not be left out; the proxy leaves out what
proto3 leaves out, but for an empty chain id. With any other chain id the
bytes are the same (`signed_is_submitted`).
-/
import KoinosEvm.Lib.Protobuf
import KoinosEvm.Proofs.EthTx
import KoinosEvm.Proofs.Hex
import KoinosEvm.Proofs.Wire
import KoinosEvm.Proxy.KoinosTx

namespace KoinosEvm.Proofs

open Lib Engine.Proto Proxy

-- =================================================== the node's transaction

/-- A `transaction_header` of the node. -/
structure TxHeader where
  chainId : Bytes
  rcLimit : Nat
  nonce : Bytes
  operationMerkleRoot : Bytes
  payer : Bytes
  payee : Bytes

/-- A `call_contract_operation`. -/
structure CallContract where
  contractId : Bytes
  entryPoint : Nat
  args : Bytes

/-- A `transaction`. -/
structure Transaction where
  id : String
  header : TxHeader
  operations : List CallContract
  signatures : List Bytes

/-- The header, serialised. -/
def TxHeader.bytes (h : TxHeader) : Bytes :=
  Protobuf.serialize
    [(1, .bytes h.chainId), (2, .uint h.rcLimit), (3, .bytes h.nonce),
     (4, .bytes h.operationMerkleRoot), (5, .bytes h.payer), (6, .bytes h.payee)]

/-- An operation that calls a contract, serialised. -/
def CallContract.bytes (c : CallContract) : Bytes :=
  Protobuf.serialize [(2, .message (Protobuf.serialize
    [(1, .bytes c.contractId), (2, .uint c.entryPoint), (3, .bytes c.args)]))]

section Read

variable (base58 : String → Option Bytes)

/-- A `bytes` field: base64, or empty where there is none. -/
def readBytes (v : Value) (key : String) : Option Bytes :=
  match v.get key with
  | none => some []
  | some field => field.asStr.bind base64Decode?

/-- An address: base58, or empty where there is none. -/
def readAddress (v : Value) (key : String) : Option Bytes :=
  match v.get key with
  | none => some []
  | some field => field.asStr.bind base58

/-- The header. -/
def readHeader (v : Value) : Option TxHeader := do
  some
    { chainId := ← readBytes v "chain_id"
      rcLimit := ← (v.getStr "rc_limit").bind decimalDecode?
      nonce := ← readBytes v "nonce"
      operationMerkleRoot := ← readBytes v "operation_merkle_root"
      payer := ← readAddress base58 v "payer"
      payee := ← readAddress base58 v "payee" }

/-- An operation. -/
def readOperation (v : Value) : Option CallContract := do
  let call ← v.get "call_contract"
  some
    { contractId := ← readAddress base58 call "contract_id"
      entryPoint := ← (call.get "entry_point").bind Value.asU64
      args := ← readBytes call "args" }

/-- The transaction that a JSON object describes. -/
def readTransaction (v : Value) : Option Transaction := do
  some
    { id := ← v.getStr "id"
      header := ← (v.get "header").bind (readHeader base58)
      operations := ← ((v.get "operations").bind Value.asArray).bind
        (List.mapM (readOperation base58))
      signatures := ← ((v.get "signatures").bind Value.asArray).bind
        (List.mapM fun s => s.asStr.bind base64Decode?) }

end Read

/-- The object describes a transaction whose header bytes are what was
hashed and signed, and whose one operation is what the header commits to and
calls the engine with the raw transaction. -/
def SubmittedAsSigned [HexCrate] (crates : TxCrates) (cfg : OperatorConfig)
    (base58 : String → Option Bytes) (rawTx : Bytes) (nonce : UInt64) : Prop :=
  ∃ tx op sig, readTransaction base58 (submittedTx crates cfg rawTx nonce) = some tx
    ∧ tx.operations = [op] ∧ tx.signatures = [sig]
    ∧ tx.id = "0x" ++ hexEncode (KoinosTx.sha256Multihash crates tx.header.bytes).bytes
    ∧ sig = (KoinosTx.signDigestCompact crates cfg.operatorKey
      (crates.sha256 tx.header.bytes)).bytes
    ∧ (KoinosTx.sha256Multihash crates op.bytes).bytes = tx.header.operationMerkleRoot
    ∧ Engine.Proto.fieldsOf op.args = [(1, .lengthDelimited rawTx)]

-- ============================================================ the writers

theorem le_toNat (n : UInt64) : 0x80 ≤ n ↔ 128 ≤ n.toNat := UInt64.le_iff_toNat_le

/-- The byte of a value that fits one. -/
theorem toUInt8_eq (n : UInt64) : n.toUInt8 = UInt8.ofNat n.toNat := by
  rw [← UInt8.toNat_inj, UInt64.toNat_toUInt8, UInt8.toNat_ofNat']

/-- A last byte. -/
theorem low7_eq {n : UInt64} (h : n.toNat < 128) : (n &&& 0x7F).toUInt8 = UInt8.ofNat n.toNat := by
  rw [← UInt8.toNat_inj, low7_toNat, UInt8.toNat_ofNat']
  omega

/-- A byte with more behind it. -/
theorem continued_eq (n : UInt64) :
    (n &&& 0x7F).toUInt8 ||| 0x80 = UInt8.ofNat (n.toNat % 128 + 128) := by
  have hlow : ((n &&& 0x7F).toUInt8).toNat < 128 := by
    rw [low7_toNat]
    exact Nat.mod_lt _ (Nat.succ_pos 127)
  rw [← UInt8.toNat_inj, continued_toNat _ hlow, low7_toNat, UInt8.toNat_ofNat']
  omega

/-- One loop, with a round to spare. -/
theorem writeVarintLoop_eq (fuel : Nat) (n : UInt64) (h : n.toNat < 2 ^ (7 * (fuel + 1))) :
    writeVarintLoop (fuel + 1) n = Protobuf.varint n.toNat := by
  induction fuel generalizing n with
  | zero =>
      have hsmall : n.toNat < 128 := by omega
      rw [writeVarintLoop, if_neg (by rw [le_toNat]; omega),
        Protobuf.varint_small hsmall, toUInt8_eq]
  | succ fuel ih =>
      rw [writeVarintLoop]
      rcases Nat.lt_or_ge n.toNat 128 with hlt | hge
      · rw [if_neg (by rw [le_toNat]; omega), Protobuf.varint_small hlt, toUInt8_eq]
      · have hshift : (n >>> 7).toNat < 2 ^ (7 * (fuel + 1)) := by
          rw [shr7_toNat]
          rw [Nat.mul_succ, pow_add] at h
          omega
        rw [if_pos ((le_toNat n).mpr hge), ih _ hshift,
          Protobuf.varint_large hge, continued_eq, shr7_toNat]

/-- The writers of engine_proto.rs and koinos_tx.rs. -/
theorem writeVarint_eq (n : UInt64) : writeVarintLoop 10 n = Protobuf.varint n.toNat :=
  writeVarintLoop_eq 9 n (lt_trans n.toNat_lt (by decide))

/-- The engine's loop, with a round to spare. -/
theorem encodeVarintLoop_eq (fuel : Nat) (n : UInt64) (h : n.toNat < 2 ^ (7 * (fuel + 1))) :
    encodeVarintLoop (fuel + 1) n = Protobuf.varint n.toNat := by
  induction fuel generalizing n with
  | zero =>
      have hsmall : n.toNat < 128 := by omega
      rw [encodeVarintLoop_last hsmall, Protobuf.varint_small hsmall, low7_eq hsmall]
  | succ fuel ih =>
      rcases Nat.lt_or_ge n.toNat 128 with hlt | hge
      · rw [encodeVarintLoop_last hlt, Protobuf.varint_small hlt, low7_eq hlt]
      · have hshift : (n >>> 7).toNat < 2 ^ (7 * (fuel + 1)) := by
          rw [shr7_toNat]
          rw [Nat.mul_succ, pow_add] at h
          omega
        rw [encodeVarintLoop_more hge, ih _ hshift, Protobuf.varint_large hge, continued_eq,
          shr7_toNat]

/-- The writer of the engine. -/
theorem encodeVarint_eq (n : UInt64) : encodeVarint n = Protobuf.varint n.toNat :=
  encodeVarintLoop_eq 9 n (lt_trans n.toNat_lt (by decide))

-- ============================================================== the fields

/-- A byte field of koinos_tx.rs, whatever it holds. -/
theorem writeBytesField_eq {number : UInt32} {bs : Bytes} (hbs : bs.length < 2 ^ 64)
    (htag : ((number <<< 3) ||| 2).toNat = number.toNat * 8 + 2) :
    KoinosTx.writeBytesField number bs = Protobuf.lengthDelimited number.toNat bs := by
  rw [KoinosTx.writeBytesField, KoinosTx.encodeVarint, KoinosTx.encodeVarint, writeVarint_eq,
    writeVarint_eq, UInt32.toNat_toUInt64, UInt64.toNat_ofNat', Nat.mod_eq_of_lt hbs]
  show Protobuf.varint ((number <<< 3) ||| 2).toNat ++ _ ++ _ = _
  rw [htag, Protobuf.lengthDelimited]

/-- A number of koinos_tx.rs, whatever it is. -/
theorem writeUint64Field_eq {number : UInt32} {n : UInt64}
    (htag : (number <<< 3).toNat = number.toNat * 8) :
    KoinosTx.writeUint64Field number n
      = Protobuf.varint (number.toNat * 8) ++ Protobuf.varint n.toNat := by
  rw [KoinosTx.writeUint64Field, KoinosTx.encodeVarint, KoinosTx.encodeVarint, writeVarint_eq,
    writeVarint_eq, UInt32.toNat_toUInt64]
  show Protobuf.varint (number <<< 3).toNat ++ _ = _
  rw [htag]

/-- The proxy's writer is the engine's. -/
theorem writeVarint_eq_encodeVarint (n : UInt64) : writeVarint n = encodeVarint n := by
  rw [writeVarint, writeVarint_eq, encodeVarint_eq]

/-- A byte field of engine_proto.rs is one field on the wire. -/
theorem writeBytesField_eq_wire (number : UInt32) (bs : Bytes)
    (htag : ((number <<< 3) ||| 2).toUInt64
      = (UInt64.ofNat number.toNat <<< 3) ||| wireLengthDelimited.toUInt64) :
    Proxy.writeBytesField number bs = wire (number.toNat, .lengthDelimited bs) := by
  rw [Proxy.writeBytesField, wire, encodeTag, writeVarint_eq_encodeVarint,
    writeVarint_eq_encodeVarint, htag]

/-- The argument of the engine, by either module, is one field on the wire. -/
theorem buildSubmitRawTxArgs_eq (rawTx : Bytes) :
    buildSubmitRawTxArgs rawTx = wire (1, .lengthDelimited rawTx) :=
  writeBytesField_eq_wire 1 rawTx rfl

theorem length_varint_le (n : UInt64) : (Protobuf.varint n.toNat).length ≤ 10 := by
  rw [← encodeVarint_eq]
  exact length_encodeVarint_le n

theorem length_writeBytesField_le (number : UInt32) (bs : Bytes) :
    (KoinosTx.writeBytesField number bs).length ≤ 20 + bs.length := by
  have htag := length_varint_le ((number <<< 3) ||| 2).toUInt64
  have hlen := length_varint_le (UInt64.ofNat bs.length)
  rw [KoinosTx.writeBytesField, KoinosTx.encodeVarint, KoinosTx.encodeVarint, writeVarint_eq,
    writeVarint_eq, List.length_append, List.length_append]
  omega

/-- Bytes that are written alike: some, and a number of them that can be
written. -/
def Written (bs : Bytes) : Prop := bs ≠ [] ∧ bs.length < 2 ^ 64

theorem bytesField_written (number : UInt32) {bs : Bytes} (hbs : Written bs)
    (htag : ((number <<< 3) ||| 2).toNat = number.toNat * 8 + 2) :
    KoinosTx.writeBytesField number bs = Protobuf.field number.toNat (.bytes bs) := by
  rw [writeBytesField_eq hbs.2 htag, Protobuf.field_bytes _ hbs.1]

theorem uint64Field_written (number : UInt32) (n : UInt64)
    (htag : (number <<< 3).toNat = number.toNat * 8) :
    (if n ≠ 0 then KoinosTx.writeUint64Field number n else [])
      = Protobuf.field number.toNat (.uint n.toNat) := by
  by_cases hn : n = 0
  · rw [if_neg (not_not.mpr hn), hn]
    rfl
  · rw [if_pos hn, writeUint64Field_eq htag, Protobuf.field_uint _ (mt eq_zero_of_toNat.mpr hn)]

-- ============================================================ the messages

/-- A header without a payee. -/
theorem encodeTransactionHeader_eq {h : KoinosTx.TransactionHeader}
    (hchain : Written h.chainIdMultihash) (hnonce : Written h.nonceBytes)
    (hroot : Written h.operationMerkleRootMultihash) (hpayer : Written h.payer)
    (hpayee : h.payee = none) :
    KoinosTx.encodeTransactionHeader h
      = TxHeader.bytes
          { chainId := h.chainIdMultihash, rcLimit := h.rcLimit.toNat, nonce := h.nonceBytes
            operationMerkleRoot := h.operationMerkleRootMultihash, payer := h.payer
            payee := [] } := by
  rw [KoinosTx.encodeTransactionHeader, hpayee, bytesField_written 1 hchain rfl,
    uint64Field_written 2 _ rfl, bytesField_written 3 hnonce rfl, bytesField_written 4 hroot rfl,
    bytesField_written 5 hpayer rfl, TxHeader.bytes]
  simp only [Protobuf.serialize_cons, Protobuf.serialize_nil, Protobuf.field_bytes_nil,
    List.append_assoc, List.append_nil]
  rfl

/-- With an empty chain id, the proxy's header has two bytes in front of the
node's. -/
theorem encodeTransactionHeader_nil {h : KoinosTx.TransactionHeader}
    (hchain : h.chainIdMultihash = []) (hnonce : Written h.nonceBytes)
    (hroot : Written h.operationMerkleRootMultihash) (hpayer : Written h.payer)
    (hpayee : h.payee = none) :
    KoinosTx.encodeTransactionHeader h
      = 0x0a :: 0x00 :: TxHeader.bytes
          { chainId := [], rcLimit := h.rcLimit.toNat, nonce := h.nonceBytes
            operationMerkleRoot := h.operationMerkleRootMultihash, payer := h.payer
            payee := [] } := by
  rw [KoinosTx.encodeTransactionHeader, hpayee, hchain, uint64Field_written 2 _ rfl,
    bytesField_written 3 hnonce rfl, bytesField_written 4 hroot rfl,
    bytesField_written 5 hpayer rfl, TxHeader.bytes]
  simp only [Protobuf.serialize_cons, Protobuf.serialize_nil, Protobuf.field_bytes_nil,
    List.append_assoc, List.append_nil, List.nil_append]
  rfl

theorem length_encodeCallContractOperation_le (contractId args : Bytes) (entryPoint : UInt32) :
    (KoinosTx.encodeCallContractOperation contractId entryPoint args).length
      ≤ contractId.length + args.length + 60 := by
  have hcontract := length_writeBytesField_le 1 contractId
  have hargs := length_writeBytesField_le 3 args
  have htag := length_varint_le ((2 : UInt32) <<< 3).toUInt64
  have hentry := length_varint_le entryPoint.toUInt64
  rw [KoinosTx.encodeCallContractOperation, KoinosTx.writeUint64Field, KoinosTx.encodeVarint,
    KoinosTx.encodeVarint, writeVarint_eq, writeVarint_eq, List.length_append, List.length_append]
  split <;> split <;> simp only [List.length_append, List.length_nil] <;> omega

/-- A call of a contract. -/
theorem encodeCallContractOperation_eq {contractId args : Bytes} {entryPoint : UInt32}
    (hcontract : Written contractId) (hargs : Written args) :
    KoinosTx.encodeCallContractOperation contractId entryPoint args
      = Protobuf.serialize
          [(1, .bytes contractId), (2, .uint entryPoint.toNat), (3, .bytes args)] := by
  have hsome : (!args.isEmpty) = true := by
    rw [Bool.not_eq_true', List.isEmpty_eq_false_iff]
    exact hargs.1
  have hentry : (if entryPoint ≠ 0 then KoinosTx.writeUint64Field 2 entryPoint.toUInt64 else [])
      = Protobuf.field 2 (.uint entryPoint.toNat) := by
    by_cases hzero : entryPoint = 0
    · rw [if_neg (not_not.mpr hzero), hzero]
      rfl
    · have hne : entryPoint.toNat ≠ 0 := fun h => hzero (UInt32.toNat_inj.mp h)
      rw [if_pos hzero, writeUint64Field_eq rfl, Protobuf.field_uint _ hne]
      rfl
  rw [KoinosTx.encodeCallContractOperation, if_pos hsome, bytesField_written 1 hcontract rfl,
    bytesField_written 3 hargs rfl, hentry]
  simp only [Protobuf.serialize_cons, Protobuf.serialize_nil, List.append_assoc, List.append_nil]
  rfl

/-- An operation. -/
theorem encodeOperation_eq {contractId args : Bytes} {entryPoint : UInt32}
    (hcontract : Written contractId) (hargs : Written args)
    (hlen : contractId.length + args.length + 60 < 2 ^ 64) :
    KoinosTx.encodeOperationCallContract
        (KoinosTx.encodeCallContractOperation contractId entryPoint args)
      = CallContract.bytes
          { contractId := contractId, entryPoint := entryPoint.toNat, args := args } := by
  have hfits := length_encodeCallContractOperation_le contractId args entryPoint
  rw [KoinosTx.encodeOperationCallContract, KoinosTx.writeSubmessageField,
    writeBytesField_eq (by omega) rfl, encodeCallContractOperation_eq hcontract hargs,
    CallContract.bytes, Protobuf.serialize_message]
  rfl

-- ============================================================== read back

section ReadBack

variable {crates : TxCrates} {cfg : OperatorConfig} {base58 : String → Option Bytes}

/-- What the node reads. -/
def describedTx [HexCrate] (crates : TxCrates) (cfg : OperatorConfig) (rawTx : Bytes)
    (nonce : UInt64) : Transaction :=
  let relayed := relayedTx crates cfg rawTx nonce
  { id := "0x" ++ hexEncode relayed.txIdMultihash.bytes
    header :=
      { chainId := cfg.koinosChainIdBytes.bytes, rcLimit := cfg.rcLimitMana.toNat
        nonce := KoinosTx.encodeNonce nonce
        operationMerkleRoot := relayed.operationMerkleRoot.bytes
        payer := cfg.operatorAddrFull.bytes, payee := [] }
    operations :=
      [{ contractId := cfg.engineContractAddrFull.bytes
         entryPoint := EP_SUBMIT_RAW_TX.toNat
         args := buildSubmitRawTxArgs rawTx }]
    signatures := [relayed.signature.bytes] }

theorem readTransaction_submittedTx [HexCrate] (rawTx : Bytes) (nonce : UInt64)
    (hpayer : base58 cfg.operatorAddrB58check = some cfg.operatorAddrFull.bytes)
    (hcontract : base58 cfg.engineContractAddrB58check = some cfg.engineContractAddrFull.bytes) :
    readTransaction base58 (submittedTx crates cfg rawTx nonce)
      = some (describedTx crates cfg rawTx nonce) := by
  simp [readTransaction, submittedTx, buildSubmitTxJson, describedTx, readHeader, readOperation,
    readBytes, readAddress, Value.get, Value.getStr, Value.asStr, Value.asArray, Value.asU64,
    List.lookup_cons, hpayer, hcontract, encodeB64, base64Decode?_encode, decimalDecode?_encode,
    EP_SUBMIT_RAW_TX]

-- what the header and the operation hold is written alike

theorem written_of_le {bs : Bytes} {n : Nat} (hsome : 0 < bs.length) (hle : bs.length ≤ n)
    (hn : n < 2 ^ 64) : Written bs :=
  ⟨List.length_pos_iff.mp hsome, lt_of_le_of_lt hle hn⟩

theorem written_envBuf {buf : EnvBuf} (hsome : 0 < buf.bytes.length) : Written buf.bytes :=
  written_of_le hsome buf.fits.le (by decide)

theorem written_multihash (mh : FixedBytes 34) : Written mh.bytes :=
  written_of_le (by rw [mh.len]; decide) mh.len.le (by decide)

theorem written_nonce (nonce : UInt64) : Written (KoinosTx.encodeNonce nonce) := by
  have htag := length_varint_le ((5 : UInt32) <<< 3).toUInt64
  have hvalue := length_varint_le nonce
  have hlen : (KoinosTx.encodeNonce nonce).length ≤ 20 := by
    rw [KoinosTx.encodeNonce, KoinosTx.writeUint64Field, KoinosTx.encodeVarint,
      KoinosTx.encodeVarint, writeVarint_eq, writeVarint_eq, List.length_append]
    omega
  exact written_of_le (Nat.succ_pos _) hlen (by decide)

theorem written_args (rawTx : NativeBuf) : Written (buildSubmitRawTxArgs rawTx.bytes) := by
  have hlen := length_wire_le (1, .lengthDelimited rawTx.bytes)
  rw [← buildSubmitRawTxArgs_eq] at hlen
  exact written_of_le (Nat.succ_pos _) (hlen.trans (Nat.add_le_add_left rawTx.fits.le 20))
    (by decide)

/-- The proxy's other writer of the arguments writes the same. -/
theorem submitArgs_eq (rawTx : NativeBuf) :
    KoinosTx.writeBytesField 1 rawTx.bytes = buildSubmitRawTxArgs rawTx.bytes := rfl

/-- The digest in a multihash. -/
theorem digestOf_sha256Multihash (data : Bytes) :
    KoinosTx.digestOf (KoinosTx.sha256Multihash crates data) = crates.sha256 data := by
  refine FixedBytes.ext ?_
  show ((crates.sha256 data).bytes).take 32 = _
  rw [List.take_of_length_le (crates.sha256 data).len.le]

/-- The operation that was hashed is the one described. -/
theorem described_operation (rawTx : NativeBuf) (nonce : UInt64) :
    (relayedTx crates cfg rawTx.bytes nonce).operationMerkleRoot
      = KoinosTx.sha256Multihash crates
          (CallContract.bytes
            { contractId := cfg.engineContractAddrFull.bytes
              entryPoint := EP_SUBMIT_RAW_TX.toNat
              args := buildSubmitRawTxArgs rawTx.bytes }) := by
  have hargs := length_writeBytesField_le 1 rawTx.bytes
  rw [submitArgs_eq] at hargs
  have hcontract := cfg.engineContractAddrFull.fits
  have hrawTx := rawTx.fits
  rw [← encodeOperation_eq (written_envBuf (by have := cfg.engine_checked; omega))
    (written_args rawTx) (by omega)]
  rfl

end ReadBack

-- ============================================================== the result

/-- What is signed is what is submitted, whatever chain id there is, as long
as there is one. -/
theorem signed_is_submitted [HexCrate] (crates : TxCrates) (cfg : OperatorConfig)
    (base58 : String → Option Bytes) (rawTx : NativeBuf) (nonce : UInt64)
    (hchain : cfg.koinosChainIdBytes.bytes ≠ [])
    (hpayer : base58 cfg.operatorAddrB58check = some cfg.operatorAddrFull.bytes)
    (hcontract : base58 cfg.engineContractAddrB58check = some cfg.engineContractAddrFull.bytes) :
    SubmittedAsSigned crates cfg base58 rawTx.bytes nonce := by
  have hheader := encodeTransactionHeader_eq
    (h := { chainIdMultihash := cfg.koinosChainIdBytes.bytes, rcLimit := cfg.rcLimitMana
            nonceBytes := KoinosTx.encodeNonce nonce
            operationMerkleRootMultihash :=
              (relayedTx crates cfg rawTx.bytes nonce).operationMerkleRoot.bytes
            payer := cfg.operatorAddrFull.bytes, payee := none })
    (written_envBuf (List.length_pos_iff.mpr hchain)) (written_nonce nonce) (written_multihash _)
    (written_envBuf (by have := cfg.operator_checked; omega)) rfl
  refine ⟨describedTx crates cfg rawTx.bytes nonce, _, _,
    readTransaction_submittedTx rawTx.bytes nonce hpayer hcontract, rfl, rfl, ?_, ?_, ?_, ?_⟩
  · -- the id
    show "0x" ++ _
      = "0x" ++ hexEncode (KoinosTx.sha256Multihash crates (TxHeader.bytes _)).bytes
    rw [describedTx, ← hheader]
    rfl
  · -- the signature
    show _ = (KoinosTx.signDigestCompact crates cfg.operatorKey
      (crates.sha256 (TxHeader.bytes _))).bytes
    rw [describedTx, ← hheader, ← digestOf_sha256Multihash]
    rfl
  · -- the merkle root
    exact congrArg FixedBytes.bytes (described_operation rawTx nonce).symm
  · -- the arguments
    show Engine.Proto.fieldsOf (buildSubmitRawTxArgs rawTx.bytes) = _
    have hwire : Engine.Proto.fieldsOf ([(1, .lengthDelimited rawTx.bytes)].flatMap wire)
        = [(1, .lengthDelimited rawTx.bytes)] := by
      refine fieldsOf_wire fun f hf => ?_
      rw [List.mem_singleton.mp hf]
      exact ⟨Nat.one_ne_zero, by decide, lt_trans rawTx.fits (by decide)⟩
    rwa [List.flatMap_singleton, ← buildSubmitRawTxArgs_eq] at hwire

-- ============================================================== a transfer

/-- The contract of the default configuration. -/
def sampleContractAddr : EnvBuf :=
  ⟨beBytes 25 0x00900f58e165bb70bacb3a2556a0a7f70e19798830f2514955, by rw [length_beBytes]; decide⟩

/-- The operator whose key is 1. -/
def sampleOperatorAddr : EnvBuf :=
  ⟨beBytes 25 0x00751e76e8199196d454941c45d1b3a323f1433bd6510d1634, by rw [length_beBytes]; decide⟩

/-- The chain id of the default configuration. -/
def sampleChainId : EnvBuf :=
  ⟨beBytes 34 0x122008295be6ebe576aa6b2652f3c9cb4f6f0822dbb67f651c5a70ac96dc4c811645,
    by rw [length_beBytes]; decide⟩

/-- The default configuration, on a chain. -/
def sampleOperator (chainId : EnvBuf) : OperatorConfig where
  koinosChainIdBytes := chainId
  rcLimitMana := 1000000000
  operatorAddrB58check := "1BgGZ9tcN4rm9KBzDn7KprQz87SZ26SAMH"
  operatorAddrFull := sampleOperatorAddr
  engineContractAddrB58check := "1E8igxyDU3hjbqvcoWXGFG2pRR5xLcAaoE"
  engineContractAddrFull := sampleContractAddr
  operatorKey := word 1
  operator_checked := by decide
  engine_checked := by decide

/-- Base58 on the two addresses. -/
def sampleBase58 (s : String) : Option Bytes :=
  if s = "1BgGZ9tcN4rm9KBzDn7KprQz87SZ26SAMH" then some sampleOperatorAddr.bytes
  else if s = "1E8igxyDU3hjbqvcoWXGFG2pRR5xLcAaoE" then some sampleContractAddr.bytes
  else none

/-- A signed transfer. -/
def sampleRawTx : NativeBuf :=
  ⟨beBytes 100
    0xf86280018252089411111111111111111111111111111111111111110180830148cea0e93452df983161572885d66e3496133be9eb8752254ba9ed2703cadd98b7fcbaa07c431cb342891e0fdc832c4d31a5585d4a5181a92b136034cedebbb047731cc6,
    by rw [length_beBytes]; decide⟩

/-- The transfer, to be relayed. -/
def sampleJob : RelayJob :=
  ⟨word 0xaeddd722f57c4b18cf85025c1239a716b28ae5625912531577a369102dd2856b, sampleRawTx.bytes⟩

/-- The same transfer from another account. -/
def otherJob : RelayJob :=
  ⟨word 0xe35646d7a7cce7dad06bd2f1cd5d3ff27deece68d2b8ee261dc5f0251f832a39,
    beBytes 100
      0xf86280018252089411111111111111111111111111111111111111110180830148cda0af433ca506f0760357013b58502ddb0cf8c86bb9cead860f0cf878f814b51730a0269c41c227a4ba43512fa50e4513d2d28104a1a2473723963e9bc652fbef7d87⟩

/-- Keccak on the transfer. -/
def sampleKeccak (data : Bytes) : B256 :=
  if data = sampleJob.rawTx then sampleJob.ethHash else word 0

/-- SHA-256 and the signatures on what is made of the transfer: the
operation, and the header on the chain, without a chain id, and without a
chain id as the node writes it. -/
def sampleCrates : TxCrates where
  sha256 := fun data =>
    if data = beBytes 136
        0x1285010a1900900f58e165bb70bacb3a2556a0a7f70e19798830f251495510071a660a64f86280018252089411111111111111111111111111111111111111110180830148cea0e93452df983161572885d66e3496133be9eb8752254ba9ed2703cadd98b7fcbaa07c431cb342891e0fdc832c4d31a5585d4a5181a92b136034cedebbb047731cc6
    then word 0x6e4313ef5fdc7a5e58b2139f8ee978b4ef375d5f97b2c6df8e0aa11ce151d9fc
    else if data = beBytes 109
        0x0a22122008295be6ebe576aa6b2652f3c9cb4f6f0822dbb67f651c5a70ac96dc4c811645108094ebdc031a022801222212206e4313ef5fdc7a5e58b2139f8ee978b4ef375d5f97b2c6df8e0aa11ce151d9fc2a1900751e76e8199196d454941c45d1b3a323f1433bd6510d1634
    then word 0x30f14a46a0540b5c2c4c35b665296c688f18d2df5567e288f6af73c6d1564496
    else if data = beBytes 75
        0x0a00108094ebdc031a022801222212206e4313ef5fdc7a5e58b2139f8ee978b4ef375d5f97b2c6df8e0aa11ce151d9fc2a1900751e76e8199196d454941c45d1b3a323f1433bd6510d1634
    then word 0xc4fb81f80b55addf1756bbd356e7f84a8f91be6166cd8304b8ff365144122914
    else if data = beBytes 73
        0x108094ebdc031a022801222212206e4313ef5fdc7a5e58b2139f8ee978b4ef375d5f97b2c6df8e0aa11ce151d9fc2a1900751e76e8199196d454941c45d1b3a323f1433bd6510d1634
    then word 0x56ba9a3bff38b80983a0b6cdaabf8c1b445abef6c864b366fe3482d6abc08fd4
    else word 0
  signRecoverable := fun _ digest =>
    if digest = word 0x30f14a46a0540b5c2c4c35b665296c688f18d2df5567e288f6af73c6d1564496
    then (1, ⟨beBytes 64 0xcc79959dbb030653707e87aef9b879cddde17050184e27216ae568fcd3b5c4c658210278b26db4769d530b76ebb5a83d64545d72873edd8bd1dc14de841cbf40, length_beBytes 64 _⟩)
    else if digest = word 0xc4fb81f80b55addf1756bbd356e7f84a8f91be6166cd8304b8ff365144122914
    then (1, ⟨beBytes 64 0xa99394b85b208629adc6f5783fa8f72f156e11cf428bca47218710f64b18bccc56ebf84d3375e918ef6e7515ae76f34b39f21f66c5fcecc85ac7fb9d962a05f8, length_beBytes 64 _⟩)
    else (0, FixedBytes.zero 64)

/-- The header of the transfer, on a chain. -/
def sampleHeader (chainId : Bytes) : KoinosTx.TransactionHeader where
  chainIdMultihash := chainId
  rcLimit := 1000000000
  nonceBytes := KoinosTx.encodeNonce 1
  operationMerkleRootMultihash :=
    0x12 :: 0x20 :: (word 0x6e4313ef5fdc7a5e58b2139f8ee978b4ef375d5f97b2c6df8e0aa11ce151d9fc).bytes
  payer := sampleOperatorAddr.bytes
  payee := none

/-- The operation is the one that is hashed above. -/
theorem sampleOperation_eq :
    KoinosTx.encodeOperationCallContract
        (KoinosTx.encodeCallContractOperation sampleContractAddr.bytes EP_SUBMIT_RAW_TX
          (KoinosTx.writeBytesField 1 sampleRawTx.bytes))
      = beBytes 136
        0x1285010a1900900f58e165bb70bacb3a2556a0a7f70e19798830f251495510071a660a64f86280018252089411111111111111111111111111111111111111110180830148cea0e93452df983161572885d66e3496133be9eb8752254ba9ed2703cadd98b7fcbaa07c431cb342891e0fdc832c4d31a5585d4a5181a92b136034cedebbb047731cc6 := by
  simp only [sampleContractAddr, sampleRawTx, beBytes_eq_onto]
  decide +kernel

/-- .. and so is the header .. -/
theorem sampleHeader_eq :
    KoinosTx.encodeTransactionHeader (sampleHeader sampleChainId.bytes)
      = beBytes 109
        0x0a22122008295be6ebe576aa6b2652f3c9cb4f6f0822dbb67f651c5a70ac96dc4c811645108094ebdc031a022801222212206e4313ef5fdc7a5e58b2139f8ee978b4ef375d5f97b2c6df8e0aa11ce151d9fc2a1900751e76e8199196d454941c45d1b3a323f1433bd6510d1634 := by
  simp only [sampleHeader, sampleChainId, sampleOperatorAddr, word, beBytes_eq_onto]
  decide +kernel

/-- .. and the one without a chain id. -/
theorem sampleHeader_nil_eq :
    KoinosTx.encodeTransactionHeader (sampleHeader [])
      = beBytes 75
        0x0a00108094ebdc031a022801222212206e4313ef5fdc7a5e58b2139f8ee978b4ef375d5f97b2c6df8e0aa11ce151d9fc2a1900751e76e8199196d454941c45d1b3a323f1433bd6510d1634 := by
  simp only [sampleHeader, sampleOperatorAddr, word, beBytes_eq_onto]
  decide +kernel

theorem sampleRoot_eq (chainId : EnvBuf) :
    (relayedTx sampleCrates (sampleOperator chainId) sampleRawTx.bytes 1).operationMerkleRoot.bytes
      = (sampleHeader chainId.bytes).operationMerkleRootMultihash := by
  have hhash : sampleCrates.sha256 (KoinosTx.encodeOperationCallContract
      (KoinosTx.encodeCallContractOperation sampleContractAddr.bytes EP_SUBMIT_RAW_TX
        (KoinosTx.writeBytesField 1 sampleRawTx.bytes)))
      = word 0x6e4313ef5fdc7a5e58b2139f8ee978b4ef375d5f97b2c6df8e0aa11ce151d9fc := by
    rw [sampleOperation_eq]
    simp only [sampleCrates, if_true]
  exact congrArg (fun digest : B256 => 0x12 :: 0x20 :: digest.bytes) hhash

theorem sampleTxId_eq (chainId : EnvBuf) :
    (relayedTx sampleCrates (sampleOperator chainId) sampleRawTx.bytes 1).txIdMultihash
      = KoinosTx.sha256Multihash sampleCrates
          (KoinosTx.encodeTransactionHeader (sampleHeader chainId.bytes)) := by
  show KoinosTx.sha256Multihash _ (KoinosTx.encodeTransactionHeader
    { sampleHeader chainId.bytes with
      operationMerkleRootMultihash := (relayedTx sampleCrates (sampleOperator chainId)
        sampleRawTx.bytes 1).operationMerkleRoot.bytes }) = _
  rw [sampleRoot_eq]

/-- The transfer, on the chain: the operation and the header are the ones
above. -/
theorem sampleRawTx_submitted :
    (relayedTx sampleCrates (sampleOperator sampleChainId) sampleRawTx.bytes 1).txIdMultihash.bytes
        = 0x12 :: 0x20
          :: (word 0x30f14a46a0540b5c2c4c35b665296c688f18d2df5567e288f6af73c6d1564496).bytes
      ∧ SubmittedAsSigned sampleCrates (sampleOperator sampleChainId) sampleBase58
          sampleRawTx.bytes 1 := by
  have hhash : sampleCrates.sha256
      (KoinosTx.encodeTransactionHeader (sampleHeader sampleChainId.bytes))
      = word 0x30f14a46a0540b5c2c4c35b665296c688f18d2df5567e288f6af73c6d1564496 := by
    rw [sampleHeader_eq]
    simp (disch := decide) only [sampleCrates, beBytes_ne, if_false, if_true]
  refine ⟨?_, signed_is_submitted sampleCrates (sampleOperator sampleChainId) sampleBase58
    sampleRawTx 1 (by decide) rfl rfl⟩
  rw [sampleTxId_eq]
  exact congrArg (fun digest : B256 => 0x12 :: 0x20 :: digest.bytes) hhash

/-- What the node reads of the header without a chain id. -/
theorem sampleHeader_nil_read :
    (KoinosTx.encodeTransactionHeader (sampleHeader [])).drop 2
      = beBytes 73
        0x108094ebdc031a022801222212206e4313ef5fdc7a5e58b2139f8ee978b4ef375d5f97b2c6df8e0aa11ce151d9fc2a1900751e76e8199196d454941c45d1b3a323f1433bd6510d1634 := by
  rw [sampleHeader_nil_eq]
  simp only [beBytes_eq_onto]
  decide +kernel

/-- The two have digests of their own. -/
theorem sampleCrates_nil :
    sampleCrates.sha256 (KoinosTx.encodeTransactionHeader (sampleHeader []))
      ≠ sampleCrates.sha256 ((KoinosTx.encodeTransactionHeader (sampleHeader [])).drop 2) := by
  rw [sampleHeader_nil_read, sampleHeader_nil_eq]
  simp (disch := decide) only [sampleCrates, beBytes_ne, if_false, if_true]
  decide

/-- Without a chain id, what is signed is not what is submitted. -/
theorem emptyChainId_unsigned :
    sampleBase58 (sampleOperator ⟨[], by decide⟩).operatorAddrB58check
        = some (sampleOperator ⟨[], by decide⟩).operatorAddrFull.bytes
      ∧ sampleBase58 (sampleOperator ⟨[], by decide⟩).engineContractAddrB58check
        = some (sampleOperator ⟨[], by decide⟩).engineContractAddrFull.bytes
      ∧ sampleRawTx.bytes ≠ []
      ∧ ¬ SubmittedAsSigned sampleCrates (sampleOperator ⟨[], by decide⟩) sampleBase58
          sampleRawTx.bytes 1 := by
  refine ⟨rfl, rfl, by decide +kernel, ?_⟩
  rintro ⟨tx, -, -, hread, -, -, hid, -⟩
  rw [readTransaction_submittedTx _ _ rfl rfl, Option.some_inj] at hread
  subst hread
  have hheader := encodeTransactionHeader_nil (h := sampleHeader []) rfl (written_nonce 1)
    (written_multihash ⟨(sampleHeader []).operationMerkleRootMultihash, by decide⟩)
    (written_envBuf (by decide)) rfl
  have hnode : (describedTx sampleCrates (sampleOperator ⟨[], by decide⟩) sampleRawTx.bytes
      1).header.bytes = (KoinosTx.encodeTransactionHeader (sampleHeader [])).drop 2 := by
    simp only [describedTx, sampleRoot_eq]
    rw [hheader]
    rfl
  have hhash := hexEncode_inj ((String.append_right_inj _).mp hid)
  rw [hnode] at hhash
  have hsame := (congrArg FixedBytes.bytes (sampleTxId_eq ⟨[], by decide⟩)).symm.trans hhash
  exact sampleCrates_nil (FixedBytes.ext (List.cons.inj (List.cons.inj hsame).2).2)

end KoinosEvm.Proofs
