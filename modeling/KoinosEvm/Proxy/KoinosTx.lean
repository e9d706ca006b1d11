/-
The Koinos transaction that relays a raw transaction (rpc/src/koinos_tx.rs,
and `build_submit_tx_json` of rpc/src/rpc.rs).

It is made twice: as hand-written protobuf, which is hashed and signed
(`buildRelayedTx`), and as the JSON object that is sent
(`buildSubmitTxJson`). SHA-256, the signature and the hex crate are parameters;
base64 and decimal are the text forms of the crates in use. A `Result` that no path
makes an error is the value itself.
-/
import KoinosEvm.Lib.ByteText
import KoinosEvm.Proxy.EngineProto
import KoinosEvm.Proxy.Hex
import KoinosEvm.Proxy.Json
import KoinosEvm.Proxy.Relay

namespace KoinosEvm.Proxy

open Lib

/-- The `sha2` and `secp256k1` crates: SHA-256, and
`sign_ecdsa_recoverable` with `serialize_compact`. -/
structure TxCrates where
  sha256 : Bytes → B256
  signRecoverable : B256 → B256 → UInt8 × FixedBytes 64

/-- Bytes written in an environment variable. -/
abbrev EnvBuf := Buf 32

/-- What the configuration has for relaying. An address is there as its
base58 string and in its full byte form, which ends in a checksum: shorter
ones `from_env` refuses. -/
structure OperatorConfig where
  koinosChainIdBytes : EnvBuf
  rcLimitMana : UInt64
  operatorAddrB58check : String
  operatorAddrFull : EnvBuf
  engineContractAddrB58check : String
  engineContractAddrFull : EnvBuf
  operatorKey : B256
  operator_checked : 5 ≤ operatorAddrFull.bytes.length
  engine_checked : 5 ≤ engineContractAddrFull.bytes.length

/-- `encode_b64`. -/
def encodeB64 (bytes : Bytes) : String := base64Encode bytes

namespace KoinosTx

-- ======================================================= protobuf encoder

/-- `encode_varint`, the loop of `write_varint` (engine_proto.rs) again. -/
def encodeVarint (n : UInt64) : Bytes := writeVarintLoop 10 n

/-- `write_uint64_field`. -/
def writeUint64Field (field : UInt32) (value : UInt64) : Bytes :=
  let tag := field <<< 3
  encodeVarint tag.toUInt64 ++ encodeVarint value

/-- `write_bytes_field`. -/
def writeBytesField (field : UInt32) (bytes : Bytes) : Bytes :=
  let tag := (field <<< 3) ||| 2
  encodeVarint tag.toUInt64 ++ encodeVarint (UInt64.ofNat bytes.length) ++ bytes

/-- `write_submessage_field`. -/
def writeSubmessageField (field : UInt32) (sub : Bytes) : Bytes := writeBytesField field sub

-- ============================================================== multihash

/-- `sha256_multihash`. -/
def sha256Multihash (crates : TxCrates) (data : Bytes) : FixedBytes 34 where
  bytes := 0x12 :: 0x20 :: (crates.sha256 data).bytes
  len := by simp [(crates.sha256 data).len]

/-- `multihash[2..34]`. -/
def digestOf (multihash : FixedBytes 34) : B256 where
  bytes := (multihash.bytes.drop 2).take 32
  len := by simp [multihash.len]

-- =============================================================== encoders

/-- `encode_call_contract_operation`. -/
def encodeCallContractOperation (contractId : Bytes) (entryPoint : UInt32) (args : Bytes) :
    Bytes :=
  writeBytesField 1 contractId
    ++ (if entryPoint ≠ 0 then writeUint64Field 2 entryPoint.toUInt64 else [])
    ++ (if !args.isEmpty then writeBytesField 3 args else [])

/-- `encode_operation_call_contract`. -/
def encodeOperationCallContract (callOpBytes : Bytes) : Bytes :=
  writeSubmessageField 2 callOpBytes

/-- `encode_nonce`. -/
def encodeNonce (n : UInt64) : Bytes := writeUint64Field 5 n

/-- `TransactionHeader`. -/
structure TransactionHeader where
  chainIdMultihash : Bytes
  rcLimit : UInt64
  nonceBytes : Bytes
  operationMerkleRootMultihash : Bytes
  payer : Bytes
  payee : Option Bytes

/-- `encode_transaction_header`. -/
def encodeTransactionHeader (h : TransactionHeader) : Bytes :=
  writeBytesField 1 h.chainIdMultihash
    ++ (if h.rcLimit ≠ 0 then writeUint64Field 2 h.rcLimit else [])
    ++ writeBytesField 3 h.nonceBytes
    ++ writeBytesField 4 h.operationMerkleRootMultihash
    ++ writeBytesField 5 h.payer
    ++ (match h.payee with
      | some payee => writeBytesField 6 payee
      | none => [])

/-- `encode_transaction`. -/
def encodeTransaction (txIdMultihash headerBytes operationBytes signatureBytes : Bytes) :
    Bytes :=
  writeBytesField 1 txIdMultihash
    ++ writeSubmessageField 2 headerBytes
    ++ writeSubmessageField 3 operationBytes
    ++ writeBytesField 4 signatureBytes

-- ================================================================ signing

/-- `sign_digest_compact`. -/
def signDigestCompact (crates : TxCrates) (secret digest : B256) : FixedBytes 65 :=
  let (recId, compact) := crates.signRecoverable secret digest
  ⟨(31 + recId) :: compact.bytes, by simp [compact.len]⟩

-- ================================================================ builder

/-- `RelayedTx`. -/
structure RelayedTx where
  transactionBytes : Bytes
  txIdMultihash : FixedBytes 34
  operationMerkleRoot : FixedBytes 34
  signature : FixedBytes 65
  operationBytes : Bytes

/-- `build_relayed_tx`. -/
def buildRelayedTx (crates : TxCrates) (chainIdMultihash : Bytes) (rcLimit : UInt64)
    (payer : Bytes) (nonce : UInt64) (engineContract : Bytes)
    (submitRawTxEntryPoint : UInt32) (rawEthTx : Bytes) (operatorSecret : B256) : RelayedTx :=
  let submitArgs := writeBytesField 1 rawEthTx
  let callOpBytes := encodeCallContractOperation engineContract submitRawTxEntryPoint submitArgs
  let opBytes := encodeOperationCallContract callOpBytes
  let opMerkleRoot := sha256Multihash crates opBytes
  let headerBytes := encodeTransactionHeader
    { chainIdMultihash := chainIdMultihash
      rcLimit := rcLimit
      nonceBytes := encodeNonce nonce
      operationMerkleRootMultihash := opMerkleRoot.bytes
      payer := payer
      payee := none }
  let txId := sha256Multihash crates headerBytes
  let sig := signDigestCompact crates operatorSecret (digestOf txId)
  { transactionBytes := encodeTransaction txId.bytes headerBytes opBytes sig.bytes
    txIdMultihash := txId
    operationMerkleRoot := opMerkleRoot
    signature := sig
    operationBytes := opBytes }

end KoinosTx

open KoinosTx

/-- `EP_SUBMIT_RAW_TX`. -/
def EP_SUBMIT_RAW_TX : UInt32 := 7

variable [HexCrate]

/-- `build_submit_tx_json`. -/
def buildSubmitTxJson (cfg : OperatorConfig) (relayed : RelayedTx) (nonce : UInt64)
    (rawEthTx : Bytes) (rcLimit : UInt64) : Value :=
  let submitArgs := buildSubmitRawTxArgs rawEthTx
  let nonceBytes := encodeNonce nonce
  let header := Value.object
    [("chain_id", .string (encodeB64 cfg.koinosChainIdBytes.bytes)),
     ("rc_limit", .string (decimalEncode rcLimit.toNat)),
     ("nonce", .string (encodeB64 nonceBytes)),
     ("operation_merkle_root", .string (encodeB64 relayed.operationMerkleRoot.bytes)),
     ("payer", .string cfg.operatorAddrB58check)]
  let callContract := Value.object
    [("contract_id", .string cfg.engineContractAddrB58check),
     ("entry_point", .number EP_SUBMIT_RAW_TX.toNat),
     ("args", .string (encodeB64 submitArgs))]
  let txIdHex := "0x" ++ hexEncode relayed.txIdMultihash.bytes
  .object
    [("id", .string txIdHex),
     ("header", header),
     ("operations", .array [.object [("call_contract", callContract)]]),
     ("signatures", .array [.string (encodeB64 relayed.signature.bytes)])]

/-- `build_relayed_tx` as `submit_reserved_tx` calls it. -/
def relayedTx (crates : TxCrates) (cfg : OperatorConfig) (rawTx : Bytes) (nonce : UInt64) :
    RelayedTx :=
  buildRelayedTx crates cfg.koinosChainIdBytes.bytes cfg.rcLimitMana
    cfg.operatorAddrFull.bytes nonce cfg.engineContractAddrFull.bytes EP_SUBMIT_RAW_TX rawTx
    cfg.operatorKey

/-- .. and the object that it sends. -/
def submittedTx (crates : TxCrates) (cfg : OperatorConfig) (rawTx : Bytes) (nonce : UInt64) :
    Value :=
  buildSubmitTxJson cfg (relayedTx crates cfg rawTx nonce) nonce rawTx cfg.rcLimitMana

/-- The relay with this operator: building never fails, and the Koinos id is
the digest. -/
def OperatorConfig.relay (cfg : OperatorConfig) (crates : TxCrates) (quietPeriodSecs : Nat) :
    RelayConfig where
  quietPeriodSecs := quietPeriodSecs
  build := fun rawTx nonce =>
    .ok (digestOf (relayedTx crates cfg rawTx nonce).txIdMultihash).bytes

end KoinosEvm.Proxy
