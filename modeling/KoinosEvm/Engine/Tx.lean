/-
The engine's raw-transaction parser (engine/src/tx.rs).

Two things are outside. `alloy_rlp` is a parameter: the four operations
the parser calls, and `AlloyRlp.Canonical` for what it relies on, that
they read and write exactly canonical RLP headers. The crypto seam of the
source, `keccak256` and `recover_sender`, is a parameter too, in an
arbitrary monad: the syscall bodies run in the engine's host monad
(Engine/Crypto.lean), the statements about parsing use plain functions.
-/
import KoinosEvm.Basic
import KoinosEvm.Lib.Rlp

namespace KoinosEvm.Engine

-- =========================================================== alloy_rlp

/-- `alloy_rlp::PayloadView`. -/
inductive PayloadView where
  | string (payload : Bytes)
  | list (items : List Bytes)

/-- What the parser uses of `alloy_rlp`. The decoders return their value
and the rest of the buffer they advance; every error is mapped to one
parse error, so errors carry nothing. -/
structure AlloyRlp where
  /-- `Header::decode_raw`. -/
  decodeRaw : Bytes → Option (PayloadView × Bytes)
  /-- `Header::decode_bytes(buf, false)`. -/
  decodeBytes : Bytes → Option (Bytes × Bytes)
  /-- `Header { list, payload_length }.encode`. -/
  encodeHeader : Bool → Nat → Bytes
  /-- `<u64 as Encodable>::encode`. -/
  encodeU64 : UInt64 → Bytes

open Lib Lib.Rlp in
/-- `alloy_rlp` is strict, canonical RLP. -/
structure AlloyRlp.Canonical (rlp : AlloyRlp) : Prop where
  decodeBytes_iff : ∀ buf payload rest, rlp.decodeBytes buf = some (payload, rest)
    ↔ payload.length < maxLen ∧ buf = encodeString payload ++ rest
  decodeRaw_list_iff : ∀ buf items rest,
    rlp.decodeRaw buf = some (.list items, rest)
      ↔ (∀ x ∈ items, IsItem x) ∧ items.flatten.length < maxLen
        ∧ buf = encodeList items.flatten ++ rest
  decodeRaw_string_iff : ∀ buf payload rest,
    rlp.decodeRaw buf = some (.string payload, rest)
      ↔ payload.length < maxLen ∧ buf = encodeString payload ++ rest
  encodeHeader_list : ∀ len, len < maxLen → rlp.encodeHeader true len = header 0xc0 len
  encodeU64_eq : ∀ v, rlp.encodeU64 v = encodeString (toBe v.toNat)

-- ============================================================ the types

/-- `TxParseError`. -/
inductive TxParseError where
  | empty
  | rlpDecode
  | unsupportedType (first : UInt8)
  | wrongFieldCount
  | invalidSignature
  | invalidChainId
  | addressLength
  | scalarTooLarge
  | nonCanonicalInteger
  | trailingBytes
  | pre155Rejected
  | accessListUnsupported
  | invalidFeeOrdering
  | hashFailure
  | recoveryFailure
  deriving DecidableEq

/-- The derived `Debug` form, which `handle_submit_raw_tx` puts into its
message. -/
def TxParseError.debug : TxParseError → String
  | empty => "Empty"
  | rlpDecode => "RlpDecode"
  | unsupportedType first =>
      let code := first.toNat
      s!"UnsupportedType({code})"
  | wrongFieldCount => "WrongFieldCount"
  | invalidSignature => "InvalidSignature"
  | invalidChainId => "InvalidChainId"
  | addressLength => "AddressLength"
  | scalarTooLarge => "ScalarTooLarge"
  | nonCanonicalInteger => "NonCanonicalInteger"
  | trailingBytes => "TrailingBytes"
  | pre155Rejected => "Pre155Rejected"
  | accessListUnsupported => "AccessListUnsupported"
  | invalidFeeOrdering => "InvalidFeeOrdering"
  | hashFailure => "HashFailure"
  | recoveryFailure => "RecoveryFailure"

/-- `TxKindParsed`. -/
inductive TxKindParsed where
  | legacyPre155
  | eip155
  | eip1559
  deriving DecidableEq

/-- `ParsedTx`. -/
structure ParsedTx where
  kind : TxKindParsed
  chainId : Option UInt64
  nonce : UInt64
  gasLimit : UInt64
  maxFeePerGas : U128
  maxPriorityFeePerGas : U128
  toAddr : Option Address
  value : U256
  data : Bytes
  r : U256
  s : U256
  yParity : UInt8
  sender : Address
  deriving DecidableEq

/-- The crypto seam. -/
structure Crypto (m : Type → Type) where
  keccak256 : Bytes → ExceptT TxParseError m B256
  recoverSender : B256 → U256 → U256 → UInt8 → ExceptT TxParseError m Address

-- ========================================================== RLP helpers

variable (rlp : AlloyRlp)

/-- `check_canonical`. -/
def checkCanonical (bytes : Bytes) : Except TxParseError Unit :=
  if bytes.head? = some 0 then .error .nonCanonicalInteger else .ok ()

/-- `decode_bytes`. -/
def decodeBytes (item : Bytes) : Except TxParseError Bytes :=
  match rlp.decodeBytes item with
  | some (payload, _) => .ok payload
  | none => .error .rlpDecode

/-- What `decode_u64`, `decode_u128` and `decode_u256` share: a canonical
integer string of at most `width` bytes. -/
def decodeScalar (width : Nat) (item : Bytes) : Except TxParseError Bytes := do
  let bytes ← decodeBytes rlp item
  checkCanonical bytes
  if width < bytes.length then .error .scalarTooLarge else .ok bytes

/-- `decode_u64`. -/
def decodeU64 (item : Bytes) : Except TxParseError UInt64 := do
  let bytes ← decodeScalar rlp 8 item
  return UInt64.ofBitVec (Lib.shiftIn 64 bytes)

/-- `decode_u128`. -/
def decodeU128 (item : Bytes) : Except TxParseError U128 := do
  let bytes ← decodeScalar rlp 16 item
  return Lib.shiftIn 128 bytes

/-- `U256::from_be_slice`. -/
def u256FromBeSlice (bytes : Bytes) : U256 := BitVec.ofNat 256 (Lib.ofBe bytes)

/-- `decode_u256`. -/
def decodeU256 (item : Bytes) : Except TxParseError U256 := do
  let bytes ← decodeScalar rlp 32 item
  return u256FromBeSlice bytes

/-- `decode_to`. -/
def decodeTo (item : Bytes) : Except TxParseError (Option Address) := do
  let bytes ← decodeBytes rlp item
  if bytes.isEmpty then return none
  else
    match FixedBytes.ofBytes? 20 bytes with
    | some addr => return some addr
    | none => .error .addressLength

/-- `build_rlp_list`. -/
def buildRlpList (items : List Bytes) : Bytes :=
  rlp.encodeHeader true (items.map List.length).sum ++ items.flatten

/-- `build_rlp_list_with_tail`. -/
def buildRlpListWithTail (items : List Bytes) (tail : Bytes) : Bytes :=
  rlp.encodeHeader true ((items.map List.length).sum + tail.length)
    ++ items.flatten ++ tail

-- ================================================= signature validation

/-- `SECP256K1_N`. -/
def secp256k1N : U256 :=
  0xFFFFFFFFFFFFFFFFFFFFFFFFFFFFFFFEBAAEDCE6AF48A03BBFD25E8CD0364141#256

/-- `SECP256K1_N_HALF`. -/
def secp256k1NHalf : U256 :=
  0x7FFFFFFFFFFFFFFFFFFFFFFFFFFFFFFF5D576E7357A4501DDFE92F46681B20A0#256

/-- `validate_signature`. -/
def validateSignature (r s : U256) (yParity : UInt8) : Except TxParseError Unit :=
  if r = 0 ∨ s = 0 then .error .invalidSignature
  else if secp256k1N ≤ r ∨ secp256k1N ≤ s then .error .invalidSignature
  else if secp256k1NHalf < s then .error .invalidSignature -- EIP-2 low-s
  else if 1 < yParity then .error .invalidSignature
  else .ok ()

-- =========================================================== the parser

variable {m : Type → Type} [Monad m] (crypto : Crypto m)

/-- The opening of both parsers: one list, nothing behind it. -/
def decodeList (raw : Bytes) : Except TxParseError (List Bytes) :=
  match rlp.decodeRaw raw with
  | none => .error .rlpDecode
  | some (view, rest) =>
      if rest.isEmpty then
        match view with
        | .list items => .ok items
        | .string _ => .error .rlpDecode
      else .error .trailingBytes

/-- The classification of `v`: chain id and parity. -/
def classifyV (v : UInt64) : Except TxParseError (UInt64 × UInt8) :=
  if v = 27 ∨ v = 28 then .error .pre155Rejected
  else if 35 ≤ v then .ok ((v - 35) / 2, ((v - 35) % 2).toUInt8)
  else .error .invalidSignature

/-- `parse_legacy`. -/
def parseLegacy (raw : Bytes) : ExceptT TxParseError m ParsedTx := do
  let items ← decodeList rlp raw
  match items with
  | [i0, i1, i2, i3, i4, i5, i6, i7, i8] =>
      let nonce ← decodeU64 rlp i0
      let gasPrice ← decodeU128 rlp i1
      let gasLimit ← decodeU64 rlp i2
      let toAddr ← decodeTo rlp i3
      let value ← decodeU256 rlp i4
      let data ← decodeBytes rlp i5
      let vRaw ← decodeU64 rlp i6
      let r ← decodeU256 rlp i7
      let s ← decodeU256 rlp i8
      let (chainId, yParity) ← classifyV vRaw
      validateSignature r s yParity
      -- rlp(chain_id) || rlp(0) || rlp(0) behind the first six items
      let extra := rlp.encodeU64 chainId ++ rlp.encodeU64 0 ++ rlp.encodeU64 0
      let signingHash ←
        crypto.keccak256 (buildRlpListWithTail rlp [i0, i1, i2, i3, i4, i5] extra)
      let sender ← crypto.recoverSender signingHash r s yParity
      return {
        kind := .eip155, chainId := some chainId, nonce := nonce
        gasLimit := gasLimit, maxFeePerGas := gasPrice
        maxPriorityFeePerGas := gasPrice, toAddr := toAddr, value := value, data := data
        r := r, s := s, yParity := yParity, sender := sender }
  | _ => throw .wrongFieldCount

/-- The access-list slot: an RLP list without entries. -/
def checkAccessList (item : Bytes) : Except TxParseError Unit :=
  match rlp.decodeRaw item with
  | none => .error .rlpDecode
  | some (.list [], _) => .ok ()
  | some _ => .error .accessListUnsupported

/-- `parse_eip1559`. -/
def parseEip1559 (payload : Bytes) : ExceptT TxParseError m ParsedTx := do
  let items ← decodeList rlp payload
  match items with
  | [i0, i1, i2, i3, i4, i5, i6, i7, i8, i9, i10, i11] =>
      let chainId ← decodeU64 rlp i0
      let nonce ← decodeU64 rlp i1
      let maxPriority ← decodeU128 rlp i2
      let maxFee ← decodeU128 rlp i3
      if maxFee < maxPriority then throw .invalidFeeOrdering
      let gasLimit ← decodeU64 rlp i4
      let toAddr ← decodeTo rlp i5
      let value ← decodeU256 rlp i6
      let data ← decodeBytes rlp i7
      checkAccessList rlp i8
      let yParityRaw ← decodeU64 rlp i9
      let r ← decodeU256 rlp i10
      let s ← decodeU256 rlp i11
      if 1 < yParityRaw then throw .invalidSignature
      let yParity := yParityRaw.toUInt8
      validateSignature r s yParity
      let unsignedRlp := buildRlpList rlp [i0, i1, i2, i3, i4, i5, i6, i7, i8]
      let signingHash ← crypto.keccak256 (0x02 :: unsignedRlp)
      let sender ← crypto.recoverSender signingHash r s yParity
      return {
        kind := .eip1559, chainId := some chainId, nonce := nonce
        gasLimit := gasLimit, maxFeePerGas := maxFee
        maxPriorityFeePerGas := maxPriority, toAddr := toAddr, value := value, data := data
        r := r, s := s, yParity := yParity, sender := sender }
  | _ => throw .wrongFieldCount

/-- `parse_raw_tx`. -/
def parseRawTx (raw : Bytes) : ExceptT TxParseError m ParsedTx :=
  match raw with
  | [] => throw .empty
  | first :: rest =>
      if 0xc0 ≤ first then parseLegacy rlp crypto raw
      else if first = 0x02 then parseEip1559 rlp crypto rest
      else throw (.unsupportedType first)

end KoinosEvm.Engine
