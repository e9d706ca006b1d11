/-
The proxy's raw-transaction decoder (rpc/src/eth_tx.rs).

It has its own RLP reader, lenient where the engine's is strict: any
header form, trailing bytes and spare items pass. Its `usize` is 64 bits,
and its sums are `checked_add`. Outside are `sha3` (`keccak`) and
`secp256k1` (`Secp256k1`, the three calls of `recover_sender` as one).
-/
import KoinosEvm.Basic
import KoinosEvm.Lib.BigEndian

namespace KoinosEvm.Proxy.EthTx

open Lib

/-- `DecodedTx`. -/
structure DecodedTx where
  txType : UInt8
  chainId : Option UInt64
  nonce : UInt64
  toAddr : Option Address
  value : B256
  data : Bytes
  gasLimit : UInt64
  /-- The committed price: legacy `gas_price` or `max_fee_per_gas`. -/
  gasPrice : B256
  fromAddr : Address
  r : B256
  s : B256
  v : UInt64
  deriving DecidableEq

/-- What `recover_sender` uses of `secp256k1`: `from_compact`,
`recover_ecdsa` and `serialize_uncompressed`. -/
structure Secp256k1 where
  recoverEcdsa : B256 → FixedBytes 64 → UInt8 → Except String (FixedBytes 65)

-- ======================================================= RLP primitives

/-- `checked_add` on a 64-bit `usize`. -/
def checkedAdd (a b : Nat) (msg : String) : Except String Nat :=
  if a + b < 2 ^ 64 then .ok (a + b) else .error msg

/-- The two long branches of `rlp_header`: `rest` is what follows the
first byte. -/
def longHeader (list : Bool) (lenOfLen : Nat) (rest : Bytes) (msg : String) :
    Except String (Bool × Nat × Nat) :=
  if rest.length < lenOfLen then .error msg
  else .ok (list, (shiftIn 64 (rest.take lenOfLen)).toNat, 1 + lenOfLen)

/-- `rlp_header`: is it a list, payload length, payload start. -/
def rlpHeader (buf : Bytes) : Except String (Bool × Nat × Nat) :=
  match buf with
  | [] => .error "RLP buf empty"
  | b :: rest =>
      if b ≤ 0x7f then .ok (false, 1, 0)
      else if b ≤ 0xb7 then .ok (false, (b - 0x80).toNat, 1)
      else if b ≤ 0xbf then
        longHeader false (b - 0xb7).toNat rest "RLP len-of-len truncated"
      else if b ≤ 0xf7 then .ok (true, (b - 0xc0).toNat, 1)
      else longHeader true (b - 0xf7).toNat rest "RLP list len-of-len truncated"

/-- The loop of `RlpReader::from_list`. An item spans at least one byte,
so a payload of `fuel` bytes is read to its end. -/
def itemsLoop (payload : Bytes) : Nat → Nat → List Bytes → Except String (List Bytes)
  | 0, _, items => .ok items
  | fuel + 1, pos, items =>
      if pos < payload.length then do
        let (_, itemPayloadLen, itemPayloadStart) ← rlpHeader (payload.drop pos)
        let totalLen ← checkedAdd itemPayloadStart itemPayloadLen "RLP item length overflow"
        let itemEnd ← checkedAdd pos totalLen "RLP item length overflow"
        if payload.length < itemEnd then .error "RLP item truncated"
        else itemsLoop payload fuel itemEnd (items ++ [(payload.take itemEnd).drop pos])
      else .ok items

/-- `RlpReader::from_list`. -/
def fromList (buf : Bytes) : Except String (List Bytes) := do
  let (list, payloadLen, payloadStart) ← rlpHeader buf
  if !list then .error "expected RLP list"
  else do
    let payloadEnd ← checkedAdd payloadStart payloadLen "RLP list length overflow"
    if buf.length < payloadEnd then .error "RLP list payload truncated"
    else
      let payload := (buf.take payloadEnd).drop payloadStart
      itemsLoop payload payload.length 0 []

/-- `RlpReader::item`. -/
def item (items : List Bytes) (idx : Nat) : Except String Bytes :=
  match items[idx]? with
  | some x => .ok x
  | none => .error s!"missing RLP item at index {idx}"

/-- `(0..n).map(|i| reader.item(i)).collect()`. -/
def firstItems (items : List Bytes) (n : Nat) : Except String (List Bytes) :=
  (List.range n).mapM (item items)

/-- `rlp_decode_bytes`. -/
def rlpDecodeBytes (buf : Bytes) : Except String Bytes := do
  let (list, payloadLen, payloadStart) ← rlpHeader buf
  if list then .error "expected bytes, got list"
  -- the byte is the value
  else if ∀ b ∈ buf.head?, b ≤ 0x7f then .ok (buf.take 1)
  else do
    let payloadEnd ← checkedAdd payloadStart payloadLen "RLP bytes length overflow"
    if buf.length < payloadEnd then .error "RLP bytes truncated"
    else .ok ((buf.take payloadEnd).drop payloadStart)

/-- `decode_u64`. -/
def decodeU64 (x : Bytes) : Except String UInt64 := do
  let bytes ← rlpDecodeBytes x
  if 8 < bytes.length then .error "integer > 8 bytes"
  else .ok (UInt64.ofBitVec (shiftIn 64 bytes))

/-- `decode_u256_be`. -/
def decodeU256Be (x : Bytes) : Except String B256 := do
  let b ← rlpDecodeBytes x
  if h : 32 < b.length then .error "value > 32 bytes"
  else .ok ⟨List.replicate (32 - b.length) 0 ++ b, by
    rw [List.length_append, List.length_replicate]
    omega⟩

/-- `decode_address`. -/
def decodeAddress (x : Bytes) : Except String (Option Address) := do
  let b ← rlpDecodeBytes x
  if b.isEmpty then .ok none
  else
    match FixedBytes.ofBytes? 20 b with
    | some a => .ok (some a)
    | none =>
        let len := b.length
        .error s!"expected 0 or 20 byte address, got {len}"

-- ================================================== RLP encode helpers

/-- `rlp_encode_u64`. -/
def rlpEncodeU64 (n : UInt64) : Bytes :=
  if n = 0 then [0x80]
  else
    match dropZeros (beBytes 8 n.toNat) with
    | [b] => if b ≤ 0x7f then [b] else [0x80 + 1, b]
    | bytes => (0x80 + UInt8.ofNat bytes.length) :: bytes

/-- `wrap_rlp_list`. -/
def wrapRlpList (items : List Bytes) : Bytes :=
  let payloadLen := (items.map List.length).sum
  if payloadLen ≤ 55 then (0xc0 + UInt8.ofNat payloadLen) :: items.flatten
  else
    let lb := dropZeros (beBytes 8 payloadLen)
    (0xf7 + UInt8.ofNat lb.length) :: (lb ++ items.flatten)

-- ======================================================== the decoders

variable (keccak : Bytes → B256) (secp : Secp256k1)

/-- `recover_sender`. -/
def recoverSender (msgHash r s : B256) (yParity : UInt8) : Except String Address := do
  let sigBytes : FixedBytes 64 := ⟨r.bytes ++ s.bytes, by simp [r.len, s.len]⟩
  -- `RecoveryId` has four values
  if 3 < yParity then
    let id := yParity.toNat
    .error s!"invalid recovery id: {id}"
  else do
    let serialized ← secp.recoverEcdsa msgHash sigBytes yParity
    let hash := keccak serialized.bytes.tail -- strip 0x04 prefix
    .ok ⟨hash.bytes.drop 12, by simp [hash.len]⟩

/-- `build_legacy_pre155_signing_hash`. -/
def buildLegacyPre155SigningHash (raw : Bytes) : Except String B256 := do
  let reader ← fromList raw
  let items ← firstItems reader 6
  return keccak (wrapRlpList items)

/-- `build_legacy_eip155_signing_hash`. -/
def buildLegacyEip155SigningHash (raw : Bytes) (chainId : UInt64) :
    Except String B256 := do
  let reader ← fromList raw
  let items ← firstItems reader 6
  return keccak (wrapRlpList (items ++ [rlpEncodeU64 chainId, [0x80], [0x80]]))

/-- What `v` says: chain id, if any, and parity. -/
def classifyV (v : UInt64) : Except String (Option UInt64 × UInt8) :=
  if v = 27 ∨ v = 28 then .ok (none, (v - 27).toUInt8)
  else if 35 ≤ v then .ok (some ((v - 35) / 2), ((v - 35) % 2).toUInt8)
  else
    let n := v.toNat
    .error s!"invalid v: {n}"

/-- `decode_legacy`. -/
def decodeLegacy (raw : Bytes) : Except String DecodedTx := do
  let reader ← fromList raw
  let nonce ← decodeU64 (← item reader 0)
  let gasPrice ← decodeU256Be (← item reader 1)
  let gasLimit ← decodeU64 (← item reader 2)
  let toAddr ← decodeAddress (← item reader 3)
  let value ← decodeU256Be (← item reader 4)
  let data ← rlpDecodeBytes (← item reader 5)
  let v ← decodeU64 (← item reader 6)
  let r ← decodeU256Be (← item reader 7)
  let s ← decodeU256Be (← item reader 8)
  let (chainId, yParity) ← classifyV v
  let signingHash ←
    match chainId with
    | some cid => buildLegacyEip155SigningHash keccak raw cid
    | none => buildLegacyPre155SigningHash keccak raw
  let fromAddr ← recoverSender keccak secp signingHash r s yParity
  return {
    txType := 0, chainId := chainId, nonce := nonce, toAddr := toAddr, value := value
    data := data, gasLimit := gasLimit, gasPrice := gasPrice, fromAddr := fromAddr
    r := r, s := s, v := v }

/-- `decode_eip1559`. -/
def decodeEip1559 (payload : Bytes) : Except String DecodedTx := do
  let reader ← fromList payload
  let chainId ← decodeU64 (← item reader 0)
  let nonce ← decodeU64 (← item reader 1)
  let _maxPriority ← rlpDecodeBytes (← item reader 2)
  let maxFee ← decodeU256Be (← item reader 3)
  let gasLimit ← decodeU64 (← item reader 4)
  let toAddr ← decodeAddress (← item reader 5)
  let value ← decodeU256Be (← item reader 6)
  let data ← rlpDecodeBytes (← item reader 7)
  -- item 8, the access list, is only part of the signing hash
  let yParity ← decodeU64 (← item reader 9)
  let r ← decodeU256Be (← item reader 10)
  let s ← decodeU256Be (← item reader 11)
  let items ← firstItems reader 9
  let signingHash := keccak (0x02 :: wrapRlpList items)
  let fromAddr ← recoverSender keccak secp signingHash r s yParity.toUInt8
  return {
    txType := 2, chainId := some chainId, nonce := nonce, toAddr := toAddr, value := value
    data := data, gasLimit := gasLimit, gasPrice := maxFee, fromAddr := fromAddr
    r := r, s := s, v := yParity.toUInt8.toUInt64 }

/-- `{:02x}`. -/
def hexByte (b : UInt8) : String :=
  String.ofList [Nat.digitChar (b.toNat / 16), Nat.digitChar (b.toNat % 16)]

/-- `decode_and_recover`. -/
def decodeAndRecover (raw : Bytes) : Except String DecodedTx :=
  match raw with
  | [] => .error "empty raw_tx"
  | first :: rest =>
      if 0xc0 ≤ first then decodeLegacy keccak secp raw
      else if first = 0x02 then decodeEip1559 keccak secp rest
      else
        let code := hexByte first
        .error s!"unsupported tx type: 0x{code}"

end KoinosEvm.Proxy.EthTx
