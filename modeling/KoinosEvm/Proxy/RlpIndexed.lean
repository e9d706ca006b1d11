/-
The RLP reader of rpc/src/eth_tx.rs with every index, slice and sum
written out.

Proxy/EthTx.lean reads the same functions with what cannot fail left away.
Here they are as the machine runs them: a `usize` has 64 bits, a slice or
an index out of range and a sum out of width stop the thread, and the loop
of `from_list` runs on fuel.
-/
import KoinosEvm.Lib.Checked
import KoinosEvm.Proxy.EthTx

namespace KoinosEvm.Proxy.EthTx

open Lib

-- ============================================================== headers

/-- The rounds `i..` of `for i in 0..len_of_len { len = (len << 8) |
buf[1 + i] as usize; }`, of which `n` are left. -/
def lenLoopIn (buf : Bytes) : Nat → Nat → BitVec 64 → Except (Stop String) (BitVec 64)
  | 0, _, len => .ok len
  | n + 1, i, len => do
      let index ← orFault (addIn 64 1 i)
      let b ← orFault (indexOf buf index)
      lenLoopIn buf n (i + 1) ((len <<< 8) ||| b.toBitVec.setWidth 64)

/-- The two long branches of `rlp_header`. -/
def longHeaderIn (buf : Bytes) (list : Bool) (lenOfLen : Nat) (msg : String) :
    Except (Stop String) (Bool × Nat × Nat) := do
  let start ← orFault (addIn 64 1 lenOfLen)
  if buf.length < start then .error (.err msg)
  else do
    let len ← lenLoopIn buf lenOfLen 0 0
    let start ← orFault (addIn 64 1 lenOfLen)
    .ok (list, len.toNat, start)

/-- `rlp_header`. -/
def rlpHeaderIn (buf : Bytes) : Except (Stop String) (Bool × Nat × Nat) :=
  if buf.isEmpty then .error (.err "RLP buf empty")
  else do
    let b ← orFault (indexOf buf 0)
    if b ≤ 0x7f then .ok (false, 1, 0)
    else if b ≤ 0xb7 then do
      let len ← orFault (subIn b.toNat 0x80)
      .ok (false, len, 1)
    else if b ≤ 0xbf then do
      let lenOfLen ← orFault (subIn b.toNat 0xb7)
      longHeaderIn buf false lenOfLen "RLP len-of-len truncated"
    else if b ≤ 0xf7 then do
      let len ← orFault (subIn b.toNat 0xc0)
      .ok (true, len, 1)
    else do
      let lenOfLen ← orFault (subIn b.toNat 0xf7)
      longHeaderIn buf true lenOfLen "RLP list len-of-len truncated"

-- ================================================================ lists

/-- The loop of `RlpReader::from_list`. -/
def itemsLoopIn (payload : Bytes) :
    Nat → Nat → List Bytes → Except (Stop String) (List Bytes)
  | 0, _, _ => .error .running
  | fuel + 1, pos, items =>
      if pos < payload.length then do
        let rest ← orFault (sliceFrom payload pos)
        let (_, itemPayloadLen, itemPayloadStart) ← rlpHeaderIn rest
        let totalLen ←
          orErr (checkedAdd itemPayloadStart itemPayloadLen "RLP item length overflow")
        let itemEnd ← orErr (checkedAdd pos totalLen "RLP item length overflow")
        if payload.length < itemEnd then .error (.err "RLP item truncated")
        else do
          let item ← orFault (sliceOf payload pos itemEnd)
          itemsLoopIn payload fuel itemEnd (items ++ [item])
      else .ok items

/-- `RlpReader::from_list`. -/
def fromListIn (fuel : Nat) (buf : Bytes) : Except (Stop String) (List Bytes) := do
  let (list, payloadLen, payloadStart) ← rlpHeaderIn buf
  if !list then .error (.err "expected RLP list")
  else do
    let payloadEnd ← orErr (checkedAdd payloadStart payloadLen "RLP list length overflow")
    if buf.length < payloadEnd then .error (.err "RLP list payload truncated")
    else do
      let payload ← orFault (sliceOf buf payloadStart payloadEnd)
      itemsLoopIn payload fuel 0 []

-- =============================================================== fields

/-- `rlp_decode_bytes`. -/
def rlpDecodeBytesIn (buf : Bytes) : Except (Stop String) Bytes := do
  let (list, payloadLen, payloadStart) ← rlpHeaderIn buf
  if list then .error (.err "expected bytes, got list")
  else do
    let b ← orFault (indexOf buf 0)
    if b ≤ 0x7f then orFault (sliceOf buf 0 1)
    else do
      let payloadEnd ← orErr (checkedAdd payloadStart payloadLen "RLP bytes length overflow")
      if buf.length < payloadEnd then .error (.err "RLP bytes truncated")
      else orFault (sliceOf buf payloadStart payloadEnd)

/-- `decode_u64`: its shifts lose high bits, they do not overflow. -/
def decodeU64In (x : Bytes) : Except (Stop String) UInt64 := do
  let bytes ← rlpDecodeBytesIn x
  if 8 < bytes.length then .error (.err "integer > 8 bytes")
  else .ok (UInt64.ofBitVec (shiftIn 64 bytes))

/-- `decode_u256_be`. -/
def decodeU256BeIn (x : Bytes) : Except (Stop String) Bytes := do
  let b ← rlpDecodeBytesIn x
  if 32 < b.length then .error (.err "value > 32 bytes")
  else do
    let start ← orFault (subIn 32 b.length)
    orFault (copyFrom (List.replicate 32 0) start b)

/-- `decode_address`. -/
def decodeAddressIn (x : Bytes) : Except (Stop String) (Option Bytes) := do
  let b ← rlpDecodeBytesIn x
  if b.isEmpty then .ok none
  else if b.length = 20 then do
    let a ← orFault (copyFrom (List.replicate 20 0) 0 b)
    .ok (some a)
  else
    let len := b.length
    .error (.err s!"expected 0 or 20 byte address, got {len}")

end KoinosEvm.Proxy.EthTx
