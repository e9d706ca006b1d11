/-
The address of a created contract (rpc/src/rpc.rs, `create_address`).

`receipt_to_json` reports it for a plain creation whose events name no
address. The bytes that are hashed are written here a third time, apart
from `rlp_encode_u64` and `wrap_rlp_list`.
-/
import KoinosEvm.Basic
import KoinosEvm.Lib.BigEndian

namespace KoinosEvm.Proxy

open Lib

/-- Its `nonce_bytes`. -/
def nonceBytes (nonce : UInt64) : Bytes :=
  if nonce = 0 then [0x80]
  else
    let nBytes := dropZeros (beBytes 8 nonce.toNat)
    if nBytes.length = 1 ∧ ∀ b ∈ nBytes.head?, b ≤ 0x7f then nBytes.take 1
    else (0x80 + UInt8.ofNat nBytes.length) :: nBytes

/-- Its `rlp`, the bytes that are hashed. -/
def createAddressRlp (sender : Address) (nonce : UInt64) : Bytes :=
  let senderItem := (0x80 + 20) :: sender.bytes
  let payloadLen := senderItem.length + (nonceBytes nonce).length
  (0xc0 + UInt8.ofNat payloadLen) :: (senderItem ++ nonceBytes nonce)

/-- `create_address`. -/
def createAddress (keccak : Bytes → B256) (sender : Address) (nonce : UInt64) : Address :=
  let hash := keccak (createAddressRlp sender nonce)
  ⟨hash.bytes.drop 12, by simp [hash.len]⟩

end KoinosEvm.Proxy
