/-
Hexadecimal text (rpc/src/eth_codec.rs).

The `hex` crate is a parameter. Two things are known of it: it writes a byte
as two lower-case digits, and it reads back what it wrote. What it does with
any other text, and what it says of one that it refuses, is its own.
-/
import KoinosEvm.Basic

namespace KoinosEvm.Proxy

/-- The two digits of a byte. -/
def byteDigits (b : UInt8) : List Char :=
  [Nat.digitChar (b.toNat / 16), Nat.digitChar (b.toNat % 16)]

/-- The `hex` crate: `hex::encode`, and `hex::decode` with the text of its
error. -/
class HexCrate where
  hexEncode : Bytes → String
  hexDecode : String → Except String Bytes
  toList_hexEncode : ∀ bs, (hexEncode bs).toList = bs.flatMap byteDigits
  hexDecode_hexEncode : ∀ bs, hexDecode (hexEncode bs) = .ok bs

export HexCrate (hexEncode hexDecode toList_hexEncode hexDecode_hexEncode)

-- ================================================================ readers

/-- `s.strip_prefix(p)`. -/
def stripPrefix (p s : String) : Option String :=
  if p.toList.isPrefixOf s.toList then some (String.ofList (s.toList.drop p.toList.length))
  else none

/-- `s.len()`, in bytes. -/
def strLen (s : String) : Nat := (s.toList.map Char.utf8Size).sum

/-- `ok_or_else(|| anyhow!(..))`. -/
def orError {α : Type} (x : Option α) (msg : String) : Except String α :=
  match x with
  | some a => .ok a
  | none => .error msg

/-- `parse_data`. -/
def parseData [HexCrate] (s : String) : Except String Bytes := do
  let s ← orError (stripPrefix "0x" s) "expected 0x-prefixed data"
  if strLen s % 2 ≠ 0 then .error "hex data length must be even"
  else hexDecode s

end KoinosEvm.Proxy
