/-
Base58 and base58check as the proxy writes and reads its addresses
(rpc/src/state.rs).

Both directions work in place on a byte vector, digit by digit. The
encoder divides the window `n[start..]` by 58 and lets it shrink by at
most one byte a round; the decoder multiplies by 58, the least
significant byte first, and grows by what the last carry leaves. An index
behind the end of a vector is a panic, and so are bytes that are not
UTF-8; both are outcomes here. SHA-256 is a parameter.
-/
import KoinosEvm.Basic
import KoinosEvm.Lib.BigEndian
import KoinosEvm.Lib.Unfold

namespace KoinosEvm.Proxy

/-- What the two loops could panic with. -/
inductive Base58Panic where
  | index
  | notUtf8
  deriving DecidableEq

/-- `invalid base58 character: {c:?}`, `base58check string too short`,
`base58check checksum mismatch`. -/
inductive Base58Error where
  | invalid (c : Char)
  | tooShort
  | checksum
  deriving DecidableEq

/-- The characters of `BS58_ALPHABET`. -/
def base58Chars : List Char :=
  "123456789ABCDEFGHJKLMNPQRSTUVWXYZabcdefghijkmnopqrstuvwxyz".toList

/-- `BS58_ALPHABET`, a byte string. -/
def BS58_ALPHABET : Bytes := base58Chars.map Char.toUInt8

-- ============================================================== encoding

/-- The inner loop of `bs58`: the window divided by 58 in place, and the
remainder it ends with. -/
def divBy58 : Nat → Bytes → Bytes × Nat
  | rem, [] => ([], rem)
  | rem, byte :: rest =>
      let cur := rem * 256 + byte.toNat
      let r := divBy58 (cur % 58) rest
      (UInt8.ofNat (cur / 58) :: r.1, r.2)

/-- One round of the outer loop on the window `n[start..]`: the digit it
pushes and the next window. -/
def bs58Round (window : Bytes) : Option (Nat × Bytes) :=
  match window with
  | [] => none
  | _ :: _ =>
      let (n, rem) := divBy58 0 window
      some (rem, if n.head? = some 0 then n.tail else n)

/-- What a round uses up: the number falls while it is not zero, and a
window of zeros shrinks. -/
def windowSize (window : Bytes) : Nat := Lib.ofBe window + window.length

/-- The remainders in the order they are pushed. -/
def bs58Digits (window : Bytes) : List Nat := Lib.collect bs58Round windowSize window

/-- `bs58`. -/
def bs58 (bytes : Bytes) : Except Base58Panic String :=
  let zeros := (bytes.takeWhile (· == 0)).length
  match (bs58Digits (bytes.drop zeros)).mapM (BS58_ALPHABET[·]?) with
  | none => .error .index
  | some out =>
      let out := out ++ List.replicate zeros '1'.toUInt8
      match String.fromUTF8? ⟨out.reverse.toArray⟩ with
      | none => .error .notUtf8
      | some s => .ok s

/-- `bs58_no_check`. -/
def bs58NoCheck (payload : Bytes) : Except Base58Panic String := bs58 payload

-- ============================================================== decoding

/-- `for byte in n.iter_mut().take(n_len)`: the used bytes times 58, the
least significant first, and the carry behind them. -/
def mulBy58 : Nat → Bytes → Bytes × Nat
  | carry, [] => ([], carry)
  | carry, byte :: rest =>
      let cur := byte.toNat * 58 + carry
      let r := mulBy58 (cur / 256) rest
      (UInt8.ofNat cur :: r.1, r.2)

/-- `while carry > 0`: a `u32` has four bytes. -/
def carryBytes : Nat → Nat → Bytes
  | 0, _ => []
  | rounds + 1, carry =>
      if carry = 0 then [] else UInt8.ofNat carry :: carryBytes rounds (carry / 256)

/-- `n[n_len] = ..; n_len += 1` in a vector of `cap` bytes, of which only
the used ones are kept here. -/
def pushByte (cap : Nat) (n : Bytes) (byte : UInt8) : Except Base58Panic Bytes :=
  if n.length < cap then .ok (n ++ [byte]) else .error .index

/-- One digit read. -/
def bs58Push (cap : Nat) (n : Bytes) (i : Nat) : Except Base58Panic Bytes :=
  let (low, carry) := mulBy58 i n
  (carryBytes 4 carry).foldlM (pushByte cap) low

/-- The loop over the characters. The cast `c as u8` keeps the low byte of
the code point. -/
def bs58DecodeLoop (cap : Nat) :
    List Char → Bytes → Except Base58Panic (Except Base58Error Bytes)
  | [], n => .ok (.ok n)
  | c :: rest, n =>
      match BS58_ALPHABET.idxOf? c.toUInt8 with
      | none => .ok (.error (.invalid c))
      | some i => do
          let n ← bs58Push cap n i
          bs58DecodeLoop cap rest n

/-- `bs58_decode`. -/
def bs58Decode (s : String) : Except Base58Panic (Except Base58Error Bytes) := do
  let zeros := (s.toList.takeWhile (· == '1')).length
  let n ← bs58DecodeLoop s.utf8ByteSize s.toList []
  return n.map fun n => List.replicate zeros 0 ++ n.reverse

-- =============================================================== checked

section Checked

variable (sha256 : Bytes → B256)

/-- `&Sha256::digest(Sha256::digest(data))[..4]`. -/
def checksum (data : Bytes) : Bytes := (sha256 (sha256 data).bytes).bytes.take 4

/-- `base58check_encode`. -/
def base58checkEncode (version : UInt8) (payload : Bytes) : Except Base58Panic String :=
  let buf := version :: payload
  bs58 (buf ++ checksum sha256 buf)

/-- What `base58check_decode` does with the decoded bytes. -/
def stripCheck (raw : Bytes) : Except Base58Error Bytes :=
  if raw.length < 5 then .error .tooShort
  else
    let payload := raw.take (raw.length - 4)
    let check := raw.drop (raw.length - 4)
    if checksum sha256 payload ≠ check then .error .checksum
    else .ok (payload.drop 1)

/-- `base58check_decode`. -/
def base58checkDecode (s : String) : Except Base58Panic (Except Base58Error Bytes) := do
  let raw ← bs58Decode s
  return raw.bind (stripCheck sha256)

end Checked

end KoinosEvm.Proxy
