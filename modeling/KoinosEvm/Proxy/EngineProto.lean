/-
The proxy's own protobuf reader and writer (rpc/src/engine_proto.rs):
varints, `ProtoIter`, and the decoders of the two engine replies.

# Errors and panics

`ProtoIter::next` reports a malformed field as an `Err` item and keeps
its position, so a caller that flattens the errors away goes on reading
from the middle of the broken field. One expression can do worse: the
addition `self.pos + len` is on `usize` with an attacker-chosen 64-bit
`len`. A build with overflow checks panics there; one without wraps, and
the wrapped end then panics in the slice. Both are modelled: `Checks`
says which build it is, and a panic is an item of its own, after which
there is nothing left to iterate.
-/
import KoinosEvm.Basic
import KoinosEvm.Lib.Unfold

namespace KoinosEvm.Proxy

/-- Whether the build checks integer overflow (`overflow-checks`, on in
debug and off in release profiles). -/
inductive Checks where
  | on
  | off
  deriving DecidableEq

/-- The two panics the reader can raise. -/
inductive Panic where
  | addOverflow
  | sliceOrder
  deriving DecidableEq

-- ============================================================= varints

/-- The loop of `read_varint`; the last component counts the bytes the
position has moved over. -/
def readVarintLoop : Bytes → UInt64 → Nat → Nat → Except String UInt64 × Nat
  | [], _, _, moved => (.error "varint truncated", moved)
  | b :: rest, val, shift, moved =>
      let val := val ||| ((b &&& 0x7f).toUInt64 <<< UInt64.ofNat shift)
      if b &&& 0x80 = 0 then (.ok val, moved + 1)
      else if 64 ≤ shift + 7 then (.error "varint too long", moved + 1)
      else readVarintLoop rest val (shift + 7) (moved + 1)

/-- `read_varint`: the value or the error, and the position after it. -/
def readVarint (buf : Bytes) (pos : Nat) : Except String UInt64 × Nat :=
  let (r, moved) := readVarintLoop (buf.drop pos) 0 0 0
  (r, pos + moved)

/-- The loop of `write_varint`. -/
def writeVarintLoop : Nat → UInt64 → Bytes
  | 0, _ => []
  | fuel + 1, n =>
      if 0x80 ≤ n then
        ((n &&& 0x7f).toUInt8 ||| 0x80) :: writeVarintLoop fuel (n >>> 7)
      else [n.toUInt8]

/-- `write_varint`, as the bytes it appends. -/
def writeVarint (n : UInt64) : Bytes := writeVarintLoop 10 n

/-- `write_bytes_field`. The tag is built in `u32`. -/
def writeBytesField (field : UInt32) (bytes : Bytes) : Bytes :=
  let tag := (field <<< 3) ||| 2
  writeVarint tag.toUInt64 ++ writeVarint (UInt64.ofNat bytes.length) ++ bytes

/-- `CallViewArgs`. -/
structure CallViewArgs where
  caller : Option Address
  toAddr : Option Address
  value : Option B256
  data : NativeBuf
  gasLimit : UInt64

/-- `build_call_view_args`. -/
def buildCallViewArgs (args : CallViewArgs) : Bytes :=
  (match args.caller with
    | some c => writeBytesField 1 c.bytes
    | none => [])
    ++ (match args.toAddr with
      | some t => writeBytesField 2 t.bytes
      | none => [])
    ++ (match args.value with
      | some v => writeBytesField 3 v.bytes
      | none => [])
    ++ (if args.data.bytes.isEmpty then [] else writeBytesField 4 args.data.bytes)
    ++ (if 0 < args.gasLimit then
      let tag : UInt32 := (5 : UInt32) <<< 3
      writeVarint tag.toUInt64 ++ writeVarint args.gasLimit
    else [])

/-- `build_submit_raw_tx_args`. -/
def buildSubmitRawTxArgs (rawTx : Bytes) : Bytes := writeBytesField 1 rawTx

-- ============================================================ ProtoIter

/-- `ProtoField`. -/
structure ProtoField where
  field : Nat
  wtype : Nat
  payload : Bytes
  varint : UInt64
  deriving DecidableEq

/-- One call of `next`: a field, an error, or a panic of the thread. -/
inductive ProtoItem where
  | ok (f : ProtoField)
  | err (msg : String)
  | panic (p : Panic)
  deriving DecidableEq

/-- `ProtoIter`. -/
structure ProtoIter where
  buf : Bytes
  pos : Nat

/-- `ProtoIter::new`. -/
def ProtoIter.new (buf : Bytes) : ProtoIter := ⟨buf, 0⟩

/-- The length-delimited arm of `next`, behind the length varint. -/
def ProtoIter.take (checks : Checks) (buf : Bytes) (pos : Nat) (field len : Nat) :
    ProtoItem × ProtoIter :=
  if checks = .on ∧ 2 ^ 64 ≤ pos + len then
    (.panic .addOverflow, ⟨buf, buf.length⟩)
  else
    let stop := (pos + len) % 2 ^ 64
    if buf.length < stop then
      (.err "length-delimited field overflows buf", ⟨buf, pos⟩)
    else if stop < pos then
      (.panic .sliceOrder, ⟨buf, buf.length⟩)
    else
      (.ok ⟨field, 2, (buf.drop pos).take (stop - pos), 0⟩, ⟨buf, stop⟩)

/-- `ProtoIter::next`. -/
def ProtoIter.next (checks : Checks) (it : ProtoIter) :
    Option (ProtoItem × ProtoIter) :=
  if it.buf.length ≤ it.pos then none
  else
    match readVarint it.buf it.pos with
    | (.error e, pos) => some (.err e, ⟨it.buf, pos⟩)
    | (.ok tag, pos) =>
        -- `(tag >> 3) as u32`
        let field := (tag >>> 3).toNat % 2 ^ 32
        let wtype := (tag &&& 7).toNat
        if wtype = 0 then
          match readVarint it.buf pos with
          | (.ok v, pos) => some (.ok ⟨field, wtype, [], v⟩, ⟨it.buf, pos⟩)
          | (.error e, pos) => some (.err e, ⟨it.buf, pos⟩)
        else if wtype = 2 then
          match readVarint it.buf pos with
          | (.error e, pos) => some (.err e, ⟨it.buf, pos⟩)
          | (.ok len, pos) =>
              some (ProtoIter.take checks it.buf pos field len.toNat)
        else some (.err s!"unsupported wire type {wtype}", ⟨it.buf, pos⟩)

/-- Bytes the iterator has not looked at. -/
def ProtoIter.left (it : ProtoIter) : Nat := it.buf.length - it.pos

/-- Everything the iterator yields, errors included. -/
def ProtoIter.items (checks : Checks) (it : ProtoIter) : List ProtoItem :=
  Lib.collect (ProtoIter.next checks) ProtoIter.left it

/-- The items of a message from its start. -/
def itemsOf (checks : Checks) (buf : Bytes) : List ProtoItem :=
  (ProtoIter.new buf).items checks

-- ================================================= consuming the items

/-- `for f in iter.flatten() { .. }`: errors are dropped, a panic ends
the loop with the thread. -/
def forFlatten {β : Type} (body : β → ProtoField → β) :
    β → List ProtoItem → Except Panic β
  | acc, [] => .ok acc
  | acc, .ok f :: rest => forFlatten body (body acc f) rest
  | acc, .err _ :: rest => forFlatten body acc rest
  | _, .panic p :: _ => .error p

/-- `for f in iter { let f = f?; .. }`: the first error ends the loop and is
returned. -/
def forTry {β : Type} (body : β → ProtoField → β) :
    β → List ProtoItem → Except Panic (Except String β)
  | acc, [] => .ok (.ok acc)
  | acc, .ok f :: rest => forTry body (body acc f) rest
  | _, .err e :: _ => .ok (.error e)
  | _, .panic p :: _ => .error p

/-- `iter.flatten().find(p)`: lazy, so an item behind the hit is never
read. -/
def findFlatten (p : ProtoField → Bool) :
    List ProtoItem → Except Panic (Option ProtoField)
  | [] => .ok none
  | .ok f :: rest => if p f then .ok (some f) else findFlatten p rest
  | .err _ :: rest => findFlatten p rest
  | .panic e :: _ => .error e

-- ============================================================== replies

/-- `EvmAccount`. -/
structure EvmAccount where
  nonce : UInt64
  balance : B256
  codeHash : B256
  deriving DecidableEq

/-- `EvmAccount::default()`. -/
def EvmAccount.default : EvmAccount := ⟨0, .zero 32, .zero 32⟩

/-- The body of the loop of `decode_account`. -/
def EvmAccount.read (acc : EvmAccount) (f : ProtoField) : EvmAccount :=
  match f.field, f.wtype with
  | 1, 0 => { acc with nonce := f.varint }
  | 2, 2 => { acc with balance := (FixedBytes.ofBytes? 32 f.payload).getD acc.balance }
  | 3, 2 => { acc with codeHash := (FixedBytes.ofBytes? 32 f.payload).getD acc.codeHash }
  | _, _ => acc

/-- `decode_account`. -/
def decodeAccount (checks : Checks) (bytes : Bytes) :
    Except Panic (Except String (Option EvmAccount)) :=
  if bytes.isEmpty then .ok (.ok none)
  else do
    let acc ← forTry EvmAccount.read .default (itemsOf checks bytes)
    return acc.map some

/-- `EvmResult`. -/
structure EvmResult where
  success : Bool
  output : Bytes
  gasUsed : UInt64
  contractAddress : Option Address
  deriving DecidableEq

/-- `EvmResult::default()`. -/
def EvmResult.default : EvmResult := ⟨false, [], 0, none⟩

/-- The body of the loop of `decode_evm_result`. -/
def EvmResult.read (r : EvmResult) (f : ProtoField) : EvmResult :=
  match f.field, f.wtype with
  | 1, 0 => { r with success := f.varint ≠ 0 }
  | 2, 2 => { r with output := f.payload }
  | 3, 0 => { r with gasUsed := f.varint }
  | 4, 2 => { r with contractAddress := (FixedBytes.ofBytes? 20 f.payload).or r.contractAddress }
  | _, _ => r

/-- `decode_evm_result`. -/
def decodeEvmResult (checks : Checks) (bytes : Bytes) :
    Except Panic (Except String EvmResult) :=
  forTry EvmResult.read .default (itemsOf checks bytes)

/-- `build_get_account_args`. -/
def buildGetAccountArgs (addr : Address) : Bytes := addr.bytes

end KoinosEvm.Proxy
