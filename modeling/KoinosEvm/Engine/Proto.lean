/-
The engine's protobuf wire codec (engine/src/proto.rs): varints, the
field encoders that drop proto3 defaults, and the field iterator that
stops for good at the first malformed field.

`usize::try_from(len)` and `checked_add` in the iterator can only fail
for a length that no buffer has, and the bound check behind them refuses
those lengths anyway; the model keeps the bound check.
-/
import KoinosEvm.Basic
import KoinosEvm.Lib.Unfold

namespace KoinosEvm.Engine.Proto

-- ============================================================= varints

def wireVarint : UInt8 := 0
def wireLengthDelimited : UInt8 := 2

/-- The loop of `encode_varint`; ten rounds empty any `u64`. -/
def encodeVarintLoop : Nat → UInt64 → Bytes
  | 0, _ => []
  | fuel + 1, value =>
      let byte := (value &&& 0x7F).toUInt8
      let value := value >>> 7
      if value = 0 then [byte]
      else (byte ||| 0x80) :: encodeVarintLoop fuel value

/-- `encode_varint`, as the bytes it appends. -/
def encodeVarint (value : UInt64) : Bytes := encodeVarintLoop 10 value

/-- The loop of `decode_varint` at byte `i` with the bits read so far. -/
def decodeVarintLoop : Bytes → Nat → Nat → UInt64 → Option (UInt64 × Nat)
  | [], _, _, _ => none
  | byte :: rest, i, shift, result =>
      if 10 ≤ i then none -- varints cannot exceed 10 bytes
      else
        let payload := (byte &&& 0x7F).toUInt64
        -- on the 10th byte only bit 0 is valid
        if shift = 63 ∧ 1 < payload then none
        else
          let result := result ||| (payload <<< UInt64.ofNat shift)
          if byte &&& 0x80 = 0 then some (result, i + 1)
          else decodeVarintLoop rest (i + 1) (shift + 7) result

/-- `decode_varint`: the value and the number of bytes consumed. -/
def decodeVarint (data : Bytes) : Option (UInt64 × Nat) :=
  decodeVarintLoop data 0 0 0

-- ====================================================== field encoders

/-- `encode_tag`. -/
def encodeTag (fieldNumber : Nat) (wireType : UInt8) : Bytes :=
  encodeVarint ((UInt64.ofNat fieldNumber <<< 3) ||| wireType.toUInt64)

/-- `encode_varint_field`: the proto3 default 0 is skipped. -/
def encodeVarintField (fieldNumber : Nat) (value : UInt64) : Bytes :=
  if value = 0 then []
  else encodeTag fieldNumber wireVarint ++ encodeVarint value

/-- `encode_bool_field`. -/
def encodeBoolField (fieldNumber : Nat) (value : Bool) : Bytes :=
  if !value then []
  else encodeTag fieldNumber wireVarint ++ encodeVarint 1

/-- `encode_bytes_field`. -/
def encodeBytesField (fieldNumber : Nat) (value : Bytes) : Bytes :=
  if value.isEmpty then []
  else
    encodeTag fieldNumber wireLengthDelimited
      ++ encodeVarint (UInt64.ofNat value.length) ++ value

/-- `encode_submessage_field`. -/
def encodeSubmessageField (fieldNumber : Nat) (submessage : Bytes) : Bytes :=
  if submessage.isEmpty then []
  else
    encodeTag fieldNumber wireLengthDelimited
      ++ encodeVarint (UInt64.ofNat submessage.length) ++ submessage

-- ====================================================== field iterator

/-- `FieldIter`. -/
structure FieldIter where
  data : Bytes
  pos : Nat

/-- `FieldIter::new`. -/
def FieldIter.new (data : Bytes) : FieldIter := ⟨data, 0⟩

/-- `FieldValue`. -/
inductive FieldValue where
  | varint (v : UInt64)
  | lengthDelimited (bs : Bytes)
  deriving DecidableEq

/-- `(field_number, field_value)`. -/
abbrev Field := Nat × FieldValue

/-- `get_varint`. -/
def getVarint : FieldValue → Option UInt64
  | .varint v => some v
  | _ => none

/-- `get_bytes`. -/
def getBytes : FieldValue → Option Bytes
  | .lengthDelimited bs => some bs
  | _ => none

/-- `FieldIter::next`. Every caller is a `for` loop, which ends at the
first `None`, so the position left behind by a `None` is not kept. -/
def FieldIter.next (it : FieldIter) : Option (Field × FieldIter) :=
  if it.data.length ≤ it.pos then none
  else do
    let (tag, consumed) ← decodeVarint (it.data.drop it.pos)
    let pos := it.pos + consumed
    let fieldNumber := (tag >>> 3).toNat
    if fieldNumber = 0 ∨ 2 ^ 32 ≤ fieldNumber then none
    else if tag &&& 7 = 0 then do
      let (value, consumed) ← decodeVarint (it.data.drop pos)
      some ((fieldNumber, .varint value), ⟨it.data, pos + consumed⟩)
    else if tag &&& 7 = 2 then do
      let (len, consumed) ← decodeVarint (it.data.drop pos)
      let pos := pos + consumed
      let stop := pos + len.toNat
      if it.data.length < stop then none
      else
        some ((fieldNumber, .lengthDelimited ((it.data.drop pos).take len.toNat)),
          ⟨it.data, stop⟩)
    else none

/-- Bytes the iterator has not looked at. -/
def FieldIter.left (it : FieldIter) : Nat := it.data.length - it.pos

/-- What a `for` loop over the iterator sees. -/
def FieldIter.fields (it : FieldIter) : List Field :=
  Lib.collect FieldIter.next FieldIter.left it

/-- The iterator where such a loop leaves it. -/
def FieldIter.stop (it : FieldIter) : FieldIter :=
  Lib.final FieldIter.next FieldIter.left it

/-- The fields of a message, as every engine decoder reads them. -/
def fieldsOf (data : Bytes) : List Field := (FieldIter.new data).fields

end KoinosEvm.Engine.Proto
