/-
`FieldIter::next` (engine/src/proto.rs) with every slice, every addition
and the width of `usize` written out.

Engine/Proto.lean reads the same function with what cannot fail left
away. Here it is as the machine runs it: `w` is 32 on the engine's target
and 64 on the proxy's.
-/
import KoinosEvm.Engine.Proto
import KoinosEvm.Lib.Checked

namespace KoinosEvm.Engine.Proto

open Lib

section Width

variable (w : Nat)

/-- `let (value, consumed) = decode_varint(&self.data[self.pos..])?;
self.pos += consumed;`: the value, and the position behind it. -/
def decodeAt (data : Bytes) (pos : Nat) : Except Fault (Option (UInt64 × Nat)) := do
  let rest ← sliceFrom data pos
  match decodeVarint rest with
  | none => .ok none
  | some (value, consumed) => do
      let pos ← addIn w pos consumed
      .ok (some (value, pos))

/-- The length-delimited arm of `next`, behind the length: the payload, and
the position behind it. -/
def payloadAt (data : Bytes) (pos : Nat) (len : UInt64) : Except Fault (Option (Bytes × Nat)) :=
  match fitsIn w len.toNat with
  | none => .ok none
  | some len =>
      match checkedAddIn w pos len with
      | none => .ok none
      | some stop =>
          if data.length < stop then .ok none
          else do
            let value ← sliceOf data pos stop
            let pos ← addIn w pos len
            .ok (some (value, pos))

/-- `FieldIter::next` on a target whose `usize` has `w` bits. -/
def FieldIter.nextIn (it : FieldIter) : Except Fault (Option (Field × FieldIter)) :=
  if it.data.length ≤ it.pos then .ok none
  else do
    match ← decodeAt w it.data it.pos with
    | none => .ok none
    | some (tag, pos) =>
        let fieldNumber := (tag >>> 3).toNat
        if fieldNumber = 0 ∨ 2 ^ 32 ≤ fieldNumber then .ok none
        else if tag &&& 7 = 0 then do
          match ← decodeAt w it.data pos with
          | none => .ok none
          | some (value, pos) => .ok (some ((fieldNumber, .varint value), ⟨it.data, pos⟩))
        else if tag &&& 7 = 2 then do
          match ← decodeAt w it.data pos with
          | none => .ok none
          | some (len, pos) => do
              match ← payloadAt w it.data pos len with
              | none => .ok none
              | some (value, pos) =>
                  .ok (some ((fieldNumber, .lengthDelimited value), ⟨it.data, pos⟩))
        else .ok none

end Width

end KoinosEvm.Engine.Proto
