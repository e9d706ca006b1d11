/-
Messages as proto3 serialises them.

A message is the list of its fields in ascending order. A number is a
varint, a byte string or a message in a message has its length in front of
it, and a scalar that has its default value is left out: which is what
`field` says of one field, and `serialize` of all. There are no limits here:
a machine's encoder is compared with this where its numbers fit.
-/
import Mathlib.Algebra.Order.Group.Nat

namespace Lib.Protobuf

/-- Seven bits a byte, lowest first; each byte but the last says that there
is more. -/
def varint (n : Nat) : List UInt8 :=
  if n < 128 then [UInt8.ofNat n] else UInt8.ofNat (n % 128 + 128) :: varint (n / 128)
termination_by n
decreasing_by omega

/-- What a field holds. -/
inductive FieldValue where
  | uint (n : Nat)
  | bytes (bs : List UInt8)
  | message (bs : List UInt8)

/-- A field with its length in front. -/
def lengthDelimited (number : Nat) (bs : List UInt8) : List UInt8 :=
  varint (number * 8 + 2) ++ varint bs.length ++ bs

/-- A field, which is left out where it is a scalar's default. -/
def field (number : Nat) : FieldValue → List UInt8
  | .uint n => if n = 0 then [] else varint (number * 8) ++ varint n
  | .bytes bs => if bs = [] then [] else lengthDelimited number bs
  | .message bs => lengthDelimited number bs

/-- A message, its fields in ascending order. -/
def serialize (fields : List (Nat × FieldValue)) : List UInt8 :=
  fields.flatMap fun f => field f.1 f.2

theorem varint_small {n : Nat} (h : n < 128) : varint n = [UInt8.ofNat n] := by
  rw [varint, if_pos h]

theorem varint_large {n : Nat} (h : 128 ≤ n) :
    varint n = UInt8.ofNat (n % 128 + 128) :: varint (n / 128) := by
  rw [varint, if_neg (by omega)]

theorem serialize_cons (f : Nat × FieldValue) (fields : List (Nat × FieldValue)) :
    serialize (f :: fields) = field f.1 f.2 ++ serialize fields := List.flatMap_cons

theorem serialize_nil : serialize [] = [] := rfl

theorem field_uint {n : Nat} (number : Nat) (h : n ≠ 0) :
    field number (.uint n) = varint (number * 8) ++ varint n := if_neg h

theorem field_bytes_nil (number : Nat) : field number (.bytes []) = [] := rfl

theorem field_bytes {bs : List UInt8} (number : Nat) (h : bs ≠ []) :
    field number (.bytes bs) = lengthDelimited number bs := if_neg h

/-- A message that holds one message. -/
theorem serialize_message (number : Nat) (bs : List UInt8) :
    serialize [(number, .message bs)] = lengthDelimited number bs := List.append_nil _

end Lib.Protobuf
