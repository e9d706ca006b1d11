/-
What the proxy uses of `serde_json::Value`, and its base64 reader
(rpc/src/koinos.rs). The base64 crate's engines are a parameter.
-/
import KoinosEvm.Basic

namespace KoinosEvm.Proxy

/-- `serde_json::Value`. Numbers are integers: the proxy reads JSON
numbers with `as_u64` only. -/
inductive Value where
  | null
  | bool (b : Bool)
  | number (n : Int)
  | string (s : String)
  | array (xs : List Value)
  | object (fields : List (String × Value))

namespace Value

/-- `Value::get` with a string key. -/
def get (v : Value) (key : String) : Option Value :=
  match v with
  | object fields => fields.lookup key
  | _ => none

/-- `Value::as_str`. -/
def asStr : Value → Option String
  | string s => some s
  | _ => none

/-- `Value::as_array`. -/
def asArray : Value → Option (List Value)
  | array xs => some xs
  | _ => none

/-- `Value::as_u64`. -/
def asU64 : Value → Option Nat
  | number n => if 0 ≤ n ∧ n < 2 ^ 64 then some n.toNat else none
  | _ => none

/-- `v.get(key).and_then(|v| v.as_str())`. -/
def getStr (v : Value) (key : String) : Option String :=
  (v.get key).bind asStr

end Value

/-- The two engines of the base64 crate that `decode_b64_lax` tries. -/
structure Base64 where
  urlSafeNoPad : String → Option Bytes
  standard : String → Option Bytes

/-- `s.trim_end_matches('=')`. -/
def trimPadding (s : String) : String :=
  String.ofList (s.toList.reverse.dropWhile (· == '=')).reverse

/-- `decode_b64_lax`. -/
def decodeB64Lax (b64 : Base64) (s : String) : Option Bytes :=
  if s.isEmpty then some []
  else
    match b64.urlSafeNoPad (trimPadding s) with
    | some v => some v
    | none => b64.standard s

end KoinosEvm.Proxy
