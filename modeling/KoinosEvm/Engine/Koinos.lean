/-
The Koinos syscall bridge (engine/src/koinos.rs).

A syscall of the model is the typed request behind `invoke_system_call`;
`Syscall.sid` and `Syscall.args` are the number and the protobuf bytes
the source puts on the wire for it, and a `Reply` is the return code and
the bytes the host wrote. The engine is a program over these
(`HostM`), so the host can answer anything. `SC_EXIT` does not return:
it is how a program halts.

Three callers treat a nonzero code differently. `call_system` and
`call_system_small` log it and return no bytes; `call_system_must` logs it
and exits with an error.
-/
import KoinosEvm.Engine.Crypto
import KoinosEvm.Engine.Proto
import KoinosEvm.Lib.Interact

namespace KoinosEvm.Engine

open Proto

-- ============================================================ the host

/-- `ObjectSpace` (state.rs). -/
structure ObjectSpace where
  system : Bool
  zone : Bytes
  id : UInt32
  deriving DecidableEq

/-- `encode_object_space`. -/
def encodeObjectSpace (space : ObjectSpace) : Bytes :=
  encodeBoolField 1 space.system ++ encodeBytesField 2 space.zone
    ++ encodeVarintField 3 space.id.toUInt64

/-- The syscalls the engine makes, `SC_EXIT` aside. -/
inductive Syscall where
  | getHeadInfo
  | putObject (space : ObjectSpace) (key obj : Bytes)
  | removeObject (space : ObjectSpace) (key : Bytes)
  | getObject (space : ObjectSpace) (key : Bytes)
  | log (msg : Bytes)
  | event (name : String) (data : Bytes) (impacted : List Bytes)
  | hash (code : UInt64) (data : Bytes)
  | recoverPublicKey (dsaType : UInt64) (signature digest : Bytes) (compressed : Bool)
  | getArguments
  | getContractId
  deriving DecidableEq

/-- `str::as_bytes`. -/
def utf8 (s : String) : Bytes := s.toUTF8.data.toList

/-- `SC_*`. -/
def Syscall.sid : Syscall → Nat
  | getHeadInfo => 1
  | putObject .. => 301
  | removeObject .. => 302
  | getObject .. => 303
  | log .. => 401
  | event .. => 402
  | hash .. => 501
  | recoverPublicKey .. => 502
  | getArguments => 603
  | getContractId => 604

/-- The argument bytes of a syscall. -/
def Syscall.args : Syscall → Bytes
  | getHeadInfo => []
  | putObject space key obj =>
      encodeSubmessageField 1 (encodeObjectSpace space) ++ encodeBytesField 2 key
        ++ encodeBytesField 3 obj
  | removeObject space key =>
      encodeSubmessageField 1 (encodeObjectSpace space) ++ encodeBytesField 2 key
  | getObject space key =>
      encodeSubmessageField 1 (encodeObjectSpace space) ++ encodeBytesField 2 key
  | log msg => encodeBytesField 1 msg
  | event name data impacted =>
      encodeBytesField 1 (utf8 name) ++ encodeBytesField 2 data
        ++ impacted.flatMap (encodeBytesField 3)
  | hash code data => encodeVarintField 1 code ++ encodeBytesField 2 data
  | recoverPublicKey dsaType signature digest compressed =>
      encodeVarintField 1 dsaType ++ encodeBytesField 2 signature
        ++ encodeBytesField 3 digest ++ encodeBoolField 4 compressed
  | getArguments => []
  | getContractId => []

/-- What `invoke_system_call` returns: the code, and the bytes written to
the return buffer. -/
structure Reply where
  rc : Int
  out : Bytes
  deriving DecidableEq

/-- How a call ends: `SC_EXIT` with code 0 and a result object, or with
code 1 and an error message. -/
inductive Exit where
  | success (data : Bytes)
  | failure (message : Bytes)
  deriving DecidableEq

/-- Engine code: a program over the syscalls. -/
abbrev HostM := Lib.Prog Syscall (fun _ => Reply) Exit

/-- A syscall and its reply. -/
abbrev HostEv := Lib.Ev Syscall (fun _ => Reply)

/-- `invoke_system_call`. -/
def invokeSystemCall (call : Syscall) : HostM Reply := Lib.Prog.ask call

-- =========================================================== the callers

/-- `raw_log`: the return code is ignored. -/
def rawLog (msg : Bytes) : HostM Unit := do
  let _ ← invokeSystemCall (.log msg)

/-- `call_system` and `call_system_small`, which differ in the size of
their return buffer. -/
def callSystem (call : Syscall) : HostM Bytes := do
  let reply ← invokeSystemCall call
  if reply.rc ≠ 0 then
    let id := call.sid
    let rc := reply.rc
    rawLog (utf8 s!"syscall {id} failed: rc={rc}")
    return []
  else return reply.out

/-- `call_system_must`. -/
def callSystemMust (call : Syscall) : HostM Bytes := do
  let reply ← invokeSystemCall call
  if reply.rc ≠ 0 then
    let id := call.sid
    let rc := reply.rc
    rawLog (utf8 s!"state syscall {id} failed: rc={rc} (aborting)")
    .halt (.failure (utf8 s!"state syscall {id} rc={rc}"))
  else return reply.out

namespace Sys

/-- `sys::Arguments`. -/
structure Arguments where
  entryPoint : UInt32
  arguments : Bytes
  deriving DecidableEq

/-- `argument_data { uint32 entry_point = 1; bytes arguments = 2; }`. -/
def argumentField (args : Arguments) (f : Field) : Arguments :=
  match f with
  | (1, v) =>
      match getVarint v with
      | some v => { args with entryPoint := v.toUInt32 }
      | none => args
  | (2, v) =>
      match getBytes v with
      | some bs => { args with arguments := bs }
      | none => args
  | _ => args

/-- The reply of `get_arguments`, decoded. -/
def decodeArguments (result : Bytes) : Arguments :=
  (fieldsOf result).foldl (fun args f =>
    if f.1 = 1 then
      match getBytes f.2 with
      | some submsg => (fieldsOf submsg).foldl argumentField args
      | none => args
    else args) ⟨0, []⟩

/-- `sys::get_arguments`. -/
def getArguments : HostM Arguments := do
  return decodeArguments (← callSystem .getArguments)

/-- `sys::exit_success`. -/
def exitSuccess {α : Type} (data : Bytes) : HostM α := .halt (.success data)

/-- `sys::exit_error`; every message the engine passes is UTF-8. -/
def exitError {α : Type} (message : String) : HostM α := .halt (.failure (utf8 message))

/-- `sys::log`. -/
def log (msg : String) : HostM Unit := do
  let _ ← callSystem (.log (utf8 msg))

/-- `sys::event`. -/
def event (name : String) (data : Bytes) (impacted : List Bytes) : HostM Unit := do
  let _ ← callSystemMust (.event name data impacted)

/-- `sys::put_object`. -/
def putObject (space : ObjectSpace) (key obj : Bytes) : HostM Unit := do
  let _ ← callSystemMust (.putObject space key obj)

/-- `database_object { bool exists = 1; bytes value = 2; bytes key = 3; }`. -/
def objectField (obj : Bool × Bytes) (f : Field) : Bool × Bytes :=
  match f with
  | (1, v) =>
      match getVarint v with
      | some v => (v != 0, obj.2)
      | none => obj
  | (2, v) =>
      match getBytes v with
      | some bs => (obj.1, bs)
      | none => obj
  | _ => obj

/-- The reply of `get_object`, decoded: the first field 1 that exists. -/
def decodeObject (result : Bytes) : Option Bytes :=
  (fieldsOf result).findSome? fun f =>
    if f.1 = 1 then
      match getBytes f.2 with
      | some submsg =>
          let obj := (fieldsOf submsg).foldl objectField (false, [])
          if obj.1 then some obj.2 else none
      | none => none
    else none

/-- `sys::get_object`. -/
def getObject (space : ObjectSpace) (key : Bytes) : HostM (Option Bytes) := do
  let result ← callSystem (.getObject space key)
  if result.isEmpty then return none else return decodeObject result

/-- `sys::remove_object`. -/
def removeObject (space : ObjectSpace) (key : Bytes) : HostM Unit := do
  let _ ← callSystemMust (.removeObject space key)

/-- The replies of `hash`, `recover_public_key` and `get_contract_id`:
`{ bytes value = 1; }`, the first one found. -/
def decodeValue (result : Bytes) : Bytes :=
  ((fieldsOf result).findSome? fun f =>
    if f.1 = 1 then getBytes f.2 else none).getD []

/-- `sys::hash`. -/
def hash (code : UInt64) (data : Bytes) : HostM Bytes := do
  return decodeValue (← callSystem (.hash code data))

/-- `sys::recover_public_key`. -/
def recoverPublicKey (dsaType : UInt64) (signature digest : Bytes) (compressed : Bool) :
    HostM Bytes := do
  return decodeValue (← callSystem (.recoverPublicKey dsaType signature digest compressed))

/-- `sys::get_contract_id`. -/
def getContractId : HostM Bytes := do
  return decodeValue (← callSystem .getContractId)

/-- `sys::HeadInfo`. -/
structure HeadInfo where
  height : UInt64
  headBlockTime : UInt64
  deriving DecidableEq

/-- `block_topology { bytes id = 1; uint64 height = 2; bytes previous = 3; }`. -/
def topologyField (head : HeadInfo) (f : Field) : HeadInfo :=
  if f.1 = 2 then
    match getVarint f.2 with
    | some v => { head with height := v }
    | none => head
  else head

/-- `head_info { block_topology head_topology = 1; uint64 head_block_time = 2; }`. -/
def headField (head : HeadInfo) (f : Field) : HeadInfo :=
  match f with
  | (1, v) =>
      match getBytes v with
      | some topo => (fieldsOf topo).foldl topologyField head
      | none => head
  | (2, v) =>
      match getVarint v with
      | some v => { head with headBlockTime := v }
      | none => head
  | _ => head

/-- The reply of `get_head_info`, decoded. -/
def decodeHeadInfo (result : Bytes) : HeadInfo :=
  (fieldsOf result).foldl (fun head f =>
    if f.1 = 1 then
      match getBytes f.2 with
      | some info => (fieldsOf info).foldl headField head
      | none => head
    else head) ⟨0, 0⟩

/-- `sys::get_head_info`. -/
def getHeadInfo : HostM HeadInfo := do
  return decodeHeadInfo (← callSystem .getHeadInfo)

/-- The wrappers the crypto seam calls. -/
def crypto : CryptoSys HostM := ⟨hash, recoverPublicKey⟩

end Sys

end KoinosEvm.Engine
