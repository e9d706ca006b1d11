/-
The chain under the engine, where it behaves: the object store is a map
keyed by space and key, the contract id, hashing and recovery are fixed,
and a call's arguments are the call's.

`Obeys` says that the replies of a trace are those of such a chain; what
it does not fix (log lines, events, the head block) it leaves to the
host. Reading lemmas turn it into what the engine's own wrappers return
(`exec_getObject_eq`, `exec_basic_eq`, `exec_parseRaw_eq`). `mapHost` is
one such chain, as a state machine that computes.
-/
import KoinosEvm.Proofs.SubmitStages
import KoinosEvm.Proofs.TxCanonical
import KoinosEvm.Proofs.Wire

namespace KoinosEvm.Proofs

open Engine Engine.Proto Lib

-- ============================================================ the chain

/-- The objects, by space and key. -/
abbrev Store := ObjectSpace → Bytes → Option Bytes

/-- One entry changed. -/
def Store.set (store : Store) (space : ObjectSpace) (key : Bytes) (v : Option Bytes) :
    Store :=
  fun sp k => if sp = space ∧ k = key then v else store sp k

/-- What a syscall does to the objects. -/
def Store.apply (store : Store) : Syscall → Store
  | .putObject space key obj => store.set space key (some obj)
  | .removeObject space key => store.set space key none
  | _ => store

/-- What is the same for every call. -/
structure Chain where
  contractId : Bytes
  hash : UInt64 → Bytes → Bytes
  recoverPublicKey : UInt64 → Bytes → Bytes → Bool → Bytes

/-- The chain's crypto, as the parser calls it. -/
def Chain.crypto (chain : Chain) : CryptoSys Id := ⟨chain.hash, chain.recoverPublicKey⟩

/-- The engine's spaces carry the contract id. -/
def Chain.space (chain : Chain) (id : UInt32) : ObjectSpace := ⟨false, chain.contractId, id⟩

theorem Chain.space_ne (chain : Chain) {id id' : UInt32} (h : id ≠ id') :
    chain.space id ≠ chain.space id' := fun heq => h (congrArg ObjectSpace.id heq)

/-- The account a store holds. -/
def Chain.account (chain : Chain) (store : Store) (address : Address) :
    Option AccountInfo :=
  (store (chain.space SPACE_ACCOUNTS) address.bytes).bind deserializeAccount

/-- The value a store holds for a slot. -/
def Chain.slot (chain : Chain) (store : Store) (address : Address) (index : U256) : U256 :=
  match store (chain.space SPACE_STORAGE) (storageKey address (beBytes32 index)) with
  | some data => if data.length = 32 then u256FromBeSlice data else 0
  | none => 0

/-- The code a store holds for a hash. -/
def Chain.code (chain : Chain) (store : Store) (codeHash : B256) : Bytes :=
  if codeHash = KECCAK_EMPTY then []
  else (store (chain.space SPACE_CODE) codeHash.bytes).getD []

-- ============================================================= replies

/-- `database_object { bool exists = 1; bytes value = 2; bytes key = 3; }`. -/
def encodeObject (found : Bool) (value key : Bytes) : Bytes :=
  encodeBoolField 1 found ++ encodeBytesField 2 value ++ encodeBytesField 3 key

/-- The replies of `get_object`. -/
inductive ObjectReply : Option Bytes → Bytes → Prop
  | found {value key : Bytes} : value.length < 2 ^ 32 → key.length < 2 ^ 32 →
      ObjectReply (some value) (encodeSubmessageField 1 (encodeObject true value key))
  | absent : ObjectReply none []
  | absentKey {key : Bytes} : key.length < 2 ^ 32 →
      ObjectReply none (encodeSubmessageField 1 (encodeObject false [] key))

/-- `argument_data { uint32 entry_point = 1; bytes arguments = 2; }`. -/
def encodeArgumentData (call : Sys.Arguments) : Bytes :=
  encodeVarintField 1 call.entryPoint.toUInt64 ++ encodeBytesField 2 call.arguments

/-- The reply of `get_arguments`. -/
def encodeArguments (call : Sys.Arguments) : Bytes :=
  encodeSubmessageField 1 (encodeArgumentData call)

/-- The reply is the chain's, in this call and this store. -/
def Answers (chain : Chain) (call : Sys.Arguments) (store : Store) : HostEv → Prop
  | ⟨.getObject space key, reply⟩ => reply.rc = 0 ∧ ObjectReply (store space key) reply.out
  | ⟨.putObject .., reply⟩ => reply.rc = 0
  | ⟨.removeObject .., reply⟩ => reply.rc = 0
  | ⟨.hash code data, reply⟩ => valueIn reply = chain.hash code data
  | ⟨.recoverPublicKey dsaType signature digest compressed, reply⟩ =>
      valueIn reply = chain.recoverPublicKey dsaType signature digest compressed
  | ⟨.getContractId, reply⟩ => valueIn reply = chain.contractId
  | ⟨.getArguments, reply⟩ =>
      reply.rc = 0 ∧ reply.out = encodeArguments call ∧ call.arguments.length < 2 ^ 32
  | ⟨.getHeadInfo, _⟩ => True
  | ⟨.log .., _⟩ => True
  | ⟨.event .., _⟩ => True

/-- The replies of a trace are the chain's, and take one store to
another. -/
inductive Obeys (chain : Chain) (call : Sys.Arguments) : Store → List HostEv → Store → Prop
  | nil {store : Store} : Obeys chain call store [] store
  | cons {store store' : Store} {e : HostEv} {tr : List HostEv} :
      Answers chain call store e → Obeys chain call (store.apply e.1) tr store' →
      Obeys chain call store (e :: tr) store'

section Obeys

variable {chain : Chain} {call : Sys.Arguments} {store store' : Store}

theorem obeys_append {xs ys : List HostEv} :
    Obeys chain call store (xs ++ ys) store' ↔
      ∃ mid, Obeys chain call store xs mid ∧ Obeys chain call mid ys store' := by
  induction xs generalizing store with
  | nil =>
      refine ⟨fun h => ⟨store, .nil, h⟩, ?_⟩
      intro h
      obtain ⟨mid, h₁, h₂⟩ := h
      cases h₁
      exact h₂
  | cons x xs ih =>
      refine ⟨?_, ?_⟩
      · intro h
        cases h with
        | cons hx h =>
            obtain ⟨mid, h₁, h₂⟩ := ih.mp h
            exact ⟨mid, .cons hx h₁, h₂⟩
      · intro h
        obtain ⟨mid, h₁, h₂⟩ := h
        cases h₁ with
        | cons hx h₁ => exact .cons hx (ih.mpr ⟨mid, h₁, h₂⟩)

/-- A quiet trace leaves the store alone, and all its replies are about
that one store. -/
theorem obeys_quiet {tr : List HostEv} (h : Obeys chain call store tr store')
    (hq : ∀ e ∈ tr, Quiet e.1) :
    store' = store ∧ ∀ e ∈ tr, Answers chain call store e := by
  induction h with
  | nil => exact ⟨rfl, by simp⟩
  | @cons store store' e tr he h ih =>
      rw [List.forall_mem_cons] at hq ⊢
      have happly : store.apply e.1 = store := by
        obtain ⟨op, reply⟩ := e
        have hop := hq.1
        cases op <;> first | rfl | cases hop
      rw [happly] at ih
      obtain ⟨hs, hall⟩ := ih hq.2
      exact ⟨hs, he, hall⟩

/-- Every object the syscall writes is in one of these spaces. -/
def WritesTo (S : ObjectSpace → Prop) : Syscall → Prop
  | .putObject space _ _ => S space
  | .removeObject space _ => S space
  | _ => True

/-- Spaces that are not written stay as they are. -/
theorem obeys_frame {S : ObjectSpace → Prop} {tr : List HostEv}
    (h : Obeys chain call store tr store') (hw : ∀ e ∈ tr, WritesTo S e.1)
    {space : ObjectSpace} (hspace : ¬ S space) (key : Bytes) :
    store' space key = store space key := by
  induction h with
  | nil => rfl
  | @cons store store' e tr he h ih =>
      rw [List.forall_mem_cons] at hw
      rw [ih hw.2]
      obtain ⟨op, reply⟩ := e
      have hop := hw.1
      cases op with
      | putObject space' key' obj =>
          have hne : space ≠ space' := fun heq => hspace (heq ▸ hop)
          exact if_neg fun h => hne h.1
      | removeObject space' key' =>
          have hne : space ≠ space' := fun heq => hspace (heq ▸ hop)
          exact if_neg fun h => hne h.1
      | _ => rfl

end Obeys

-- ============================================================= reading

theorem length_encodeObject_lt (found : Bool) {value key : Bytes}
    (hv : value.length < 2 ^ 32) (hk : key.length < 2 ^ 32) :
    (encodeObject found value key).length < 2 ^ 64 := by
  have h1 := length_encodeBoolField_le 1 found
  have h2 := length_encodeBytesField_le 2 value
  have h3 := length_encodeBytesField_le 3 key
  unfold encodeObject
  rw [List.length_append, List.length_append]
  omega

/-- The fields of an object. -/
def objectFields (found : Bool) (value key : Bytes) : List Field :=
  boolField 1 found ++ bytesField 2 value ++ bytesField 3 key

theorem fieldsOf_encodeObject (found : Bool) {value key : Bytes}
    (hv : value.length < 2 ^ 32) (hk : key.length < 2 ^ 32) :
    fieldsOf (encodeObject found value key) = objectFields found value key := by
  have hcarries : ∀ f ∈ objectFields found value key, Carries f := by
    unfold objectFields
    rw [List.forall_mem_append, List.forall_mem_append]
    refine ⟨⟨carries_boolField found (by decide), ?_⟩, ?_⟩
    · exact carries_bytesField (by omega) (by decide)
    · exact carries_bytesField (by omega) (by decide)
  rw [← fieldsOf_wire hcarries]
  unfold encodeObject objectFields
  rw [encodeBoolField_eq, encodeBytesField_eq, encodeBytesField_eq, List.flatMap_append,
    List.flatMap_append]

/-- One submessage, read back. -/
theorem fieldsOf_submessage {n : Nat} {bs : Bytes} (h : bs.length < 2 ^ 64)
    (hn : n ≠ 0 ∧ n < 2 ^ 32) :
    fieldsOf (encodeSubmessageField n bs) = bytesField n bs := by
  rw [encodeSubmessageField_eq]
  exact fieldsOf_wire (carries_bytesField h hn)

/-- The loop of `get_object` over an object. -/
theorem foldl_objectField (found : Bool) (value key : Bytes) :
    (objectFields found value key).foldl Sys.objectField (false, []) = (found, value) := by
  have hkey : ∀ obj : Bool × Bytes, (bytesField 3 key).foldl Sys.objectField obj = obj := by
    intro obj
    unfold bytesField
    split
    · rfl
    · rfl
  unfold objectFields
  rw [List.foldl_append, List.foldl_append, hkey]
  unfold bytesField
  by_cases hv : value.isEmpty = true
  · rw [if_pos hv, List.isEmpty_iff.mp hv]
    cases found <;> rfl
  · rw [if_neg hv]
    cases found <;> rfl

/-- `get_object` on a reply. -/
theorem decodeObject_reply {v : Option Bytes} {out : Bytes} (h : ObjectReply v out) :
    (if out.isEmpty then none else Sys.decodeObject out) = v := by
  have hfound : ∀ {found : Bool} {value key : Bytes}, value.length < 2 ^ 32 →
      key.length < 2 ^ 32 →
      (if (encodeSubmessageField 1 (encodeObject found value key)).isEmpty then none
        else Sys.decodeObject (encodeSubmessageField 1 (encodeObject found value key)))
        = if found then some value else none := by
    intro found value key hv hk
    have hfields := fieldsOf_encodeObject found hv hk
    have hout := fieldsOf_submessage (n := 1) (length_encodeObject_lt found hv hk) (by decide)
    by_cases hobj : encodeObject found value key = []
    · -- the message of an absent object may be empty, and then is not sent
      rw [hobj] at hfields ⊢
      cases found with
      | false => rfl
      | true => cases hfields
    · have hbytes : bytesField 1 (encodeObject found value key)
          = [(1, .lengthDelimited (encodeObject found value key))] :=
        if_neg fun h => hobj (List.isEmpty_iff.mp h)
      rw [hbytes] at hout
      have hne : (encodeSubmessageField 1 (encodeObject found value key)).isEmpty ≠ true := by
        intro h
        rw [List.isEmpty_iff.mp h] at hout
        cases hout
      rw [if_neg hne]
      unfold Sys.decodeObject
      rw [hout]
      simp only [List.findSome?_cons, List.findSome?_nil, if_true, getBytes, hfields,
        foldl_objectField]
      cases found <;> rfl
  cases h with
  | found hv hk => exact hfound hv hk
  | absent => rfl
  | absentKey hk => exact hfound (by decide) hk

/-- The fields of the argument data. -/
def argumentFields (call : Sys.Arguments) : List Field :=
  varintField 1 call.entryPoint.toUInt64 ++ bytesField 2 call.arguments

theorem fieldsOf_encodeArgumentData {call : Sys.Arguments}
    (h : call.arguments.length < 2 ^ 32) :
    fieldsOf (encodeArgumentData call) = argumentFields call := by
  have hcarries : ∀ f ∈ argumentFields call, Carries f := by
    unfold argumentFields
    rw [List.forall_mem_append]
    exact ⟨carries_varintField _ (by decide), carries_bytesField (by omega) (by decide)⟩
  rw [← fieldsOf_wire hcarries]
  unfold encodeArgumentData argumentFields
  rw [encodeVarintField_eq, encodeBytesField_eq, List.flatMap_append]

theorem foldl_argumentField (call : Sys.Arguments) :
    (argumentFields call).foldl Sys.argumentField ⟨0, []⟩ = call := by
  obtain ⟨entryPoint, arguments⟩ := call
  have hep : (varintField 1 entryPoint.toUInt64).foldl Sys.argumentField ⟨0, []⟩
      = ⟨entryPoint, []⟩ := by
    unfold varintField
    by_cases h0 : entryPoint.toUInt64 = 0
    · have hzero : entryPoint = 0 := by
        rw [← UInt32.toUInt32_toUInt64 entryPoint, h0]
        rfl
      rw [if_pos h0, hzero]
      rfl
    · rw [if_neg h0]
      simp only [List.foldl_cons, List.foldl_nil, Sys.argumentField, getVarint,
        UInt32.toUInt32_toUInt64]
  unfold argumentFields
  rw [List.foldl_append, hep]
  unfold bytesField
  by_cases hnil : arguments.isEmpty = true
  · rw [if_pos hnil, List.isEmpty_iff.mp hnil]
    rfl
  · rw [if_neg hnil]
    rfl

/-- `get_arguments` on a reply. -/
theorem decodeArguments_encode {call : Sys.Arguments} (h : call.arguments.length < 2 ^ 32) :
    Sys.decodeArguments (encodeArguments call) = call := by
  have hfields := fieldsOf_encodeArgumentData h
  have hlen : (encodeArgumentData call).length < 2 ^ 64 := by
    have h1 := length_encodeVarintField_le 1 call.entryPoint.toUInt64
    have h2 := length_encodeBytesField_le 2 call.arguments
    unfold encodeArgumentData
    rw [List.length_append]
    omega
  unfold Sys.decodeArguments encodeArguments
  rw [fieldsOf_submessage hlen (by decide)]
  by_cases hempty : encodeArgumentData call = []
  · -- entry point 0 without arguments is an empty message
    rw [hempty] at hfields ⊢
    rw [← foldl_argumentField call, ← hfields]
    rfl
  · rw [show bytesField 1 (encodeArgumentData call)
        = [(1, .lengthDelimited (encodeArgumentData call))] from
      if_neg fun h => hempty (List.isEmpty_iff.mp h)]
    simp only [List.foldl_cons, List.foldl_nil, if_true, getBytes, hfields,
      foldl_argumentField]

section Reading

variable {chain : Chain} {call : Sys.Arguments} {store : Store} {tr : List HostEv}

/-- `call_system`, by the reply in the trace. -/
theorem exec_callSystem_reply {op : Syscall} {o : Except Exit Bytes}
    (h : Exec (callSystem op) tr o) :
    ∃ reply, (⟨op, reply⟩ : HostEv) ∈ tr ∧
      o = .ok (if reply.rc = 0 then reply.out else []) := by
  obtain ⟨reply, ⟨hrc, rfl, rfl⟩ | ⟨hrc, rfl, msg, reply', rfl⟩⟩ := exec_callSystem h
  · exact ⟨reply, List.mem_singleton_self _, by rw [if_pos hrc]⟩
  · exact ⟨reply, List.mem_cons_self, by rw [if_neg hrc]⟩

/-- A wrapper around `call_system` that decodes. -/
theorem exec_decoded {α : Type} {op : Syscall} {f : Bytes → α} {o : Except Exit α}
    (h : Exec (callSystem op >>= fun result => pure (f result)) tr o) :
    ∃ reply, (⟨op, reply⟩ : HostEv) ∈ tr ∧
      o = .ok (f (if reply.rc = 0 then reply.out else [])) := by
  rcases exec_bind.mp h with ⟨x, hx, -⟩ | ⟨result, t₁, t₂, h₁, h₂, rfl⟩
  · obtain ⟨_, -, hx⟩ := exec_callSystem_reply hx
    cases hx
  · obtain ⟨reply, hmem, hr⟩ := exec_callSystem_reply h₁
    obtain ⟨rfl, rfl⟩ := exec_ret.mp h₂
    injection hr with hr
    rw [List.append_nil]
    exact ⟨reply, hmem, by rw [hr]⟩

theorem decodeValue_reply (reply : Reply) :
    Sys.decodeValue (if reply.rc = 0 then reply.out else []) = valueIn reply := by
  unfold valueIn
  split
  · rfl
  · rfl

variable (hall : ∀ e ∈ tr, Answers chain call store e)
include hall

theorem exec_getObject_eq {space : ObjectSpace} {key : Bytes}
    {o : Except Exit (Option Bytes)} (h : Exec (Sys.getObject space key) tr o) :
    o = .ok (store space key) := by
  have heq : Sys.getObject space key = callSystem (.getObject space key) >>= fun result =>
      pure (if result.isEmpty then none else Sys.decodeObject result) := by
    unfold Sys.getObject
    congr
    funext result
    split
    · rfl
    · rfl
  rw [heq] at h
  obtain ⟨reply, hmem, rfl⟩ := exec_decoded h
  obtain ⟨hrc, hreply⟩ : reply.rc = 0 ∧ ObjectReply (store space key) reply.out :=
    hall _ hmem
  rw [if_pos hrc, decodeObject_reply hreply]

theorem exec_hash_eq {code : UInt64} {data : Bytes} {o : Except Exit Bytes}
    (h : Exec (Sys.hash code data) tr o) : o = .ok (chain.hash code data) := by
  obtain ⟨reply, hmem, rfl⟩ := exec_decoded h
  rw [decodeValue_reply]
  exact congrArg Except.ok (hall _ hmem)

theorem exec_recoverPublicKey_eq {dsaType : UInt64} {signature digest : Bytes}
    {compressed : Bool} {o : Except Exit Bytes}
    (h : Exec (Sys.recoverPublicKey dsaType signature digest compressed) tr o) :
    o = .ok (chain.recoverPublicKey dsaType signature digest compressed) := by
  obtain ⟨reply, hmem, rfl⟩ := exec_decoded h
  rw [decodeValue_reply]
  exact congrArg Except.ok (hall _ hmem)

theorem exec_getArguments_eq {o : Except Exit Sys.Arguments}
    (h : Exec Sys.getArguments tr o) : o = .ok call := by
  obtain ⟨reply, hmem, rfl⟩ := exec_decoded h
  obtain ⟨hrc, hout, hlen⟩ : reply.rc = 0 ∧ reply.out = encodeArguments call ∧
      call.arguments.length < 2 ^ 32 := hall _ hmem
  rw [if_pos hrc, hout, decodeArguments_encode hlen]

theorem exec_engineSpace_eq {id : UInt32} {space : ObjectSpace}
    (h : Exec (engineSpace id) tr (.ok space)) : space = chain.space id := by
  obtain ⟨zone, t₁, t₂, h₁, h₂, rfl⟩ := exec_bind_ok.mp h
  obtain ⟨rfl, hs⟩ := exec_ret.mp h₂
  injection hs with hs
  obtain ⟨reply, rest, rfl, -, ⟨-, hz⟩ | ⟨-, msg, hz⟩⟩ := exec_contractZone h₁
  · injection hz with hz
    have hid : valueIn reply = chain.contractId :=
      hall _ (List.mem_append_left _ List.mem_cons_self)
    rw [hs, hz, hid]
    rfl
  · cases hz

/-- A program that reads an object goes on with the stored one. -/
theorem exec_stored {α : Type} {id : UInt32} {key : Bytes} {f : Option Bytes → HostM α} {a : α}
    (h : Exec (do
      let space ← engineSpace id
      let object ← Sys.getObject space key
      f object) tr (.ok a)) :
    ∃ rest, Exec (f (store (chain.space id) key)) rest (.ok a) := by
  obtain ⟨space, t₁, t₂, h₁, h₂, rfl⟩ := exec_bind_ok.mp h
  obtain ⟨object, t₃, t₄, h₃, h₄, rfl⟩ := exec_bind_ok.mp h₂
  rw [List.forall_mem_append, List.forall_mem_append] at hall
  obtain rfl := exec_engineSpace_eq hall.1 h₁
  have hobj := exec_getObject_eq hall.2.1 h₃
  injection hobj with hobj
  rw [← hobj]
  exact ⟨t₄, h₄⟩

theorem exec_basic_eq {address : Address} {r : Except KoinosDbError (Option AccountInfo)}
    (h : Exec (basic address) tr (.ok r)) : r = .ok (chain.account store address) := by
  unfold basic at h
  obtain ⟨rest, hrest⟩ := exec_stored hall h
  unfold Chain.account
  cases hobj : store (chain.space SPACE_ACCOUNTS) address.bytes with
  | none =>
      rw [hobj] at hrest
      exact exec_ret_ok hrest
  | some data =>
      rw [hobj] at hrest
      exact exec_ret_ok hrest

theorem exec_storage_eq {address : Address} {index : U256} {r : Except KoinosDbError U256}
    (h : Exec (storage address index) tr (.ok r)) :
    r = .ok (chain.slot store address index) := by
  unfold storage at h
  obtain ⟨rest, hrest⟩ := exec_stored hall h
  unfold Chain.slot
  cases hobj : store (chain.space SPACE_STORAGE) (storageKey address (beBytes32 index)) with
  | none =>
      rw [hobj] at hrest
      exact exec_ret_ok hrest
  | some data =>
      rw [hobj] at hrest
      simp only at hrest ⊢
      split at hrest
      next hlen =>
        rw [exec_ret_ok hrest, if_pos hlen]
      next hlen =>
        rw [exec_ret_ok hrest, if_neg hlen]

theorem exec_codeByHash_eq {codeHash : B256} {r : Except KoinosDbError Bytes}
    (h : Exec (codeByHash codeHash) tr (.ok r)) : r = .ok (chain.code store codeHash) := by
  unfold codeByHash at h
  unfold Chain.code
  split at h
  next hempty =>
    rw [exec_ret_ok h, if_pos hempty]
  next hempty =>
    obtain ⟨rest, hrest⟩ := exec_stored hall h
    rw [if_neg hempty]
    cases hobj : store (chain.space SPACE_CODE) codeHash.bytes with
    | none =>
        rw [hobj] at hrest
        exact exec_ret_ok hrest
    | some data =>
        rw [hobj] at hrest
        exact exec_ret_ok hrest

end Reading

-- =========================================================== the parser

section Agrees

variable (chain : Chain) (call : Sys.Arguments) (store : Store) {α β : Type}

/-- On the chain's replies, the engine's program returns what the plain
one does. -/
def Agrees (x : ExceptT TxParseError HostM α) (y : ExceptT TxParseError Id α) : Prop :=
  ∀ tr r, (∀ e ∈ tr, Answers chain call store e) → Exec x.run tr (.ok r) → r = y.run

variable {chain call store}

theorem agrees_pure (v : Except TxParseError α) :
    Agrees chain call store (ExceptT.mk (pure v)) (ExceptT.mk v) := by
  intro tr r _ h
  exact exec_ret_ok h

theorem agrees_lift {p : HostM α} {v : Id α}
    (hp : ∀ tr o, (∀ e ∈ tr, Answers chain call store e) → Exec p tr o → o = .ok v.run) :
    Agrees chain call store (liftM p) (liftM v) := by
  intro tr r hall h
  change Exec (ExceptT.lift p).run tr (.ok r) at h
  rw [ExceptT.run_lift, map_eq_pure_bind] at h
  obtain ⟨a, t₁, t₂, h₁, h₂, rfl⟩ := exec_bind_ok.mp h
  rw [List.forall_mem_append] at hall
  have ha := hp t₁ _ hall.1 h₁
  injection ha with ha
  rw [exec_ret_ok h₂, ha]
  rfl

theorem agrees_bind {x : ExceptT TxParseError HostM α} {y : ExceptT TxParseError Id α}
    {f : α → ExceptT TxParseError HostM β} {g : α → ExceptT TxParseError Id β}
    (hx : Agrees chain call store x y) (hf : ∀ a, Agrees chain call store (f a) (g a)) :
    Agrees chain call store (x >>= f) (y >>= g) := by
  intro tr r hall h
  rw [ExceptT.run_bind] at h ⊢
  obtain ⟨r₁, t₁, t₂, h₁, h₂, rfl⟩ := exec_bind_ok.mp h
  rw [List.forall_mem_append] at hall
  rw [← hx t₁ r₁ hall.1 h₁]
  cases r₁ with
  | error e =>
      exact exec_ret_ok h₂
  | ok a => exact hf a t₂ r hall.2 h₂

theorem agrees_keccak256 (data : Bytes) :
    Agrees chain call store (keccak256 Sys.crypto data) (keccak256 chain.crypto data) := by
  unfold keccak256
  refine agrees_bind (agrees_lift fun tr o hall h => exec_hash_eq hall h) fun multihash => ?_
  split
  · exact agrees_pure _
  · exact agrees_pure _

theorem agrees_recoverSender (msgHash : B256) (r s : U256) (yParity : UInt8) :
    Agrees chain call store (recoverSender Sys.crypto msgHash r s yParity)
      (recoverSender chain.crypto msgHash r s yParity) := by
  unfold recoverSender
  refine agrees_bind (agrees_lift fun tr o hall h => exec_recoverPublicKey_eq hall h)
    fun pubkey => ?_
  cases pubkeyXy pubkey with
  | none => exact agrees_pure _
  | some xy =>
      refine agrees_bind (agrees_lift fun tr o hall h => exec_hash_eq hall h)
        fun multihash => ?_
      split
      · exact agrees_pure _
      · exact agrees_pure _

/-- The parser on the chain's replies is the parser on its crypto. -/
theorem exec_parseRaw_eq {rlp : AlloyRlp} {raw : Bytes} {tr : List HostEv}
    {r : Except TxParseError ParsedTx} (hall : ∀ e ∈ tr, Answers chain call store e)
    (h : Exec (parseRaw rlp raw) tr (.ok r)) :
    parseRawTx rlp (syscallCrypto chain.crypto) raw = r := by
  obtain ⟨plan, -, hplan⟩ := parseRawTx_planned rlp raw
  have hhost := hplan HostM (syscallCrypto Sys.crypto)
  have hplain := hplan Id (syscallCrypto chain.crypto)
  have hagrees : Agrees chain call store (parseRawTx rlp (syscallCrypto Sys.crypto) raw)
      (parseRawTx rlp (syscallCrypto chain.crypto) raw) := by
    rw [show parseRawTx rlp (syscallCrypto Sys.crypto) raw = _ from hhost,
      show parseRawTx rlp (syscallCrypto chain.crypto) raw = _ from hplain]
    cases plan with
    | error e => exact agrees_pure _
    | ok target =>
        refine agrees_bind (agrees_keccak256 _) fun signingHash => ?_
        refine agrees_bind (agrees_recoverSender _ _ _ _) fun sender => ?_
        exact agrees_pure _
  exact (hagrees tr r hall h).symm

end Agrees

-- ============================================================ one host

section MapHost

variable (chain : Chain) (call : Sys.Arguments)

/-- The bytes a map-keeping host replies with. -/
def replyOf (store : Store) : Syscall → Bytes
  | .getObject space key =>
      match store space key with
      | some value => encodeSubmessageField 1 (encodeObject true value [])
      | none => []
  | .hash code data => encodeBytesField 1 (chain.hash code data)
  | .recoverPublicKey dsaType signature digest compressed =>
      encodeBytesField 1 (chain.recoverPublicKey dsaType signature digest compressed)
  | .getContractId => encodeBytesField 1 chain.contractId
  | .getArguments => encodeArguments call
  | _ => []

/-- A host that keeps a map and accepts everything. -/
def mapHost (op : Syscall) (store : Store) : Reply × Store :=
  (⟨0, replyOf chain call store op⟩, store.apply op)

variable {chain call}

theorem length_le_encodeBytesField (n : Nat) (bs : Bytes) :
    bs.length ≤ (encodeBytesField n bs).length := by
  unfold encodeBytesField
  split
  next h =>
    rw [List.isEmpty_iff.mp h]
  next =>
    rw [List.length_append]
    omega

theorem decodeValue_encode {v : Bytes} (h : v.length < 2 ^ 64) :
    Sys.decodeValue (encodeBytesField 1 v) = v := by
  unfold Sys.decodeValue
  rw [encodeBytesField_eq, fieldsOf_wire (carries_bytesField h (by decide))]
  unfold bytesField
  by_cases hv : v.isEmpty = true
  · rw [if_pos hv, List.isEmpty_iff.mp hv]
    rfl
  · rw [if_neg hv]
    rfl

/-- Its replies are the chain's, as long as they fit the engine's
memory. -/
theorem answers_mapHost {store : Store} {op : Syscall}
    (h : (replyOf chain call store op).length < 2 ^ 32) :
    Answers chain call store ⟨op, (mapHost chain call op store).1⟩ := by
  have hvalue : ∀ v : Bytes, (encodeBytesField 1 v).length < 2 ^ 32 →
      valueIn ⟨0, encodeBytesField 1 v⟩ = v := by
    intro v hv
    have hle := length_le_encodeBytesField 1 v
    exact decodeValue_encode (by omega)
  cases op with
  | getObject space key =>
      refine ⟨rfl, ?_⟩
      show ObjectReply (store space key) (replyOf chain call store (.getObject space key))
      simp only [replyOf] at h ⊢
      cases hobj : store space key with
      | none => exact .absent
      | some value =>
          rw [hobj] at h
          have h1 := length_le_encodeBytesField 1 (encodeObject true value [])
          have h2 := length_le_encodeBytesField 2 value
          have h3 : (encodeBytesField 2 value).length ≤ (encodeObject true value []).length := by
            unfold encodeObject
            rw [List.length_append, List.length_append]
            omega
          have h4 : (encodeBytesField 1 (encodeObject true value [])).length < 2 ^ 32 := h
          exact .found (by omega) (by decide)
  | putObject space key obj => exact rfl
  | removeObject space key => exact rfl
  | hash code data => exact hvalue _ h
  | recoverPublicKey dsaType signature digest compressed => exact hvalue _ h
  | getContractId => exact hvalue _ h
  | getArguments =>
      refine ⟨rfl, rfl, ?_⟩
      have h1 := length_le_encodeBytesField 1 (encodeArgumentData call)
      have h2 := length_le_encodeBytesField 2 call.arguments
      have h3 : (encodeBytesField 2 call.arguments).length ≤ (encodeArgumentData call).length := by
        unfold encodeArgumentData
        rw [List.length_append]
        omega
      have h4 : (encodeBytesField 1 (encodeArgumentData call)).length < 2 ^ 32 := h
      omega
  | getHeadInfo => trivial
  | log msg => trivial
  | event name data impacted => trivial

/-- A run on it obeys the chain. -/
theorem run_obeys {α : Type} (p : HostM α) (store : Store)
    (h : ∀ e ∈ (p.run (mapHost chain call) store).trace, e.2.out.length < 2 ^ 32) :
    Obeys chain call store (p.run (mapHost chain call) store).trace
      (p.run (mapHost chain call) store).state := by
  induction p generalizing store with
  | ret a => exact .nil
  | halt x => exact .nil
  | call op k ih =>
      simp only [Prog.run, List.forall_mem_cons] at h ⊢
      exact .cons (answers_mapHost h.1) (ih _ _ h.2)

end MapHost

-- ==================================================== one transaction

/-- A transfer of nothing on chain 42069, signed with the private key 1. -/
def zeroTransfer : ParsedTx where
  kind := .eip155
  chainId := some 42069
  nonce := 0
  gasLimit := 21000
  maxFeePerGas := 1
  maxPriorityFeePerGas := 1
  toAddr := castLegacy.toAddr
  value := 0
  data := []
  r := 0xfe32cb037c22a7cff337f7eda1b6439a1712dd06363bf0fcffed4b1af39f9ebd
  s := 0x4b6f5ff1de33e6ecf7b8bce6a2eee170d85a9c6d7a7883909452d12505c3e4e0
  yParity := 1
  sender := ⟨beBytes 20 0x7e5f4552091a69125d5dfcb7b8c2659029395bdf, length_beBytes 20 _⟩

/-- A chain whose hash and recovery have the real values at that
transaction. -/
def sampleChain : Chain where
  contractId := List.replicate 25 0x33
  hash code data :=
    if code = HASH_KECCAK_256 ∧ data = signingPayload zeroTransfer then
      0x1b :: 0x20 ::
        beBytes 32 0xe7c66cab2852de56f04c7f32a1ad9c9e5e2a9004587eebdd3675290bfdfb007a
    else if code = HASH_KECCAK_256 ∧ data = beBytes 64 keyOne then
      0x1b :: 0x20 ::
        beBytes 32 0xc0a6c424ac7157ae408398df7e5f4552091a69125d5dfcb7b8c2659029395bdf
    else []
  recoverPublicKey dsaType signature digest _ :=
    if dsaType = DSA_ECDSA_SECP256K1
        ∧ signature = hostSignature zeroTransfer.r zeroTransfer.s zeroTransfer.yParity
        ∧ digest = 0x1b :: 0x20 ::
          beBytes 32 0xe7c66cab2852de56f04c7f32a1ad9c9e5e2a9004587eebdd3675290bfdfb007a then
      0x04 :: beBytes 64 keyOne
    else []
where
  /-- The public key of the private key 1. -/
  keyOne : Nat :=
    0x79be667ef9dcbbac55a06295ce870b07029bfcdb2dce28d959f2815b16f81798483ada7726a3c4655da4fbfc0e1108a8fd17b448a68554199c47d08ffb10d4b8

/-- The arguments that submit it. -/
def submitZeroTransfer : Sys.Arguments :=
  ⟨EP_SUBMIT_RAW_TX, encodeBytesField 1 (canonicalRaw zeroTransfer)⟩

example : (parseRawTx strictRlp (syscallCrypto sampleChain.crypto)
    (stripRawTx submitZeroTransfer.arguments) : Except TxParseError ParsedTx).toOption
      = some zeroTransfer := by
  decide +kernel

/-- `Database::basic`, asked by an interpreter. -/
def askBasic (address : Address) :
    Prog DbOp DbRes RevmPanic (Except KoinosDbError (Option AccountInfo)) :=
  Prog.ask (DbOp.basic address)

/-- An account that was touched and otherwise left as it was. -/
def touch (info : Option AccountInfo) : Account where
  info := info.getD ⟨0, 0, KECCAK_EMPTY, none⟩
  storage := []
  storage_nodup := List.nodup_nil
  touched := true
  selfdestructed := false
  created := false

/-- The change set of a transfer of nothing between accounts without
code: the caller's nonce moves. -/
def transferState (caller toAddr coinbase : Address)
    (callerInfo toInfo coinbaseInfo : Option AccountInfo) : EvmState where
  accounts :=
    (caller, { touch callerInfo with
      info := { (touch callerInfo).info with nonce := (touch callerInfo).info.nonce + 1 } })
    :: ((if toAddr = caller then [] else [(toAddr, touch toInfo)])
      ++ if coinbase = caller ∨ coinbase = toAddr then []
        else [(coinbase, touch coinbaseInfo)])
  nodup := by
    by_cases hcoin : coinbase = caller ∨ coinbase = toAddr
    · rw [if_pos hcoin]
      by_cases hto : toAddr = caller
      · simp [hto]
      · simp [hto, Ne.symm hto]
    · rw [if_neg hcoin]
      rw [not_or] at hcoin
      by_cases hto : toAddr = caller
      · simp [hto, Ne.symm hcoin.1]
      · simp [hto, Ne.symm hto, Ne.symm hcoin.1, Ne.symm hcoin.2]

/-- revm on transfers of nothing between accounts without code. -/
def transferRevm : Revm where
  transact _ block tx :=
    match tx.transactTo with
    | .create => pure (.error ⟨"create"⟩)
    | .call toAddr =>
        if tx.value ≠ 0 ∨ tx.gasLimit < 21000 then pure (.error ⟨"unsupported"⟩)
        else do
          let caller ← askBasic tx.caller
          let recipient ← askBasic toAddr
          let coinbase ← askBasic block.coinbase
          match caller, recipient, coinbase with
          | .ok caller, .ok recipient, .ok coinbase =>
              let nonce := (touch caller).info.nonce
              if tx.nonce ≠ some nonce ∨ nonce = 0xffffffffffffffff then
                pure (.error ⟨"nonce"⟩)
              else
                pure (.ok (.success 21000 [] (.call ⟨[], by decide⟩),
                  transferState tx.caller toAddr block.coinbase caller recipient coinbase))
          | _, _, _ => pure (.error ⟨"Database"⟩)

/-- The store of a new contract. -/
def emptyStore : Store := fun _ _ => none

/-- A host that refuses some calls. -/
def refusing (refuses : Syscall → Bool) (host : Syscall → Store → Reply × Store)
    (op : Syscall) (store : Store) : Reply × Store :=
  if refuses op then (⟨1, []⟩, store) else host op store

/-- The production build. -/
def evmBuild : Build := ⟨true, false, fun _ => rfl⟩

end KoinosEvm.Proofs
