/-
A commit updates the EVM's state as a map.

`commitWrites` lists what a commit does to the objects, and `Performs`
says that a program does just that on a chain that keeps a map. The writes
of one change map agree with each other (`commitWrites_agreeing`), so
Lib/Writes.lean reads every object off the list.

`World` is the state as the `Database` trait shows it: accounts, slots
and code. `Updates` says what a change map does to a world; a commit does
it to the world of the store (`commit_updates`).
-/
import KoinosEvm.Lib.Writes
import KoinosEvm.Proofs.Commit

namespace KoinosEvm.Proofs

open Engine Lib

-- ======================================================= lists of writes

/-- An object set or removed. -/
abbrev Write := (ObjectSpace × Bytes) × Option Bytes

/-- The objects after a list of writes. -/
def Store.writeAll (store : Store) (writes : List Write) : Store :=
  Function.curry (applyAll writes (Function.uncurry store))

theorem Store.writeAll_append (store : Store) (xs ys : List Write) :
    store.writeAll (xs ++ ys) = (store.writeAll xs).writeAll ys := by
  unfold writeAll
  rw [applyAll_append, Function.uncurry_curry]

theorem Store.set_eq (store : Store) (space : ObjectSpace) (key : Bytes)
    (v : Option Bytes) : store.set space key v = store.writeAll [((space, key), v)] := by
  funext space' key'
  show (if space' = space ∧ key' = key then v else store space' key')
    = Function.update (Function.uncurry store) (space, key) v (space', key')
  rw [Function.update_apply]
  exact if_congr (by rw [Prod.mk.injEq]) rfl rfl

theorem Store.writeAll_mem {store : Store} {writes : List Write} {space : ObjectSpace}
    {key : Bytes} {v : Option Bytes} (h : AgreeAt writes (space, key))
    (hw : ((space, key), v) ∈ writes) : store.writeAll writes space key = v :=
  applyAll_mem h hw _

theorem Store.writeAll_notMem {store : Store} {writes : List Write} {space : ObjectSpace}
    {key : Bytes} (h : ∀ w ∈ writes, w.1 ≠ (space, key)) :
    store.writeAll writes space key = store space key :=
  applyAll_notMem h _

-- ==================================================== programs that write

section Performs

variable {chain : Chain} {p q : HostM Unit} {ws ws' : List Write}

/-- On the chain, the program does these writes and no others. -/
def Performs (chain : Chain) (p : HostM Unit) (writes : List Write) : Prop :=
  ∀ call store tr store', Exec p tr (.ok ()) → Obeys chain call store tr store' →
    store' = store.writeAll writes

theorem performs_pure : Performs chain (pure ()) [] := by
  intro call store tr store' h hobeys
  obtain ⟨rfl, -⟩ := exec_ret.mp h
  cases hobeys
  rfl

/-- One write through `call_system_must`. -/
theorem performs_must {op : Syscall} {w : Write}
    (happly : ∀ store : Store, store.apply op = store.set w.1.1 w.1.2 w.2) :
    Performs chain (do let _ ← callSystemMust op) [w] := by
  intro call store tr store' h hobeys
  obtain ⟨reply, ⟨-, rfl, -⟩ | ⟨-, ⟨msg, hx⟩, -⟩⟩ := exec_must h
  · cases hobeys with
    | cons _ hnil =>
        cases hnil
        rw [happly, Store.set_eq]
  · cases hx

theorem performs_put (space : ObjectSpace) (key obj : Bytes) :
    Performs chain (Sys.putObject space key obj) [((space, key), some obj)] :=
  performs_must fun _ => rfl

theorem performs_remove (space : ObjectSpace) (key : Bytes) :
    Performs chain (Sys.removeObject space key) [((space, key), none)] :=
  performs_must fun _ => rfl

theorem performs_bind (hp : Performs chain p ws) (hq : Performs chain q ws') :
    Performs chain (p >>= fun _ => q) (ws ++ ws') := by
  intro call store tr store' h hobeys
  obtain ⟨_, t₁, t₂, h₁, h₂, rfl⟩ := exec_bind_ok.mp h
  obtain ⟨mid, ho₁, ho₂⟩ := obeys_append.mp hobeys
  rw [hq call mid t₂ store' h₂ ho₂, hp call store t₁ mid h₁ ho₁, Store.writeAll_append]

/-- A loop body by body. -/
theorem performs_forM {α : Type} {f : α → HostM PUnit} {writes : α → List Write}
    (hf : ∀ a, Performs chain (f a) (writes a)) (xs : List α) :
    Performs chain (xs.forM f) (xs.flatMap writes) := by
  induction xs with
  | nil => exact performs_pure
  | cons x xs ih => exact performs_bind (hf x) ih

end Performs

-- ============================================================ the commit

section Commit

variable (chain : Chain)

/-- The write of one slot: zero is not stored. -/
def slotWrite (address : Address) (slot value : U256) : Write :=
  ((chain.space SPACE_STORAGE, storageKey address (beBytes32 slot)),
    if value = 0 then none else some (beBytes32 value).bytes)

/-- The account carries code that is stored. -/
def StoresCode (info : AccountInfo) (bytecode : Bytes) : Prop :=
  info.code = some bytecode ∧ bytecode ≠ [] ∧ info.codeHash ≠ KECCAK_EMPTY

/-- The write of an account's code, if there is one. -/
def codeWrites (info : AccountInfo) : List Write :=
  match info.code with
  | some bytecode =>
      if !bytecode.isEmpty && info.codeHash ≠ KECCAK_EMPTY then
        [((chain.space SPACE_CODE, info.codeHash.bytes), some bytecode)]
      else []
  | none => []

/-- The writes of one account. -/
def accountWrites (address : Address) (account : Account) : List Write :=
  if !account.touched then []
  else if account.selfdestructed then
    [((chain.space SPACE_ACCOUNTS, address.bytes), none)]
  else
    [((chain.space SPACE_ACCOUNTS, address.bytes), some (serializeAccount account.info))]
      ++ (codeWrites chain account.info
        ++ account.storage.flatMap fun (slot, value) => [slotWrite chain address slot value])

/-- The writes of a commit, in its order. -/
def commitWrites (state : EvmState) : List Write :=
  state.accounts.flatMap fun (address, account) => accountWrites chain address account

variable {chain}

theorem performs_commitSlot (address : Address) (slot value : U256) :
    Performs chain (commitSlot (chain.space SPACE_STORAGE) address slot value)
      [slotWrite chain address slot value] := by
  unfold commitSlot slotWrite
  simp only
  split
  · exact performs_remove _ _
  · exact performs_put _ _ _

theorem performs_commitCode (info : AccountInfo) :
    Performs chain (commitCode (chain.space SPACE_CODE) info) (codeWrites chain info) := by
  unfold commitCode codeWrites
  cases info.code with
  | none => exact performs_pure
  | some bytecode =>
      simp only
      split
      · exact performs_put _ _ _
      · exact performs_pure

theorem performs_commitAccount (address : Address) (account : Account) :
    Performs chain (commitAccount (chain.space SPACE_ACCOUNTS) (chain.space SPACE_CODE)
      (chain.space SPACE_STORAGE) address account) (accountWrites chain address account) := by
  unfold commitAccount accountWrites
  split
  · exact performs_pure
  · split
    · exact performs_remove _ _
    · refine performs_bind (performs_put _ _ _) ?_
      refine performs_bind (performs_commitCode _) ?_
      exact performs_forM (fun (slot, value) => performs_commitSlot address slot value) _

/-- A commit does its writes. -/
theorem performs_commit (state : EvmState) :
    Performs chain (commit state) (commitWrites chain state) := by
  intro call store tr store' h hobeys
  obtain ⟨accounts, code, slots, t₁, t₂, t₃, t₄, h₁, h₂, h₃, hloop, rfl⟩ := exec_commit_ok h
  obtain ⟨s₁, ho₁, hrest₁⟩ := obeys_append.mp hobeys
  obtain ⟨s₂, ho₂, hrest₂⟩ := obeys_append.mp hrest₁
  obtain ⟨s₃, ho₃, ho₄⟩ := obeys_append.mp hrest₂
  -- asking for the spaces changes nothing
  obtain ⟨rfl, ha₁⟩ := obeys_quiet ho₁ (exec_uses h₁ (reads_engineSpace _).quiet)
  obtain ⟨rfl, ha₂⟩ := obeys_quiet ho₂ (exec_uses h₂ (reads_engineSpace _).quiet)
  obtain ⟨rfl, ha₃⟩ := obeys_quiet ho₃ (exec_uses h₃ (reads_engineSpace _).quiet)
  obtain rfl := exec_engineSpace_eq ha₁ h₁
  obtain rfl := exec_engineSpace_eq ha₂ h₂
  obtain rfl := exec_engineSpace_eq ha₃ h₃
  exact performs_forM (fun (address, account) => performs_commitAccount address account) _
    call _ t₄ store' hloop ho₄

-- ========================================================= what it writes

/-- The entry is written back, not removed. -/
def Live (account : Account) : Prop :=
  account.touched = true ∧ account.selfdestructed = false

/-- The entry is removed. -/
def Destroyed (account : Account) : Prop :=
  account.touched = true ∧ account.selfdestructed = true

/-- The writes of a change set, by the entry they come from. -/
inductive Writes (chain : Chain) (state : EvmState) : Write → Prop
  | destroyed {address : Address} {account : Account} :
      (address, account) ∈ state.accounts → Destroyed account →
      Writes chain state ((chain.space SPACE_ACCOUNTS, address.bytes), none)
  | account {address : Address} {account : Account} :
      (address, account) ∈ state.accounts → Live account →
      Writes chain state ((chain.space SPACE_ACCOUNTS, address.bytes),
        some (serializeAccount account.info))
  | code {address : Address} {account : Account} {bytecode : Bytes} :
      (address, account) ∈ state.accounts → Live account →
      StoresCode account.info bytecode →
      Writes chain state ((chain.space SPACE_CODE, account.info.codeHash.bytes),
        some bytecode)
  | slot {address : Address} {account : Account} {slot value : U256} :
      (address, account) ∈ state.accounts → Live account →
      (slot, value) ∈ account.storage →
      Writes chain state (slotWrite chain address slot value)

theorem mem_codeWrites {info : AccountInfo} {w : Write} :
    w ∈ codeWrites chain info ↔ ∃ bytecode, StoresCode info bytecode ∧
      w = ((chain.space SPACE_CODE, info.codeHash.bytes), some bytecode) := by
  unfold codeWrites StoresCode
  cases info.code with
  | none => simp
  | some bytecode =>
      simp only
      by_cases hstored : bytecode ≠ [] ∧ info.codeHash ≠ KECCAK_EMPTY
      · rw [if_pos (by simp [hstored])]
        simp [hstored]
      · rw [if_neg (by simpa using hstored)]
        simp only [List.not_mem_nil, false_iff, not_exists, not_and]
        intro code hcode
        obtain ⟨hsome, hrest⟩ := hcode
        injection hsome with hsome
        rw [← hsome] at hrest
        exact absurd hrest hstored

theorem mem_accountWrites {address : Address} {account : Account} {w : Write} :
    w ∈ accountWrites chain address account ↔
      (Destroyed account ∧ w = ((chain.space SPACE_ACCOUNTS, address.bytes), none)) ∨
      (Live account ∧
        (w = ((chain.space SPACE_ACCOUNTS, address.bytes),
            some (serializeAccount account.info)) ∨
          w ∈ codeWrites chain account.info ∨
          ∃ slot value, (slot, value) ∈ account.storage ∧
            w = slotWrite chain address slot value)) := by
  unfold accountWrites Destroyed Live
  cases account.touched with
  | false => simp
  | true =>
      cases account.selfdestructed with
      | true => simp
      | false => simp [List.mem_flatMap]

/-- The writes of a commit. -/
theorem mem_commitWrites {state : EvmState} {w : Write} :
    w ∈ commitWrites chain state ↔ Writes chain state w := by
  unfold commitWrites
  rw [List.mem_flatMap]
  refine ⟨?_, ?_⟩
  · intro h
    obtain ⟨⟨address, account⟩, hmem, hw⟩ := h
    rcases mem_accountWrites.mp hw with ⟨hd, rfl⟩ | ⟨hlive, rfl | hcode | hslot⟩
    · exact .destroyed hmem hd
    · exact .account hmem hlive
    · obtain ⟨bytecode, hstores, rfl⟩ := mem_codeWrites.mp hcode
      exact .code hmem hlive hstores
    · obtain ⟨slot, value, hslot, rfl⟩ := hslot
      exact .slot hmem hlive hslot
  · intro h
    cases h with
    | destroyed hmem hd => exact ⟨_, hmem, mem_accountWrites.mpr (Or.inl ⟨hd, rfl⟩)⟩
    | account hmem hlive =>
        exact ⟨_, hmem, mem_accountWrites.mpr (Or.inr ⟨hlive, Or.inl rfl⟩)⟩
    | code hmem hlive hstores =>
        exact ⟨_, hmem, mem_accountWrites.mpr
          (Or.inr ⟨hlive, Or.inr (Or.inl (mem_codeWrites.mpr ⟨_, hstores, rfl⟩))⟩)⟩
    | slot hmem hlive hslot =>
        exact ⟨_, hmem, mem_accountWrites.mpr
          (Or.inr ⟨hlive, Or.inr (Or.inr ⟨_, _, hslot, rfl⟩)⟩)⟩

/-- Equal code hashes mean equal code. -/
def CodesAgree (state : EvmState) : Prop :=
  ∀ x ∈ state.accounts, ∀ y ∈ state.accounts, ∀ code code', x.2.info.code = some code →
    y.2.info.code = some code' → x.2.info.codeHash = y.2.info.codeHash → code = code'

/-- An address has one entry. -/
theorem entry_unique {state : EvmState} {address address' : Address}
    {account account' : Account} (h : (address, account) ∈ state.accounts)
    (h' : (address', account') ∈ state.accounts) (hbytes : address.bytes = address'.bytes) :
    account = account' := by
  have heq := List.inj_on_of_nodup_map state.nodup h h' (FixedBytes.ext hbytes)
  exact congrArg Prod.snd heq

/-- A storage key names its address and its slot. -/
theorem storageKey_inj {address address' : Address} {slot slot' : U256}
    (h : storageKey address (beBytes32 slot) = storageKey address' (beBytes32 slot')) :
    address.bytes = address'.bytes ∧ slot = slot' := by
  obtain ⟨haddr, hslot⟩ := List.append_inj h (by rw [address.len, address'.len])
  refine ⟨haddr, BitVec.eq_of_toNat_eq ?_⟩
  have hnat := congrArg ofBe (show beBytes 32 slot.toNat = beBytes 32 slot'.toNat from hslot)
  rw [ofBe_beBytes, ofBe_beBytes, show (256 : Nat) ^ 32 = 2 ^ 256 by norm_num,
    Nat.mod_eq_of_lt slot.isLt, Nat.mod_eq_of_lt slot'.isLt] at hnat
  exact hnat

/-- The spaces of the writes are told apart by their ids. -/
theorem key_ne {id id' : UInt32} (h : id ≠ id') (key key' : Bytes) :
    (chain.space id, key) ≠ (chain.space id', key') := fun heq =>
  chain.space_ne h (congrArg Prod.fst heq)

/-- A write in the accounts space is of a touched account. -/
theorem Writes.in_accounts {state : EvmState} {w : Write} {key : Bytes}
    (hw : Writes chain state w) (hkey : w.1 = (chain.space SPACE_ACCOUNTS, key)) :
    ∃ address account, (address, account) ∈ state.accounts ∧ account.touched = true ∧
      address.bytes = key ∧
      w.2 = if account.selfdestructed then none
        else some (serializeAccount account.info) := by
  cases hw with
  | destroyed hmem hd =>
      exact ⟨_, _, hmem, hd.1, congrArg Prod.snd hkey, by rw [hd.2]; rfl⟩
  | account hmem hlive =>
      exact ⟨_, _, hmem, hlive.1, congrArg Prod.snd hkey, by rw [hlive.2]; rfl⟩
  | code => exact absurd hkey (key_ne (by decide) _ _)
  | slot => exact absurd hkey (key_ne (by decide) _ _)

/-- A write in the storage space is of a listed slot. -/
theorem Writes.in_storage {state : EvmState} {w : Write} {key : Bytes}
    (hw : Writes chain state w) (hkey : w.1 = (chain.space SPACE_STORAGE, key)) :
    ∃ address account slot value, (address, account) ∈ state.accounts ∧ Live account ∧
      (slot, value) ∈ account.storage ∧ storageKey address (beBytes32 slot) = key ∧
      w = slotWrite chain address slot value := by
  cases hw with
  | destroyed => exact absurd hkey (key_ne (by decide) _ _)
  | account => exact absurd hkey (key_ne (by decide) _ _)
  | code => exact absurd hkey (key_ne (by decide) _ _)
  | slot hmem hlive hslot =>
      exact ⟨_, _, _, _, hmem, hlive, hslot, congrArg Prod.snd hkey, rfl⟩

/-- A write in the code space is of a live account's code. -/
theorem Writes.in_code {state : EvmState} {w : Write} {key : Bytes}
    (hw : Writes chain state w) (hkey : w.1 = (chain.space SPACE_CODE, key)) :
    ∃ address account bytecode, (address, account) ∈ state.accounts ∧ Live account ∧
      StoresCode account.info bytecode ∧ account.info.codeHash.bytes = key ∧
      w.2 = some bytecode := by
  cases hw with
  | destroyed => exact absurd hkey (key_ne (by decide) _ _)
  | account => exact absurd hkey (key_ne (by decide) _ _)
  | code hmem hlive hstores =>
      exact ⟨_, _, _, hmem, hlive, hstores, congrArg Prod.snd hkey, rfl⟩
  | slot => exact absurd hkey (key_ne (by decide) _ _)

/-- An account is written once. -/
theorem agreeAt_account {state : EvmState} (key : Bytes) :
    AgreeAt (commitWrites chain state) (chain.space SPACE_ACCOUNTS, key) := by
  intro x hx y hy hxk hyk
  obtain ⟨address, account, hmem, -, haddr, hval⟩ := (mem_commitWrites.mp hx).in_accounts hxk
  obtain ⟨address', account', hmem', -, haddr', hval'⟩ :=
    (mem_commitWrites.mp hy).in_accounts hyk
  obtain rfl := entry_unique hmem hmem' (haddr.trans haddr'.symm)
  rw [hval, hval']

/-- A slot is written once. -/
theorem agreeAt_slot {state : EvmState} (key : Bytes) :
    AgreeAt (commitWrites chain state) (chain.space SPACE_STORAGE, key) := by
  intro x hx y hy hxk hyk
  obtain ⟨address, account, slot, value, hmem, -, hslot, hkey, rfl⟩ :=
    (mem_commitWrites.mp hx).in_storage hxk
  obtain ⟨address', account', slot', value', hmem', -, hslot', hkey', rfl⟩ :=
    (mem_commitWrites.mp hy).in_storage hyk
  obtain ⟨haddr, rfl⟩ := storageKey_inj (hkey.trans hkey'.symm)
  obtain rfl := entry_unique hmem hmem' haddr
  have hsame := List.inj_on_of_nodup_map account.storage_nodup hslot hslot' rfl
  obtain ⟨-, rfl⟩ := Prod.mk.inj hsame
  rfl

/-- A code hash is written with one code. -/
theorem agreeAt_code {state : EvmState} (hcodes : CodesAgree state) (key : Bytes) :
    AgreeAt (commitWrites chain state) (chain.space SPACE_CODE, key) := by
  intro x hx y hy hxk hyk
  obtain ⟨_, _, code, hmem, -, hstores, hhash, hval⟩ := (mem_commitWrites.mp hx).in_code hxk
  obtain ⟨_, _, code', hmem', -, hstores', hhash', hval'⟩ :=
    (mem_commitWrites.mp hy).in_code hyk
  rw [hval, hval', hcodes _ hmem _ hmem' code code' hstores.1 hstores'.1
    (FixedBytes.ext (hhash.trans hhash'.symm))]

/-- The writes of one change set do not contradict each other. -/
theorem commitWrites_agreeing {state : EvmState} (hcodes : CodesAgree state) :
    Agreeing (commitWrites chain state) := by
  intro k x hx y hy hxk hyk
  subst hxk
  cases mem_commitWrites.mp hx with
  | destroyed => exact agreeAt_account _ _ hx y hy rfl hyk
  | account => exact agreeAt_account _ _ hx y hy rfl hyk
  | code => exact agreeAt_code hcodes _ _ hx y hy rfl hyk
  | slot => exact agreeAt_slot _ _ hx y hy rfl hyk

end Commit

-- =========================================================== the world

/-- The EVM's state as the `Database` trait shows it. -/
structure World where
  account : Address → Option AccountInfo
  storage : Address → U256 → U256
  code : B256 → Bytes

/-- The world of a store. -/
def Chain.world (chain : Chain) (store : Store) : World where
  account := chain.account store
  storage := chain.slot store
  code := chain.code store

/-- On the chain's replies about this store, the program returns `a`. -/
def Returns {α : Type} (chain : Chain) (store : Store) (p : HostM α) (a : α) : Prop :=
  ∀ call tr o, Exec p tr o → (∀ e ∈ tr, Answers chain call store e) → o = .ok a

/-- The database reads this world from the store. -/
structure ReadsAs (chain : Chain) (store : Store) (w : World) : Prop where
  basic : ∀ address, Returns chain store (basic address) (.ok (w.account address))
  storage : ∀ address index,
    Returns chain store (storage address index) (.ok (w.storage address index))
  codeByHash : ∀ codeHash, Returns chain store (codeByHash codeHash) (.ok (w.code codeHash))

/-- What a change map does to a world. -/
structure Updates (state : EvmState) (w w' : World) : Prop where
  account : ∀ {address account}, (address, account) ∈ state.accounts → Live account →
    w'.account address = some { account.info with code := none }
  slot : ∀ {address account}, (address, account) ∈ state.accounts → Live account →
    ∀ {slot value}, (slot, value) ∈ account.storage → w'.storage address slot = value
  code : ∀ {address account}, (address, account) ∈ state.accounts → Live account →
    ∀ {bytecode}, StoresCode account.info bytecode →
    w'.code account.info.codeHash = bytecode
  destroyed : ∀ {address account}, (address, account) ∈ state.accounts →
    Destroyed account → w'.account address = none
  account_frame : ∀ address,
    (∀ account, (address, account) ∈ state.accounts → account.touched = false) →
    w'.account address = w.account address
  storage_frame : ∀ address slot,
    (∀ account, (address, account) ∈ state.accounts → Live account →
      ∀ value, (slot, value) ∉ account.storage) →
    w'.storage address slot = w.storage address slot
  code_frame : ∀ codeHash,
    (∀ address account, (address, account) ∈ state.accounts → Live account →
      ∀ bytecode, StoresCode account.info bytecode → account.info.codeHash ≠ codeHash) →
    w'.code codeHash = w.code codeHash

section World

variable {chain : Chain} {call : Sys.Arguments} {store store' : Store} {state : EvmState}

/-- A chain with a contract id lets a reading program go on. -/
theorem answers_smooth (hid : chain.contractId ≠ []) {tr : List HostEv}
    (hall : ∀ e ∈ tr, Answers chain call store e) (hq : ∀ e ∈ tr, Quiet e.1) :
    ∀ e ∈ tr, Smooth e := by
  intro e he
  obtain ⟨op, reply⟩ := e
  have hquiet : isMust op = false := hq _ he
  refine ⟨?_, ?_⟩
  · intro hmust
    rw [show isMust op = true from hmust] at hquiet
    cases hquiet
  · intro hop
    obtain rfl : op = .getContractId := hop
    rw [show valueIn reply = chain.contractId from hall _ he]
    exact hid

/-- A reading program returns what it can only return. -/
theorem returns_of_reads {α : Type} {p : HostM α} {a : α} (hid : chain.contractId ≠ [])
    (hp : Reads p)
    (hval : ∀ call tr r, (∀ e ∈ tr, Answers chain call store e) → Exec p tr (.ok r) → r = a) :
    Returns chain store p a := by
  intro call tr o h hall
  obtain ⟨r, rfl⟩ := (hp.governed tr o h).mpr
    (answers_smooth hid hall (exec_uses h hp.quiet))
  rw [hval call tr r hall h]

theorem readsAs_world (hid : chain.contractId ≠ []) (store : Store) :
    ReadsAs chain store (chain.world store) where
  basic _ := returns_of_reads hid (reads_basic _)
    fun _ _ _ hall h => exec_basic_eq hall h
  storage _ _ := returns_of_reads hid (reads_storage _ _)
    fun _ _ _ hall h => exec_storage_eq hall h
  codeByHash _ := returns_of_reads hid (reads_codeByHash _)
    fun _ _ _ hall h => exec_codeByHash_eq hall h

-- ================================================ the writes, read back

section ReadBack

variable {address : Address} {account : Account}

theorem account_live (hmem : (address, account) ∈ state.accounts) (hlive : Live account) :
    chain.account (store.writeAll (commitWrites chain state)) address
      = some { account.info with code := none } := by
  rw [Chain.account, Store.writeAll_mem (agreeAt_account _)
    (mem_commitWrites.mpr (.account hmem hlive)), Option.bind_some,
    deserializeAccount_serialize]

theorem account_destroyed (hmem : (address, account) ∈ state.accounts)
    (hd : Destroyed account) :
    chain.account (store.writeAll (commitWrites chain state)) address = none := by
  rw [Chain.account, Store.writeAll_mem (agreeAt_account _)
    (mem_commitWrites.mpr (.destroyed hmem hd)), Option.bind_none]

theorem account_untouched
    (h : ∀ account, (address, account) ∈ state.accounts → account.touched = false) :
    chain.account (store.writeAll (commitWrites chain state)) address
      = chain.account store address := by
  rw [Chain.account, Chain.account, Store.writeAll_notMem]
  intro w hw hkey
  obtain ⟨address', account, hmem, htouched, haddr, -⟩ :=
    (mem_commitWrites.mp hw).in_accounts hkey
  obtain rfl : address' = address := FixedBytes.ext haddr
  exact absurd (h account hmem) (ne_false_of_eq_true htouched)

theorem slot_written (hmem : (address, account) ∈ state.accounts) (hlive : Live account)
    {slot value : U256} (hslot : (slot, value) ∈ account.storage) :
    chain.slot (store.writeAll (commitWrites chain state)) address slot = value := by
  rw [Chain.slot, Store.writeAll_mem (agreeAt_slot _)
    (mem_commitWrites.mpr (.slot hmem hlive hslot))]
  by_cases hzero : value = 0
  · rw [if_pos hzero, hzero]
  · rw [if_neg hzero]
    show (if (beBytes32 value).bytes.length = 32 then _ else _) = value
    rw [if_pos (beBytes32 value).len, u256FromBeSlice_beBytes32]

theorem slot_kept {slot : U256}
    (h : ∀ account, (address, account) ∈ state.accounts → Live account →
      ∀ value, (slot, value) ∉ account.storage) :
    chain.slot (store.writeAll (commitWrites chain state)) address slot
      = chain.slot store address slot := by
  rw [Chain.slot, Chain.slot, Store.writeAll_notMem]
  intro w hw hkey
  obtain ⟨address', account, slot', value, hmem, hlive, hslot, hstorageKey, -⟩ :=
    (mem_commitWrites.mp hw).in_storage hkey
  obtain ⟨haddr, rfl⟩ := storageKey_inj hstorageKey
  obtain rfl : address' = address := FixedBytes.ext haddr
  exact h account hmem hlive value hslot

theorem code_written (hcodes : CodesAgree state) (hmem : (address, account) ∈ state.accounts)
    (hlive : Live account) {bytecode : Bytes} (hstores : StoresCode account.info bytecode) :
    chain.code (store.writeAll (commitWrites chain state)) account.info.codeHash
      = bytecode := by
  rw [Chain.code, if_neg hstores.2.2, Store.writeAll_mem (agreeAt_code hcodes _)
    (mem_commitWrites.mpr (.code hmem hlive hstores)), Option.getD_some]

theorem code_kept {codeHash : B256}
    (h : ∀ address account, (address, account) ∈ state.accounts → Live account →
      ∀ bytecode, StoresCode account.info bytecode → account.info.codeHash ≠ codeHash) :
    chain.code (store.writeAll (commitWrites chain state)) codeHash
      = chain.code store codeHash := by
  rw [Chain.code, Chain.code, Store.writeAll_notMem]
  intro w hw hkey
  obtain ⟨address, account, bytecode, hmem, hlive, hstores, hhash, -⟩ :=
    (mem_commitWrites.mp hw).in_code hkey
  exact h address account hmem hlive bytecode hstores (FixedBytes.ext hhash)

end ReadBack

/-- The writes of a commit update the world. -/
theorem updates_writeAll (hcodes : CodesAgree state) :
    Updates state (chain.world store)
      (chain.world (store.writeAll (commitWrites chain state))) where
  account hmem hlive := account_live hmem hlive
  slot hmem hlive _ _ hslot := slot_written hmem hlive hslot
  code hmem hlive _ hstores := code_written hcodes hmem hlive hstores
  destroyed hmem hd := account_destroyed hmem hd
  account_frame _ h := account_untouched h
  storage_frame _ _ h := slot_kept h
  code_frame _ h := code_kept h

-- ============================================================ the order

/-- Accounts that differ at most in the order of their slots. -/
structure SameAccount (x y : Account) : Prop where
  info : x.info = y.info
  touched : x.touched = y.touched
  selfdestructed : x.selfdestructed = y.selfdestructed
  storage : ∀ entry, entry ∈ x.storage ↔ entry ∈ y.storage

/-- One change map, iterated in two orders. -/
structure SameChanges (s t : EvmState) : Prop where
  forth : ∀ {address x}, (address, x) ∈ s.accounts →
    ∃ y, (address, y) ∈ t.accounts ∧ SameAccount x y
  back : ∀ {address y}, (address, y) ∈ t.accounts →
    ∃ x, (address, x) ∈ s.accounts ∧ SameAccount y x

theorem writes_of_same {s t : EvmState}
    (h : ∀ {address x}, (address, x) ∈ s.accounts →
      ∃ y, (address, y) ∈ t.accounts ∧ SameAccount x y)
    {w : Write} (hw : Writes chain s w) : Writes chain t w := by
  cases hw with
  | destroyed hmem hd =>
      obtain ⟨y, hy, hsame⟩ := h hmem
      rw [Destroyed, hsame.touched, hsame.selfdestructed] at hd
      exact .destroyed hy hd
  | account hmem hlive =>
      obtain ⟨y, hy, hsame⟩ := h hmem
      rw [Live, hsame.touched, hsame.selfdestructed] at hlive
      rw [hsame.info]
      exact .account hy hlive
  | code hmem hlive hstores =>
      obtain ⟨y, hy, hsame⟩ := h hmem
      rw [Live, hsame.touched, hsame.selfdestructed] at hlive
      rw [hsame.info] at hstores ⊢
      exact .code hy hlive hstores
  | slot hmem hlive hslot =>
      obtain ⟨y, hy, hsame⟩ := h hmem
      rw [Live, hsame.touched, hsame.selfdestructed] at hlive
      exact .slot hy hlive ((hsame.storage _).mp hslot)

/-- The order of the change map does not matter. -/
theorem writeAll_same {s t : EvmState} (hcodes : CodesAgree s) (hsame : SameChanges s t) :
    store.writeAll (commitWrites chain s) = store.writeAll (commitWrites chain t) := by
  unfold Store.writeAll
  rw [applyAll_congr (commitWrites_agreeing hcodes) fun w => ?_]
  rw [mem_commitWrites, mem_commitWrites]
  exact ⟨writes_of_same hsame.forth, writes_of_same hsame.back⟩

/-- A commit returns; the database reads the world of the store before it
and after it; the change map takes the one to the other, whatever the
order in which it is iterated. -/
theorem commit_updates (hid : chain.contractId ≠ []) (hcodes : CodesAgree state)
    {tr : List HostEv} {o : Except Exit Unit} (h : Exec (commit state) tr o)
    (hobeys : Obeys chain call store tr store') :
    o = .ok () ∧
    (ReadsAs chain store (chain.world store) ∧ ReadsAs chain store' (chain.world store') ∧
      Updates state (chain.world store) (chain.world store')) ∧
    ∀ other call₂ tr₂ o₂ store₂, SameChanges state other → Exec (commit other) tr₂ o₂ →
      Obeys chain call₂ store tr₂ store₂ → store₂ = store' := by
  have hreturns : ∀ {state call tr o store'}, Exec (commit state) tr o →
      Obeys chain call store tr store' → o = .ok () := by
    intro state call tr o store' hexec hob
    have hsmooth := obeys_smooth hob hid (exec_uses hexec (eventless_commit state))
    exact ((governed_commit state tr o hexec).mpr hsmooth).choose_spec
  obtain rfl := hreturns h hobeys
  have hstore := performs_commit state call store tr store' h hobeys
  refine ⟨rfl, ⟨readsAs_world hid _, readsAs_world hid _, ?_⟩, ?_⟩
  · rw [hstore]
    exact updates_writeAll hcodes
  · intro other call₂ tr₂ o₂ store₂ hsame h₂ hobeys₂
    obtain rfl := hreturns h₂ hobeys₂
    rw [hstore, performs_commit other call₂ store tr₂ store₂ h₂ hobeys₂,
      writeAll_same hcodes hsame]

end World

-- ============================================================ one commit

/-- A contract with one slot set and one cleared. -/
def sampleContract : Account where
  info := ⟨5, 1, FixedBytes.zero 32, some [0x60, 0x00]⟩
  storage := [(0, 7), (1, 0)]
  storage_nodup := by decide
  touched := true
  selfdestructed := false
  created := true

/-- The contract, and an account that is destroyed. -/
def sampleChanges : EvmState where
  accounts :=
    [(zeroTransfer.sender, sampleContract),
      (FixedBytes.zero 20, { sampleContract with selfdestructed := true })]
  nodup := by decide

/-- The commit on the host that keeps a map. -/
@[irreducible] def sampleCommit : Run Syscall (fun _ => Reply) Exit Unit Store :=
  (commit sampleChanges).run (mapHost sampleChain submitZeroTransfer) emptyStore

theorem sampleCommit_exec : Exec (commit sampleChanges) sampleCommit.trace (.ok ()) := by
  have hexec : Exec (commit sampleChanges) sampleCommit.trace sampleCommit.outcome := by
    unfold sampleCommit
    exact run_exec _ _ _
  rwa [show sampleCommit.outcome = .ok () by decide +kernel] at hexec

theorem sampleCommit_obeys : Obeys sampleChain submitZeroTransfer emptyStore
    sampleCommit.trace sampleCommit.state := by
  have hsmall : ∀ e ∈ sampleCommit.trace, e.2.out.length < 2 ^ 32 := by decide +kernel
  unfold sampleCommit at hsmall ⊢
  exact run_obeys _ _ hsmall

theorem sampleCommit_updates :
    Updates sampleChanges (sampleChain.world emptyStore)
      (sampleChain.world sampleCommit.state) := by
  have hcodes : CodesAgree sampleChanges := by
    intro x hx y hy code code' hcode hcode' _
    have hall : ∀ e ∈ sampleChanges.accounts, e.2.info.code = some [0x60, 0x00] := by decide
    rw [hall x hx] at hcode
    rw [hall y hy] at hcode'
    injection hcode with hcode
    injection hcode' with hcode'
    rw [← hcode, ← hcode']
  exact (commit_updates (by decide) hcodes sampleCommit_exec sampleCommit_obeys).2.1.2.2

end KoinosEvm.Proofs
