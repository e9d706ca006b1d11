/-
The Phase-0 entry points keep a map.

The abstract machine has one map from keys to values: `store_value` sets a
key, `read_value` reads one, and nothing else touches it (`MapStep`). The
contract refines it: of all entry points only `store_value` writes to the
test space (`uses_elsewhere`), so a served call is a step of the machine on
the objects of that space (`serves_mapStep`), and so is a history of calls.
That a read returns what was written last is then a fact about the machine
(`history_reads`).
-/
import KoinosEvm.Proofs.ServedCalls

namespace KoinosEvm.Proofs

open Engine Lib

-- ======================================================= the abstract map

/-- What the arguments of `store_value` store, if they are well formed. -/
def storedBy (args : Bytes) : Option (Bytes × Bytes) :=
  if args.length < 5 ∨ 2 ^ 32 ≤ 4 + leU32 args ∨ args.length < 4 + leU32 args then none
  else some ((args.take (4 + leU32 args)).drop 4, args.drop (4 + leU32 args))

/-- The values by key. -/
abbrev Values := Bytes → Option Bytes

/-- One call on the map: how it may exit, and the map behind it. -/
inductive MapStep : Values → Served → Values → Prop
  | stored {map : Values} {args key value : Bytes} : storedBy args = some (key, value) →
      MapStep map ⟨⟨EP_STORE_VALUE, args⟩, .success []⟩ (Function.update map key (some value))
  | refused {map : Values} {args msg : Bytes} : storedBy args = none →
      MapStep map ⟨⟨EP_STORE_VALUE, args⟩, .failure msg⟩ map
  | read {map : Values} {key : Bytes} :
      MapStep map ⟨⟨EP_READ_VALUE, key⟩, .success ((map key).getD [])⟩ map
  | other {map : Values} {s : Served} : s.call.entryPoint ≠ EP_STORE_VALUE →
      s.call.entryPoint ≠ EP_READ_VALUE → MapStep map s map

/-- The write of a call. -/
def putOf (s : Served) : Option (Bytes × Option Bytes) :=
  if s.call.entryPoint = EP_STORE_VALUE then
    (storedBy s.call.arguments).map fun put => (put.1, some put.2)
  else none

theorem putOf_of_ne {s : Served} (h : s.call.entryPoint ≠ EP_STORE_VALUE) : putOf s = none :=
  if_neg h

/-- A step applies its write. -/
theorem MapStep.apply {map map' : Values} {s : Served} (h : MapStep map s map') :
    map' = applyAll (putOf s).toList map := by
  cases h with
  | stored hput => simp [putOf, hput]
  | refused hput => simp [putOf, hput]
  | read => rfl
  | other hstore _ => rw [putOf_of_ne hstore]; rfl

/-- .. and a history its writes, in order. -/
theorem history_values {map map' : Values} {calls : List Served}
    (h : History MapStep map calls map') : map' = applyAll (calls.filterMap putOf) map := by
  induction h with
  | nil => rfl
  | @cons a b c s calls hs _ ih =>
      rw [ih, hs.apply]
      cases hput : putOf s with
      | none => simp [hput]
      | some w => simp [hput]

/-- On the map, a read returns what the calls in front of it left there,
and a store succeeds where its arguments are well formed. -/
theorem history_reads {map map' : Values} {before after : List Served} {s : Served}
    (h : History MapStep map (before ++ s :: after) map') :
    (s.call.entryPoint = EP_READ_VALUE → s.exit =
      .success ((applyAll (before.filterMap putOf) map s.call.arguments).getD [])) ∧
    (s.call.entryPoint = EP_STORE_VALUE →
      (s.exit = .success [] ↔ (storedBy s.call.arguments).isSome)) := by
  obtain ⟨mid, mid', hbefore, hs, -⟩ := history_split.mp h
  rw [← history_values hbefore]
  cases hs with
  | stored hput => exact ⟨fun h => absurd h (by simp [EP_STORE_VALUE, EP_READ_VALUE]), by simp [hput]⟩
  | refused hput => exact ⟨fun h => absurd h (by simp [EP_STORE_VALUE, EP_READ_VALUE]), by simp [hput]⟩
  | read => exact ⟨fun _ => rfl, fun h => absurd h (by simp [EP_STORE_VALUE, EP_READ_VALUE])⟩
  | other hstore hread => exact ⟨fun h => absurd h hread, fun h => absurd h hstore⟩

-- ============================================== everything else's writes

/-- The space is not the test space. -/
def OffTestSpace (space : ObjectSpace) : Prop := space.id ≠ SPACE_TEST

section Elsewhere

theorem log_elsewhere (msg : Bytes) : WritesTo OffTestSpace (.log msg) := trivial

theorem event_elsewhere (name : String) (data : Bytes) (impacted : List Bytes) :
    WritesTo OffTestSpace (.event name data impacted) := trivial

/-- A program on a space of the engine. -/
theorem uses_inSpace {α : Type} {S : ObjectSpace → Prop} {id : UInt32}
    {f : ObjectSpace → HostM α}
    (hf : ∀ zone, Uses (WritesTo S) Aborts (f ⟨false, zone, id⟩)) :
    Uses (WritesTo S) Aborts (engineSpace id >>= f) := by
  unfold engineSpace
  rw [bind_assoc]
  exact uses_bind (uses_contractZone (fun _ => trivial) trivial) fun zone => hf zone

theorem uses_commitSlot {space : ObjectSpace} (hspace : OffTestSpace space) (address : Address)
    (slot value : U256) : Uses (WritesTo OffTestSpace) Aborts
      (commitSlot space address slot value) := by
  unfold commitSlot
  exact uses_ite (fun _ => uses_remove log_elsewhere hspace)
    fun _ => uses_put log_elsewhere hspace

theorem uses_commitAccount {accounts code slots : ObjectSpace} (haccounts : OffTestSpace accounts)
    (hcode : OffTestSpace code) (hslots : OffTestSpace slots) (address : Address)
    (account : Account) : Uses (WritesTo OffTestSpace) Aborts
      (commitAccount accounts code slots address account) := by
  unfold commitAccount
  refine uses_ite (fun _ => uses_pure _) fun _ => ?_
  refine uses_ite (fun _ => uses_remove log_elsewhere haccounts) fun _ => ?_
  refine uses_bind (uses_put log_elsewhere haccounts) fun _ => ?_
  refine uses_bind ?_ fun _ => uses_forM (fun slot => uses_commitSlot hslots _ _ _) _
  unfold commitCode
  split
  · exact uses_ite (fun _ => uses_put log_elsewhere hcode) fun _ => uses_pure _
  · exact uses_pure _

/-- A commit writes accounts, code and slots. -/
theorem uses_commitElsewhere (state : EvmState) :
    Uses (WritesTo OffTestSpace) Aborts (commit state) := by
  unfold commit
  refine uses_inSpace fun accounts => uses_inSpace fun code => uses_inSpace fun slots => ?_
  refine uses_forM (fun entry => ?_) _
  exact uses_commitAccount (by simp [OffTestSpace, SPACE_ACCOUNTS, SPACE_TEST])
    (by simp [OffTestSpace, SPACE_CODE, SPACE_TEST])
    (by simp [OffTestSpace, SPACE_STORAGE, SPACE_TEST]) entry.1 entry.2

theorem uses_transactCommit (revm : Revm) (block : BlockEnv) (tx : TxEnv) :
    Uses (WritesTo OffTestSpace) Aborts (transactCommit revm block tx) := by
  refine uses_bind ((quiet_transact revm block tx).mono fun _ => quiet_writesTo _) fun r => ?_
  cases r with
  | error e => exact uses_pure _
  | ok out => exact uses_bind (uses_commitElsewhere _) fun _ => uses_pure _

theorem uses_executeCommitting (revm : Revm) (args : EvmCallArgs) :
    Uses (WritesTo OffTestSpace) Aborts (executeEvm revm args true) :=
  uses_bind (reads_buildBlockEnv.writesTo _) fun _ => uses_transactCommit _ _ _

theorem uses_handleExecute (revm : Revm) (args : Bytes) :
    Uses (WritesTo OffTestSpace) Aborts (handleExecute revm args) := by
  refine uses_bind (uses_executeCommitting _ _) fun r => ?_
  cases r with
  | ok result => exact uses_response log_elsewhere event_elsewhere result
  | error e => exact uses_bind (uses_log log_elsewhere _) fun _ => uses_pure _

theorem uses_handleDeployCode (revm : Revm) (args : Bytes) :
    Uses (WritesTo OffTestSpace) Aborts (handleDeployCode revm args) := by
  refine uses_bind (uses_executeCommitting _ _) fun r => ?_
  cases r with
  | ok result => exact uses_response log_elsewhere event_elsewhere result
  | error e => exact uses_bind (uses_log log_elsewhere _) fun _ => uses_pure _

theorem uses_logAndReject (msg : String) :
    Uses (WritesTo OffTestSpace) Aborts (logAndReject msg) :=
  uses_bind (uses_log log_elsewhere _) fun _ =>
    uses_rejectSubmit log_elsewhere event_elsewhere _

theorem uses_checkNonce (revm : Revm) (p : ParsedTx) :
    Uses (WritesTo OffTestSpace) Aborts (checkNonce revm p) := by
  refine uses_bind ((reads_basic _).writesTo _) fun r => ?_
  cases r with
  | error e => exact uses_rejectSubmit log_elsewhere event_elsewhere _
  | ok account =>
      refine uses_ite (fun _ => uses_logAndReject _) fun _ => ?_
      refine uses_bind (reads_buildBlockEnv.writesTo _) fun block => ?_
      refine uses_bind (uses_transactCommit _ _ _) fun r => ?_
      cases r with
      | ok result => exact uses_response log_elsewhere event_elsewhere result
      | error e => exact uses_logAndReject _

theorem uses_handleSubmitRawTx (revm : Revm) (rlp : AlloyRlp) (args : Bytes) :
    Uses (WritesTo OffTestSpace) Aborts (handleSubmitRawTx revm rlp args) := by
  refine uses_ite (fun _ => uses_rejectSubmit log_elsewhere event_elsewhere _) fun _ => ?_
  refine uses_bind ((reads_parseRaw rlp _).writesTo _) fun r => ?_
  cases r with
  | error e => exact uses_logAndReject _
  | ok p =>
      dsimp only
      split
      · exact uses_ite (fun _ => uses_logAndReject _) fun _ => uses_checkNonce revm p
      · exact uses_checkNonce revm p

/-- In every build, an entry point that is not `store_value` leaves the
test space alone. -/
theorem uses_elsewhere (build : Build) (revm : Revm) (rlp : AlloyRlp) {call : Sys.Arguments}
    (hentry : call.entryPoint ≠ EP_STORE_VALUE) :
    Uses (WritesTo OffTestSpace) Aborts (dispatch build revm rlp call) := by
  unfold dispatch
  refine uses_ite (fun h => absurd h hentry) fun _ => ?_
  refine uses_ite (fun _ => (reads_handleReadValue _).writesTo _) fun _ => ?_
  refine uses_ite (fun _ => (reads_handleEcho _).writesTo _) fun _ => ?_
  refine uses_ite (fun _ => uses_handleSubmitRawTx revm rlp _) fun _ => ?_
  refine uses_ite (fun _ => ?_) fun _ => ?_
  · exact (quiet_handleCallView revm _).mono fun _ => quiet_writesTo _
  refine uses_ite (fun _ => (reads_handleGetAccount _).writesTo _) fun _ => ?_
  refine uses_ite (fun _ => (reads_handleGetStorageAt _).writesTo _) fun _ => ?_
  refine uses_ite (fun _ => (reads_handleGetCode _).writesTo _) fun _ => ?_
  refine uses_ite (fun _ => uses_handleExecute revm _) fun _ => ?_
  refine uses_ite (fun _ => uses_handleDeployCode revm _) fun _ => ?_
  exact uses_ite (fun _ => uses_fatal log_elsewhere _ _) fun _ => uses_fatal log_elsewhere _ _

end Elsewhere

-- ============================================================ refinement

section Refines

variable {chain : Chain} {build : Build} {revm : Revm} {rlp : AlloyRlp}
  {store store' : Store} {call : Sys.Arguments} {tr : List HostEv} {args : Bytes}

/-- The values in the test space. -/
def values (chain : Chain) (store : Store) : Values := store (chain.space SPACE_TEST)

/-- `store_value`, by what its arguments store. -/
theorem handleStoreValue_of_none (h : storedBy args = none) :
    handleStoreValue args = Sys.exitError "store_value: args too short" ∨
    handleStoreValue args = (do
      Sys.log "store_value: invalid key length"
      Sys.exitError "invalid key length") := by
  unfold storedBy at h
  split at h
  next hbad =>
    unfold handleStoreValue
    by_cases hshort : args.length < 5
    · exact Or.inl (if_pos hshort)
    · rw [if_neg hshort]
      exact Or.inr (if_pos (hbad.resolve_left hshort))
  next => cases h

theorem handleStoreValue_of_some {key value : Bytes} (h : storedBy args = some (key, value)) :
    handleStoreValue args = (do
      let space ← testSpace
      Sys.putObject space key value
      Sys.log "store_value: success"
      return []) := by
  unfold storedBy at h
  split at h
  next => cases h
  next hgood =>
    obtain ⟨hlong, hfits⟩ := not_or.mp hgood
    injection h with h
    obtain ⟨rfl, rfl⟩ := Prod.mk.inj h
    unfold handleStoreValue
    rw [if_neg hlong]
    exact if_neg hfits

/-- Refused arguments end the call, and nothing is stored. -/
theorem exec_refused (hput : storedBy args = none) {r : Except Exit Bytes}
    (h : Exec (handleStoreValue args) tr r) (hobeys : Obeys chain call store tr store') :
    store' = store ∧ ∃ msg, r = .error (.failure msg) := by
  rcases handleStoreValue_of_none hput with heq | heq
  · rw [heq] at h
    obtain ⟨rfl, rfl⟩ := exec_halt.mp h
    cases hobeys
    exact ⟨rfl, _, rfl⟩
  · rw [heq] at h
    obtain ⟨hr, hlogs⟩ := exec_fatal h
    exact ⟨(obeys_quiet hobeys fun e he => isLog_quiet (hlogs e he)).1, _, hr⟩

/-- Arguments that are well formed are stored, and the call returns. -/
theorem exec_stores (hid : chain.contractId ≠ []) {key value : Bytes}
    (hput : storedBy args = some (key, value)) {r : Except Exit Bytes}
    (h : Exec (handleStoreValue args) tr r) (hobeys : Obeys chain call store tr store') :
    store' = store.set (chain.space SPACE_TEST) key (some value) ∧ r = .ok [] := by
  rw [handleStoreValue_of_some hput] at h
  rcases exec_bind.mp h with ⟨x, hx, -⟩ | ⟨space, t₁, t₂, hspace, hrest, rfl⟩
  · obtain ⟨-, hall⟩ := obeys_quiet hobeys (exec_uses hx (reads_engineSpace _).quiet)
    have hsmooth := answers_smooth hid hall (exec_uses hx (reads_engineSpace _).quiet)
    exact absurd hsmooth ((governed_engineSpace _).blames hx)
  · obtain ⟨mid, ho₁, ho₂⟩ := obeys_append.mp hobeys
    obtain ⟨rfl, hall⟩ := obeys_quiet ho₁ (exec_uses hspace (reads_engineSpace _).quiet)
    obtain rfl := exec_engineSpace_eq hall hspace
    rcases exec_bind.mp hrest with ⟨x, hx, -⟩ | ⟨_, t₃, t₄, hwrite, hend, rfl⟩
    · have hlog : ∀ msg, Eventless (.log msg) := fun _ => by simp [Eventless]
      have hev := exec_uses hx (uses_put hlog (by simp [Eventless]))
      exact absurd (obeys_smooth ho₂ hid hev) ((governed_putObject _ _ _).blames hx)
    · obtain ⟨mid', ho₃, ho₄⟩ := obeys_append.mp ho₂
      have hlogs := reads_bind (reads_log "store_value: success") fun _ =>
        reads_pure ([] : Bytes)
      obtain ⟨rfl, hall⟩ := obeys_quiet ho₄ (exec_uses hend hlogs.quiet)
      refine ⟨?_, ?_⟩
      · rw [performs_put _ _ _ call _ t₃ _ hwrite ho₃, Store.set_eq]
      · rcases exec_bind.mp hend with ⟨x, hx, -⟩ | ⟨_, t₅, t₆, -, hret, -⟩
        · cases (exec_log hx).1
        · exact (exec_ret.mp hret).2

/-- `read_value` returns what is stored. -/
theorem returns_readValue (hid : chain.contractId ≠ []) (store : Store) (key : Bytes) :
    Returns chain store (handleReadValue key) ((values chain store key).getD []) := by
  refine returns_of_reads hid (reads_handleReadValue key) ?_
  intro call tr r hall h
  obtain ⟨rest, hrest⟩ := exec_stored hall h
  unfold values
  cases hobj : store (chain.space SPACE_TEST) key with
  | none =>
      rw [hobj] at hrest
      obtain ⟨_, _, _, -, hret, -⟩ := exec_bind_ok.mp hrest
      exact exec_ret_ok hret
  | some value =>
      rw [hobj] at hrest
      obtain ⟨_, _, _, -, hret, -⟩ := exec_bind_ok.mp hrest
      exact exec_ret_ok hret

theorem values_set (store : Store) (key value : Bytes) :
    values chain (store.set (chain.space SPACE_TEST) key (some value))
      = Function.update (values chain store) key (some value) := by
  funext k
  simp only [values, Store.set, true_and, Function.update_apply]

/-- A served call is a step of the map. -/
theorem serves_mapStep (hid : chain.contractId ≠ []) {s : Served}
    (h : Serves chain build revm rlp store s store') :
    MapStep (values chain store) s (values chain store') := by
  obtain ⟨⟨entryPoint, args⟩, x⟩ := s
  by_cases hstore : entryPoint = EP_STORE_VALUE
  · subst hstore
    obtain ⟨t, r, final, hrun, hobeys, rfl, hafter⟩ := serves_dispatch h
    have hrun : Exec (handleStoreValue args) t r := hrun
    cases hput : storedBy args with
    | none =>
        obtain ⟨rfl, msg, rfl⟩ := exec_refused hput hrun hobeys
        rw [show store' = final by rcases hafter with h | ⟨-, h⟩ <;> exact h]
        exact .refused hput
    | some put =>
        obtain ⟨rfl, rfl⟩ := exec_stores hid hput hrun hobeys
        rcases hafter with rfl | ⟨⟨msg, hmsg⟩, -⟩
        · rw [values_set]
          exact .stored hput
        · cases hmsg
  · by_cases hread : entryPoint = EP_READ_VALUE
    · subst hread
      obtain ⟨rfl, rfl⟩ := serves_returns h (p := handleReadValue args) rfl
        (reads_handleReadValue args).quiet (returns_readValue hid store args)
      exact .read
    · obtain ⟨t, r, final, hrun, hobeys, -, hafter⟩ := serves_dispatch h
      have hsame : values chain store' = values chain store := by
        rcases hafter with rfl | ⟨-, rfl⟩
        · funext key
          exact obeys_frame hobeys (exec_uses hrun (uses_elsewhere build revm rlp hstore))
            (fun hoff => hoff rfl) key
        · rfl
      rw [hsame]
      exact .other hstore hread

end Refines

-- ============================================================== the clients

/-- The arguments of `store_value`: `key_len(4 LE) + key + value`. -/
def storeArgs (key value : Bytes) : Bytes :=
  (beBytes 4 key.length).reverse ++ key ++ value

theorem leU32_storeArgs (key value : Bytes) (h : key.length < 2 ^ 32) :
    leU32 (storeArgs key value) = key.length := by
  have hlen : (beBytes 4 key.length).reverse.length = 4 := by
    rw [List.length_reverse, length_beBytes]
  have htake : (storeArgs key value).take 4 = (beBytes 4 key.length).reverse := by
    unfold storeArgs
    rw [List.append_assoc, List.take_append_of_le_length (le_of_eq hlen.symm),
      List.take_of_length_le (le_of_eq hlen)]
  rw [leU32, htake, List.reverse_reverse]
  exact (ofBe_beBytes 4 key.length).trans (Nat.mod_eq_of_lt h)

/-- What they store, where they fit a wasm32 target; of an empty value
under an empty key there is not enough. -/
theorem storedBy_storeArgs {key value : Bytes} (hlen : key.length + 4 < 2 ^ 32)
    (hsome : key ≠ [] ∨ value ≠ []) : storedBy (storeArgs key value) = some (key, value) := by
  have hle := leU32_storeArgs key value (by omega)
  have hhead : (beBytes 4 key.length).reverse.length = 4 := by
    rw [List.length_reverse, length_beBytes]
  have htotal : (storeArgs key value).length = 4 + key.length + value.length := by
    unfold storeArgs
    rw [List.length_append, List.length_append, hhead]
  have hpos : 0 < key.length + value.length := by
    rcases hsome with h | h
    · exact Nat.add_pos_left (List.length_pos_iff.mpr h) _
    · exact Nat.add_pos_right _ (List.length_pos_iff.mpr h)
  have hprefix : ((beBytes 4 key.length).reverse ++ key).length = 4 + key.length := by
    rw [List.length_append, hhead]
  unfold storedBy
  rw [hle, if_neg (by omega)]
  unfold storeArgs
  rw [List.take_append_of_le_length (le_of_eq hprefix.symm),
    List.take_of_length_le (le_of_eq hprefix), List.drop_append_of_le_length (le_of_eq hhead.symm),
    List.drop_of_length_le (le_of_eq hhead), List.nil_append,
    List.drop_append_of_le_length (le_of_eq hprefix.symm),
    List.drop_of_length_le (le_of_eq hprefix), List.nil_append]

/-- On the map, what was stored last under a key is what is read. -/
theorem history_readBack {map map' : Values} {before between after : List Served}
    {w r : Served} {key value : Bytes}
    (h : History MapStep map (before ++ w :: (between ++ r :: after)) map')
    (hw : putOf w = some (key, some value)) (hbetween : ∀ t ∈ between, ∀ v, putOf t ≠ some (key, v))
    (hr : r.call = ⟨EP_READ_VALUE, key⟩) : r.exit = .success value := by
  have hassoc : before ++ w :: (between ++ r :: after) = (before ++ w :: between) ++ r :: after := by
    simp
  rw [hassoc] at h
  have hread := (history_reads h).1 (by rw [hr])
  have hlater : ∀ x ∈ between.filterMap putOf, x.1 ≠ key := by
    intro x hx hkey
    obtain ⟨t, ht, hput⟩ := List.mem_filterMap.mp hx
    exact hbetween t ht x.2 (by rw [hput, ← hkey])
  rw [hread, hr, List.filterMap_append, List.filterMap_cons, hw]
  exact congrArg (fun v => Exit.success (Option.getD v [])) (applyAll_last _ (key, some value) hlater map)

/-- In every build and every history of calls, whatever lies between them: a
read of a key returns what the calls in front of it left there, or nothing,
which is the value of the last well-formed store to it; a store succeeds
exactly where its arguments are well formed; and at the end the test space
holds what the stores left there. -/
theorem testStore_lastWrite {chain : Chain} {build : Build} {revm : Revm} {rlp : AlloyRlp}
    (hid : chain.contractId ≠ []) {store store' : Store} {calls : List Served}
    (h : History (Serves chain build revm rlp) store calls store') :
    (∀ before s after, calls = before ++ s :: after →
      (s.call.entryPoint = EP_READ_VALUE → s.exit = .success
        ((applyAll (before.filterMap putOf) (values chain store) s.call.arguments).getD [])) ∧
      (s.call.entryPoint = EP_STORE_VALUE →
        (s.exit = .success [] ↔ (storedBy s.call.arguments).isSome))) ∧
    (∀ before w between r after key value, calls = before ++ w :: (between ++ r :: after) →
      key.length + 4 < 2 ^ 32 → (key ≠ [] ∨ value ≠ []) →
      w.call = ⟨EP_STORE_VALUE, storeArgs key value⟩ → r.call = ⟨EP_READ_VALUE, key⟩ →
      (∀ t ∈ between, ∀ v, putOf t ≠ some (key, v)) → r.exit = .success value) ∧
    values chain store' = applyAll (calls.filterMap putOf) (values chain store) := by
  have hmap : History MapStep (values chain store) calls (values chain store') := by
    have hsim := h.simulates (values chain) id fun _ _ _ hs => serves_mapStep hid hs
    rwa [List.map_id] at hsim
  refine ⟨?_, ?_, history_values hmap⟩
  · intro before s after heq
    rw [heq] at hmap
    exact history_reads hmap
  · intro before w between r after key value heq hlen hsome hw hr hbetween
    rw [heq] at hmap
    refine history_readBack hmap ?_ hbetween hr
    rw [putOf, hw, if_pos rfl, storedBy_storeArgs hlen hsome]
    rfl

-- =========================================================== one history

/-- A value stored, the sample transfer, and the value read. -/
def storeCall : Sys.Arguments := ⟨EP_STORE_VALUE, storeArgs [0x6b] [0x76, 0x77]⟩

def readCall : Sys.Arguments := ⟨EP_READ_VALUE, [0x6b]⟩

/-- The stores along it. -/
def stored₁ : Store := (servedRun storeCall emptyStore).state

def stored₂ : Store := (servedRun submitZeroTransfer stored₁).state

theorem storedValue_read : exitIn (servedRun readCall stored₂) = .success [0x76, 0x77] := by
  have h₁ := servedRun_serves storeCall emptyStore (by decide +kernel)
    (by decide +kernel)
  have h₂ := servedRun_serves submitZeroTransfer stored₁
    (by decide +kernel) (by decide +kernel)
  have h₃ := servedRun_serves readCall stored₂ (by decide +kernel)
    (by decide +kernel)
  refine (testStore_lastWrite (by decide) (.cons h₁ (.cons h₂ (.cons h₃ .nil)))).2.1 [] _ [_] _ []
    [0x6b] [0x76, 0x77] rfl (by decide) (by decide) rfl rfl ?_
  simp [putOf, submitZeroTransfer, EP_SUBMIT_RAW_TX, EP_STORE_VALUE]

end KoinosEvm.Proofs
