/-
The precompile `ec_recover` and the sender of a transaction.

Both ask the host for the same key, with the same signature and digest, and
take the address from the hash of the curve point in it. They read the key
apart: `recover_sender` looks at its tag and its length, and takes a point of
64 bytes, alone or behind the tag, and nothing else; `ec_recover` drops a
leading 4 from any key of 64 bytes or more and hashes what is left. They
agree on a key that is too short, on a tagged point and on a bare one that
does not begin with a 4; on any other only by what the host makes of the
hashes (`sameAddress_iff`).
-/
import KoinosEvm.Engine.Precompiles
import KoinosEvm.Proofs.Chain

namespace KoinosEvm.Proofs

open Engine Lib

-- ============================================================ the property

/-- `hash || (27 + y) || r || s`. -/
def signatureInput (msgHash : B256) (odd : Bool) (r s : U256) : Bytes :=
  msgHash.bytes ++ (List.replicate 31 0 ++ [27 + odd.toUInt8])
    ++ ((beBytes32 r).bytes ++ (beBytes32 s).bytes)

/-- The output for a sender: its address padded to a word. -/
def expectedOutput : Except TxParseError Address → Bytes
  | .ok address => List.replicate 12 0 ++ address.bytes
  | .error _ => []

/-- The precompile returns the address of the sender, padded to a word, or
nothing where there is none. -/
def SameAddress (host : Syscall → Reply) (msgHash : B256) (odd : Bool) (r s : U256)
    (gasLimit : UInt64) : Prop :=
  ∃ sender output,
    (recoverSender Sys.crypto msgHash r s odd.toUInt8).run.answer host = .ok sender
    ∧ (ecRecover (signatureInput msgHash odd r s) gasLimit).answer host = .ok (.ok output)
    ∧ output.bytes = expectedOutput sender

-- ================================================================ the host

/-- The key that the host recovers. -/
def hostKey (host : Syscall → Reply) (msgHash : B256) (odd : Bool) (r s : U256) : Bytes :=
  valueIn (host (.recoverPublicKey DSA_ECDSA_SECP256K1 (hostSignature r s odd.toUInt8)
    (hostDigest msgHash) false))

/-- The last twenty bytes of the host's hash, if it gives one. -/
def hostAddress (host : Syscall → Reply) (data : Bytes) : Option Bytes :=
  let multihash := valueIn (host (.hash HASH_KECCAK_256 data))
  if multihash.length < 34 then none else some ((multihash.drop 14).take 20)

/-- The key without a leading 4. -/
def untagged (key : Bytes) : Bytes := if key.head? = some 0x04 then key.tail else key

-- =========================================================== the condition

/-- The key is too short, or a point of 64 bytes that both read alike. -/
def ReadAlike (key : Bytes) : Prop :=
  key.length < 64 ∨ (key.length = 65 ∧ key.head? = some 0x04)
    ∨ (key.length = 64 ∧ key.head? ≠ some 0x04)

/-- What is hashed apart gives the same address, or there is none. -/
def HashedAlike (host : Syscall → Reply) (key : Bytes) : Prop :=
  hostAddress host (untagged key) = if key.length = 64 then hostAddress host key else none

-- ============================================================ both answers

theorem hash_fits {multihash : Bytes} (h : ¬ multihash.length < 34) :
    2 + 12 + 20 ≤ multihash.length :=
  Nat.le_of_not_lt h

/-- The address in a hash. -/
def senderFrom (multihash : Bytes) : Except TxParseError Address :=
  if h : multihash.length < 34 then .error .hashFailure
  else .ok (slice 20 (2 + 12) multihash (hash_fits h))

theorem toOption_senderFrom (multihash : Bytes) :
    (senderFrom multihash).toOption.map FixedBytes.bytes
      = if multihash.length < 34 then none else some ((multihash.drop 14).take 20) := by
  unfold senderFrom
  split
  · rfl
  · rfl

section Answers

variable (host : Syscall → Reply)

theorem answer_callSystem (op : Syscall) :
    (callSystem op).answer host
      = .ok (if (host op).rc = 0 then (host op).out else []) := by
  rw [callSystem, answer_bind, invokeSystemCall, answer_ask]
  show Prog.answer host (if (host op).rc ≠ 0 then _ else _) = _
  by_cases hrc : (host op).rc = 0
  · rw [if_neg (not_not.mpr hrc), if_pos hrc]
    rfl
  · rw [if_pos hrc, if_neg hrc]
    rfl

theorem answer_value (op : Syscall) :
    (callSystem op >>= fun result => pure (Sys.decodeValue result)).answer host
      = .ok (valueIn (host op)) := by
  rw [answer_bind, answer_callSystem, valueIn]
  show Except.ok (Sys.decodeValue _) = _
  split
  · rfl
  · rfl

theorem answer_hash (code : UInt64) (data : Bytes) :
    (Sys.hash code data).answer host = .ok (valueIn (host (.hash code data))) :=
  answer_value host _

theorem answer_recoverPublicKey (dsaType : UInt64) (signature digest : Bytes)
    (compressed : Bool) :
    (Sys.recoverPublicKey dsaType signature digest compressed).answer host
      = .ok (valueIn (host (.recoverPublicKey dsaType signature digest compressed))) :=
  answer_value host _

variable {msgHash : B256} {odd : Bool} {r s : U256} {gasLimit : UInt64}

/-- What `recover_sender` makes of a key. -/
def senderOf (pubkey : Bytes) : HostM (Except TxParseError Address) :=
  match pubkeyXy pubkey with
  | none => pure (.error .recoveryFailure)
  | some xy => do return senderFrom (← Sys.hash HASH_KECCAK_256 xy)

/-- The sender, by the key that the host recovers. -/
theorem answer_recoverSender (msgHash : B256) (odd : Bool) (r s : U256) :
    ∃ sender, (recoverSender Sys.crypto msgHash r s odd.toUInt8).run.answer host = .ok sender
      ∧ sender.toOption.map FixedBytes.bytes
        = (pubkeyXy (hostKey host msgHash odd r s)).bind (hostAddress host) := by
  have hrun : (recoverSender Sys.crypto msgHash r s odd.toUInt8).run
      = Sys.recoverPublicKey DSA_ECDSA_SECP256K1 (hostSignature r s odd.toUInt8)
          (hostDigest msgHash) false >>= senderOf := by
    rw [recoverSender, ExceptT.run_bind]
    show ExceptT.run (ExceptT.lift _) >>= _ = _
    rw [ExceptT.run_lift, map_eq_pure_bind, bind_assoc]
    refine bind_congr fun pubkey => ?_
    rw [pure_bind, senderOf]
    dsimp only
    cases pubkeyXy pubkey with
    | none => rfl
    | some xy =>
        show ExceptT.run (ExceptT.lift (Sys.hash HASH_KECCAK_256 xy) >>= _) = _
        rw [ExceptT.run_bind, ExceptT.run_lift, map_eq_pure_bind, bind_assoc]
        refine bind_congr fun multihash => ?_
        rw [pure_bind, senderFrom]
        show ExceptT.run (dite _ _ _) = _
        split
        · rfl
        · rfl
  rw [hrun, answer_bind, answer_recoverPublicKey]
  show ∃ sender, Prog.answer host (senderOf (hostKey host msgHash odd r s)) = _ ∧ _
  rw [senderOf]
  cases pubkeyXy (hostKey host msgHash odd r s) with
  | none => exact ⟨_, rfl, rfl⟩
  | some xy =>
      refine ⟨senderFrom (valueIn (host (.hash HASH_KECCAK_256 xy))), ?_, toOption_senderFrom _⟩
      simp only [answer_bind, answer_hash]
      rfl

/-- What `ec_recover` makes of a key. -/
def ecRecoverFrom (pubkey : Bytes) : HostM (Except PrecompileError PrecompileOutput) := do
  if pubkey.length < 64 then return .ok ecRecoverEmpty
  else
    let multihash ← Sys.hash HASH_KECCAK_256 (untagged pubkey)
    if multihash.length < 34 then return .ok ecRecoverEmpty
    else return .ok ⟨3000, List.replicate 12 0 ++ (multihash.drop 14).take 20⟩

/-- The precompile asks for the same key as `recover_sender`. -/
theorem ecRecover_eq (hgas : 3000 ≤ gasLimit) :
    ecRecover (signatureInput msgHash odd r s) gasLimit
      = Sys.recoverPublicKey DSA_ECDSA_SECP256K1 (hostSignature r s odd.toUInt8)
          (hostDigest msgHash) false >>= ecRecoverFrom := by
  have hpadded : (signatureInput msgHash odd r s).take 128
      ++ List.replicate (128 - (signatureInput msgHash odd r s).length) 0
        = signatureInput msgHash odd r s := by
    have hlen : (signatureInput msgHash odd r s).length = 128 := by
      simp only [signatureInput, List.length_append, FixedBytes.len, List.length_replicate,
        List.length_singleton]
    rw [hlen, List.take_of_length_le (le_of_eq hlen), Nat.sub_self, List.replicate_zero,
      List.append_nil]
  have hhash : (signatureInput msgHash odd r s).take 32 = msgHash.bytes := by
    rw [signatureInput, List.append_assoc, List.take_left' msgHash.len]
  have hv : ((signatureInput msgHash odd r s).drop 32).take 32
      = List.replicate 31 0 ++ [27 + odd.toUInt8] := by
    rw [signatureInput, List.append_assoc, List.drop_left' msgHash.len]
    exact List.take_left' rfl
  have hrs : (signatureInput msgHash odd r s).drop 64
      = (beBytes32 r).bytes ++ (beBytes32 s).bytes := by
    refine List.drop_left' ?_
    rw [List.length_append, msgHash.len]
    rfl
  have hzeros : ((List.replicate 31 0 ++ [27 + odd.toUInt8]).take 31).all (· == 0) = true := by
    rw [List.take_left' List.length_replicate]
    rfl
  have hlast : (List.replicate 31 0 ++ [27 + odd.toUInt8]).getLastD 0 = 27 + odd.toUInt8 := by
    rw [List.getLastD_concat]
  have hvalid : ¬ (27 + odd.toUInt8 ≠ 27 ∧ 27 + odd.toUInt8 ≠ 28) := by
    cases odd
    · decide
    · decide
  have hparity : 27 + odd.toUInt8 - 27 = odd.toUInt8 := by
    cases odd
    · rfl
    · rfl
  rw [ecRecover, if_neg (UInt64.not_lt.mpr hgas)]
  simp only [hpadded, hhash, hv, hrs, hzeros, hlast, hparity, Bool.not_true, if_neg hvalid,
    if_neg Bool.false_ne_true]
  rfl

/-- Padded to a word, or empty. -/
def outputOf : Option Bytes → Bytes
  | some address => List.replicate 12 0 ++ address
  | none => []

theorem answer_ecRecoverFrom (key : Bytes) :
    (ecRecoverFrom key).answer host
      = .ok (.ok ⟨3000, outputOf
          (if key.length < 64 then none else hostAddress host (untagged key))⟩) := by
  unfold ecRecoverFrom
  by_cases hshort : key.length < 64
  · rw [if_pos hshort, if_pos hshort]
    rfl
  · rw [if_neg hshort, if_neg hshort, answer_bind, answer_hash, hostAddress]
    simp only [Except.bind]
    split
    · rfl
    · rfl

/-- The precompile's output, by the key that the host recovers. -/
theorem answer_ecRecover (hgas : 3000 ≤ gasLimit) :
    (ecRecover (signatureInput msgHash odd r s) gasLimit).answer host
      = .ok (.ok ⟨3000, outputOf (if (hostKey host msgHash odd r s).length < 64 then none
          else hostAddress host (untagged (hostKey host msgHash odd r s)))⟩) := by
  rw [ecRecover_eq hgas, answer_bind, answer_recoverPublicKey]
  exact answer_ecRecoverFrom host _

end Answers

-- ============================================================ the two keys

theorem outputOf_inj {x y : Option Bytes} (h : outputOf x = outputOf y) : x = y := by
  cases x with
  | none =>
      cases y with
      | none => rfl
      | some b => cases h
  | some a =>
      cases y with
      | none => cases h
      | some b => exact congrArg some (List.append_cancel_left h)

/-- The same address exactly if both take it from the key alike. -/
theorem sameAddress_iff_key {host : Syscall → Reply} {msgHash : B256} {odd : Bool} {r s : U256}
    {gasLimit : UInt64} (hgas : 3000 ≤ gasLimit) :
    SameAddress host msgHash odd r s gasLimit
      ↔ (if (hostKey host msgHash odd r s).length < 64 then none
          else hostAddress host (untagged (hostKey host msgHash odd r s)))
        = (pubkeyXy (hostKey host msgHash odd r s)).bind (hostAddress host) := by
  obtain ⟨sender, hsender, hbytes⟩ :=
    answer_recoverSender host msgHash odd r s
  have hexpected : expectedOutput sender = outputOf (sender.toOption.map FixedBytes.bytes) := by
    cases sender
    · rfl
    · rfl
  rw [← hbytes]
  constructor
  · rintro ⟨sender', output, hsender', houtput, heq⟩
    rw [hsender] at hsender'
    cases hsender'
    rw [answer_ecRecover host hgas] at houtput
    cases houtput
    exact outputOf_inj (heq.trans hexpected)
  · intro heq
    exact ⟨sender, _, hsender, answer_ecRecover host hgas,
      (congrArg outputOf heq).trans hexpected.symm⟩

/-- .. which is a question of the key and of two hashes. -/
theorem readAlike_or_hashedAlike_iff (host : Syscall → Reply) (key : Bytes) :
    (if key.length < 64 then none else hostAddress host (untagged key))
        = (pubkeyXy key).bind (hostAddress host)
      ↔ ReadAlike key ∨ HashedAlike host key := by
  by_cases hshort : key.length < 64
  · rw [if_pos hshort, pubkeyXy, if_pos hshort]
    exact iff_of_true rfl (Or.inl (Or.inl hshort))
  by_cases htagged : key.head? = some 0x04 ∧ key.length = 65
  · rw [if_neg hshort, pubkeyXy, if_neg hshort, if_pos htagged, untagged, if_pos htagged.1]
    exact iff_of_true rfl (Or.inl (Or.inr (Or.inl htagged.symm)))
  rw [if_neg hshort, pubkeyXy, if_neg hshort, if_neg htagged]
  by_cases hbare : key.length = 64
  · rw [if_pos hbare, HashedAlike, if_pos hbare]
    show _ = hostAddress host key ↔ _
    by_cases htag : key.head? = some 0x04
    · -- `recover_sender` hashes the leading 4, `ec_recover` does not
      have hread : ¬ ReadAlike key := by
        rintro (h | h | h)
        · exact hshort h
        · omega
        · exact h.2 htag
      exact (or_iff_right hread).symm
    · rw [untagged, if_neg htag]
      exact iff_of_true rfl (Or.inl (Or.inr (Or.inr ⟨hbare, htag⟩)))
  · rw [if_neg hbare, HashedAlike, if_neg hbare]
    have hread : ¬ ReadAlike key := by
      rintro (h | h | h)
      · exact hshort h
      · exact htagged h.symm
      · exact hbare h.1
    exact (or_iff_right hread).symm

/-- With enough gas, the precompile and the recovery of a sender derive the
same address exactly if the key that the host recovers is too short, a point
behind its tag or a bare point that does not begin with a 4, or if its two
readings hash alike. -/
theorem sameAddress_iff (host : Syscall → Reply) (msgHash : B256) (odd : Bool) (r s : U256)
    (gasLimit : UInt64) (hgas : 3000 ≤ gasLimit) :
    SameAddress host msgHash odd r s gasLimit
      ↔ ReadAlike (hostKey host msgHash odd r s)
        ∨ HashedAlike host (hostKey host msgHash odd r s) :=
  (sameAddress_iff_key hgas).trans (readAlike_or_hashedAlike_iff host _)

-- ================================================================ two keys

/-- A host that recovers one key, and whose hash ends in the length of what
is hashed. -/
def lengthHost (key : Bytes) : Syscall → Reply
  | .recoverPublicKey .. => ⟨0, Proto.encodeBytesField 1 key⟩
  | .hash _ data =>
      ⟨0, Proto.encodeBytesField 1 (List.replicate 33 0 ++ [UInt8.ofNat data.length])⟩
  | _ => ⟨1, []⟩

theorem hostKey_lengthHost {key : Bytes} (h : key.length < 2 ^ 64) (msgHash : B256) (odd : Bool)
    (r s : U256) : hostKey (lengthHost key) msgHash odd r s = key := decodeValue_encode h

theorem hostAddress_lengthHost (key data : Bytes) :
    hostAddress (lengthHost key) data
      = some (List.replicate 19 0 ++ [UInt8.ofNat data.length]) := by
  have hlen : (List.replicate 33 0 ++ [UInt8.ofNat data.length]).length < 2 ^ 64 := by
    rw [List.length_append, List.length_replicate, List.length_singleton]
    decide
  have hvalue : valueIn (lengthHost key (.hash HASH_KECCAK_256 data))
      = List.replicate 33 0 ++ [UInt8.ofNat data.length] := decodeValue_encode hlen
  rw [hostAddress, hvalue]
  rfl

/-- A tagged point. -/
theorem sameAddress_tagged :
    SameAddress (lengthHost (4 :: List.replicate 64 0)) (FixedBytes.zero 32) true 1 1 3000 := by
  refine (sameAddress_iff _ _ _ _ _ _ (by decide)).mpr (Or.inl ?_)
  rw [hostKey_lengthHost (by decide)]
  exact Or.inr (Or.inl ⟨rfl, rfl⟩)

/-- A bare point that begins with a 4. -/
theorem otherAddress_bare :
    ¬ SameAddress (lengthHost (4 :: List.replicate 63 0)) (FixedBytes.zero 32) true 1 1 3000 := by
  intro h
  have hread := (sameAddress_iff _ _ _ _ _ _ (by decide)).mp h
  rw [hostKey_lengthHost (by decide), HashedAlike, hostAddress_lengthHost,
    hostAddress_lengthHost] at hread
  rcases hread with (hshort | htagged | hbare) | hashed
  · exact absurd hshort (by decide)
  · exact absurd htagged.1 (by decide)
  · exact hbare.2 rfl
  · exact absurd hashed (by decide)

end KoinosEvm.Proofs
