/-
The engine's parser accepts canonical encodings, and only those.

`canonicalRaw p` spells the fields of a parsed transaction as the wire
format has them, `signingPayload p` spells the message its signer hashed,
and `InRange p` bounds the fields. `parseRawTx_settles` reduces a parse, in
any monad, to one of two things: an error, or one hash and one recovery on
the signing payload of in-range fields whose canonical encoding is the
input. Everything else here follows from it and from its converse,
`parseRawTx_canonicalRaw`.
-/
import KoinosEvm.Proofs.TxFields

namespace KoinosEvm.Proofs

open Engine Lib Lib.Rlp

-- ================================================= canonical encodings

/-- The six items a legacy transaction signs over. -/
def legacyBody (p : ParsedTx) : List Bytes :=
  [encodeInt p.nonce.toNat, encodeInt p.maxFeePerGas.toNat,
    encodeInt p.gasLimit.toNat, encodeString (toPayload p.toAddr),
    encodeInt p.value.toNat, encodeString p.data]

/-- `v` of a legacy transaction: EIP-155 with a chain id, 27 or 28
without. -/
def legacyV (p : ParsedTx) : Nat :=
  match p.chainId with
  | some c => 2 * c.toNat + 35 + p.yParity.toNat
  | none => 27 + p.yParity.toNat

/-- What EIP-155 signs behind the body. -/
def legacyTail (p : ParsedTx) : List Bytes :=
  match p.chainId with
  | some c => [encodeInt c.toNat, encodeInt 0, encodeInt 0]
  | none => []

/-- The nine items of a type-2 transaction before its signature. -/
def typedBody (p : ParsedTx) : List Bytes :=
  [encodeInt (p.chainId.elim 0 UInt64.toNat), encodeInt p.nonce.toNat,
    encodeInt p.maxPriorityFeePerGas.toNat, encodeInt p.maxFeePerGas.toNat,
    encodeInt p.gasLimit.toNat, encodeString (toPayload p.toAddr),
    encodeInt p.value.toNat, encodeString p.data, encodeList []]

/-- The items on the wire. -/
def signedItems (p : ParsedTx) : List Bytes :=
  match p.kind with
  | .eip1559 =>
      typedBody p
        ++ [encodeInt p.yParity.toNat, encodeInt p.r.toNat, encodeInt p.s.toNat]
  | _ => legacyBody p ++ [encodeInt (legacyV p), encodeInt p.r.toNat, encodeInt p.s.toNat]

/-- .. spelled out, for a type-2 transaction .. -/
theorem signedItems_typed {p : ParsedTx} {c : UInt64} (hk : p.kind = .eip1559)
    (hc : p.chainId = some c) :
    signedItems p = [encodeInt c.toNat, encodeInt p.nonce.toNat,
      encodeInt p.maxPriorityFeePerGas.toNat, encodeInt p.maxFeePerGas.toNat,
      encodeInt p.gasLimit.toNat, encodeString (toPayload p.toAddr),
      encodeInt p.value.toNat, encodeString p.data, encodeList [],
      encodeInt p.yParity.toUInt64.toNat, encodeInt p.r.toNat, encodeInt p.s.toNat] := by
  unfold signedItems typedBody
  rw [hk, hc, UInt8.toNat_toUInt64]
  rfl

/-- .. and for an EIP-155 one. -/
theorem signedItems_legacy {p : ParsedTx} {v : UInt64} (hk : p.kind = .eip155)
    (hv : v.toNat = legacyV p) :
    signedItems p = [encodeInt p.nonce.toNat, encodeInt p.maxFeePerGas.toNat,
      encodeInt p.gasLimit.toNat, encodeString (toPayload p.toAddr),
      encodeInt p.value.toNat, encodeString p.data, encodeInt v.toNat,
      encodeInt p.r.toNat, encodeInt p.s.toNat] := by
  unfold signedItems legacyBody
  rw [hk, hv]
  rfl

/-- The items under the signature. -/
def unsignedItems (p : ParsedTx) : List Bytes :=
  match p.kind with
  | .eip1559 => typedBody p
  | _ => legacyBody p ++ legacyTail p

/-- The list of some items, behind its type byte if it has one. -/
def envelope (kind : TxKindParsed) (items : List Bytes) : Bytes :=
  match kind with
  | .eip1559 => 0x02 :: encodeList items.flatten
  | _ => encodeList items.flatten

/-- The canonical encoding of the fields. -/
def canonicalRaw (p : ParsedTx) : Bytes := envelope p.kind (signedItems p)

/-- The unsigned payload of the fields, which the signer hashed. -/
def signingPayload (p : ParsedTx) : Bytes := envelope p.kind (unsignedItems p)

/-- The fields are in range: an EIP-155 transaction with `v` in 64 bits
and one gas price, or a type-2 transaction with ordered fees; a signature
in range with low `s`; and a payload RLP can spell. -/
structure InRange (p : ParsedTx) : Prop where
  shape : (p.kind = .eip155 ∧ p.maxPriorityFeePerGas = p.maxFeePerGas ∧
      ∃ c, p.chainId = some c ∧ 2 * c.toNat + 35 + p.yParity.toNat < 2 ^ 64) ∨
    (p.kind = .eip1559 ∧ p.maxPriorityFeePerGas ≤ p.maxFeePerGas ∧
      ∃ c, p.chainId = some c)
  parity : p.yParity ≤ 1
  r_pos : p.r ≠ 0
  r_lt : p.r < secp256k1N
  s_pos : p.s ≠ 0
  s_low : p.s ≤ secp256k1NHalf
  fits : (signedItems p).flatten.length < maxLen

/-- The fields that do not name the sender decide the encoding. -/
theorem canonicalRaw_sender (p : ParsedTx) (a : Address) :
    canonicalRaw { p with sender := a } = canonicalRaw p := rfl

-- ============================================================ the parts

theorem validateSignature_iff {r s : U256} {y : UInt8} :
    validateSignature r s y = .ok ()
      ↔ y ≤ 1 ∧ r ≠ 0 ∧ r < secp256k1N ∧ s ≠ 0 ∧ s ≤ secp256k1NHalf := by
  have hhalf : secp256k1NHalf < secp256k1N := by decide
  unfold validateSignature
  by_cases h0 : r = 0 ∨ s = 0
  · rw [if_pos h0]
    refine ⟨?_, ?_⟩
    · intro h
      cases h
    · intro h
      rcases h0 with h0 | h0
      · exact absurd h0 h.2.1
      · exact absurd h0 h.2.2.2.1
  · rw [if_neg h0]
    obtain ⟨hr, hs⟩ := not_or.mp h0
    by_cases hN : secp256k1N ≤ r ∨ secp256k1N ≤ s
    · rw [if_pos hN]
      refine ⟨?_, ?_⟩
      · intro h
        cases h
      · intro h
        rcases hN with hN | hN
        · exact absurd h.2.2.1 (BitVec.not_lt.mpr hN)
        · exact absurd hhalf (BitVec.not_lt.mpr (BitVec.le_trans hN h.2.2.2.2))
    · rw [if_neg hN]
      obtain ⟨hrN, -⟩ := not_or.mp hN
      by_cases hlow : secp256k1NHalf < s
      · rw [if_pos hlow]
        refine ⟨?_, ?_⟩
        · intro h
          cases h
        · intro h
          exact absurd hlow (BitVec.not_lt.mpr h.2.2.2.2)
      · rw [if_neg hlow]
        by_cases hy : 1 < y
        · rw [if_pos hy]
          refine ⟨?_, ?_⟩
          · intro h
            cases h
          · intro h
            exact absurd hy (UInt8.not_lt.mpr h.1)
        · rw [if_neg hy]
          refine ⟨?_, fun _ => rfl⟩
          intro _
          exact ⟨UInt8.not_lt.mp hy, hr, BitVec.not_le.mp hrN, hs, BitVec.not_lt.mp hlow⟩

/-- The parity of an EIP-155 `v` is a bit, and `v` spells chain id and
parity. -/
theorem classifyV_iff {v : UInt64} {c : UInt64} {y : UInt8} :
    classifyV v = .ok (c, y) ↔ y ≤ 1 ∧ v.toNat = 2 * c.toNat + 35 + y.toNat := by
  have h35 : (35 : UInt64).toNat = 35 := rfl
  have h2 : (2 : UInt64).toNat = 2 := rfl
  have hvlt := v.toNat_lt
  unfold classifyV
  by_cases hpre : v = 27 ∨ v = 28
  · rw [if_pos hpre]
    refine ⟨?_, ?_⟩
    · intro h
      cases h
    · intro h
      have hlow : v.toNat ≤ 28 := by
        rcases hpre with rfl | rfl <;> decide
      omega
  · rw [if_neg hpre]
    by_cases hge : 35 ≤ v
    · rw [if_pos hge]
      have hnat : 35 ≤ v.toNat := UInt64.le_iff_toNat_le.mp hge
      have hc : ((v - 35) / 2).toNat = (v.toNat - 35) / 2 := by
        rw [UInt64.toNat_div, UInt64.toNat_sub_of_le _ _ hge, h35, h2]
      have hy : (((v - 35) % 2).toUInt8).toNat = (v.toNat - 35) % 2 := by
        rw [UInt64.toNat_toUInt8, UInt64.toNat_mod, UInt64.toNat_sub_of_le _ _ hge,
          h35, h2]
        omega
      refine ⟨?_, ?_⟩
      · intro h
        injection h with h
        injection h with hc' hy'
        rw [← hc', ← hy', UInt8.le_iff_toNat_le, hc, hy]
        exact ⟨by show _ ≤ 1; omega, by omega⟩
      · intro h
        have hy1 : y.toNat ≤ 1 := UInt8.le_iff_toNat_le.mp h.1
        have hceq : (v - 35) / 2 = c := UInt64.toNat_inj.mp (by rw [hc]; omega)
        have hyeq : ((v - 35) % 2).toUInt8 = y := UInt8.toNat_inj.mp (by rw [hy]; omega)
        rw [hceq, hyeq]
    · rw [if_neg hge]
      refine ⟨?_, ?_⟩
      · intro h
        cases h
      · intro h
        refine absurd (UInt64.le_iff_toNat_le.mpr ?_) hge
        rw [h35]
        omega

-- ========================================================= the parsers

section Settle

variable {m : Type → Type} [Monad m] [LawfulMonad m]

theorem liftM_ok_bind {α β : Type} (a : α) (f : α → ExceptT TxParseError m β) :
    ((liftM (Except.ok a : Except TxParseError α) : ExceptT TxParseError m α) >>= f)
      = f a := by
  show ((pure a : ExceptT TxParseError m α) >>= f) = f a
  rw [pure_bind]

theorem throw_bind {α β : Type} (e : TxParseError) (f : α → ExceptT TxParseError m β) :
    ((throw e : ExceptT TxParseError m α) >>= f) = throw e := by
  apply ExceptT.ext
  simp

variable (crypto : Crypto m)

/-- What is left of a parse once the fields are known: hash the signing
payload, recover the sender. -/
def recoverFrom (p : ParsedTx) : ExceptT TxParseError m ParsedTx := do
  let signingHash ← crypto.keccak256 (signingPayload p)
  let sender ← crypto.recoverSender signingHash p.r p.s p.yParity
  return { p with sender := sender }

/-- A parse of `raw` ends in an error of its own or in the recovery of
in-range fields whose canonical encoding is `raw`. -/
def Settles (raw : Bytes) (act : ExceptT TxParseError m ParsedTx) : Prop :=
  (∃ e, act = throw e) ∨
    ∃ p, InRange p ∧ raw = canonicalRaw p ∧ act = recoverFrom crypto p

omit [LawfulMonad m] in
theorem settles_throw (raw : Bytes) (e : TxParseError) :
    Settles crypto raw (throw e) := Or.inl ⟨e, rfl⟩

/-- A pure step of the parser either ends it or goes on with its value. -/
theorem settles_bind {α : Type} {raw : Bytes} {x : Except TxParseError α}
    {f : α → ExceptT TxParseError m ParsedTx}
    (h : ∀ a, x = .ok a → Settles crypto raw (f a)) :
    Settles crypto raw (liftM x >>= f) := by
  cases x with
  | error e =>
      left
      exact ⟨e, throw_bind e f⟩
  | ok a =>
      rw [liftM_ok_bind]
      exact h a rfl

/-- A check of the parser either ends it or goes on. -/
theorem settles_check {c : Prop} [Decidable c] {raw : Bytes} {e : TxParseError}
    {k : Unit → ExceptT TxParseError m ParsedTx}
    (h : ¬ c → Settles crypto raw (k ())) :
    Settles crypto raw (if c then throw e >>= k else k ()) := by
  by_cases hc : c
  · rw [if_pos hc, throw_bind]
    exact settles_throw crypto raw e
  · rw [if_neg hc]
    exact h hc

end Settle

section Parse

variable {rlp : AlloyRlp} (hrlp : rlp.Canonical)
include hrlp

theorem buildRlpList_eq {items : List Bytes} (h : items.flatten.length < maxLen) :
    buildRlpList rlp items = encodeList items.flatten := by
  unfold buildRlpList encodeList
  rw [List.length_flatten] at *
  rw [hrlp.encodeHeader_list _ h]

theorem buildRlpListWithTail_eq {items : List Bytes} {tail : Bytes}
    (h : (items.flatten ++ tail).length < maxLen) :
    buildRlpListWithTail rlp items tail = encodeList (items.flatten ++ tail) := by
  unfold buildRlpListWithTail encodeList
  rw [List.length_append, List.length_flatten] at *
  rw [hrlp.encodeHeader_list _ h, List.append_assoc]

omit hrlp in
/-- The signing payload of in-range fields is one RLP can spell. -/
theorem unsigned_fits {p : ParsedTx} (hp : InRange p) :
    (unsignedItems p).flatten.length < maxLen := by
  refine lt_of_le_of_lt ?_ hp.fits
  rcases hp.shape with ⟨hk, -, c, hc, hv⟩ | ⟨hk, -⟩
  · have hmono : (encodeInt c.toNat).length ≤ (encodeInt (legacyV p)).length := by
      have hle : c.toNat ≤ legacyV p := by
        unfold legacyV
        rw [hc]
        show c.toNat ≤ 2 * c.toNat + 35 + p.yParity.toNat
        omega
      have hlt : legacyV p < 256 ^ 32 := by
        unfold legacyV
        rw [hc]
        exact lt_word hv (by omega)
      exact length_encodeInt_mono hle hlt
    have hz : ∀ v : U256, (encodeInt 0).length ≤ (encodeInt v.toNat).length := by
      intro v
      exact length_encodeInt_mono (Nat.zero_le _) (by simpa using v.isLt)
    have hr := hz p.r
    have hs := hz p.s
    unfold unsignedItems signedItems legacyTail
    rw [hk, hc]
    simp only [List.flatten_append, List.length_append, List.flatten_cons,
      List.flatten_nil, List.length_nil]
    omega
  · unfold unsignedItems signedItems
    rw [hk, List.flatten_append, List.length_append]
    exact Nat.le_add_right _ _

theorem legacyPayload_eq {p : ParsedTx} (hp : InRange p) {c : UInt64}
    (hk : p.kind = .eip155) (hc : p.chainId = some c) :
    buildRlpListWithTail rlp (legacyBody p)
        (rlp.encodeU64 c ++ rlp.encodeU64 0 ++ rlp.encodeU64 0)
      = signingPayload p := by
  have hfits := unsigned_fits hp
  have hitems : (unsignedItems p).flatten
      = (legacyBody p).flatten ++ (rlp.encodeU64 c ++ rlp.encodeU64 0 ++ rlp.encodeU64 0) := by
    rw [hrlp.encodeU64_eq, hrlp.encodeU64_eq]
    unfold unsignedItems legacyTail
    rw [hk, hc, List.flatten_append]
    simp only [List.flatten_cons, List.flatten_nil, List.append_nil, List.append_assoc]
    rfl
  unfold signingPayload envelope
  rw [hk, hitems]
  rw [hitems] at hfits
  exact buildRlpListWithTail_eq hrlp hfits

theorem typedPayload_eq {p : ParsedTx} (hp : InRange p) (hk : p.kind = .eip1559) :
    0x02 :: buildRlpList rlp (typedBody p) = signingPayload p := by
  have hfits := unsigned_fits hp
  unfold signingPayload envelope unsignedItems
  unfold unsignedItems at hfits
  rw [hk] at hfits ⊢
  rw [buildRlpList_eq hrlp hfits]

variable {m : Type → Type} [Monad m] [LawfulMonad m] (crypto : Crypto m)

/-- Every legacy parse settles: item by item, a decoder's error or the
item is the encoding of the decoded field. -/
theorem parseLegacy_settles (raw : Bytes) :
    Settles crypto raw (parseLegacy rlp crypto raw) := by
  unfold parseLegacy
  apply settles_bind
  intro items hitems
  obtain ⟨hall, hfits, hraw⟩ := (decodeList_iff hrlp).mp hitems
  split
  next i0 i1 i2 i3 i4 i5 i6 i7 i8 =>
    simp only [List.forall_mem_cons] at hall
    obtain ⟨h0, h1, h2, h3, h4, h5, h6, h7, h8, -⟩ := hall
    apply settles_bind
    intro nonce hnonce
    apply settles_bind
    intro gasPrice hgasPrice
    apply settles_bind
    intro gasLimit hgasLimit
    apply settles_bind
    intro toAddr hto
    apply settles_bind
    intro value hvalue
    apply settles_bind
    intro data hdata
    apply settles_bind
    intro vRaw hv
    apply settles_bind
    intro r hr
    apply settles_bind
    intro s hs
    apply settles_bind
    intro cy hcy
    obtain ⟨chainId, yParity⟩ := cy
    apply settles_bind
    intro _ hsig
    rw [decodeU64_iff hrlp h0] at hnonce
    rw [decodeU128_iff hrlp h1] at hgasPrice
    rw [decodeU64_iff hrlp h2] at hgasLimit
    rw [decodeTo_iff hrlp h3] at hto
    rw [decodeU256_iff hrlp h4] at hvalue
    obtain ⟨-, hdata⟩ := (decodeBytes_iff hrlp h5).mp hdata
    rw [decodeU64_iff hrlp h6] at hv
    rw [decodeU256_iff hrlp h7] at hr
    rw [decodeU256_iff hrlp h8] at hs
    obtain ⟨hy, hvc⟩ := classifyV_iff.mp hcy
    obtain ⟨-, hr0, hrN, hs0, hsN⟩ := validateSignature_iff.mp hsig
    rw [hvc] at hv
    subst hnonce hgasPrice hgasLimit hto hvalue hdata hv hr hs
    have hrange : InRange {
        kind := .eip155, chainId := some chainId, nonce := nonce
        gasLimit := gasLimit, maxFeePerGas := gasPrice
        maxPriorityFeePerGas := gasPrice, toAddr := toAddr, value := value, data := data
        r := r, s := s, yParity := yParity, sender := FixedBytes.zero 20 } :=
      ⟨Or.inl ⟨rfl, rfl, chainId, rfl, hvc ▸ vRaw.toNat_lt⟩, hy, hr0, hrN, hs0, hsN,
        hfits⟩
    right
    refine ⟨_, hrange, hraw, ?_⟩
    unfold recoverFrom
    rw [← legacyPayload_eq hrlp hrange rfl rfl]
    rfl
  next => exact settles_throw crypto raw _

/-- Every type-2 parse settles, in the same way. -/
theorem parseEip1559_settles (payload : Bytes) :
    Settles crypto (0x02 :: payload) (parseEip1559 rlp crypto payload) := by
  unfold parseEip1559
  apply settles_bind
  intro items hitems
  obtain ⟨hall, hfits, hraw⟩ := (decodeList_iff hrlp).mp hitems
  split
  next i0 i1 i2 i3 i4 i5 i6 i7 i8 i9 i10 i11 =>
    simp only [List.forall_mem_cons] at hall
    obtain ⟨h0, h1, h2, h3, h4, h5, h6, h7, h8, h9, h10, h11, -⟩ := hall
    apply settles_bind
    intro chainId hchain
    apply settles_bind
    intro nonce hnonce
    apply settles_bind
    intro maxPriority hprio
    apply settles_bind
    intro maxFee hfee
    apply settles_check
    intro hordered
    apply settles_bind
    intro gasLimit hgasLimit
    apply settles_bind
    intro toAddr hto
    apply settles_bind
    intro value hvalue
    apply settles_bind
    intro data hdata
    apply settles_bind
    intro _ haccess
    apply settles_bind
    intro yParityRaw hyraw
    apply settles_bind
    intro r hr
    apply settles_bind
    intro s hs
    apply settles_check
    intro hparity
    apply settles_bind
    intro _ hsig
    rw [decodeU64_iff hrlp h0] at hchain
    rw [decodeU64_iff hrlp h1] at hnonce
    rw [decodeU128_iff hrlp h2] at hprio
    rw [decodeU128_iff hrlp h3] at hfee
    rw [decodeU64_iff hrlp h4] at hgasLimit
    rw [decodeTo_iff hrlp h5] at hto
    rw [decodeU256_iff hrlp h6] at hvalue
    obtain ⟨-, hdata⟩ := (decodeBytes_iff hrlp h7).mp hdata
    rw [checkAccessList_iff hrlp h8] at haccess
    rw [decodeU64_iff hrlp h9] at hyraw
    rw [decodeU256_iff hrlp h10] at hr
    rw [decodeU256_iff hrlp h11] at hs
    obtain ⟨hy, hr0, hrN, hs0, hsN⟩ := validateSignature_iff.mp hsig
    have hyeq : yParityRaw.toNat = yParityRaw.toUInt8.toNat := by
      have hle : yParityRaw.toNat ≤ 1 := UInt64.le_iff_toNat_le.mp (UInt64.not_lt.mp hparity)
      rw [UInt64.toNat_toUInt8]
      omega
    rw [hyeq] at hyraw
    subst hchain hnonce hprio hfee hgasLimit hto hvalue hdata haccess hyraw hr hs
    have hrange : InRange {
        kind := .eip1559, chainId := some chainId, nonce := nonce
        gasLimit := gasLimit, maxFeePerGas := maxFee
        maxPriorityFeePerGas := maxPriority, toAddr := toAddr, value := value, data := data
        r := r, s := s, yParity := yParityRaw.toUInt8, sender := FixedBytes.zero 20 } :=
      ⟨Or.inr ⟨rfl, BitVec.not_lt.mp hordered, chainId, rfl⟩, hy, hr0, hrN, hs0, hsN,
        hfits⟩
    right
    refine ⟨_, hrange, by rw [hraw]; rfl, ?_⟩
    unfold recoverFrom
    rw [← typedPayload_eq hrlp hrange rfl]
    rfl
  next => exact settles_throw crypto _ _

/-- Every parse settles. -/
theorem parseRawTx_settles (raw : Bytes) :
    Settles crypto raw (parseRawTx rlp crypto raw) := by
  cases raw with
  | nil => exact settles_throw crypto _ _
  | cons first rest =>
      simp only [parseRawTx]
      by_cases hlist : 0xc0 ≤ first
      · rw [if_pos hlist]
        exact parseLegacy_settles hrlp crypto _
      · rw [if_neg hlist]
        by_cases htyped : first = 0x02
        · rw [if_pos htyped, htyped]
          exact parseEip1559_settles hrlp crypto _
        · rw [if_neg htyped]
          exact settles_throw crypto _ _

omit hrlp in
/-- The calldata is one of the items. -/
theorem encodeString_data_mem (p : ParsedTx) : encodeString p.data ∈ signedItems p := by
  unfold signedItems typedBody legacyBody
  cases p.kind <;> simp

omit hrlp in
theorem length_data_le (p : ParsedTx) :
    (encodeString p.data).length ≤ (signedItems p).flatten.length :=
  (List.sublist_flatten_of_mem (encodeString_data_mem p)).length_le

omit hrlp in
/-- The calldata of in-range fields is short enough to spell. -/
theorem data_fits {p : ParsedTx} (hp : InRange p) : p.data.length < maxLen :=
  lt_of_le_of_lt ((length_le_encodeString p.data).trans (length_data_le p)) hp.fits

omit hrlp in
/-- The items of in-range fields are items. -/
theorem signedItems_isItem {p : ParsedTx} (hp : InRange p) :
    ∀ x ∈ signedItems p, IsItem x := by
  have h64 : ∀ v : UInt64, IsItem (encodeInt v.toNat) := fun v =>
    isItem_encodeInt (u64_lt v)
  have h128 : ∀ v : U128, IsItem (encodeInt v.toNat) := fun v =>
    isItem_encodeInt (u128_lt v)
  have h256 : ∀ v : U256, IsItem (encodeInt v.toNat) := fun v =>
    isItem_encodeInt (u256_lt v)
  have hto : IsItem (encodeString (toPayload p.toAddr)) :=
    isItem_encodeString (length_toPayload p.toAddr)
  have hdata : IsItem (encodeString p.data) := isItem_encodeString (data_fits hp)
  rcases hp.shape with ⟨hk, -, c, hc, hv⟩ | ⟨hk, -, c, hc⟩
  · have hvItem : IsItem (encodeInt (legacyV p)) := by
      unfold legacyV
      rw [hc]
      exact isItem_encodeInt (lt_word hv (by omega))
    unfold signedItems legacyBody
    rw [hk]
    simp only [List.cons_append, List.nil_append, List.forall_mem_cons]
    exact ⟨h64 _, h128 _, h64 _, hto, h256 _, hdata, hvItem, h256 _, h256 _, by simp⟩
  · have hy : IsItem (encodeInt p.yParity.toNat) :=
      isItem_encodeInt (lt_word p.yParity.toNat_lt (by omega))
    have haccess : IsItem (encodeList []) := isItem_emptyList
    unfold signedItems typedBody
    rw [hk, hc]
    simp only [List.cons_append, List.nil_append, List.forall_mem_cons]
    exact ⟨h64 _, h64 _, h128 _, h128 _, h64 _, hto, h256 _, hdata, haccess, hy,
      h256 _, h256 _, by simp⟩

theorem decodeList_signedItems {p : ParsedTx} (hp : InRange p) :
    decodeList rlp (encodeList (signedItems p).flatten) = .ok (signedItems p) :=
  (decodeList_iff hrlp).mpr ⟨signedItems_isItem hp, hp.fits, rfl⟩

omit hrlp in
theorem inRange_validateSignature {p : ParsedTx} (hp : InRange p) :
    validateSignature p.r p.s p.yParity = .ok () :=
  validateSignature_iff.mpr ⟨hp.parity, hp.r_pos, hp.r_lt, hp.s_pos, hp.s_low⟩

theorem parseLegacy_canonical {p : ParsedTx} (hp : InRange p) {c : UInt64}
    (hk : p.kind = .eip155) (hfee : p.maxPriorityFeePerGas = p.maxFeePerGas)
    (hc : p.chainId = some c) (hv : 2 * c.toNat + 35 + p.yParity.toNat < 2 ^ 64) :
    parseLegacy rlp crypto (encodeList (signedItems p).flatten)
      = recoverFrom crypto p := by
  have hV : (UInt64.ofNat (2 * c.toNat + 35 + p.yParity.toNat)).toNat = legacyV p := by
    unfold legacyV
    rw [hc, UInt64.toNat_ofNat_of_lt' hv]
  have hclass : classifyV (UInt64.ofNat (2 * c.toNat + 35 + p.yParity.toNat))
      = .ok (c, p.yParity) := by
    rw [classifyV_iff, UInt64.toNat_ofNat_of_lt' hv]
    exact ⟨hp.parity, rfl⟩
  have hsender : ∀ a, { p with sender := a } = ({
      kind := .eip155, chainId := some c, nonce := p.nonce
      gasLimit := p.gasLimit, maxFeePerGas := p.maxFeePerGas
      maxPriorityFeePerGas := p.maxFeePerGas, toAddr := p.toAddr, value := p.value
      data := p.data, r := p.r, s := p.s, yParity := p.yParity, sender := a } : ParsedTx) := by
    intro a
    rw [hk, hc, hfee]
  unfold parseLegacy recoverFrom
  rw [decodeList_signedItems hrlp hp, liftM_ok_bind, signedItems_legacy hk hV,
    ← legacyPayload_eq hrlp hp hk hc]
  simp only [decodeU64_encodeInt hrlp, decodeU128_encodeInt hrlp, decodeU256_encodeInt hrlp,
    decodeTo_encodeString hrlp, decodeBytes_encodeString hrlp (data_fits hp), liftM_ok_bind,
    hclass, inRange_validateSignature hp, hsender]
  rfl

theorem parseEip1559_canonical {p : ParsedTx} (hp : InRange p) {c : UInt64}
    (hk : p.kind = .eip1559) (hfee : p.maxPriorityFeePerGas ≤ p.maxFeePerGas)
    (hc : p.chainId = some c) :
    parseEip1559 rlp crypto (encodeList (signedItems p).flatten)
      = recoverFrom crypto p := by
  have hle : p.yParity.toNat ≤ 1 := UInt8.le_iff_toNat_le.mp hp.parity
  have hy : p.yParity.toNat = p.yParity.toUInt64.toNat := by
    rw [UInt8.toNat_toUInt64]
  have hy1 : ¬ 1 < p.yParity.toUInt64 := by
    rw [UInt64.not_lt, UInt64.le_iff_toNat_le, ← hy]
    exact hle
  have haccess : checkAccessList rlp (encodeList []) = .ok () :=
    (checkAccessList_iff hrlp isItem_emptyList).mpr rfl
  have hsender : ∀ a, { p with sender := a } = ({
      kind := .eip1559, chainId := some c, nonce := p.nonce
      gasLimit := p.gasLimit, maxFeePerGas := p.maxFeePerGas
      maxPriorityFeePerGas := p.maxPriorityFeePerGas, toAddr := p.toAddr, value := p.value
      data := p.data, r := p.r, s := p.s, yParity := p.yParity, sender := a } : ParsedTx) := by
    intro a
    rw [hk, hc]
  have hbody : typedBody p = [encodeInt c.toNat, encodeInt p.nonce.toNat,
      encodeInt p.maxPriorityFeePerGas.toNat, encodeInt p.maxFeePerGas.toNat,
      encodeInt p.gasLimit.toNat, encodeString (toPayload p.toAddr),
      encodeInt p.value.toNat, encodeString p.data, encodeList []] := by
    unfold typedBody
    rw [hc]
    rfl
  unfold parseEip1559 recoverFrom
  rw [decodeList_signedItems hrlp hp, liftM_ok_bind, signedItems_typed hk hc,
    ← typedPayload_eq hrlp hp hk, hbody]
  simp only [decodeU64_encodeInt hrlp, decodeU128_encodeInt hrlp, decodeU256_encodeInt hrlp,
    decodeTo_encodeString hrlp, decodeBytes_encodeString hrlp (data_fits hp), liftM_ok_bind,
    haccess, if_neg (BitVec.not_lt.mpr hfee), if_neg hy1, UInt8.toUInt8_toUInt64,
    inRange_validateSignature hp, hsender]

/-- The canonical encoding of in-range fields reaches the recovery of
exactly these fields. -/
theorem parseRawTx_canonicalRaw {p : ParsedTx} (hp : InRange p) :
    parseRawTx rlp crypto (canonicalRaw p) = recoverFrom crypto p := by
  rcases hp.shape with ⟨hk, hfee, c, hc, hv⟩ | ⟨hk, hfee, c, hc⟩
  · have hraw : canonicalRaw p = encodeList (signedItems p).flatten := by
      unfold canonicalRaw envelope
      rw [hk]
    rw [← parseLegacy_canonical hrlp crypto hp hk hfee hc hv, hraw]
    obtain ⟨b, rest, hcons, hge⟩ := encodeList_head hp.fits
    rw [hcons]
    have hfirst : 0xc0 ≤ b := by
      rw [UInt8.le_iff_toNat_le]
      exact hge
    simp only [parseRawTx]
    rw [if_pos hfirst]
  · have hraw : canonicalRaw p = 0x02 :: encodeList (signedItems p).flatten := by
      unfold canonicalRaw envelope
      rw [hk]
    rw [← parseEip1559_canonical hrlp crypto hp hk hfee hc, hraw]
    simp only [parseRawTx, if_true]
    exact if_neg (by decide)

end Parse

-- ==================================================== plain functions

section Plain

variable (crypto : Crypto Id)

/-- The parser on plain functions: what it hashed and what that gave. -/
def Recovers (p : ParsedTx) : Prop :=
  ∃ signingHash, crypto.keccak256 (signingPayload p) = .ok signingHash ∧
    crypto.recoverSender signingHash p.r p.s p.yParity = .ok p.sender

theorem recoverFrom_eq_ok {p q : ParsedTx} :
    recoverFrom crypto p = .ok q ↔ ∃ a, q = { p with sender := a } ∧ Recovers crypto q := by
  unfold recoverFrom
  refine ⟨?_, ?_⟩
  · intro h
    cases hk : crypto.keccak256 (signingPayload p) with
    | error e =>
        rw [hk] at h
        cases h
    | ok signingHash =>
        rw [hk] at h
        cases hr : crypto.recoverSender signingHash p.r p.s p.yParity with
        | error e =>
            change (crypto.recoverSender signingHash p.r p.s p.yParity >>= _) = _ at h
            rw [hr] at h
            cases h
        | ok a =>
            change (crypto.recoverSender signingHash p.r p.s p.yParity >>= _) = _ at h
            rw [hr] at h
            injection h with h
            refine ⟨a, h.symm, signingHash, ?_, ?_⟩
            · rw [← h]
              exact hk
            · rw [← h]
              exact hr
  · intro h
    obtain ⟨a, rfl, signingHash, hk, hr⟩ := h
    change crypto.keccak256 (signingPayload p) = _ at hk
    rw [hk]
    show (crypto.recoverSender signingHash p.r p.s p.yParity >>= _) = _
    rw [hr]
    rfl

variable {rlp : AlloyRlp} (hrlp : rlp.Canonical)
include hrlp

/-- Acceptance, exactly. -/
theorem parseRawTx_eq_ok {raw : Bytes} {p : ParsedTx} :
    parseRawTx rlp crypto raw = .ok p
      ↔ InRange p ∧ raw = canonicalRaw p ∧ Recovers crypto p := by
  refine ⟨?_, ?_⟩
  · intro h
    rcases parseRawTx_settles hrlp crypto raw with ⟨e, he⟩ | ⟨q, hq, hraw, hrec⟩
    · rw [he] at h
      cases h
    · rw [hrec] at h
      obtain ⟨a, rfl, hrec'⟩ := (recoverFrom_eq_ok crypto).mp h
      exact ⟨⟨hq.shape, hq.parity, hq.r_pos, hq.r_lt, hq.s_pos, hq.s_low, hq.fits⟩, hraw,
        hrec'⟩
  · intro h
    obtain ⟨hp, hraw, hrec⟩ := h
    rw [hraw, parseRawTx_canonicalRaw hrlp crypto hp, recoverFrom_eq_ok]
    exact ⟨p.sender, rfl, hrec⟩

omit hrlp in
/-- A low `s` has a high twin. -/
theorem twin_high {s : U256} (h : s ≤ secp256k1NHalf) :
    ¬ secp256k1N - s ≤ secp256k1NHalf := by
  have hhalf : secp256k1NHalf.toNat
      = 0x7FFFFFFFFFFFFFFFFFFFFFFFFFFFFFFF5D576E7357A4501DDFE92F46681B20A0 := by decide
  have hN : secp256k1N.toNat
      = 0xFFFFFFFFFFFFFFFFFFFFFFFFFFFFFFFEBAAEDCE6AF48A03BBFD25E8CD0364141 := by decide
  rw [BitVec.le_def] at h ⊢
  have hle : s.toNat ≤ secp256k1N.toNat := by omega
  rw [BitVec.toNat_sub_of_le (BitVec.le_def.mpr hle)]
  omega

/-- `parse_raw_tx` accepts exactly the canonical encodings. What it
accepts is the canonical encoding of the fields it returns, and the
sender is the one recovered from the hash of their unsigned payload;
the canonical encoding of in-range fields whose recovery succeeds parses
back to them. So two accepted strings with the same fields are one
string, and a signature and its twin are not both accepted. -/
theorem parseRawTx_canonical :
    (∀ raw p, parseRawTx rlp crypto raw = .ok p →
      raw = canonicalRaw p ∧ InRange p ∧
        ∃ signingHash, crypto.keccak256 (signingPayload p) = .ok signingHash ∧
          crypto.recoverSender signingHash p.r p.s p.yParity = .ok p.sender) ∧
    (∀ p, InRange p →
      (∃ signingHash, crypto.keccak256 (signingPayload p) = .ok signingHash ∧
          crypto.recoverSender signingHash p.r p.s p.yParity = .ok p.sender) →
      parseRawTx rlp crypto (canonicalRaw p) = .ok p) ∧
    (∀ raw raw' p p', parseRawTx rlp crypto raw = .ok p →
      parseRawTx rlp crypto raw' = .ok p' → p' = { p with sender := p'.sender } →
      raw = raw') ∧
    (∀ raw raw' p p', parseRawTx rlp crypto raw = .ok p →
      parseRawTx rlp crypto raw' = .ok p' →
      ¬ (p'.r = p.r ∧ p'.s = secp256k1N - p.s ∧ p'.yParity = 1 - p.yParity)) := by
  refine ⟨?_, ?_, ?_, ?_⟩
  · intro raw p h
    obtain ⟨hp, hraw, hrec⟩ := (parseRawTx_eq_ok crypto hrlp).mp h
    exact ⟨hraw, hp, hrec⟩
  · intro p hp hrec
    exact (parseRawTx_eq_ok crypto hrlp).mpr ⟨hp, rfl, hrec⟩
  · intro raw raw' p p' h h' hfields
    obtain ⟨-, hraw, -⟩ := (parseRawTx_eq_ok crypto hrlp).mp h
    obtain ⟨-, hraw', -⟩ := (parseRawTx_eq_ok crypto hrlp).mp h'
    rw [hraw, hraw', hfields]
    exact (canonicalRaw_sender p p'.sender).symm
  · intro raw raw' p p' h h' htwin
    obtain ⟨hp, -, -⟩ := (parseRawTx_eq_ok crypto hrlp).mp h
    obtain ⟨hp', -, -⟩ := (parseRawTx_eq_ok crypto hrlp).mp h'
    apply twin_high hp.s_low
    rw [← htwin.2.1]
    exact hp'.s_low

/-- The `CAST_LEGACY_RAW` vector of the parser's tests: one wei on chain
42069, parity 1. -/
def castLegacy : ParsedTx where
  kind := .eip155
  chainId := some 42069
  nonce := 0
  gasLimit := 21000
  maxFeePerGas := 1
  maxPriorityFeePerGas := 1
  toAddr := some ⟨List.replicate 20 0x11, by decide⟩
  value := 1
  data := []
  r := 0xe93452df983161572885d66e3496133be9eb8752254ba9ed2703cadd98b7fcba
  s := 0x7c431cb342891e0fdc832c4d31a5585d4a5181a92b136034cedebbb047731cc6
  yParity := 1
  sender := ⟨beBytes 20 0x9d9a9c891cb86136a56394d215ec2de0ec44f252, length_beBytes 20 _⟩

example : canonicalRaw castLegacy = beBytes 100
    0xf86280018252089411111111111111111111111111111111111111110180830148cea0e93452df983161572885d66e3496133be9eb8752254ba9ed2703cadd98b7fcbaa07c431cb342891e0fdc832c4d31a5585d4a5181a92b136034cedebbb047731cc6 := by
  decide +kernel

omit hrlp in
theorem castLegacy_inRange : InRange castLegacy :=
  ⟨Or.inl ⟨rfl, rfl, 42069, rfl, by decide⟩, by decide, by decide, by decide, by decide,
    by decide, by decide +kernel⟩

/-- Keccak on the vector's signing payload. -/
def castSigningHash : B256 :=
  ⟨beBytes 32 0x1b421ba93847822ecbe68c118e1d5e69d24d2aecf8a84dc5e2d4319c1d2f00a7,
    length_beBytes 32 _⟩

/-- Hash and recovery with the real values at the vector. -/
def castCrypto : Crypto Id where
  keccak256 data :=
    .ok (if data = signingPayload castLegacy then castSigningHash else FixedBytes.zero 32)
  recoverSender signingHash r s yParity :=
    if signingHash = castSigningHash ∧ r = castLegacy.r ∧ s = castLegacy.s ∧ yParity = 1 then
      .ok castLegacy.sender
    else .error .recoveryFailure

omit hrlp in
theorem castLegacy_accepted :
    strictRlp.Canonical ∧ InRange castLegacy ∧
      parseRawTx strictRlp castCrypto (canonicalRaw castLegacy) = .ok castLegacy := by
  refine ⟨strictRlp_canonical, castLegacy_inRange, ?_⟩
  apply (parseRawTx_canonical castCrypto strictRlp_canonical).2.1 castLegacy castLegacy_inRange
  refine ⟨castSigningHash, ?_, ?_⟩
  · simp [castCrypto]
  · simp [castCrypto, castLegacy]

end Plain

end KoinosEvm.Proofs
