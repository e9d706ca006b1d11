/-
The field decoders of the engine's parser, each with its one spec lemma.

An item handed to a decoder is one canonical RLP item, header and
payload. On such an item every decoder accepts exactly the canonical
encoding of the value it returns: `decode_u64` the minimal integer of a
`u64`, `decode_to` the empty string or twenty bytes, and so on. The
parser's proof cites these and never unfolds a decoder.
-/
import KoinosEvm.Engine.Tx

namespace KoinosEvm.Proofs

open Engine Lib Lib.Rlp

-- ======================================================== reading bytes

theorem u256FromBeSlice_toNat {bytes : Bytes} (h : bytes.length ≤ 32) :
    (u256FromBeSlice bytes).toNat = ofBe bytes := by
  unfold u256FromBeSlice
  rw [BitVec.toNat_ofNat]
  refine Nat.mod_eq_of_lt (lt_of_lt_of_le (ofBe_lt bytes) ?_)
  calc (256 : Nat) ^ bytes.length ≤ 256 ^ 32 := Nat.pow_le_pow_right (Nat.succ_pos 255) h
    _ = 2 ^ 256 := by norm_num

-- =========================================================== the items

theorem word_lt_maxLen : 32 < maxLen := by
  unfold maxLen
  norm_num

/-- What fits 256 bits is spelled in 32 bytes. -/
theorem lt_word {n w : Nat} (h : n < 2 ^ w) (hw : w ≤ 256) : n < 256 ^ 32 :=
  calc n < 2 ^ w := h
    _ ≤ 2 ^ 256 := Nat.pow_le_pow_right (Nat.succ_pos 1) hw
    _ = 256 ^ 32 := by norm_num

theorem u64_lt (v : UInt64) : v.toNat < 256 ^ 32 := lt_word v.toNat_lt (by omega)

theorem u128_lt (v : U128) : v.toNat < 256 ^ 32 := lt_word v.isLt (by omega)

theorem u256_lt (v : U256) : v.toNat < 256 ^ 32 := lt_word v.isLt (le_refl 256)

theorem isItem_encodeString {p : Bytes} (h : p.length < maxLen) :
    IsItem (encodeString p) := ⟨false, p, h, rfl⟩

theorem isItem_encodeList {p : Bytes} (h : p.length < maxLen) :
    IsItem (encodeList p) := ⟨true, p, h, rfl⟩

theorem isItem_emptyList : IsItem (encodeList []) :=
  isItem_encodeList (lt_trans (Nat.succ_pos 31) word_lt_maxLen)

theorem length_toBe_lt {n : Nat} (h : n < 256 ^ 32) : (toBe n).length < maxLen :=
  lt_of_le_of_lt (length_toBe_le h) word_lt_maxLen

theorem isItem_encodeInt {n : Nat} (h : n < 256 ^ 32) : IsItem (encodeInt n) :=
  isItem_encodeString (length_toBe_lt h)

/-- An item that starts with an encoding is that encoding. -/
theorem item_eq_of_append {x rest p : Bytes} (list : Bool) (hx : IsItem x)
    (hp : p.length < maxLen) (h : x = encode list p ++ rest) :
    rest = [] ∧ x = encode list p := by
  obtain ⟨l, q, hq, rfl⟩ := hx
  have h' : encode l q ++ [] = encode list p ++ rest := by
    rw [List.append_nil]
    exact h
  obtain ⟨rfl, rfl, hrest⟩ := encode_inj hq hp h'
  exact ⟨hrest.symm, rfl⟩

-- ========================================== a strict reader and writer

/-- `alloy_rlp`'s operations from the strict reader of `Lib.Rlp`. -/
def strictRlp : AlloyRlp where
  decodeRaw buf :=
    match decodeItem buf with
    | none => none
    | some (false, payload, rest) => some (.string payload, rest)
    | some (true, payload, rest) =>
        (splitItems payload.length payload).map fun items => (.list items, rest)
  decodeBytes buf :=
    match decodeItem buf with
    | some (false, payload, rest) => some (payload, rest)
    | _ => none
  encodeHeader list len := header (if list then 0xc0 else 0x80) len
  encodeU64 v := encodeInt v.toNat

theorem length_le_flatten {items : List Bytes} (h : ∀ x ∈ items, IsItem x) :
    items.length ≤ items.flatten.length := by
  induction items with
  | nil => exact le_refl 0
  | cons x items ih =>
      obtain ⟨list, payload, hp, hx⟩ := h x List.mem_cons_self
      have hpos : 1 ≤ x.length := by
        rw [hx]
        exact List.length_pos_iff.mpr (encode_ne_nil list hp)
      have htail := ih (fun y hy => h y (List.mem_cons_of_mem _ hy))
      rw [List.flatten_cons, List.length_append, List.length_cons]
      omega

/-- A string as the strict reader sees it. -/
theorem decodeItem_string_iff {buf payload rest : Bytes} :
    decodeItem buf = some (false, payload, rest)
      ↔ payload.length < maxLen ∧ buf = encodeString payload ++ rest := decodeItem_iff

theorem strictRlp_decodeBytes_iff (buf payload rest : Bytes) :
    strictRlp.decodeBytes buf = some (payload, rest)
      ↔ decodeItem buf = some (false, payload, rest) := by
  simp only [strictRlp]
  cases hd : decodeItem buf with
  | none => simp
  | some d =>
      obtain ⟨list, q, r⟩ := d
      cases list with
      | false => simp
      | true => simp

theorem strictRlp_string_iff (buf payload rest : Bytes) :
    strictRlp.decodeRaw buf = some (.string payload, rest)
      ↔ decodeItem buf = some (false, payload, rest) := by
  simp only [strictRlp]
  cases hd : decodeItem buf with
  | none => simp
  | some d =>
      obtain ⟨list, q, r⟩ := d
      cases list with
      | false => simp
      | true =>
          simp only [Option.map_eq_some_iff]
          simp

/-- What the strict reader takes for a list is a canonical one. -/
theorem strictRlp_list_sound {buf rest : Bytes} {items : List Bytes}
    (h : strictRlp.decodeRaw buf = some (.list items, rest)) :
    (∀ x ∈ items, IsItem x) ∧ items.flatten.length < maxLen
      ∧ buf = encodeList items.flatten ++ rest := by
  simp only [strictRlp] at h
  cases hd : decodeItem buf with
  | none =>
      rw [hd] at h
      cases h
  | some d =>
      obtain ⟨list, q, r⟩ := d
      obtain ⟨hq, hbuf⟩ := decodeItem_iff.mp hd
      rw [hd] at h
      cases list with
      | false => cases h
      | true =>
          obtain ⟨items', hsplit, heq⟩ := Option.map_eq_some_iff.mp h
          injection heq with hitems hrest
          injection hitems with hitems
          subst hitems hrest
          obtain ⟨hflat, hall⟩ := splitItems_sound hsplit
          rw [hflat] at hq hbuf
          exact ⟨hall, hq, hbuf⟩

/-- A canonical list is read as its items. -/
theorem strictRlp_list_complete {buf rest : Bytes} {items : List Bytes}
    (hall : ∀ x ∈ items, IsItem x) (hlen : items.flatten.length < maxLen)
    (hbuf : buf = encodeList items.flatten ++ rest) :
    strictRlp.decodeRaw buf = some (.list items, rest) := by
  have hd : decodeItem buf = some (true, items.flatten, rest) :=
    decodeItem_iff.mpr ⟨hlen, hbuf⟩
  simp only [strictRlp, hd]
  rw [splitItems_flatten items hall (length_le_flatten hall)]
  rfl

/-- The laws the parser relies on have an instance. -/
theorem strictRlp_canonical : strictRlp.Canonical where
  decodeBytes_iff buf payload rest :=
    (strictRlp_decodeBytes_iff buf payload rest).trans decodeItem_string_iff
  decodeRaw_list_iff buf items rest :=
    ⟨strictRlp_list_sound, fun h => strictRlp_list_complete h.1 h.2.1 h.2.2⟩
  decodeRaw_string_iff buf payload rest :=
    (strictRlp_string_iff buf payload rest).trans decodeItem_string_iff
  encodeHeader_list := by
    intro len _
    rfl
  encodeU64_eq := by
    intro v
    rfl

-- ======================================================== the decoders

variable {rlp : AlloyRlp} (hrlp : rlp.Canonical)
include hrlp

theorem decodeBytes_iff {x d : Bytes} (hx : IsItem x) :
    decodeBytes rlp x = .ok d ↔ d.length < maxLen ∧ x = encodeString d := by
  unfold decodeBytes
  refine ⟨?_, ?_⟩
  · intro h
    split at h
    next payload rest hd =>
      injection h with h
      subst h
      obtain ⟨hp, hxe⟩ := (hrlp.decodeBytes_iff x payload rest).mp hd
      exact ⟨hp, (item_eq_of_append false hx hp hxe).2⟩
    next => cases h
  · intro h
    have hd := (hrlp.decodeBytes_iff x d []).mpr ⟨h.1, by rw [List.append_nil, h.2]⟩
    rw [hd]

omit hrlp in
/-- The checks a scalar's payload passes. -/
theorem scalarChecks_iff {width : Nat} {payload bytes : Bytes} :
    (checkCanonical payload >>= fun _ =>
        if width < payload.length then .error .scalarTooLarge else .ok payload)
      = Except.ok bytes
      ↔ bytes = payload ∧ NoLeadingZero bytes ∧ bytes.length ≤ width := by
  unfold checkCanonical
  by_cases hz : payload.head? = some 0
  · rw [if_pos hz]
    refine ⟨?_, ?_⟩
    · intro h
      cases h
    · intro h
      rw [h.1] at h
      exact absurd hz h.2.1
  · rw [if_neg hz]
    show (if width < payload.length then _ else _) = _ ↔ _
    by_cases hlen : width < payload.length
    · rw [if_pos hlen]
      refine ⟨?_, ?_⟩
      · intro h
        cases h
      · intro h
        rw [h.1] at h
        omega
    · rw [if_neg hlen]
      refine ⟨?_, ?_⟩
      · intro h
        injection h with h
        subst h
        exact ⟨rfl, hz, by omega⟩
      · intro h
        rw [h.1]

/-- A scalar of at most `width` bytes is the canonical integer it
spells. -/
theorem decodeScalar_iff (width : Nat) (hw : width ≤ 32) {x bytes : Bytes}
    (hx : IsItem x) :
    decodeScalar rlp width x = .ok bytes
      ↔ NoLeadingZero bytes ∧ bytes.length ≤ width
        ∧ x = encodeInt (ofBe bytes) := by
  unfold decodeScalar
  refine ⟨?_, ?_⟩
  · intro h
    cases hd : decodeBytes rlp x with
    | error e => rw [hd] at h; cases h
    | ok payload =>
        rw [hd] at h
        obtain ⟨-, hxe⟩ := (decodeBytes_iff hrlp hx).mp hd
        obtain ⟨rfl, hz, hlen⟩ := scalarChecks_iff.mp h
        refine ⟨hz, hlen, ?_⟩
        unfold encodeInt
        rw [toBe_ofBe hz]
        exact hxe
  · intro h
    obtain ⟨hz, hlen, hxe⟩ := h
    unfold encodeInt at hxe
    rw [toBe_ofBe hz] at hxe
    have hmax : bytes.length < maxLen := lt_of_le_of_lt (hlen.trans hw) word_lt_maxLen
    rw [(decodeBytes_iff hrlp hx).mpr ⟨hmax, hxe⟩]
    exact scalarChecks_iff.mpr ⟨rfl, hz, hlen⟩

theorem decodeU64_iff {x : Bytes} {v : UInt64} (hx : IsItem x) :
    decodeU64 rlp x = .ok v ↔ x = encodeInt v.toNat := by
  unfold decodeU64
  refine ⟨?_, ?_⟩
  · intro h
    cases hd : decodeScalar rlp 8 x with
    | error e => rw [hd] at h; cases h
    | ok bytes =>
        rw [hd] at h
        obtain ⟨-, hlen, hxe⟩ := (decodeScalar_iff hrlp _ (by omega) hx).mp hd
        injection h with h
        rw [← h, hxe]
        show _ = encodeInt (shiftIn 64 bytes).toNat
        rw [shiftIn_toNat (by omega)]
  · intro h
    have hlen : (toBe v.toNat).length ≤ 8 := length_toBe_le (by simpa using v.toNat_lt)
    have hd := (decodeScalar_iff hrlp 8 (by omega) hx).mpr
      ⟨noLeadingZero_toBe v.toNat, hlen, by rw [ofBe_toBe]; exact h⟩
    rw [hd]
    show Except.ok (UInt64.ofBitVec (shiftIn 64 (toBe v.toNat))) = .ok v
    have hv : UInt64.ofBitVec (shiftIn 64 (toBe v.toNat)) = v := by
      apply UInt64.toNat_inj.mp
      show (shiftIn 64 (toBe v.toNat)).toNat = v.toNat
      rw [shiftIn_toNat (by omega), ofBe_toBe]
    rw [hv]

theorem decodeU128_iff {x : Bytes} {v : U128} (hx : IsItem x) :
    decodeU128 rlp x = .ok v ↔ x = encodeInt v.toNat := by
  unfold decodeU128
  refine ⟨?_, ?_⟩
  · intro h
    cases hd : decodeScalar rlp 16 x with
    | error e => rw [hd] at h; cases h
    | ok bytes =>
        rw [hd] at h
        obtain ⟨-, hlen, hxe⟩ := (decodeScalar_iff hrlp _ (by omega) hx).mp hd
        injection h with h
        rw [← h, hxe, shiftIn_toNat (by omega)]
  · intro h
    have hlen : (toBe v.toNat).length ≤ 16 := length_toBe_le (by simpa using v.isLt)
    have hd := (decodeScalar_iff hrlp 16 (by omega) hx).mpr
      ⟨noLeadingZero_toBe v.toNat, hlen, by rw [ofBe_toBe]; exact h⟩
    rw [hd]
    show Except.ok (shiftIn 128 (toBe v.toNat)) = .ok v
    have hv : shiftIn 128 (toBe v.toNat) = v := by
      apply BitVec.eq_of_toNat_eq
      rw [shiftIn_toNat (by omega), ofBe_toBe]
    rw [hv]

theorem decodeU256_iff {x : Bytes} {v : U256} (hx : IsItem x) :
    decodeU256 rlp x = .ok v ↔ x = encodeInt v.toNat := by
  unfold decodeU256
  refine ⟨?_, ?_⟩
  · intro h
    cases hd : decodeScalar rlp 32 x with
    | error e => rw [hd] at h; cases h
    | ok bytes =>
        rw [hd] at h
        obtain ⟨-, hlen, hxe⟩ := (decodeScalar_iff hrlp _ (le_refl 32) hx).mp hd
        injection h with h
        rw [← h, hxe, u256FromBeSlice_toNat hlen]
  · intro h
    have hlen : (toBe v.toNat).length ≤ 32 := length_toBe_le (by simpa using v.isLt)
    have hd := (decodeScalar_iff hrlp 32 (le_refl 32) hx).mpr
      ⟨noLeadingZero_toBe v.toNat, hlen, by rw [ofBe_toBe]; exact h⟩
    rw [hd]
    show Except.ok (u256FromBeSlice (toBe v.toNat)) = .ok v
    have hv : u256FromBeSlice (toBe v.toNat) = v := by
      apply BitVec.eq_of_toNat_eq
      rw [u256FromBeSlice_toNat hlen, ofBe_toBe]
    rw [hv]

/-- The decoders invert the encoding of a field. -/
theorem decodeU64_encodeInt (v : UInt64) : decodeU64 rlp (encodeInt v.toNat) = .ok v :=
  (decodeU64_iff hrlp (isItem_encodeInt (u64_lt v))).mpr rfl

theorem decodeU128_encodeInt (v : U128) : decodeU128 rlp (encodeInt v.toNat) = .ok v :=
  (decodeU128_iff hrlp (isItem_encodeInt (u128_lt v))).mpr rfl

theorem decodeU256_encodeInt (v : U256) : decodeU256 rlp (encodeInt v.toNat) = .ok v :=
  (decodeU256_iff hrlp (isItem_encodeInt (u256_lt v))).mpr rfl

theorem decodeBytes_encodeString {d : Bytes} (h : d.length < maxLen) :
    decodeBytes rlp (encodeString d) = .ok d :=
  (decodeBytes_iff hrlp (isItem_encodeString h)).mpr ⟨h, rfl⟩

/-- The payload of a `to` field. -/
def toPayload : Option Address → Bytes
  | none => []
  | some addr => addr.bytes

omit hrlp in
theorem length_toPayload (a : Option Address) : (toPayload a).length < maxLen := by
  cases a with
  | none => exact lt_trans (Nat.succ_pos 31) word_lt_maxLen
  | some addr =>
      show addr.bytes.length < maxLen
      rw [addr.len]
      exact lt_trans (by omega) word_lt_maxLen

omit hrlp in
theorem address_not_empty (addr : Address) : ¬ addr.bytes.isEmpty = true := by
  intro he
  have h20 := addr.len
  rw [List.isEmpty_iff.mp he] at h20
  cases h20

theorem decodeTo_iff {x : Bytes} {a : Option Address} (hx : IsItem x) :
    decodeTo rlp x = .ok a ↔ x = encodeString (toPayload a) := by
  unfold decodeTo
  refine ⟨?_, ?_⟩
  · intro h
    cases hd : decodeBytes rlp x with
    | error e => rw [hd] at h; cases h
    | ok payload =>
        rw [hd] at h
        obtain ⟨-, hxe⟩ := (decodeBytes_iff hrlp hx).mp hd
        rw [hxe]
        rcases payload with - | ⟨b, bs⟩
        · injection h with h
          rw [← h]
          rfl
        · cases ho : FixedBytes.ofBytes? 20 (b :: bs) with
          | none =>
              simp only [bind, Except.bind, List.isEmpty_cons, ho] at h
              cases h
          | some addr =>
              simp only [bind, Except.bind, List.isEmpty_cons, ho] at h
              injection h with h
              rw [← h, FixedBytes.ofBytes?_eq_some ho]
              rfl
  · intro h
    rw [(decodeBytes_iff hrlp hx).mpr ⟨length_toPayload a, h⟩]
    cases a with
    | none => rfl
    | some addr =>
        have hpayload : toPayload (some addr) = addr.bytes := rfl
        simp only [bind, Except.bind, hpayload, if_neg (address_not_empty addr),
          FixedBytes.ofBytes?_bytes]
        rfl

theorem decodeTo_encodeString (a : Option Address) :
    decodeTo rlp (encodeString (toPayload a)) = .ok a :=
  (decodeTo_iff hrlp (isItem_encodeString (length_toPayload a))).mpr rfl

theorem checkAccessList_iff {x : Bytes} (hx : IsItem x) :
    checkAccessList rlp x = .ok () ↔ x = encodeList [] := by
  unfold checkAccessList
  refine ⟨?_, ?_⟩
  · intro h
    split at h
    · cases h
    · next rest hd =>
      obtain ⟨-, hp, hxe⟩ := (hrlp.decodeRaw_list_iff x [] rest).mp hd
      exact (item_eq_of_append true (p := []) hx hp hxe).2
    · cases h
  · intro h
    have hd := (hrlp.decodeRaw_list_iff x [] []).mpr
      ⟨by simp, by decide, by rw [h]; rfl⟩
    rw [hd]

/-- The opening of both parsers accepts one canonical list, whole. -/
theorem decodeList_iff {raw : Bytes} {items : List Bytes} :
    decodeList rlp raw = .ok items
      ↔ (∀ x ∈ items, IsItem x) ∧ items.flatten.length < maxLen
        ∧ raw = encodeList items.flatten := by
  unfold decodeList
  refine ⟨?_, ?_⟩
  · intro h
    split at h
    · cases h
    · next view rest hd =>
      split at h
      · next he =>
        cases view with
        | string p => cases h
        | list items' =>
            injection h with h
            subst h
            have hrest : rest = [] := List.isEmpty_iff.mp he
            subst hrest
            have := (hrlp.decodeRaw_list_iff raw items' []).mp hd
            rw [List.append_nil] at this
            exact this
      · cases h
  · intro h
    have hd := (hrlp.decodeRaw_list_iff raw items []).mpr
      ⟨h.1, h.2.1, by rw [List.append_nil]; exact h.2.2⟩
    rw [hd]
    rfl

end KoinosEvm.Proofs
