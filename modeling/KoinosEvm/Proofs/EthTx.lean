/-
The proxy understands everything the engine executes.

The proxy's RLP reader extends the strict one (`rlpHeader_of_decodeItem`),
so on canonical items it returns the payload, and on a canonical list the
items; its writers spell the canonical form. On the canonical encoding of
in-range fields the decoder therefore reaches `recover_sender` with the
engine's signing payload (`decodeAndRecover_canonicalRaw`), and what the
engine accepts is such an encoding (Proofs/TxCanonical.lean).
-/
import KoinosEvm.Engine.Crypto
import KoinosEvm.Proofs.RlpFrames
import KoinosEvm.Proofs.TxCanonical

namespace KoinosEvm.Proofs

open Engine Lib Lib.Rlp
open Proxy (EthTx.rlpHeader EthTx.longHeader EthTx.rlpDecodeBytes EthTx.itemsLoop)
open Proxy.EthTx (DecodedTx Secp256k1 decodeAndRecover decodeAddress decodeU256Be fromList
  firstItems item checkedAdd rlpEncodeU64 wrapRlpList)

-- ========================================================== the reader

theorem longHeader_of_readLength {n len : Nat} {rest r : Bytes} (hn : n ≤ 8)
    (h : readLength n rest = some (len, r)) (list : Bool) (msg : String) :
    EthTx.longHeader list n rest msg = .ok (list, len, 1 + n)
      ∧ n ≤ rest.length ∧ rest.drop n = r := by
  obtain ⟨hrest, hlen, -⟩ := readLength_sound h
  have htake : rest.take n = toBe len := by
    rw [hrest, ← hlen, List.take_left]
  have hle : n ≤ rest.length := by
    rw [hrest, List.length_append]
    omega
  refine ⟨?_, hle, ?_⟩
  · unfold EthTx.longHeader
    rw [if_neg (by omega), htake, shiftIn_toNat (by omega), ofBe_toBe]
  · rw [hrest, ← hlen, List.drop_left]

/-- The proxy's header reader extends the strict one. -/
theorem rlpHeader_of_decodeHeader {buf r : Bytes} {list : Bool} {len : Nat}
    (h : decodeHeader buf = some (list, len, r)) :
    ∃ start, EthTx.rlpHeader buf = .ok (list, len, start)
      ∧ start ≤ buf.length ∧ buf.drop start = r := by
  cases buf with
  | nil => cases h
  | cons b rest =>
      have hb := b.toNat_lt
      have h7f : b ≤ 0x7f ↔ b.toNat ≤ 0x7f := UInt8.le_iff_toNat_le
      have hb7 : b ≤ 0xb7 ↔ b.toNat ≤ 0xb7 := UInt8.le_iff_toNat_le
      have hbf : b ≤ 0xbf ↔ b.toNat ≤ 0xbf := UInt8.le_iff_toNat_le
      have hf7 : b ≤ 0xf7 ↔ b.toNat ≤ 0xf7 := UInt8.le_iff_toNat_le
      have hsub : ∀ c : UInt8, c.toNat ≤ b.toNat → (b - c).toNat = b.toNat - c.toNat :=
        fun c hc => UInt8.toNat_sub_of_le b c (UInt8.le_iff_toNat_le.mpr hc)
      have hlong : ∀ (l : Bool) (c : UInt8) (msg : String), c.toNat ≤ b.toNat →
          b.toNat - c.toNat ≤ 8 →
          (readLength (b.toNat - c.toNat) rest).map (fun d => (l, d.1, d.2))
            = some (list, len, r) →
          ∃ start, EthTx.longHeader l (b - c).toNat rest msg = .ok (list, len, start)
            ∧ start ≤ (b :: rest).length ∧ (b :: rest).drop start = r := by
        intro l c msg hc h8 hread
        obtain ⟨⟨len', r'⟩, hsome, heq⟩ := Option.map_eq_some_iff.mp hread
        injection heq with h1 heq
        injection heq with h2 h3
        subst h1 h2 h3
        obtain ⟨hhead, hle, hdrop⟩ := longHeader_of_readLength h8 hsome l msg
        rw [hsub c hc]
        refine ⟨_, hhead, ?_, ?_⟩
        · rw [List.length_cons]
          omega
        · rw [Nat.add_comm, List.drop_succ_cons, hdrop]
      simp only [decodeHeader] at h
      simp only [EthTx.rlpHeader, h7f, hb7, hbf, hf7]
      by_cases c1 : b.toNat < 0x80
      · rw [if_pos c1] at h
        rw [if_pos (by omega)]
        cases h
        exact ⟨0, rfl, Nat.zero_le _, rfl⟩
      · rw [if_neg c1] at h
        rw [if_neg (by omega)]
        by_cases c2 : b.toNat < 0xb8
        · rw [if_pos c2] at h
          rw [if_pos (by omega), hsub 0x80 (by show 0x80 ≤ b.toNat; omega)]
          split at h
          · cases h
          · injection h with h
            injection h with h1 h
            injection h with h2 h3
            subst h1 h2 h3
            exact ⟨1, rfl, by simp, rfl⟩
        · rw [if_neg c2] at h
          rw [if_neg (by omega)]
          by_cases c3 : b.toNat < 0xc0
          · rw [if_pos c3] at h
            rw [if_pos (by omega)]
            exact hlong false 0xb7 _ (by show 0xb7 ≤ b.toNat; omega)
              (by show b.toNat - 0xb7 ≤ 8; omega) h
          · rw [if_neg c3] at h
            rw [if_neg (by omega)]
            by_cases c4 : b.toNat < 0xf8
            · rw [if_pos c4] at h
              rw [if_pos (by omega), hsub 0xc0 (by show 0xc0 ≤ b.toNat; omega)]
              injection h with h
              injection h with h1 h
              injection h with h2 h3
              subst h1 h2 h3
              exact ⟨1, rfl, by simp, rfl⟩
            · rw [if_neg c4] at h
              rw [if_neg (by omega)]
              exact hlong true 0xf7 _ (by show 0xf7 ≤ b.toNat; omega)
                (by show b.toNat - 0xf7 ≤ 8; omega) h

/-- On a canonical encoding it finds the payload. -/
theorem rlpHeader_encode (list : Bool) {payload : Bytes} (hp : payload.length < maxLen)
    (rest : Bytes) :
    ∃ start, EthTx.rlpHeader (encode list payload ++ rest)
        = .ok (list, payload.length, start)
      ∧ start + payload.length = (encode list payload).length
      ∧ (encode list payload).drop start = payload := by
  have hdec := decodeItem_encode list hp rest
  unfold decodeItem at hdec
  cases hh : decodeHeader (encode list payload ++ rest) with
  | none =>
      rw [hh] at hdec
      cases hdec
  | some d =>
      obtain ⟨l, len, r⟩ := d
      rw [hh] at hdec
      simp only at hdec
      split at hdec
      · cases hdec
      · next hlen =>
        injection hdec with hdec
        injection hdec with hl hdec
        injection hdec with htake hdrop
        subst hl
        have hplen : payload.length = len := by
          rw [← htake, List.length_take]
          omega
        obtain ⟨start, hread, hle, hr⟩ := rlpHeader_of_decodeHeader hh
        have hsplit : (encode l payload ++ rest).drop start = payload ++ rest := by
          rw [hr, ← htake, ← hdrop, List.take_append_drop]
        have hstart : start + payload.length = (encode l payload).length := by
          have hlens := congrArg List.length hsplit
          rw [List.length_drop, List.length_append, List.length_append] at hlens
          rw [List.length_append] at hle
          omega
        refine ⟨start, by rw [hplen]; exact hread, hstart, ?_⟩
        rw [List.drop_append_of_le_length (by omega)] at hsplit
        exact List.append_cancel_right hsplit

/-- On a canonical string that fits the address space it returns the
payload. -/
theorem rlpDecodeBytes_encodeString {payload : Bytes}
    (hfits : (encodeString payload).length < 2 ^ 64) :
    EthTx.rlpDecodeBytes (encodeString payload) = .ok payload := by
  have hmax : payload.length < maxLen :=
    lt_of_le_of_lt (length_le_encodeString payload) hfits
  obtain ⟨start, hread, hstart, hdrop⟩ := rlpHeader_encode false hmax []
  rw [List.append_nil] at hread
  change EthTx.rlpHeader (encodeString payload) = _ at hread
  change start + payload.length = (encodeString payload).length at hstart
  change (encodeString payload).drop start = payload at hdrop
  obtain ⟨b, bs, henc⟩ : ∃ b bs, encodeString payload = b :: bs :=
    List.exists_cons_of_ne_nil (encode_ne_nil false hmax)
  rw [henc] at hread hstart hdrop hfits ⊢
  unfold EthTx.rlpDecodeBytes
  rw [hread]
  show (if ∀ c ∈ some b, c ≤ 0x7f then Except.ok [b] else
    checkedAdd start payload.length "RLP bytes length overflow" >>= fun payloadEnd =>
      if (b :: bs).length < payloadEnd then .error "RLP bytes truncated"
      else .ok (((b :: bs).take payloadEnd).drop start)) = _
  by_cases hsmall : b ≤ 0x7f
  · -- the byte stands for itself
    rw [if_pos (by simpa using hsmall)]
    simp only [EthTx.rlpHeader, if_pos hsmall] at hread
    injection hread with hread
    injection hread with _ hread
    injection hread with hlen hzero
    rw [← hlen, ← hzero, List.length_cons] at hstart
    have hbs : bs = [] := List.length_eq_zero_iff.mp (by omega)
    rw [← hzero, hbs] at hdrop
    rw [← hdrop]
    rfl
  · rw [if_neg (by simpa using hsmall), checkedAdd_of_lt (hstart ▸ hfits), ok_bind, hstart,
      if_neg (lt_irrefl _), List.take_length, hdrop]

theorem isFramed_of_isItem {x : Bytes} (h : IsItem x) : IsFramed x := by
  obtain ⟨list, payload, hmax, rfl⟩ := h
  obtain ⟨start, hread, hstart, -⟩ := rlpHeader_encode list hmax []
  rw [List.append_nil] at hread
  exact ⟨list, payload.length, start, hread, hstart.symm⟩

/-- The proxy reads a list back as its items, in whatever header form these
are. -/
theorem fromList_encodeList {items : List Bytes} (hall : ∀ x ∈ items, IsFramed x)
    (hfits : (encodeList items.flatten).length < 2 ^ 64) :
    fromList (encodeList items.flatten) = .ok items := by
  have hle : items.flatten.length ≤ (encodeList items.flatten).length := by
    unfold encodeList
    rw [List.length_append]
    exact Nat.le_add_left _ _
  obtain ⟨start, hread, hstart, hdrop⟩ :=
    rlpHeader_encode true (lt_of_le_of_lt hle hfits) []
  rw [List.append_nil] at hread
  change EthTx.rlpHeader (encodeList items.flatten) = _ at hread
  change start + items.flatten.length = (encodeList items.flatten).length at hstart
  change (encodeList items.flatten).drop start = items.flatten at hdrop
  unfold fromList
  rw [hread, ok_bind]
  simp only [Bool.not_true, Bool.false_eq_true, if_false]
  rw [checkedAdd_of_lt (hstart ▸ hfits), ok_bind, hstart, if_neg (lt_irrefl _),
    List.take_length, hdrop]
  exact itemsLoop_items (lt_of_le_of_lt hle hfits) rfl hall (length_le_flatten_framed hall)

-- ========================================================== the fields

theorem rlpDecodeBytes_short {p : Bytes} (h : p.length ≤ 32) :
    EthTx.rlpDecodeBytes (encodeString p) = .ok p := by
  apply rlpDecodeBytes_encodeString
  have hle := length_encodeString_le (lt_of_le_of_lt h word_lt_maxLen)
  omega

theorem rlpDecodeBytes_encodeInt {n : Nat} (h : n < 256 ^ 32) :
    EthTx.rlpDecodeBytes (encodeInt n) = .ok (toBe n) :=
  rlpDecodeBytes_short (length_toBe_le h)

theorem proxy_decodeU64 (v : UInt64) :
    Proxy.EthTx.decodeU64 (encodeInt v.toNat) = .ok v := by
  have hlen : (toBe v.toNat).length ≤ 8 := length_toBe_le (by simpa using v.toNat_lt)
  unfold Proxy.EthTx.decodeU64
  rw [rlpDecodeBytes_encodeInt (u64_lt v), ok_bind,
    if_neg (by omega)]
  have hv : UInt64.ofBitVec (shiftIn 64 (toBe v.toNat)) = v := by
    apply UInt64.toNat_inj.mp
    show (shiftIn 64 (toBe v.toNat)).toNat = v.toNat
    rw [shiftIn_toNat (by omega), ofBe_toBe]
  rw [hv]

/-- The 32-byte form of a number. -/
def word (n : Nat) : B256 := ⟨beBytes 32 n, length_beBytes 32 n⟩

theorem decodeU256Be_encodeInt {n : Nat} (h : n < 256 ^ 32) :
    decodeU256Be (encodeInt n) = .ok (word n) := by
  have hlen : (toBe n).length ≤ 32 := length_toBe_le h
  unfold decodeU256Be
  rw [rlpDecodeBytes_encodeInt h, ok_bind, dif_neg (by omega)]
  have hword : (⟨List.replicate (32 - (toBe n).length) 0 ++ toBe n, by
      rw [List.length_append, List.length_replicate]
      omega⟩ : B256) = word n := FixedBytes.ext (pad_toBe h)
  rw [hword]

theorem decodeAddress_encodeString (a : Option Address) :
    decodeAddress (encodeString (toPayload a)) = .ok a := by
  have hlen : (toPayload a).length ≤ 32 := by
    cases a with
    | none => exact Nat.zero_le 32
    | some addr =>
        show addr.bytes.length ≤ 32
        rw [addr.len]
        omega
  unfold decodeAddress
  rw [rlpDecodeBytes_short hlen, ok_bind]
  cases a with
  | none => rfl
  | some addr =>
      have hpayload : toPayload (some addr) = addr.bytes := rfl
      rw [hpayload, if_neg (address_not_empty addr), FixedBytes.ofBytes?_bytes]

-- ========================================================= the writers

private theorem ofNat_add (a b : Nat) :
    UInt8.ofNat a + UInt8.ofNat b = UInt8.ofNat (a + b) := by
  apply UInt8.toNat_inj.mp
  rw [UInt8.toNat_add, UInt8.toNat_ofNat', UInt8.toNat_ofNat', UInt8.toNat_ofNat']
  omega

theorem rlpEncodeU64_eq (n : UInt64) : rlpEncodeU64 n = encodeInt n.toNat := by
  unfold rlpEncodeU64 encodeInt
  by_cases h0 : n = 0
  · rw [if_pos h0, h0]
    decide
  · have hbe : dropZeros (beBytes 8 n.toNat) = toBe n.toNat :=
      (toBe_eq_dropZeros (by simpa using n.toNat_lt)).symm
    have hlen : (toBe n.toNat).length ≤ 8 := length_toBe_le (by simpa using n.toNat_lt)
    rw [if_neg h0, hbe]
    match hp : toBe n.toNat with
    | [] => exact absurd hp (toBe_ne_nil fun hz => h0 (UInt64.toNat_inj.mp hz))
    | [b] =>
        by_cases hb : b ≤ 0x7f
        · have hb' : b < 0x80 := by
            rw [UInt8.lt_iff_toNat_lt]
            exact Nat.lt_succ_of_le (UInt8.le_iff_toNat_le.mp hb)
          show (if b ≤ 0x7f then [b] else _) = if b < 0x80 then [b] else _
          rw [if_pos hb, if_pos hb']
        · have hb' : ¬ b < 0x80 := by
            intro hlt
            exact hb (UInt8.le_iff_toNat_le.mpr
              (Nat.le_of_lt_succ (UInt8.lt_iff_toNat_lt.mp hlt)))
          show (if b ≤ 0x7f then [b] else _) = if b < 0x80 then [b] else _
          rw [if_neg hb, if_neg hb']
          rfl
    | b :: c :: bs =>
        rw [hp] at hlen
        show (0x80 + UInt8.ofNat (b :: c :: bs).length) :: (b :: c :: bs)
          = header 0x80 (b :: c :: bs).length ++ (b :: c :: bs)
        unfold header
        rw [if_pos (by omega), ← ofNat_add]
        rfl

theorem wrapRlpList_eq {items : List Bytes} (h : items.flatten.length < 2 ^ 64) :
    wrapRlpList items = encodeList items.flatten := by
  unfold wrapRlpList encodeList header
  simp only [← List.length_flatten]
  by_cases hshort : items.flatten.length ≤ 55
  · rw [if_pos hshort, if_pos (by omega), ← ofNat_add]
    rfl
  · have hbe : dropZeros (beBytes 8 items.flatten.length) = toBe items.flatten.length :=
      (toBe_eq_dropZeros (by simpa using h)).symm
    have hlen : (toBe items.flatten.length).length ≤ 8 := length_toBe_le (by simpa using h)
    rw [if_neg hshort, if_neg (by omega), hbe, ← ofNat_add]
    rfl

-- ========================================================= the decoders

/-- The proxy's view of a parsed transaction. -/
def decodedOf (p : ParsedTx) : DecodedTx where
  txType := if p.kind = .eip1559 then 2 else 0
  chainId := p.chainId
  nonce := p.nonce
  toAddr := p.toAddr
  value := word p.value.toNat
  data := p.data
  gasLimit := p.gasLimit
  gasPrice := word p.maxFeePerGas.toNat
  fromAddr := p.sender
  r := word p.r.toNat
  s := word p.s.toNat
  v := if p.kind = .eip1559 then p.yParity.toUInt64 else UInt64.ofNat (legacyV p)

theorem proxy_classifyV {v c : UInt64} {y : UInt8} (h : classifyV v = .ok (c, y)) :
    Proxy.EthTx.classifyV v = .ok (some c, y) := by
  unfold classifyV at h
  unfold Proxy.EthTx.classifyV
  by_cases hpre : v = 27 ∨ v = 28
  · rw [if_pos hpre] at h
    cases h
  · rw [if_neg hpre] at h ⊢
    by_cases hge : 35 ≤ v
    · rw [if_pos hge] at h ⊢
      injection h with h
      injection h with hc hy
      rw [hc, hy]
    · rw [if_neg hge] at h
      cases h

section Decode

variable (keccak : Bytes → B256) (secp : Secp256k1)

/-- What is left of the proxy's decoding once the fields are known. -/
def proxyRecover (p : ParsedTx) : Except String DecodedTx := do
  let a ← Proxy.EthTx.recoverSender keccak secp (keccak (signingPayload p))
    (word p.r.toNat) (word p.s.toNat) p.yParity
  return decodedOf { p with sender := a }

theorem length_signedItems_lt {p : ParsedTx} (hraw : (canonicalRaw p).length < 2 ^ 64) :
    (encodeList (signedItems p).flatten).length < 2 ^ 64 := by
  refine lt_of_le_of_lt ?_ hraw
  unfold canonicalRaw envelope
  split
  · exact Nat.le_succ _
  · exact le_refl _

theorem data_short {p : ParsedTx} (hraw : (canonicalRaw p).length < 2 ^ 64) :
    (encodeString p.data).length < 2 ^ 64 := by
  have hle : (signedItems p).flatten.length ≤ (encodeList (signedItems p).flatten).length := by
    unfold encodeList
    rw [List.length_append]
    exact Nat.le_add_left _ _
  exact lt_of_le_of_lt ((length_data_le p).trans hle) (length_signedItems_lt hraw)

theorem decodeLegacy_canonical {p : ParsedTx} (hp : InRange p) {c : UInt64}
    (hk : p.kind = .eip155) (hc : p.chainId = some c)
    (hv : 2 * c.toNat + 35 + p.yParity.toNat < 2 ^ 64)
    (hraw : (canonicalRaw p).length < 2 ^ 64) :
    Proxy.EthTx.decodeLegacy keccak secp (encodeList (signedItems p).flatten)
      = proxyRecover keccak secp p := by
  have hV : legacyV p = 2 * c.toNat + 35 + p.yParity.toNat := by
    unfold legacyV
    rw [hc]
  have hVnat : (UInt64.ofNat (legacyV p)).toNat = legacyV p :=
    UInt64.toNat_ofNat_of_lt' (hV ▸ hv)
  have hitems := signedItems_legacy hk hVnat
  have hitem : ∀ k, item (signedItems p) k = item _ k := fun k =>
    congrArg (fun items => item items k) hitems
  have hclass : Proxy.EthTx.classifyV (UInt64.ofNat (legacyV p)) = .ok (some c, p.yParity) := by
    apply proxy_classifyV
    rw [classifyV_iff, hVnat, hV]
    exact ⟨hp.parity, rfl⟩
  have hread : fromList (encodeList (signedItems p).flatten) = .ok (signedItems p) :=
    fromList_encodeList (fun x hx => isFramed_of_isItem (signedItems_isItem hp x hx))
      (length_signedItems_lt hraw)
  have hhash : Proxy.EthTx.buildLegacyEip155SigningHash keccak
      (encodeList (signedItems p).flatten) c = .ok (keccak (signingPayload p)) := by
    have hsix : firstItems (signedItems p) 6 = .ok (legacyBody p) := by
      rw [hitems]
      rfl
    have htail : (unsignedItems p) = legacyBody p ++ [rlpEncodeU64 c, [0x80], [0x80]] := by
      unfold unsignedItems legacyTail
      rw [hk, hc, rlpEncodeU64_eq]
      rfl
    unfold Proxy.EthTx.buildLegacyEip155SigningHash
    rw [hread, ok_bind, hsix, ok_bind, ← htail, wrapRlpList_eq (unsigned_fits hp)]
    unfold signingPayload envelope
    rw [hk]
    rfl
  have hview : ∀ a, decodedOf { p with sender := a } = {
      txType := 0, chainId := some c, nonce := p.nonce, toAddr := p.toAddr
      value := word p.value.toNat, data := p.data, gasLimit := p.gasLimit
      gasPrice := word p.maxFeePerGas.toNat, fromAddr := a
      r := word p.r.toNat, s := word p.s.toNat, v := UInt64.ofNat (legacyV p) } := by
    intro a
    unfold decodedOf
    rw [← hc, hk]
    rfl
  unfold Proxy.EthTx.decodeLegacy proxyRecover
  rw [hread, ok_bind]
  simp only [hitem]
  simp only [item, List.getElem?_cons_zero, List.getElem?_cons_succ, ok_bind,
    proxy_decodeU64, decodeU256Be_encodeInt (u256_lt _), decodeU256Be_encodeInt (u128_lt _),
    decodeAddress_encodeString, rlpDecodeBytes_encodeString (data_short hraw), hclass,
    hhash, hview]

theorem decodeEip1559_canonical {p : ParsedTx} (hp : InRange p) {c : UInt64}
    (hk : p.kind = .eip1559) (hc : p.chainId = some c)
    (hraw : (canonicalRaw p).length < 2 ^ 64) :
    Proxy.EthTx.decodeEip1559 keccak secp (encodeList (signedItems p).flatten)
      = proxyRecover keccak secp p := by
  have hitems := signedItems_typed hk hc
  have hitem : ∀ k, item (signedItems p) k = item _ k := fun k =>
    congrArg (fun items => item items k) hitems
  have hread : fromList (encodeList (signedItems p).flatten) = .ok (signedItems p) :=
    fromList_encodeList (fun x hx => isFramed_of_isItem (signedItems_isItem hp x hx))
      (length_signedItems_lt hraw)
  have hnine : firstItems (signedItems p) 9 = .ok (unsignedItems p) := by
    rw [hitems]
    unfold unsignedItems typedBody
    rw [hk, hc]
    rfl
  have hwrap : 0x02 :: wrapRlpList (unsignedItems p) = signingPayload p := by
    rw [wrapRlpList_eq (unsigned_fits hp)]
    unfold signingPayload envelope
    rw [hk]
  have hview : ∀ a, decodedOf { p with sender := a } = {
      txType := 2, chainId := some c, nonce := p.nonce, toAddr := p.toAddr
      value := word p.value.toNat, data := p.data, gasLimit := p.gasLimit
      gasPrice := word p.maxFeePerGas.toNat, fromAddr := a
      r := word p.r.toNat, s := word p.s.toNat, v := p.yParity.toUInt64 } := by
    intro a
    unfold decodedOf
    rw [← hc, hk]
    rfl
  unfold Proxy.EthTx.decodeEip1559 proxyRecover
  rw [hread, ok_bind]
  simp only [hitem]
  simp only [item, List.getElem?_cons_zero, List.getElem?_cons_succ, ok_bind,
    proxy_decodeU64, decodeU256Be_encodeInt (u256_lt _), decodeU256Be_encodeInt (u128_lt _),
    rlpDecodeBytes_encodeInt (u128_lt _), decodeAddress_encodeString,
    rlpDecodeBytes_encodeString (data_short hraw), hnine, hwrap, hview,
    UInt8.toUInt8_toUInt64]

/-- On the canonical encoding of in-range fields the proxy reaches its
recovery with the engine's signing payload. -/
theorem decodeAndRecover_canonicalRaw {p : ParsedTx} (hp : InRange p)
    (hraw : (canonicalRaw p).length < 2 ^ 64) :
    decodeAndRecover keccak secp (canonicalRaw p) = proxyRecover keccak secp p := by
  rcases hp.shape with ⟨hk, -, c, hc, hv⟩ | ⟨hk, -, c, hc⟩
  · have heq : canonicalRaw p = encodeList (signedItems p).flatten := by
      unfold canonicalRaw envelope
      rw [hk]
    rw [← decodeLegacy_canonical keccak secp hp hk hc hv hraw, heq]
    obtain ⟨b, rest, hcons, hge⟩ := encodeList_head hp.fits
    rw [hcons]
    have hfirst : 0xc0 ≤ b := by
      rw [UInt8.le_iff_toNat_le]
      exact hge
    simp only [decodeAndRecover]
    rw [if_pos hfirst]
  · have heq : canonicalRaw p = 0x02 :: encodeList (signedItems p).flatten := by
      unfold canonicalRaw envelope
      rw [hk]
    rw [← decodeEip1559_canonical keccak secp hp hk hc hraw, heq]
    simp only [decodeAndRecover, if_true]
    exact if_neg (by decide)

end Decode

-- ========================================================== agreement

/-- The host's `hash` and `recover_public_key` run the proxy's `keccak`
and `secp256k1`: a keccak-256 multihash, and the uncompressed key behind
the compact signature, empty when there is none. -/
structure SameCrypto (sys : CryptoSys Id) (keccak : Bytes → B256) (secp : Secp256k1) :
    Prop where
  hash_keccak : ∀ data, sys.hash HASH_KECCAK_256 data = 0x1b :: 0x20 :: (keccak data).bytes
  recover : ∀ msgHash r s (yParity : UInt8) (sig : FixedBytes 64), yParity ≤ 1 →
    sig.bytes = (beBytes32 r).bytes ++ (beBytes32 s).bytes →
    sys.recoverPublicKey DSA_ECDSA_SECP256K1 (hostSignature r s yParity)
        (hostDigest msgHash) false
      = match secp.recoverEcdsa msgHash sig yParity with
        | .ok key => key.bytes
        | .error _ => []
  uncompressed : ∀ msgHash sig yParity key,
    secp.recoverEcdsa msgHash sig yParity = .ok key → key.bytes.head? = some 0x04

/-- The decoded transaction says what the parsed one says. -/
structure SameTx (p : ParsedTx) (d : DecodedTx) : Prop where
  sender : d.fromAddr = p.sender
  toAddr : d.toAddr = p.toAddr
  nonce : d.nonce = p.nonce
  value : ofBe d.value.bytes = p.value.toNat
  data : d.data = p.data
  gasLimit : d.gasLimit = p.gasLimit
  chainId : d.chainId = p.chainId
  r : ofBe d.r.bytes = p.r.toNat
  s : ofBe d.s.bytes = p.s.toNat
  gasPrice : ofBe d.gasPrice.bytes = p.maxFeePerGas.toNat
  parity : (p.kind = .eip1559 ∧ d.txType = 2 ∧ d.v.toNat = p.yParity.toNat) ∨
    (p.kind = .eip155 ∧ d.txType = 0 ∧
      ∃ c, p.chainId = some c ∧ d.v.toNat = 2 * c.toNat + 35 + p.yParity.toNat)

theorem ofBe_word {n : Nat} (h : n < 256 ^ 32) : ofBe (word n).bytes = n := by
  show ofBe (beBytes 32 n) = n
  rw [ofBe_beBytes, Nat.mod_eq_of_lt h]

theorem sameTx_decodedOf {p : ParsedTx} (hp : InRange p) : SameTx p (decodedOf p) where
  sender := rfl
  toAddr := rfl
  nonce := rfl
  value := ofBe_word (u256_lt _)
  data := rfl
  gasLimit := rfl
  chainId := rfl
  r := ofBe_word (u256_lt _)
  s := ofBe_word (u256_lt _)
  gasPrice := ofBe_word (u128_lt _)
  parity := by
    rcases hp.shape with ⟨hk, -, c, hc, hv⟩ | ⟨hk, -⟩
    · right
      refine ⟨hk, ?_, c, hc, ?_⟩
      · unfold decodedOf
        rw [hk]
        rfl
      · have hV : legacyV p = 2 * c.toNat + 35 + p.yParity.toNat := by
          unfold legacyV
          rw [hc]
        unfold decodedOf
        rw [hk, hV]
        exact UInt64.toNat_ofNat_of_lt' hv
    · left
      refine ⟨hk, ?_, ?_⟩
      · unfold decodedOf
        rw [hk]
        rfl
      · unfold decodedOf
        rw [hk]
        exact UInt8.toNat_toUInt64 _

section Agree

variable {sys : CryptoSys Id} {keccak : Bytes → B256} {secp : Secp256k1}
  (hsame : SameCrypto sys keccak secp)
include hsame

theorem keccak256_eq (data : Bytes) : keccak256 sys data = .ok (keccak data) := by
  have hlen : ¬ (sys.hash HASH_KECCAK_256 data).length < 34 := by
    rw [hsame.hash_keccak, List.length_cons, List.length_cons, (keccak data).len]
    omega
  show (if h : (sys.hash HASH_KECCAK_256 data).length < 34 then _ else _) = _
  rw [dif_neg hlen]
  show Except.ok _ = _
  congr 1
  apply FixedBytes.ext
  show ((sys.hash HASH_KECCAK_256 data).drop 2).take 32 = (keccak data).bytes
  rw [hsame.hash_keccak, List.drop_succ_cons, List.drop_succ_cons, List.drop_zero]
  exact List.take_of_length_le (by rw [(keccak data).len])

omit hsame in
theorem pubkeyXy_key {key : FixedBytes 65} (h : key.bytes.head? = some 0x04) :
    pubkeyXy key.bytes = some key.bytes.tail := by
  unfold pubkeyXy
  rw [if_neg (by rw [key.len]; omega), if_pos ⟨h, key.len⟩]

/-- The address of a public key, from its hash. -/
def addressOf (hash : B256) : Address := ⟨hash.bytes.drop 12, by
  rw [List.length_drop, hash.len]⟩

/-- The engine's recovery is the proxy's curve operation and one hash. -/
theorem recoverSender_eq (msgHash : B256) (r s : U256) {yParity : UInt8} (hy : yParity ≤ 1)
    (sig : FixedBytes 64) (hsig : sig.bytes = (beBytes32 r).bytes ++ (beBytes32 s).bytes) :
    recoverSender sys msgHash r s yParity
      = match secp.recoverEcdsa msgHash sig yParity with
        | .ok key => .ok (addressOf (keccak key.bytes.tail))
        | .error _ => .error .recoveryFailure := by
  have hrec := hsame.recover msgHash r s yParity sig hy hsig
  unfold recoverSender
  rw [hrec]
  cases hkey : secp.recoverEcdsa msgHash sig yParity with
  | error e => rfl
  | ok key =>
      have hlen : ¬ (sys.hash HASH_KECCAK_256 key.bytes.tail).length < 34 := by
        rw [hsame.hash_keccak, List.length_cons, List.length_cons, (keccak _).len]
        omega
      simp only [liftM, monadLift, MonadLift.monadLift, ExceptT.lift, bind, ExceptT.bind,
        ExceptT.mk, ExceptT.bindCont, Functor.map, pubkeyXy_key (hsame.uncompressed _ _ _ _ hkey)]
      rw [dif_neg hlen]
      congr 1
      apply FixedBytes.ext
      show ((sys.hash HASH_KECCAK_256 key.bytes.tail).drop 14).take 20
        = (keccak key.bytes.tail).bytes.drop 12
      rw [hsame.hash_keccak, List.drop_succ_cons, List.drop_succ_cons]
      apply List.take_of_length_le
      rw [List.length_drop, (keccak _).len]

/-- The two recoveries give one sender. -/
theorem proxy_recoverSender {msgHash : B256} {r s : U256} {yParity : UInt8} {a : Address}
    (hy : yParity ≤ 1) (h : recoverSender sys msgHash r s yParity = .ok a) :
    Proxy.EthTx.recoverSender keccak secp msgHash (word r.toNat) (word s.toNat) yParity
      = .ok a := by
  have hlen : ((word r.toNat).bytes ++ (word s.toNat).bytes).length = 64 := by
    rw [List.length_append, (word _).len, (word _).len]
  have hy3 : ¬ 3 < yParity := by
    rw [UInt8.not_lt]
    exact UInt8.le_trans hy (by decide)
  rw [recoverSender_eq hsame msgHash r s hy ⟨_, hlen⟩ rfl] at h
  unfold Proxy.EthTx.recoverSender
  simp only [if_neg hy3]
  cases hkey : secp.recoverEcdsa msgHash ⟨_, hlen⟩ yParity with
  | error e =>
      rw [hkey] at h
      cases h
  | ok key =>
      rw [hkey] at h
      have ha : addressOf (keccak key.bytes.tail) = a := Except.ok.inj h
      rw [ok_bind, ← ha]
      rfl

/-- What is decoded of bytes that the engine parses. -/
theorem decodeAndRecover_parsed {rlp : AlloyRlp} (hrlp : rlp.Canonical) (raw : NativeBuf)
    {p : ParsedTx} (h : parseRawTx rlp (syscallCrypto sys) raw.bytes = .ok p) :
    decodeAndRecover keccak secp raw.bytes = .ok (decodedOf p) ∧ SameTx p (decodedOf p) := by
  obtain ⟨hp, hraw, signingHash, hhash, hrec⟩ := (parseRawTx_eq_ok _ hrlp).mp h
  have hfits : (canonicalRaw p).length < 2 ^ 64 := by
    rw [← hraw]
    exact lt_trans raw.fits (by decide)
  change keccak256 sys (signingPayload p) = _ at hhash
  change recoverSender sys signingHash p.r p.s p.yParity = _ at hrec
  rw [keccak256_eq hsame] at hhash
  injection hhash with hhash
  subst hhash
  refine ⟨?_, sameTx_decodedOf hp⟩
  rw [hraw, decodeAndRecover_canonicalRaw keccak secp hp hfits]
  unfold proxyRecover
  rw [proxy_recoverSender hsame hp.parity hrec]
  rfl

/-- The proxy understands everything the engine executes: what
`parse_raw_tx` accepts, `decode_and_recover` decodes to the same
transaction. -/
theorem decodeAndRecover_of_parseRawTx {rlp : AlloyRlp} (hrlp : rlp.Canonical)
    (raw : NativeBuf) (p : ParsedTx)
    (h : parseRawTx rlp (syscallCrypto sys) raw.bytes = .ok p) :
    ∃ d, decodeAndRecover keccak secp raw.bytes = .ok d ∧ SameTx p d :=
  ⟨decodedOf p, decodeAndRecover_parsed hsame hrlp raw h⟩

end Agree

/-- The host that runs given hash and curve functions. -/
def hostOf (keccak : Bytes → B256) (secp : Secp256k1) : CryptoSys Id where
  hash code data := if code = HASH_KECCAK_256 then 0x1b :: 0x20 :: (keccak data).bytes else []
  recoverPublicKey dsa signature digest compressed :=
    match signature, FixedBytes.ofBytes? 64 signature.tail,
        FixedBytes.ofBytes? 32 (digest.drop 2) with
    | first :: _, some sig, some msgHash =>
        if dsa = DSA_ECDSA_SECP256K1 ∧ compressed = false then
          match secp.recoverEcdsa msgHash sig (first - 31) with
          | .ok key => key.bytes
          | .error _ => []
        else []
    | _, _, _ => []

theorem hostOf_same (keccak : Bytes → B256) {secp : Secp256k1}
    (h : ∀ msgHash sig yParity key,
      secp.recoverEcdsa msgHash sig yParity = .ok key → key.bytes.head? = some 0x04) :
    SameCrypto (hostOf keccak secp) keccak secp where
  hash_keccak := by
    intro data
    simp only [hostOf, if_true]
  recover := by
    intro msgHash r s yParity sig _ hsig
    have hfirst : 31 + yParity - 31 = yParity := by
      rw [UInt8.add_comm, UInt8.add_sub_cancel]
    have hs : FixedBytes.ofBytes? 64 (hostSignature r s yParity).tail = some sig := by
      show FixedBytes.ofBytes? 64 ((beBytes32 r).bytes ++ (beBytes32 s).bytes) = some sig
      rw [← hsig, FixedBytes.ofBytes?_bytes]
    have hd : FixedBytes.ofBytes? 32 ((hostDigest msgHash).drop 2) = some msgHash :=
      FixedBytes.ofBytes?_bytes msgHash
    simp only [hostOf, hs, hd]
    simp only [hostSignature, hfirst, and_self, if_true]
  uncompressed := h

/-- The public key behind the vector's signature, uncompressed. -/
def castKey : FixedBytes 65 :=
  ⟨0x04 :: beBytes 64
    0xb0b534524c0dd4b704fefad1e4d18b09c781918d2145b5f51b43c158965c274159ef357f29b7a7a827a77fd38946c06208c3ad0a7a32a9aa18cdedae27e0c90e,
    by rw [List.length_cons, length_beBytes]⟩

/-- Keccak with the real values at the vector. -/
def castKeccak (data : Bytes) : B256 :=
  if data = signingPayload castLegacy then castSigningHash
  else if data = castKey.bytes.tail then
    word 0x2b2730117ca417b50438de909d9a9c891cb86136a56394d215ec2de0ec44f252
  else FixedBytes.zero 32

/-- Recovery with the real value at the vector. -/
def castSecp : Secp256k1 where
  recoverEcdsa msgHash sig yParity :=
    if msgHash = castSigningHash
        ∧ sig.bytes = (word castLegacy.r.toNat).bytes ++ (word castLegacy.s.toNat).bytes
        ∧ yParity = 1 then
      .ok castKey
    else .error "malformed or incorrect signature"

theorem castHost_same : SameCrypto (hostOf castKeccak castSecp) castKeccak castSecp := by
  apply hostOf_same
  intro msgHash sig yParity key h
  simp only [castSecp] at h
  split at h
  · injection h with h
    rw [← h]
    rfl
  · cases h

theorem castLegacy_decoded :
    parseRawTx strictRlp (syscallCrypto (hostOf castKeccak castSecp)) (canonicalRaw castLegacy)
        = .ok castLegacy ∧
      ∃ d, decodeAndRecover castKeccak castSecp (canonicalRaw castLegacy) = .ok d
        ∧ SameTx castLegacy d := by
  have hparse : parseRawTx strictRlp (syscallCrypto (hostOf castKeccak castSecp))
      (canonicalRaw castLegacy) = .ok castLegacy := by
    rw [parseRawTx_eq_ok _ strictRlp_canonical]
    refine ⟨castLegacy_inRange, rfl, castSigningHash, ?_, ?_⟩
    · exact (keccak256_eq castHost_same _).trans (congrArg Except.ok (if_pos rfl))
    · refine (recoverSender_eq castHost_same _ _ _ (by decide)
        ⟨(word castLegacy.r.toNat).bytes ++ (word castLegacy.s.toNat).bytes,
          by decide +kernel⟩ rfl).trans ?_
      have hkey : ∀ sig : FixedBytes 64,
          sig.bytes = (word castLegacy.r.toNat).bytes ++ (word castLegacy.s.toNat).bytes →
          castSecp.recoverEcdsa castSigningHash sig castLegacy.yParity = .ok castKey :=
        fun sig hsig => if_pos ⟨rfl, hsig, rfl⟩
      rw [hkey _ rfl]
      have haddr : addressOf (castKeccak castKey.bytes.tail) = castLegacy.sender := by
        decide +kernel
      show Except.ok (addressOf (castKeccak castKey.bytes.tail)) = _
      rw [haddr]
  exact ⟨hparse, decodeAndRecover_of_parseRawTx castHost_same strictRlp_canonical
    ⟨canonicalRaw castLegacy, by decide +kernel⟩ castLegacy hparse⟩

end KoinosEvm.Proofs
