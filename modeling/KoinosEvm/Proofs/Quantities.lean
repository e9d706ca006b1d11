/-
The hex texts of the proxy are read back by its own readers.

`data` is read back by `parse_data` and its fixed-width forms
(`parseData_dataHex`, `parseAddress_dataHex`, `parseB32_dataHex`). A word is
written as the number it stands for, without a leading zero
(`quantityFromBe32_eq`: the leading digits that are dropped are those a
number does not have, `dropWhile_digits`), and `parse_u256_be` fills them in
again (`parseU256Be_quantity`).
-/
import KoinosEvm.Proofs.Hex
import KoinosEvm.Proxy.Quantities

namespace KoinosEvm.Proofs

open Lib Proxy

-- ================================================================= numbers

/-- The number some hex digits stand for. -/
def ofNibbles (ns : List Nat) : Nat := ns.foldl (fun acc n => 16 * acc + n) 0

theorem ofNibbles_append (ns : List Nat) (n : Nat) :
    ofNibbles (ns ++ [n]) = 16 * ofNibbles ns + n := List.foldl_append

theorem digitChar_eq_zero : ∀ i < 16, (Nat.digitChar i == '0') = decide (i = 0) := by decide

/-- Behind their leading zeros, digits are those of their number; of zero
none are left. -/
theorem dropWhile_digits {ns : List Nat} (h : ∀ n ∈ ns, n < 16) :
    (ns.map Nat.digitChar).dropWhile (· == '0')
      = if ofNibbles ns = 0 then [] else Nat.toDigits 16 (ofNibbles ns) := by
  induction ns using List.reverseRecOn with
  | nil => rfl
  | append_singleton ns n ih =>
      rw [List.forall_mem_append, List.forall_mem_singleton] at h
      obtain ⟨hns, hn⟩ := h
      rw [List.map_append, List.dropWhile_append, ih hns, ofNibbles_append]
      by_cases hzero : ofNibbles ns = 0
      · -- the digits so far are all zero, and dropped
        rw [if_pos hzero, hzero, Nat.mul_zero, Nat.zero_add]
        simp only [List.map_cons, List.map_nil, List.isEmpty_nil, if_true,
          List.dropWhile_cons, List.dropWhile_nil, digitChar_eq_zero n hn, decide_eq_true_eq]
        by_cases hn0 : n = 0
        · rw [if_pos hn0, if_pos hn0]
        · rw [if_neg hn0, if_neg hn0, Nat.toDigits_of_lt_base hn]
      · have hne : ¬ (Nat.toDigits 16 (ofNibbles ns)).isEmpty = true := by
          rw [List.isEmpty_iff]
          exact Nat.toDigits_ne_nil
        rw [if_neg hzero, if_neg hne, if_neg (by omega),
          ← Nat.toDigits_append_toDigits (by decide) (by omega) hn, Nat.toDigits_of_lt_base hn]
        rfl

/-- The hex digits of bytes. -/
def nibblesOf (bs : Bytes) : List Nat := bs.flatMap fun b => [b.toNat / 16, b.toNat % 16]

theorem nibblesOf_lt (bs : Bytes) : ∀ n ∈ nibblesOf bs, n < 16 := by
  intro n hn
  obtain ⟨b, -, hb⟩ := List.mem_flatMap.mp hn
  have hlt := b.toNat_lt
  rcases List.mem_pair.mp hb with rfl | rfl
  · omega
  · omega

theorem ofNibbles_nibblesOf (bs : Bytes) : ofNibbles (nibblesOf bs) = ofBe bs := by
  induction bs using List.reverseRecOn with
  | nil => rfl
  | append_singleton bs b ih =>
      have hsplit : nibblesOf (bs ++ [b]) = nibblesOf bs ++ [b.toNat / 16] ++ [b.toNat % 16] := by
        simp [nibblesOf]
      rw [hsplit, ofNibbles_append, ofNibbles_append, ih, ofBe_append]
      simp only [List.length_singleton, pow_one, ofBe_cons, List.length_nil, pow_zero, mul_one,
        ofBe_nil, add_zero]
      omega

/-- Leading zeros, filled in again. -/
theorem pad_dropWhile (cs : List Char) :
    List.replicate (cs.length - (cs.dropWhile (· == '0')).length) '0' ++ cs.dropWhile (· == '0')
      = cs := by
  have hlen := congrArg List.length (List.takeWhile_append_dropWhile (p := (· == '0')) (l := cs))
  rw [List.length_append] at hlen
  have hzeros : cs.takeWhile (· == '0')
      = List.replicate (cs.length - (cs.dropWhile (· == '0')).length) '0' := by
    refine List.eq_replicate_iff.mpr ⟨by omega, ?_⟩
    intro c hc
    exact beq_iff_eq.mp (List.all_eq_true.mp (List.all_takeWhile (p := (· == '0'))) c hc)
  rw [← hzeros, List.takeWhile_append_dropWhile]

/-- The text stands for the number, as Ethereum writes a quantity: `0x` and
hex digits, the first of which is not a zero unless it is the only one. -/
def Canonical (text : String) (n : Nat) : Prop :=
  ∃ digits, text.toList = '0' :: 'x' :: digits ∧ digits = Nat.toDigits 16 n ∧
    (digits.head? = some '0' → n = 0)

/-- Only zero begins with a zero. -/
theorem head_toDigits (n : Nat) (h : (Nat.toDigits 16 n).head? = some '0') : n = 0 := by
  induction n using Nat.strongRecOn with
  | ind n ih =>
      rw [Nat.toDigits_eq_if (by decide)] at h
      split at h
      next hlt =>
        have hdigit : Nat.digitChar n = '0' := by simpa using h
        simpa [hdigit] using digitChar_eq_zero n hlt
      next hge =>
        rw [List.head?_append_of_ne_nil _ Nat.toDigits_ne_nil] at h
        have hzero := ih (n / 16) (by omega) h
        omega

theorem canonical_numberText (n : Nat) :
    Canonical ("0x" ++ String.ofList (Nat.toDigits 16 n)) n := by
  refine ⟨_, ?_, rfl, head_toDigits n⟩
  rw [String.toList_append]
  exact congrArg ('0' :: 'x' :: ·) String.toList_ofList

-- =================================================================== floor

/-- `u256_be_ge_u128` compares the numbers. -/
theorem u256BeGeU128_iff (v : B256) (floor : U128) :
    u256BeGeU128 v floor = true ↔ floor.toNat ≤ ofBe v.bytes := by
  have hsplit : ofBe v.bytes = ofBe (v.bytes.take 16) * 256 ^ 16 + ofBe (v.bytes.drop 16) := by
    have happ := ofBe_append (v.bytes.take 16) (v.bytes.drop 16)
    rw [List.take_append_drop, List.length_drop, v.len] at happ
    exact happ
  have hlow : ofBe (v.bytes.drop 16) < 2 ^ 128 := by
    have h := ofBe_lt (v.bytes.drop 16)
    rw [List.length_drop, v.len] at h
    exact h.trans_eq (by norm_num)
  have hfloor := floor.isLt
  unfold u256BeGeU128
  by_cases hany : (v.bytes.take 16).any (· ≠ 0) = true
  · -- a bit in the upper half is more than any u128
    have hpos : ofBe (v.bytes.take 16) ≠ 0 := by
      intro hzero
      obtain ⟨b, hb, hne⟩ := List.any_eq_true.mp hany
      exact absurd (ofBe_eq_zero_iff.mp hzero b hb) (by simpa using hne)
    rw [if_pos hany, hsplit]
    refine iff_of_true rfl ?_
    have hone : 1 ≤ ofBe (v.bytes.take 16) := Nat.one_le_iff_ne_zero.mpr hpos
    nlinarith
  · have hzero : ofBe (v.bytes.take 16) = 0 := by
      refine ofBe_eq_zero_iff.mpr fun b hb => ?_
      by_contra hne
      exact hany (List.any_eq_true.mpr ⟨b, hb, decide_eq_true hne⟩)
    rw [if_neg hany, hsplit, hzero, Nat.zero_mul, Nat.zero_add, decide_eq_true_eq,
      BitVec.le_def, BitVec.toNat_ofNat, Nat.mod_eq_of_lt hlow]

/-- Exactly the prices at or above the floor are admitted. -/
theorem checkGasPrice_iff (floor : U128) (price : B256) :
    checkGasPrice floor price = .ok () ↔ floor.toNat ≤ ofBe price.bytes := by
  unfold checkGasPrice
  rw [← u256BeGeU128_iff]
  split
  next hunder => exact iff_of_false (by simp) hunder.2
  next hok =>
    refine iff_of_true rfl ?_
    rcases not_and_or.mp hok with hzero | hge
    · -- without a floor every price is enough
      rw [u256BeGeU128_iff]
      have hnat : ¬ 0 < floor.toNat := hzero
      omega
    · exact not_not.mp hge

-- =================================================================== texts

section Texts

variable [HexCrate]

theorem parseAddress_dataHex (a : Address) : parseAddress ("0x" ++ hexEncode a.bytes) = .ok a := by
  rw [parseAddress, parseData_dataHex]
  show orError (FixedBytes.ofBytes? 20 a.bytes) _ = _
  rw [FixedBytes.ofBytes?_bytes]
  rfl

theorem parseB32_dataHex (v : B256) : parseB32 ("0x" ++ hexEncode v.bytes) = .ok v := by
  rw [parseB32, parseData_dataHex]
  show orError (FixedBytes.ofBytes? 32 v.bytes) _ = _
  rw [FixedBytes.ofBytes?_bytes]
  rfl

theorem hexEncode_nibbles (bs : Bytes) :
    (hexEncode bs).toList = (nibblesOf bs).map Nat.digitChar := by
  rw [toList_hexEncode, nibblesOf, List.map_flatMap]
  rfl

/-- The leading zeros of a word's digits are dropped. -/
theorem dropWhile_hexEncode (bs : Bytes) :
    (hexEncode bs).toList.dropWhile (· == '0')
      = if ofBe bs = 0 then [] else Nat.toDigits 16 (ofBe bs) := by
  rw [hexEncode_nibbles, dropWhile_digits (nibblesOf_lt bs), ofNibbles_nibblesOf]

/-- A word is written as its number: `{:x}` of it. -/
theorem quantityFromBe32_eq (v : B256) : quantityFromBe32 v = numberHex (ofBe v.bytes) := by
  unfold quantityFromBe32
  rw [dropWhile_hexEncode]
  by_cases hzero : ofBe v.bytes = 0
  · rw [if_pos hzero, hzero]
    rfl
  · rw [if_neg hzero]
    exact if_neg fun h => Nat.toDigits_ne_nil (List.isEmpty_iff.mp h)

/-- The digits of a word are those of its number behind zeros. -/
theorem pad_toDigits (v : B256) :
    List.replicate (64 - (Nat.toDigits 16 (ofBe v.bytes)).length) '0'
      ++ Nat.toDigits 16 (ofBe v.bytes) = (hexEncode v.bytes).toList := by
  have hpad := pad_dropWhile (hexEncode v.bytes).toList
  rw [length_hexEncode, v.len, dropWhile_hexEncode] at hpad
  by_cases hzero : ofBe v.bytes = 0
  · rw [if_pos hzero] at hpad
    rw [hzero, ← hpad]
    rfl
  · rw [if_neg hzero] at hpad
    exact hpad

/-- .. and what was dropped is filled in again. -/
theorem parseU256Be_quantity (v : B256) :
    parseU256Be ("0x" ++ String.ofList (Nat.toDigits 16 (ofBe v.bytes))) = .ok v := by
  have hdigits := hexDigits_toDigits (ofBe v.bytes)
  have hsize : strLen (String.ofList (Nat.toDigits 16 (ofBe v.bytes)))
      = (Nat.toDigits 16 (ofBe v.bytes)).length := by
    rw [strLen, String.toList_ofList, sum_utf8Size hdigits]
  have hlt : ofBe v.bytes < 16 ^ 64 := by
    have h := ofBe_lt v.bytes
    rw [v.len] at h
    exact h.trans_eq (by norm_num)
  have hle : (Nat.toDigits 16 (ofBe v.bytes)).length ≤ 64 :=
    (Nat.length_toDigits_le_iff (by decide) (by decide)).mpr hlt
  rw [parseU256Be, stripPrefix_append]
  show (if (String.ofList (Nat.toDigits 16 (ofBe v.bytes))).isEmpty then _ else _) = _
  rw [if_neg (by simp), if_neg (by omega), hsize, String.toList_ofList]
  simp only [pad_toDigits, String.ofList_toList, hexDecode_hexEncode]
  show Except.ok ((FixedBytes.ofBytes? 32 v.bytes).getD _) = _
  rw [FixedBytes.ofBytes?_bytes]
  rfl

/-- Every text the proxy hands out is canonical and read back as what it was
written from: bytes, addresses, hashes, 64-bit quantities and words. -/
theorem texts_readBack :
    (∀ bs, ∃ text, dataHex bs = .string text ∧ parseData text = .ok bs) ∧
    (∀ a : Address, ∃ text, dataHex a.bytes = .string text ∧ parseAddress text = .ok a) ∧
    (∀ v : B256, ∃ text, dataHex v.bytes = .string text ∧ parseB32 text = .ok v) ∧
    (∀ n, ∃ text, quantity n = .string text ∧ Canonical text n.toNat ∧
      parseQuantity text = .ok n) ∧
    (∀ v : B256, ∃ text, quantityFromBe32 v = .string text ∧ Canonical text (ofBe v.bytes) ∧
      parseU256Be text = .ok v) := by
  refine ⟨?_, ?_, ?_, ?_, ?_⟩
  · exact fun bs => ⟨_, rfl, parseData_dataHex bs⟩
  · exact fun a => ⟨_, rfl, parseAddress_dataHex a⟩
  · exact fun v => ⟨_, rfl, parseB32_dataHex v⟩
  · exact fun n => ⟨_, rfl, canonical_numberText _, parseQuantity_quantity n⟩
  · exact fun v => ⟨_, quantityFromBe32_eq v, canonical_numberText _, parseU256Be_quantity v⟩

/-- Exactly the prices at or above the floor are admitted; the one that
`eth_gasPrice` advertises, read by a client, is the floor itself and is one of
them. -/
theorem advertisedPrice_admitted (floor : U128) :
    (∀ price, checkGasPrice floor price = .ok () ↔ floor.toNat ≤ ofBe price.bytes) ∧
    ∃ text price, handleGasPrice floor = .string text ∧ Canonical text floor.toNat ∧
      parseU256Be text = .ok price ∧ ofBe price.bytes = floor.toNat ∧
      checkGasPrice floor price = .ok () := by
  have hnumber : ofBe (beBytes 32 floor.toNat) = floor.toNat := by
    rw [ofBe_beBytes]
    exact Nat.mod_eq_of_lt (floor.isLt.trans_le (by norm_num))
  refine ⟨checkGasPrice_iff floor, _, ⟨beBytes 32 floor.toNat, length_beBytes 32 _⟩, rfl,
    canonical_numberText _, ?_, hnumber, (checkGasPrice_iff floor _).mpr hnumber.ge⟩
  have hread := parseU256Be_quantity ⟨beBytes 32 floor.toNat, length_beBytes 32 _⟩
  simpa only [hnumber] using hread

end Texts

end KoinosEvm.Proofs
