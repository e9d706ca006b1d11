/-
Bytes and numbers written as text: base64 and decimal.

`base64Encode` writes the URL-safe alphabet with padding, `decimalEncode` no
leading zeros. Each has its reader, and the reader gives back what was written
(`base64Decode?_encode`, `decimalDecode?_encode`). The arithmetic of base64 is
in `sextets`, three bytes at a time.
-/
import Mathlib.Data.List.GetD
import Mathlib.Data.List.Nodup

namespace Lib

-- ================================================================ digits

section Digits

variable {alphabet : List Char} {i : Nat}

/-- The digit of a value. -/
def digitOf (alphabet : List Char) (i : Nat) : Char := alphabet.getD i '?'

/-- The value of a digit. -/
def digitValue? (alphabet : List Char) (c : Char) : Option Nat :=
  if c ∈ alphabet then some (alphabet.idxOf c) else none

theorem digitOf_mem (hi : i < alphabet.length) : digitOf alphabet i ∈ alphabet := by
  rw [digitOf, List.getD_eq_getElem _ _ hi]
  exact List.getElem_mem hi

theorem digitValue?_digitOf (halphabet : alphabet.Nodup) (hi : i < alphabet.length) :
    digitValue? alphabet (digitOf alphabet i) = some i := by
  rw [digitValue?, if_pos (digitOf_mem hi), digitOf, List.getD_eq_getElem _ _ hi,
    halphabet.idxOf_getElem]

theorem getElem?_map_digitOf {β : Type} (f : Char → β) (hi : i < alphabet.length) :
    (alphabet.map f)[i]? = some (f (digitOf alphabet i)) := by
  rw [List.getElem?_map, List.getElem?_eq_getElem hi, digitOf, List.getD_eq_getElem _ _ hi]
  rfl

theorem toNat_toUInt8 (c : Char) : c.toUInt8.toNat = c.toNat % 256 := UInt32.toNat_toUInt8 c.val

theorem utf8Size_ascii {c : Char} (h : c.toNat < 128) : c.utf8Size = 1 :=
  Char.utf8Size_eq_one_iff.mpr (UInt32.le_iff_toNat_le.mpr (Nat.le_of_lt_succ h))

/-- In an ASCII alphabet in the order of its code points, the byte of a digit
is at no place but its own. -/
theorem idxOf?_toUInt8_digitOf (hsorted : alphabet.Pairwise (· < ·))
    (hascii : ∀ c ∈ alphabet, c.toNat < 128) (hi : i < alphabet.length) :
    (alphabet.map Char.toUInt8).idxOf? (digitOf alphabet i).toUInt8 = some i := by
  rw [digitOf, List.getD_eq_getElem _ _ hi]
  refine List.idxOf?_eq_some_iff.mpr ⟨(List.length_map _).symm ▸ hi, List.getElem_map _, ?_⟩
  intro j hj heq
  have hj' : j < alphabet.length := Nat.lt_trans hj hi
  have hless : alphabet[j].toNat < alphabet[i].toNat :=
    List.pairwise_iff_getElem.mp hsorted j i hj' hi hj
  have hsmall := hascii alphabet[i] (List.getElem_mem hi)
  have hbyte := congrArg UInt8.toNat ((List.getElem_map _).symm.trans heq)
  rw [toNat_toUInt8, toNat_toUInt8] at hbyte
  omega

/-- Digits are read back. -/
theorem mapM_digitValue? (halphabet : alphabet.Nodup) {is : List Nat}
    (his : ∀ i ∈ is, i < alphabet.length) :
    (is.map (digitOf alphabet)).mapM (digitValue? alphabet) = some is := by
  induction is with
  | nil => rfl
  | cons i is ih =>
      rw [List.map_cons, List.mapM_cons,
        digitValue?_digitOf halphabet (his i List.mem_cons_self),
        ih fun j hj => his j (List.mem_cons_of_mem _ hj)]
      rfl

end Digits

-- ================================================================ base64

/-- The URL-safe alphabet. -/
def base64Alphabet : List Char :=
  "ABCDEFGHIJKLMNOPQRSTUVWXYZabcdefghijklmnopqrstuvwxyz0123456789-_".toList

/-- What the alphabets of base64 have in common. -/
def commonDigits : List Char :=
  ['A', 'B', 'C', 'D', 'E', 'F', 'G', 'H', 'I', 'J', 'K', 'L', 'M', 'N', 'O', 'P', 'Q', 'R',
   'S', 'T', 'U', 'V', 'W', 'X', 'Y', 'Z', 'a', 'b', 'c', 'd', 'e', 'f', 'g', 'h', 'i', 'j',
   'k', 'l', 'm', 'n', 'o', 'p', 'q', 'r', 's', 't', 'u', 'v', 'w', 'x', 'y', 'z', '0', '1',
   '2', '3', '4', '5', '6', '7', '8', '9']

theorem commonDigits_nodup : commonDigits.Nodup := by decide +kernel

theorem base64Alphabet_eq : base64Alphabet = commonDigits ++ ['-', '_'] := String.toList_ofList

theorem commonDigits_append_nodup {c d : Char} (hcd : c ≠ d) (hc : c ∉ commonDigits)
    (hd : d ∉ commonDigits) : (commonDigits ++ [c, d]).Nodup := by
  rw [List.nodup_append]
  refine ⟨commonDigits_nodup, by simpa using hcd, ?_⟩
  rintro a ha b hb rfl
  rcases List.mem_cons.mp hb with rfl | hb
  · exact hc ha
  · exact hd (List.mem_singleton.mp hb ▸ ha)

theorem base64Alphabet_nodup : base64Alphabet.Nodup := by
  rw [base64Alphabet_eq]
  exact commonDigits_append_nodup (by decide) (by decide +kernel) (by decide +kernel)

theorem base64Alphabet_no_pad : '=' ∉ base64Alphabet := by
  rw [base64Alphabet_eq]
  decide +kernel

/-- Bytes in groups of six bits, the last group filled up with zeros. -/
def sextets : List UInt8 → List Nat
  | [] => []
  | [a] => [a.toNat / 4, a.toNat % 4 * 16]
  | [a, b] => [a.toNat / 4, a.toNat % 4 * 16 + b.toNat / 16, b.toNat % 16 * 4]
  | a :: b :: c :: rest =>
      a.toNat / 4 :: (a.toNat % 4 * 16 + b.toNat / 16)
        :: (b.toNat % 16 * 4 + c.toNat / 64) :: c.toNat % 64 :: sextets rest

/-- The bytes of such groups. -/
def unsextets? : List Nat → Option (List UInt8)
  | [] => some []
  | [_] => none
  | [i, j] => some [UInt8.ofNat (i * 4 + j / 16)]
  | [i, j, k] => some [UInt8.ofNat (i * 4 + j / 16), UInt8.ofNat (j % 16 * 16 + k / 4)]
  | i :: j :: k :: l :: rest =>
      (unsextets? rest).map fun bs =>
        UInt8.ofNat (i * 4 + j / 16) :: UInt8.ofNat (j % 16 * 16 + k / 4)
          :: UInt8.ofNat (k % 4 * 64 + l) :: bs

/-- Bytes in base64, padded to a multiple of four. -/
def base64Encode (bs : List UInt8) : String :=
  String.ofList ((sextets bs).map (digitOf base64Alphabet)
    ++ List.replicate ((3 - bs.length % 3) % 3) '=')

/-- .. and back, whatever the padding. -/
def base64Decode? (s : String) : Option (List UInt8) :=
  ((s.toList.reverse.dropWhile (· == '=')).reverse.mapM (digitValue? base64Alphabet)).bind
    unsextets?

theorem sextets_lt (bs : List UInt8) : ∀ i ∈ sextets bs, i < 64 := by
  fun_induction sextets bs with
  | case1 => simp
  | case2 a =>
      have ha := a.toNat_lt
      simp only [List.mem_cons, List.not_mem_nil, or_false, forall_eq_or_imp, forall_eq]
      omega
  | case3 a b =>
      have ha := a.toNat_lt
      have hb := b.toNat_lt
      simp only [List.mem_cons, List.not_mem_nil, or_false, forall_eq_or_imp, forall_eq]
      omega
  | case4 a b c rest ih =>
      have ha := a.toNat_lt
      have hb := b.toNat_lt
      have hc := c.toNat_lt
      simp only [List.mem_cons, forall_eq_or_imp]
      exact ⟨by omega, by omega, by omega, by omega, ih⟩

theorem ofNat_eq {n : Nat} {b : UInt8} (h : n = b.toNat) : UInt8.ofNat n = b := by
  rw [h, UInt8.ofNat_toNat]

theorem unsextets?_sextets (bs : List UInt8) : unsextets? (sextets bs) = some bs := by
  fun_induction sextets bs with
  | case1 => rfl
  | case2 a =>
      have ha := a.toNat_lt
      rw [unsextets?, ofNat_eq (b := a) (by omega)]
  | case3 a b =>
      have ha := a.toNat_lt
      have hb := b.toNat_lt
      rw [unsextets?, ofNat_eq (b := a) (by omega), ofNat_eq (b := b) (by omega)]
  | case4 a b c rest ih =>
      have ha := a.toNat_lt
      have hb := b.toNat_lt
      have hc := c.toNat_lt
      rw [unsextets?, ih, Option.map_some, ofNat_eq (b := a) (by omega),
        ofNat_eq (b := b) (by omega), ofNat_eq (b := c) (by omega)]

/-- Dropping the padding leaves the digits. -/
theorem dropWhile_pad (cs : List Char) (hcs : '=' ∉ cs) (n : Nat) :
    (List.replicate n '=' ++ cs).dropWhile (· == '=') = cs := by
  induction n with
  | zero =>
      cases cs with
      | nil => rfl
      | cons c cs =>
          have hc : ¬ (c == '=') = true := fun h => hcs (by simp [eq_of_beq h])
          exact List.dropWhile_cons_of_neg hc
  | succ n ih => exact ih

/-- What is written in base64 is read back. -/
theorem base64Decode?_encode (bs : List UInt8) : base64Decode? (base64Encode bs) = some bs := by
  have hdigits : '=' ∉ ((sextets bs).map (digitOf base64Alphabet)).reverse := by
    rw [List.mem_reverse, List.mem_map]
    rintro ⟨i, hi, hpad⟩
    exact base64Alphabet_no_pad (hpad ▸ digitOf_mem (sextets_lt bs i hi))
  rw [base64Decode?, base64Encode, String.toList_ofList, List.reverse_append,
    List.reverse_replicate, dropWhile_pad _ hdigits, List.reverse_reverse,
    mapM_digitValue? base64Alphabet_nodup fun i hi => sextets_lt bs i hi]
  exact unsextets?_sextets bs

-- =============================================================== decimal

/-- A number in decimal. -/
def decimalEncode (n : Nat) : String := n.repr

/-- .. and back. -/
def decimalDecode? (s : String) : Option Nat :=
  if s.toList.all Char.isDigit then some (Nat.ofDigitChars 10 s.toList 0) else none

/-- What is written in decimal is read back. -/
theorem decimalDecode?_encode (n : Nat) : decimalDecode? (decimalEncode n) = some n := by
  have hdigits : (Nat.toDigits 10 n).all Char.isDigit = true :=
    List.all_eq_true.mpr fun c hc =>
      Nat.isDigit_of_mem_toDigits (Nat.succ_pos 9) (Nat.le_refl 10) hc
  rw [decimalDecode?, decimalEncode, Nat.toList_repr, if_pos hdigits, Nat.ofDigitChars_ten_toDigits]

end Lib
