/-
The spellings of base64.

An alphabet and whether the text is padded make a spelling. The standard
alphabet and the URL-safe one agree on the first 62 digits, so a text is
the same in both as long as no group has the value 62 or 63
(`spell64_eq_of_low`). A strict reader takes what its own writer wrote and
nothing else (`read64?_spell64`, `spell64_of_read64?`).
-/
import KoinosEvm.Lib.ByteText

namespace Lib

/-- The alphabet with `+` and `/`. -/
def standardAlphabet : List Char :=
  "ABCDEFGHIJKLMNOPQRSTUVWXYZabcdefghijklmnopqrstuvwxyz0123456789+/".toList

/-- The two alphabets, each of them fit to be read back. -/
structure Alphabet64 where
  chars : List Char
  nodup : chars.Nodup
  len : chars.length = 64
  no_pad : '=' ∉ chars

theorem standardAlphabet_eq : standardAlphabet = commonDigits ++ ['+', '/'] :=
  String.toList_ofList

theorem standardAlphabet_nodup : standardAlphabet.Nodup := by
  rw [standardAlphabet_eq]
  exact commonDigits_append_nodup (by decide) (by decide +kernel) (by decide +kernel)

theorem length_standardAlphabet : standardAlphabet.length = 64 := by
  rw [standardAlphabet_eq]
  rfl

theorem length_base64Alphabet : base64Alphabet.length = 64 := by
  rw [base64Alphabet_eq]
  rfl

theorem standardAlphabet_no_pad : '=' ∉ standardAlphabet := by
  rw [standardAlphabet_eq]
  decide +kernel

def standard64 : Alphabet64 :=
  ⟨standardAlphabet, standardAlphabet_nodup, length_standardAlphabet, standardAlphabet_no_pad⟩

def urlSafe64 : Alphabet64 :=
  ⟨base64Alphabet, base64Alphabet_nodup, length_base64Alphabet, base64Alphabet_no_pad⟩

theorem standard64_chars : standard64.chars = standardAlphabet := by
  rw [standard64]

theorem urlSafe64_chars : urlSafe64.chars = base64Alphabet := by
  rw [urlSafe64]

/-- The padding behind `n` bytes. -/
def padding64 (padded : Bool) (n : Nat) : List Char :=
  if padded then List.replicate ((3 - n % 3) % 3) '=' else []

/-- The digits of a text. -/
def digits64 (a : Alphabet64) (bs : List UInt8) : List Char :=
  (sextets bs).map (digitOf a.chars)

/-- Bytes in one of the spellings. -/
def spell64 (a : Alphabet64) (padded : Bool) (bs : List UInt8) : String :=
  String.ofList (digits64 a bs ++ padding64 padded bs.length)

/-- A strict reader of one spelling: digits, left-over bits and padding
have to be what the writer writes. -/
def read64? (a : Alphabet64) (padded : Bool) (s : String) : Option (List UInt8) :=
  ((s.toList.filter (· != '=')).mapM (digitValue? a.chars)).bind fun is =>
    (unsextets? is).bind fun bs => if spell64 a padded bs = s then some bs else none

variable {a : Alphabet64} {padded : Bool} {bs : List UInt8}

theorem base64Encode_eq (bs : List UInt8) : base64Encode bs = spell64 urlSafe64 true bs := by
  rw [base64Encode, spell64, digits64, urlSafe64_chars, padding64, if_pos rfl]

@[simp] theorem toList_spell64 :
    (spell64 a padded bs).toList = digits64 a bs ++ padding64 padded bs.length :=
  String.toList_ofList

theorem digits64_mem {c : Char} (hc : c ∈ digits64 a bs) : c ∈ a.chars := by
  obtain ⟨i, hi, rfl⟩ := List.mem_map.mp hc
  apply digitOf_mem
  rw [a.len]
  exact sextets_lt bs i hi

theorem digits64_no_pad : '=' ∉ digits64 a bs := fun h => a.no_pad (digits64_mem h)

theorem mem_padding64 {n : Nat} {c : Char} (hc : c ∈ padding64 padded n) : c = '=' := by
  unfold padding64 at hc
  split at hc
  · exact List.eq_of_mem_replicate hc
  · cases hc

/-- A strict reader takes its writer's text. -/
theorem read64?_spell64 : read64? a padded (spell64 a padded bs) = some bs := by
  have hdigits : (spell64 a padded bs).toList.filter (· != '=') = digits64 a bs := by
    rw [toList_spell64, List.filter_append, List.filter_eq_self.mpr, List.filter_eq_nil_iff.mpr,
      List.append_nil]
    · intro c hc
      simp [mem_padding64 hc]
    · intro c hc
      have hne : c ≠ '=' := fun h => digits64_no_pad (h ▸ hc)
      simpa using hne
  have hvalues : (digits64 a bs).mapM (digitValue? a.chars) = some (sextets bs) := by
    apply mapM_digitValue? a.nodup
    intro i hi
    rw [a.len]
    exact sextets_lt bs i hi
  rw [read64?, hdigits, hvalues, Option.bind_some, unsextets?_sextets, Option.bind_some, if_pos rfl]

/-- .. and nothing else. -/
theorem spell64_of_read64? {s : String} (h : read64? a padded s = some bs) :
    spell64 a padded bs = s := by
  obtain ⟨is, -, h⟩ := Option.bind_eq_some_iff.mp h
  obtain ⟨bs', -, h⟩ := Option.bind_eq_some_iff.mp h
  split at h
  · rename_i heq
    cases h
    exact heq
  · cases h

-- =============================================================== lengths

/-- Whole groups of four digits are whole groups of three bytes. -/
theorem length_sextets_mod (bs : List UInt8) :
    (sextets bs).length % 4 = 0 ↔ bs.length % 3 = 0 := by
  fun_induction sextets bs with
  | case1 => simp
  | case2 a => simp
  | case3 a b => simp
  | case4 a b c rest ih =>
      simp only [List.length_cons]
      omega

theorem sextets_eq_nil : sextets bs = [] ↔ bs = [] := by
  fun_cases sextets bs with
  | case1 => simp
  | case2 a => simp
  | case3 a b => simp
  | case4 a b c rest => simp

theorem length_padded (bs : List UInt8) : (spell64 a true bs).toList.length % 4 = 0 := by
  have hlen : (sextets bs).length % 4 + (3 - bs.length % 3) % 3 = 0
      ∨ (sextets bs).length % 4 + (3 - bs.length % 3) % 3 = 4 := by
    fun_induction sextets bs with
    | case1 => simp
    | case2 a => simp
    | case3 a b => simp
    | case4 a b c rest ih =>
        simp only [List.length_cons]
        omega
  rw [toList_spell64, List.length_append, digits64, List.length_map, padding64, if_pos rfl,
    List.length_replicate]
  omega

/-- Text without padding is whole only if the bytes are. -/
theorem length_unpadded : (spell64 a false bs).toList.length % 4 = 0 ↔ bs.length % 3 = 0 := by
  have hlen : (spell64 a false bs).toList.length = (sextets bs).length := by
    simp [digits64, padding64]
  rw [hlen, length_sextets_mod]

/-- Whole groups need no padding. -/
theorem spell64_whole (h : bs.length % 3 = 0) : spell64 a false bs = spell64 a true bs := by
  simp [spell64, padding64, h]

theorem spell64_eq_empty : (spell64 a padded bs).isEmpty = true ↔ bs = [] := by
  rw [String.isEmpty_iff, ← String.toList_eq_nil_iff, toList_spell64, List.append_eq_nil_iff,
    digits64, List.map_eq_nil_iff, sextets_eq_nil]
  constructor
  · exact fun h => h.1
  · intro h
    simp [h, padding64]

-- ======================================================= two alphabets

/-- A group that the two alphabets write differently. -/
def HasHigh (bs : List UInt8) : Prop := ∃ i ∈ sextets bs, 62 ≤ i

instance (bs : List UInt8) : Decidable (HasHigh bs) := inferInstanceAs (Decidable (∃ i ∈ _, _))

theorem digits_agree : ∀ i < 62, digitOf standardAlphabet i = digitOf base64Alphabet i := by
  intro i hi
  have hcommon : i < commonDigits.length := hi
  rw [standardAlphabet_eq, base64Alphabet_eq, digitOf, digitOf, List.getD_append _ _ _ _ hcommon,
    List.getD_append _ _ _ _ hcommon]

theorem digits_differ : ∀ i < 64, 62 ≤ i →
    digitOf standardAlphabet i ∉ base64Alphabet := by
  intro i hi hhigh
  rw [standardAlphabet_eq, base64Alphabet_eq]
  obtain rfl | rfl : i = 62 ∨ i = 63 := by omega
  · show '+' ∉ commonDigits ++ ['-', '_']
    decide +kernel
  · show '/' ∉ commonDigits ++ ['-', '_']
    decide +kernel

/-- Without such a group the two are spelled alike. -/
theorem spell64_eq_of_low (h : ¬ HasHigh bs) :
    spell64 standard64 padded bs = spell64 urlSafe64 padded bs := by
  have hdigits : digits64 standard64 bs = digits64 urlSafe64 bs := by
    rw [digits64, digits64, standard64_chars, urlSafe64_chars]
    apply List.map_congr_left
    intro i hi
    apply digits_agree
    by_contra hhigh
    exact h ⟨i, hi, by omega⟩
  rw [spell64, hdigits, spell64]

/-- With one, a digit of the standard text is foreign to the URL-safe
alphabet. -/
theorem exists_foreign (h : HasHigh bs) :
    ∃ c ∈ digits64 standard64 bs, c ∉ base64Alphabet := by
  obtain ⟨i, hi, hhigh⟩ := h
  rw [digits64, standard64_chars]
  exact ⟨digitOf standardAlphabet i, List.mem_map_of_mem hi,
    digits_differ i (sextets_lt bs i hi) hhigh⟩

end Lib
