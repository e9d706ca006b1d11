/-
What `decode_b64_lax` makes of the four spellings of base64.

It drops the padding and tries the URL-safe engine, then the standard
engine on the text as it came. The first attempt covers both URL-safe
spellings and every standard text without `+` and `/`; the second covers
the padded standard spelling. What neither covers is standard text that
has a `+` or `/` and lacks padding it would need (`decodeB64Lax_spell64`).
The engines are the base64 crate's: `CrateEngines` is what is relied on of
them, and `strictEngines` are two that behave so.
-/
import KoinosEvm.Lib.Base64
import KoinosEvm.Proxy.Json
import KoinosEvm.Proxy.KoinosTx

namespace KoinosEvm.Proofs

open KoinosEvm.Proxy Lib

/-- The URL-safe engine without padding reads its own text and only its
own alphabet; the padded standard engine reads its own text and only whole
groups. -/
structure CrateEngines (b64 : Base64) : Prop where
  noPad_reads : ∀ bs, b64.urlSafeNoPad (spell64 urlSafe64 false bs) = some bs
  noPad_alphabet : ∀ s bs, b64.urlSafeNoPad s = some bs → ∀ c ∈ s.toList, c ∈ base64Alphabet
  standard_reads : ∀ bs, b64.standard (spell64 standard64 true bs) = some bs
  standard_whole : ∀ s bs, b64.standard s = some bs → s.toList.length % 4 = 0

/-- The alphabet of a spelling. -/
def alphabetOf (urlSafe : Bool) : Alphabet64 := if urlSafe then urlSafe64 else standard64

/-- Trimming leaves the spelling without padding. -/
theorem trimPadding_spell64 (a : Alphabet64) (padded : Bool) (bs : Bytes) :
    trimPadding (spell64 a padded bs) = spell64 a false bs := by
  have hrev : (spell64 a padded bs).toList.reverse.dropWhile (· == '=')
      = (digits64 a bs).reverse := by
    have hno : '=' ∉ (digits64 a bs).reverse := fun h => digits64_no_pad (List.mem_reverse.mp h)
    rw [toList_spell64, List.reverse_append, padding64]
    split
    · rw [List.reverse_replicate]
      exact dropWhile_pad _ hno _
    · exact dropWhile_pad _ hno 0
  rw [trimPadding, hrev, List.reverse_reverse, spell64]
  simp [padding64]

section Engines

variable {b64 : Base64} (h : CrateEngines b64)
include h

/-- Where the URL-safe text is the same, the first attempt reads it. -/
theorem decodeB64Lax_first {s : String} {bs : Bytes}
    (hs : trimPadding s = spell64 urlSafe64 false bs) (hempty : s.isEmpty = true → bs = []) :
    decodeB64Lax b64 s = some bs := by
  rw [decodeB64Lax]
  by_cases he : s.isEmpty = true
  · rw [if_pos he, hempty he]
  · rw [if_neg he, hs, h.noPad_reads]

/-- Standard text with a `+` or `/` is left to the second attempt. -/
theorem decodeB64Lax_second {padded : Bool} {bs : Bytes} (hhigh : HasHigh bs) :
    decodeB64Lax b64 (spell64 standard64 padded bs)
      = b64.standard (spell64 standard64 padded bs) := by
  have hne : bs ≠ [] := by
    intro hnil
    obtain ⟨i, hi, -⟩ := hhigh
    rw [hnil] at hi
    cases hi
  have hfirst : b64.urlSafeNoPad (spell64 standard64 false bs) = none := by
    obtain ⟨c, hc, hforeign⟩ := exists_foreign hhigh
    cases hread : b64.urlSafeNoPad (spell64 standard64 false bs) with
    | none => rfl
    | some v =>
        refine absurd (h.noPad_alphabet _ v hread c ?_) hforeign
        rw [toList_spell64]
        exact List.mem_append_left _ hc
  rw [decodeB64Lax, if_neg (fun he => hne (spell64_eq_empty.mp he)), trimPadding_spell64, hfirst]

/-- Of the four spellings, exactly the standard text without the padding
it needs and with a digit of its own is lost. -/
theorem decodeB64Lax_spell64 (urlSafe padded : Bool) (bs : Bytes) :
    decodeB64Lax b64 (spell64 (alphabetOf urlSafe) padded bs) = some bs
      ↔ ¬ (urlSafe = false ∧ padded = false ∧ bs.length % 3 ≠ 0 ∧ HasHigh bs) := by
  by_cases hhigh : HasHigh bs
  · cases urlSafe with
    | true =>
        simp only [Bool.true_eq_false, false_and, not_false_eq_true, iff_true]
        exact decodeB64Lax_first h (trimPadding_spell64 _ _ _) spell64_eq_empty.mp
    | false =>
        rw [show alphabetOf false = standard64 from rfl, decodeB64Lax_second h hhigh]
        cases padded with
        | true => simp [h.standard_reads]
        | false =>
            simp only [hhigh, true_and, and_true, not_not]
            constructor
            · intro hread
              exact length_unpadded.mp (h.standard_whole _ bs hread)
            · intro hwhole
              rw [spell64_whole hwhole]
              exact h.standard_reads bs
  · simp only [hhigh, and_false, not_false_eq_true, iff_true]
    refine decodeB64Lax_first h ?_ spell64_eq_empty.mp
    rw [trimPadding_spell64]
    cases urlSafe with
    | true => rfl
    | false => exact spell64_eq_of_low hhigh

/-- What `encode_b64` writes is always read back. -/
theorem decodeB64Lax_encode (bs : Bytes) : decodeB64Lax b64 (encodeB64 bs) = some bs := by
  rw [encodeB64, base64Encode_eq]
  exact (decodeB64Lax_spell64 h true true bs).mpr (by simp)

/-- Every spelling, and that of `encode_b64`. -/
theorem decodeB64Lax_spellings (urlSafe padded : Bool) (bs : Bytes) :
    (decodeB64Lax b64 (spell64 (alphabetOf urlSafe) padded bs) = some bs
        ↔ ¬ (urlSafe = false ∧ padded = false ∧ bs.length % 3 ≠ 0 ∧ HasHigh bs))
      ∧ decodeB64Lax b64 (encodeB64 bs) = some bs :=
  ⟨decodeB64Lax_spell64 h urlSafe padded bs, decodeB64Lax_encode h bs⟩

end Engines

-- ============================================================== engines

/-- Engines that read canonical text and nothing else. -/
def strictEngines : Base64 := ⟨read64? urlSafe64 false, read64? standard64 true⟩

theorem crateEngines_strict : CrateEngines strictEngines where
  noPad_reads _ := read64?_spell64
  noPad_alphabet s bs hread c hc := by
    rw [← spell64_of_read64? hread, toList_spell64] at hc
    rcases List.mem_append.mp hc with hc | hc
    · exact digits64_mem hc
    · cases hc
  standard_reads _ := read64?_spell64
  standard_whole s bs hread := by
    rw [← spell64_of_read64? hread]
    exact length_padded bs

/-- `+w`, which is `fb` without its padding, is refused. -/
theorem decodeB64Lax_unpadded :
    CrateEngines strictEngines ∧ spell64 standard64 false [0xfb] = "+w"
      ∧ decodeB64Lax strictEngines (spell64 standard64 false [0xfb]) = none :=
  ⟨crateEngines_strict, by decide +kernel, by decide +kernel⟩

/-- With its padding it is read. -/
theorem decodeB64Lax_padded :
    decodeB64Lax strictEngines (spell64 standard64 true [0xfb]) = some [0xfb]
      ∧ decodeB64Lax strictEngines (encodeB64 [0xfb]) = some [0xfb] :=
  ⟨(decodeB64Lax_spellings crateEngines_strict false true [0xfb]).1.mpr (by simp),
    (decodeB64Lax_spellings crateEngines_strict false true [0xfb]).2⟩

end KoinosEvm.Proofs
