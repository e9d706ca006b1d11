/-
Hexadecimal text, as far as the `hex` crate fixes it.

What the crate writes is digits (`hexDigits_hexEncode`), two a byte
(`length_hexEncode`), and begins with other bytes' digits exactly if the bytes
begin with those (`prefix_hexEncode_iff`); so `parse_data` reads it back
(`parseData_dataHex`). A quantity is read back by `parse_quantity`, which goes
through the standard library instead (`parseQuantity_quantity`). The crate as
it comes reads either case and is an instance.
-/
import KoinosEvm.Proxy.Params

namespace KoinosEvm.Proofs

open Proxy

-- ================================================================= readers

theorem orError_ok {α : Type} {x : Option α} {msg : String} {a : α}
    (h : orError x msg = .ok a) : x = some a := by
  cases x with
  | none => cases h
  | some b =>
      cases h
      rfl

theorem stripPrefix_append (p s : String) : stripPrefix p (p ++ s) = some s := by
  have hprefix : p.toList.isPrefixOf (p ++ s).toList = true := by
    rw [List.isPrefixOf_iff_prefix, String.toList_append]
    exact List.prefix_append _ _
  rw [stripPrefix, if_pos hprefix, String.toList_append, List.drop_left, String.ofList_toList]

theorem startsWith_iff (p s : String) : startsWith p s = true ↔ p.toList <+: s.toList := by
  rw [startsWith, stripPrefix, ← List.isPrefixOf_iff_prefix]
  split
  next h => exact iff_of_true rfl h
  next h => exact iff_of_false Bool.false_ne_true h

-- ================================================================== digits

theorem hexDigit_digitChar : ∀ i < 16, hexDigit (Nat.digitChar i) = some (UInt8.ofNat i) := by
  decide

theorem utf8Size_digitChar : ∀ i < 16, (Nat.digitChar i).utf8Size = 1 := by decide

/-- The text consists of hex digits. -/
def HexDigits (cs : List Char) : Prop := ∀ c ∈ cs, ∃ i < 16, c = Nat.digitChar i

theorem sum_utf8Size {cs : List Char} (h : HexDigits cs) :
    (cs.map Char.utf8Size).sum = cs.length := by
  have hone : ∀ c ∈ cs, c.utf8Size = 1 := by
    intro c hc
    obtain ⟨i, hi, rfl⟩ := h c hc
    exact utf8Size_digitChar i hi
  rw [List.map_congr_left hone, List.map_const', List.sum_replicate, smul_eq_mul, Nat.mul_one]

theorem length_byteDigits (bs : Bytes) : (bs.flatMap byteDigits).length = 2 * bs.length := by
  induction bs with
  | nil => rfl
  | cons b bs ih =>
      rw [List.flatMap_cons, List.length_append, ih, List.length_cons]
      show 2 + 2 * bs.length = 2 * (bs.length + 1)
      omega

/-- The digits begin with those of some bytes exactly if the bytes begin with
them. -/
theorem prefix_hexEncode_iff (xs bs : Bytes) :
    xs.flatMap byteDigits <+: bs.flatMap byteDigits ↔ xs <+: bs := by
  have hinj : ∀ i < 16, ∀ j < 16, Nat.digitChar i = Nat.digitChar j ↔ i = j := by decide
  induction xs generalizing bs with
  | nil => exact iff_of_true List.nil_prefix List.nil_prefix
  | cons x xs ih =>
      cases bs with
      | nil => exact iff_of_false (fun h => by cases List.prefix_nil.mp h) (by simp)
      | cons b bs =>
          have hx := x.toNat_lt
          have hb := b.toNat_lt
          have hbyte : x = b ↔ x.toNat / 16 = b.toNat / 16 ∧ x.toNat % 16 = b.toNat % 16 := by
            rw [← UInt8.toNat_inj]
            omega
          rw [List.cons_prefix_cons, List.flatMap_cons, List.flatMap_cons, byteDigits, byteDigits]
          simp only [List.cons_append, List.nil_append, List.cons_prefix_cons]
          rw [hinj _ (by omega) _ (by omega), hinj _ (by omega) _ (by omega), hbyte,
            and_assoc]
          exact and_congr_right fun _ => and_congr_right fun _ => ih bs

-- ============================================================== quantities

theorem fromHexLoop_append (xs : List Char) (i n : Nat) (hi : i < 16) :
    fromHexLoop (xs ++ [Nat.digitChar i]) n
      = (fromHexLoop xs n).bind fun m =>
          if 2 ^ 64 ≤ 16 * m + i then .error "number too large to fit in target type"
          else .ok (16 * m + i) := by
  induction xs generalizing n with
  | nil =>
      have hsize : i < UInt8.size := lt_trans hi (by decide)
      have hdigit : (UInt8.ofNat i).toNat = i := UInt8.toNat_ofNat_of_lt' hsize
      simp only [List.nil_append, fromHexLoop, hexDigit_digitChar i hi, hdigit]
      rfl
  | cons x xs ih =>
      simp only [List.cons_append, fromHexLoop]
      cases hexDigit x with
      | none => rfl
      | some d =>
          simp only
          split
          · rfl
          · exact ih _

/-- The digits of a number are read back. -/
theorem fromHexLoop_toDigits (n : Nat) (h : n < 2 ^ 64) :
    fromHexLoop (Nat.toDigits 16 n) 0 = .ok n := by
  induction n using Nat.strongRecOn with
  | ind n ih =>
      rw [Nat.toDigits_eq_if (by decide)]
      split
      next hlt =>
        have hone := fromHexLoop_append [] n 0 hlt
        rw [List.nil_append] at hone
        rw [hone]
        show (if 2 ^ 64 ≤ 16 * 0 + n then _ else _) = _
        rw [if_neg (by omega), Nat.mul_zero, Nat.zero_add]
      next hge =>
        rw [fromHexLoop_append _ _ _ (Nat.mod_lt _ (by decide)), ih (n / 16) (by omega) (by omega)]
        show (if 2 ^ 64 ≤ 16 * (n / 16) + n % 16 then _ else _) = _
        rw [Nat.div_add_mod, if_neg (by omega)]

theorem hexDigits_toDigits (n : Nat) : HexDigits (Nat.toDigits 16 n) := by
  induction n using Nat.strongRecOn with
  | ind n ih =>
      rw [Nat.toDigits_eq_if (by decide)]
      split
      next hlt =>
        intro c hc
        exact ⟨n, hlt, List.mem_singleton.mp hc⟩
      next hge =>
        intro c hc
        rcases List.mem_append.mp hc with hc | hc
        · exact ih (n / 16) (by omega) c hc
        · exact ⟨n % 16, Nat.mod_lt _ (by decide), List.mem_singleton.mp hc⟩

/-- A quantity is read back. -/
theorem parseQuantity_quantity (n : UInt64) :
    parseQuantity ("0x" ++ String.ofList (Nat.toDigits 16 n.toNat)) = .ok n := by
  have hdigits := fromHexLoop_toDigits n.toNat n.toNat_lt
  have hne : (String.ofList (Nat.toDigits 16 n.toNat)).isEmpty = false := by simp
  rw [parseQuantity, stripPrefix_append]
  show (if (String.ofList (Nat.toDigits 16 n.toNat)).isEmpty then _ else _) = _
  rw [hne, if_neg Bool.false_ne_true]
  simp only [fromHex, String.toList_ofList]
  split
  next c rest heq =>
    -- a sign would not have been read as a digit
    rw [heq] at hdigits
    cases hdigits
  next =>
    rw [hdigits]
    exact congrArg Except.ok UInt64.ofNat_toNat

/-- A quantity is not as long as a hash. -/
theorem strLen_quantity (n : UInt64) :
    strLen ("0x" ++ String.ofList (Nat.toDigits 16 n.toNat)) ≠ 66 := by
  have hlen : (Nat.toDigits 16 n.toNat).length ≤ 16 :=
    (Nat.length_toDigits_le_iff (by decide) (by decide)).mpr n.toNat_lt
  have htext : (String.ofList (Nat.toDigits 16 n.toNat)).toList = Nat.toDigits 16 n.toNat :=
    String.toList_ofList
  rw [strLen, String.toList_append, List.map_append, List.sum_append, htext,
    sum_utf8Size (hexDigits_toDigits _)]
  show 2 + _ ≠ 66
  omega

-- =============================================================== the crate

section Crate

variable [HexCrate]

theorem hexDigits_hexEncode (bs : Bytes) : HexDigits (hexEncode bs).toList := by
  intro c hc
  rw [toList_hexEncode] at hc
  obtain ⟨b, -, hb⟩ := List.mem_flatMap.mp hc
  have hlt := b.toNat_lt
  rcases List.mem_pair.mp hb with rfl | rfl
  · exact ⟨_, by omega, rfl⟩
  · exact ⟨_, by omega, rfl⟩

theorem length_hexEncode (bs : Bytes) : (hexEncode bs).toList.length = 2 * bs.length := by
  rw [toList_hexEncode, length_byteDigits]

theorem hexEncode_inj {bs bs' : Bytes} (h : hexEncode bs = hexEncode bs') : bs = bs' := by
  have heq := congrArg hexDecode h
  rwa [hexDecode_hexEncode, hexDecode_hexEncode, Except.ok.injEq] at heq

/-- `parse_data` reads back what is written behind the mark. -/
theorem parseData_dataHex (bs : Bytes) : parseData ("0x" ++ hexEncode bs) = .ok bs := by
  have hlen : strLen (hexEncode bs) % 2 = 0 := by
    rw [strLen, sum_utf8Size (hexDigits_hexEncode bs), length_hexEncode, Nat.mul_mod_right]
  rw [parseData, stripPrefix_append]
  show (if strLen (hexEncode bs) % 2 ≠ 0 then _ else _) = _
  rw [if_neg (not_not.mpr hlen), hexDecode_hexEncode]

end Crate

-- ======================================================= the crate as it is

/-- The bytes of pairs of digits, of either case. -/
def bytesOfDigits : List Char → Option Bytes
  | [] => some []
  | [_] => none
  | hi :: lo :: rest => do
      let high ← hexDigit hi
      let low ← hexDigit lo
      let bytes ← bytesOfDigits rest
      return (16 * high + low) :: bytes

theorem bytesOfDigits_byteDigits (b : UInt8) (rest : List Char) :
    bytesOfDigits (byteDigits b ++ rest) = (bytesOfDigits rest).map (b :: ·) := by
  have hlt := b.toNat_lt
  have hhigh := hexDigit_digitChar (b.toNat / 16) (by omega)
  have hlow := hexDigit_digitChar (b.toNat % 16) (by omega)
  have hbyte : 16 * UInt8.ofNat (b.toNat / 16) + UInt8.ofNat (b.toNat % 16) = b := by
    apply UInt8.toNat_inj.mp
    rw [UInt8.toNat_add, UInt8.toNat_mul, UInt8.toNat_ofNat', UInt8.toNat_ofNat']
    show (16 * (b.toNat / 16 % 256) % 256 + b.toNat % 16 % 256) % 256 = b.toNat
    omega
  simp only [byteDigits, List.cons_append, List.nil_append, bytesOfDigits, hhigh, hlow, hbyte,
    Option.bind_eq_bind, Option.bind_some, Option.pure_def, Option.map_eq_bind]
  rfl

theorem bytesOfDigits_flatMap (bs : Bytes) : bytesOfDigits (bs.flatMap byteDigits) = some bs := by
  induction bs with
  | nil => rfl
  | cons b bs ih => rw [List.flatMap_cons, bytesOfDigits_byteDigits, ih, Option.map_some]

instance hexCrate : HexCrate where
  hexEncode bs := String.ofList (bs.flatMap byteDigits)
  hexDecode s := orError (bytesOfDigits s.toList)
    (if s.length % 2 = 1 then "Odd number of digits" else "Invalid character")
  toList_hexEncode _ := String.toList_ofList
  hexDecode_hexEncode bs := by rw [String.toList_ofList, bytesOfDigits_flatMap, orError]

end KoinosEvm.Proofs
