/-
Base58 read and written.

A byte string and an alphabet string both are numerals with leading zeros
(Lib/Radix.lean): the encoder writes in base 58 the two numbers it reads
in base 256 (`bs58_eq`), the decoder the other way round
(`bs58Decode_eq`). The invariant of the encoder is that its window never
starts with a zero (`bs58Round_spec`), which is why shrinking it by one
byte a round is enough; the decoder's used bytes never end with one
(`bs58Push_spec`), which is why the vector it allocated is long enough.

The decoder looks a character up by the low byte of its code point, so
what it accepts are the strings whose low bytes are in the alphabet
(`accepts_iff`). Characters behind `U+00FF` get through: a string with one
of them is a `Lookalike`.
-/
import KoinosEvm.Lib.ByteText
import KoinosEvm.Lib.Fallible
import KoinosEvm.Lib.Radix
import KoinosEvm.Proxy.Base58

namespace KoinosEvm.Proofs

open KoinosEvm.Proxy Lib

-- ========================================================== the alphabet

/-- The digit a character stands for. -/
def charOf58 (i : Nat) : Char := digitOf base58Chars i

theorem base58Chars_eq : base58Chars =
    ['1', '2', '3', '4', '5', '6', '7', '8', '9', 'A', 'B', 'C', 'D', 'E', 'F', 'G', 'H', 'J',
     'K', 'L', 'M', 'N', 'P', 'Q', 'R', 'S', 'T', 'U', 'V', 'W', 'X', 'Y', 'Z', 'a', 'b', 'c',
     'd', 'e', 'f', 'g', 'h', 'i', 'j', 'k', 'm', 'n', 'o', 'p', 'q', 'r', 's', 't', 'u', 'v',
     'w', 'x', 'y', 'z'] :=
  String.toList_ofList

theorem base58Chars_length : base58Chars.length = 58 := by
  rw [base58Chars_eq]
  rfl

/-- The alphabet is in the order of the code points, .. -/
theorem base58Chars_sorted : base58Chars.Pairwise (· < ·) := by
  rw [← List.isChain_iff_pairwise, base58Chars_eq]
  decide +kernel

/-- .. all of them ASCII. -/
theorem base58Chars_ascii : ∀ c ∈ base58Chars, c.toNat < 128 := by
  have hall : base58Chars.all (fun c => decide (c.toNat < 128)) = true := by
    rw [base58Chars_eq]
    decide +kernel
  exact fun c hc => of_decide_eq_true (List.all_eq_true.mp hall c hc)

theorem alphabet_getElem? : ∀ i < 58, BS58_ALPHABET[i]? = some (charOf58 i).toUInt8 :=
  fun _ hi => getElem?_map_digitOf Char.toUInt8 (base58Chars_length.symm ▸ hi)

theorem idxOf?_charOf58 : ∀ i < 58, BS58_ALPHABET.idxOf? (charOf58 i).toUInt8 = some i :=
  fun _ hi => idxOf?_toUInt8_digitOf base58Chars_sorted base58Chars_ascii
    (base58Chars_length.symm ▸ hi)

theorem utf8Size_charOf58 : ∀ i < 58, (charOf58 i).utf8Size = 1 := fun _ hi =>
  utf8Size_ascii (base58Chars_ascii _ (digitOf_mem (base58Chars_length.symm ▸ hi)))

theorem charOf58_eq_one_iff : ∀ i < 58, charOf58 i = '1' ↔ i = 0 := by
  intro i hi
  have hzero : charOf58 0 = '1' := by
    rw [charOf58, base58Chars_eq]
    rfl
  constructor
  · intro hone
    have hread := idxOf?_charOf58 i hi
    rw [hone, ← hzero, idxOf?_charOf58 0 (by omega)] at hread
    exact (Option.some.inj hread).symm
  · rintro rfl
    exact hzero

theorem charOf58_mem {i : Nat} (hi : i < 58) : charOf58 i ∈ base58Chars :=
  digitOf_mem (by rw [base58Chars_length]; exact hi)

/-- An alphabet string spelled by its digits. -/
theorem exists_digits {cs : List Char} (hcs : ∀ c ∈ cs, c ∈ base58Chars) :
    ∃ is : List Nat, (∀ i ∈ is, i < 58) ∧ cs = is.map charOf58 := by
  induction cs with
  | nil => exact ⟨[], by simp⟩
  | cons c cs ih =>
      obtain ⟨is, his, hmap⟩ := ih fun x hx => hcs x (List.mem_cons_of_mem _ hx)
      obtain ⟨i, hi, hget⟩ := List.getElem_of_mem (hcs c List.mem_cons_self)
      have hi' : i < 58 := by
        rw [base58Chars_length] at hi
        exact hi
      have hc : charOf58 i = c := by
        rw [charOf58, digitOf, List.getD_eq_getElem _ _ hi]
        exact hget
      refine ⟨i :: is, ?_, by rw [List.map_cons, hc, hmap]⟩
      intro j hj
      rcases List.mem_cons.mp hj with rfl | hj
      · exact hi'
      · exact his j hj

/-- ASCII bytes are UTF-8. -/
theorem fromUTF8?_ascii {cs : List Char} (hcs : ∀ c ∈ cs, c.utf8Size = 1) :
    String.fromUTF8? ⟨(cs.map Char.toUInt8).toArray⟩ = some (String.ofList cs) := by
  have hflat : cs.flatMap String.utf8EncodeChar = cs.map Char.toUInt8 := by
    rw [List.map_eq_flatMap]
    exact List.flatMap_congr fun c hc => String.utf8EncodeChar_eq_singleton (hcs c hc)
  have hbytes : (⟨(cs.map Char.toUInt8).toArray⟩ : ByteArray) = (String.ofList cs).toByteArray := by
    apply ByteArray.ext
    rw [String.toByteArray_ofList, List.utf8Encode, hflat, List.data_toByteArray]
  rw [hbytes, String.fromUTF8?, dif_pos (String.ofList cs).isValidUTF8]
  rfl

/-- A string has at least a byte for each character. -/
theorem length_le_utf8ByteSize (s : String) : s.toList.length ≤ s.utf8ByteSize := by
  have hlen : ∀ cs : List Char, cs.length ≤ (cs.flatMap String.utf8EncodeChar).length := by
    intro cs
    induction cs with
    | nil => simp
    | cons c cs ih =>
        have hpos := c.utf8Size_pos
        simp only [List.flatMap_cons, List.length_append, String.length_utf8EncodeChar,
          List.length_cons]
        omega
  have hsize : s.utf8ByteSize = (s.toList.flatMap String.utf8EncodeChar).length := by
    rw [← String.size_toByteArray, ← String.utf8Encode_toList, List.utf8Encode,
      List.size_toByteArray]
  rw [hsize]
  exact hlen s.toList

-- =========================================================== the window

/-- A string without a leading zero is as large as its length says. -/
theorem noLeadingZero_iff {bs : Bytes} :
    NoLeadingZero bs ↔ bs = [] ∨ 256 ^ (bs.length - 1) ≤ ofBe bs := by
  cases bs with
  | nil => simp [NoLeadingZero]
  | cons b bs =>
      have hlt := ofBe_lt bs
      have hb : b.toNat = 0 ↔ b = 0 := UInt8.toNat_inj (b := 0)
      rw [ofBe_cons]
      simp only [NoLeadingZero, List.head?_cons, ne_eq, Option.some.injEq, List.length_cons,
        Nat.add_sub_cancel, reduceCtorEq, false_or]
      constructor
      · intro hne
        have hpos : 1 ≤ b.toNat := Nat.pos_of_ne_zero fun h0 => hne (hb.mp h0)
        exact le_trans (Nat.le_mul_of_pos_left _ hpos) (Nat.le_add_right _ _)
      · intro hle h0
        rw [h0] at hle
        exact (Nat.not_le.mpr hlt) (by simpa using hle)

theorem ofBe_pos {b : UInt8} {bs : Bytes} (h : NoLeadingZero (b :: bs)) : 0 < ofBe (b :: bs) := by
  rcases noLeadingZero_iff.mp h with h | h
  · cases h
  · exact lt_of_lt_of_le (Nat.pow_pos (by omega)) h

/-- The leading zeros of a byte string, and the rest. -/
theorem zeros_split (bs : Bytes) :
    bs = List.replicate (bs.takeWhile (· == 0)).length 0
        ++ bs.drop (bs.takeWhile (· == 0)).length
      ∧ NoLeadingZero (bs.drop (bs.takeWhile (· == 0)).length) := by
  induction bs with
  | nil => simp [NoLeadingZero]
  | cons b bs ih =>
      by_cases hb : b = 0
      · rw [List.takeWhile_cons_of_pos (by simpa using hb), List.length_cons, List.drop_succ_cons,
          List.replicate_succ, List.cons_append, ← ih.1, hb]
        exact ⟨rfl, ih.2⟩
      · rw [List.takeWhile_cons_of_neg (by simpa using hb)]
        simpa [NoLeadingZero] using hb

theorem zeros_append {z : Nat} {bs : Bytes} (h : NoLeadingZero bs) :
    ((List.replicate z 0 ++ bs).takeWhile (· == 0)).length = z := by
  have hnil : bs.takeWhile (· == 0) = [] := by
    cases bs with
    | nil => rfl
    | cons b bs => exact List.takeWhile_cons_of_neg (by simpa [NoLeadingZero] using h)
  rw [List.takeWhile_append_of_pos (by simp), hnil]
  simp

-- ============================================================= encoding

/-- Long division: quotient and remainder of the whole window. -/
theorem divBy58_spec {rem : Nat} (hrem : rem < 58) (bs : Bytes) :
    ofBe (divBy58 rem bs).1 * 58 + (divBy58 rem bs).2 = rem * 256 ^ bs.length + ofBe bs
      ∧ (divBy58 rem bs).2 < 58 ∧ (divBy58 rem bs).1.length = bs.length := by
  induction bs generalizing rem with
  | nil => simpa [divBy58] using hrem
  | cons byte bs ih =>
      have hbyte := byte.toNat_lt
      obtain ⟨hvalue, hlt, hlen⟩ := ih (Nat.mod_lt (rem * 256 + byte.toNat) (by omega : 0 < 58))
      have hquot : (rem * 256 + byte.toNat) / 58 < 256 := by omega
      refine ⟨?_, hlt, by simpa [divBy58] using hlen⟩
      simp only [divBy58]
      rw [ofBe_cons, ofBe_cons, hlen, UInt8.toNat_ofNat', Nat.mod_eq_of_lt hquot, Nat.add_mul,
        Nat.add_assoc, hvalue, List.length_cons]
      have hsplit := Nat.div_add_mod (rem * 256 + byte.toNat) 58
      calc _ = (58 * ((rem * 256 + byte.toNat) / 58) + (rem * 256 + byte.toNat) % 58)
              * 256 ^ bs.length + ofBe bs := by ring
        _ = _ := by
            rw [hsplit]
            ring

/-- A round divides by 58, shortens a window of zeros and leaves no zero
in front. -/
theorem bs58Round_spec {w w' : Bytes} {rem : Nat} (h : bs58Round w = some (rem, w')) :
    rem = ofBe w % 58 ∧ ofBe w' = ofBe w / 58 ∧ w'.length ≤ w.length
      ∧ (ofBe w = 0 → w'.length < w.length) ∧ (NoLeadingZero w → NoLeadingZero w') := by
  cases w with
  | nil => cases h
  | cons b bs =>
      obtain ⟨hvalue, hlt, hlen⟩ := divBy58_spec (by omega : 0 < 58) (b :: bs)
      simp only [bs58Round, Option.some.injEq, Prod.mk.injEq] at h
      obtain ⟨rfl, rfl⟩ := h
      generalize divBy58 0 (b :: bs) = d at *
      obtain ⟨n, rem⟩ := d
      simp only [Nat.zero_mul, Nat.zero_add] at hvalue hlt hlen ⊢
      have hrem : rem = ofBe (b :: bs) % 58 := by omega
      have hquot : ofBe n = ofBe (b :: bs) / 58 := by omega
      cases n with
      | nil => cases hlen
      | cons q qs =>
          simp only [List.length_cons, Nat.add_right_cancel_iff] at hlen
          by_cases hq : q = 0
          · have htail : ofBe (q :: qs) = ofBe qs := by
              rw [ofBe_cons, hq]
              simp
            simp only [hq, List.head?_cons, if_true, List.tail_cons]
            refine ⟨hrem, by rw [← htail, hquot], by simp [hlen], by simp [hlen], ?_⟩
            intro hno
            apply noLeadingZero_iff.mpr
            rcases noLeadingZero_iff.mp hno with hnil | hle
            · cases hnil
            · rw [List.length_cons, Nat.add_sub_cancel, ← hlen] at hle
              cases qs with
              | nil => exact Or.inl rfl
              | cons q' qs' =>
                  right
                  rw [List.length_cons, Nat.add_sub_cancel] at *
                  rw [pow_succ] at hle
                  omega
          · simp only [List.head?_cons, Option.some.injEq, hq, if_false]
            refine ⟨hrem, hquot, by simp [hlen], ?_, by simp [NoLeadingZero, hq]⟩
            intro hzero
            have hno : NoLeadingZero (q :: qs) := by simpa [NoLeadingZero] using hq
            have := ofBe_pos hno
            omega

theorem bs58Round_decreasing : Decreasing bs58Round windowSize := by
  intro w rem w' h
  obtain ⟨-, hvalue, hlen, hzero, -⟩ := bs58Round_spec h
  rw [windowSize, windowSize, hvalue]
  have := Nat.div_le_self (ofBe w) 58
  by_cases h0 : ofBe w = 0
  · have := hzero h0
    omega
  · have : ofBe w / 58 < ofBe w := Nat.div_lt_self (by omega) (by omega)
    omega

/-- The remainders are the digits in base 58. -/
theorem bs58Digits_eq {w : Bytes} (hw : NoLeadingZero w) :
    bs58Digits w = Nat.digits 58 (ofBe w) := by
  revert hw
  refine run_induction bs58Round_decreasing
    (P := fun w => NoLeadingZero w → bs58Digits w = Nat.digits 58 (ofBe w)) ?_ ?_ w
  · intro w hstop _
    cases w with
    | nil => simp [bs58Digits, collect_none hstop]
    | cons b bs => cases hstop
  · intro w rem w' hround ih hw
    obtain ⟨hrem, hvalue, -, -, hkeep⟩ := bs58Round_spec hround
    have hpos : 0 < ofBe w := by
      cases w with
      | nil => cases hround
      | cons b bs => exact ofBe_pos hw
    rw [bs58Digits, collect_some bs58Round_decreasing hround, Nat.digits_def' (by omega) hpos,
      ← hrem, ← hvalue, ← ih (hkeep hw), bs58Digits]

/-- Every digit has its place in the alphabet. -/
theorem mapM_alphabet {is : List Nat} (his : ∀ i ∈ is, i < 58) :
    is.mapM (BS58_ALPHABET[·]?) = some (is.map fun i => (charOf58 i).toUInt8) := by
  induction is with
  | nil => rfl
  | cons i is ih =>
      rw [List.mapM_cons, alphabet_getElem? i (his i List.mem_cons_self),
        ih fun j hj => his j (List.mem_cons_of_mem _ hj)]
      rfl

/-- What the encoder writes: the leading zeros and the number, in base 58. -/
theorem bs58_eq {z : Nat} {w : Bytes} (hw : NoLeadingZero w) :
    bs58 (List.replicate z 0 ++ w)
      = .ok (String.ofList ((spell 58 z (ofBe w)).map charOf58)) := by
  have hlt : ∀ i ∈ Nat.digits 58 (ofBe w), i < 58 := fun i hi =>
    Nat.digits_lt_base (by omega) hi
  have hlookup : (Nat.digits 58 (ofBe w)).mapM (BS58_ALPHABET[·]?)
      = some ((Nat.digits 58 (ofBe w)).map fun i => (charOf58 i).toUInt8) :=
    mapM_alphabet hlt
  have hbytes : ((Nat.digits 58 (ofBe w)).map (fun i => (charOf58 i).toUInt8)
        ++ List.replicate z '1'.toUInt8).reverse
      = ((spell 58 z (ofBe w)).map charOf58).map Char.toUInt8 := by
    rw [List.reverse_append, List.reverse_replicate, spell, List.map_append, List.map_append,
      List.map_replicate, List.map_replicate, List.map_reverse, List.map_reverse, List.map_map]
    rfl
  have hsize : ∀ c ∈ (spell 58 z (ofBe w)).map charOf58, c.utf8Size = 1 := by
    intro c hc
    obtain ⟨i, hi, rfl⟩ := List.mem_map.mp hc
    exact utf8Size_charOf58 i (spell_lt (by omega) hi)
  simp only [bs58]
  rw [zeros_append hw, List.drop_left' List.length_replicate, bs58Digits_eq hw, hlookup]
  simp only [hbytes, fromUTF8?_ascii hsize]

-- ============================================================= decoding

/-- The used bytes times 58, and what is carried out of them. -/
theorem mulBy58_spec {carry : Nat} (hcarry : carry < 58) (n : Bytes) :
    (mulBy58 carry n).2 * 256 ^ n.length + ofBe (mulBy58 carry n).1.reverse
        = ofBe n.reverse * 58 + carry
      ∧ (mulBy58 carry n).2 < 58 ∧ (mulBy58 carry n).1.length = n.length := by
  induction n generalizing carry with
  | nil => simpa [mulBy58] using hcarry
  | cons byte n ih =>
      have hbyte := byte.toNat_lt
      have hnext : (byte.toNat * 58 + carry) / 256 < 58 := by omega
      obtain ⟨hvalue, hlt, hlen⟩ := ih hnext
      have hlow : ofBe [UInt8.ofNat (byte.toNat * 58 + carry)]
          = (byte.toNat * 58 + carry) % 256 := by
        rw [ofBe_cons]
        simp
      have hone : ofBe [byte] = byte.toNat := by
        rw [ofBe_cons]
        simp
      refine ⟨?_, hlt, by simpa [mulBy58] using hlen⟩
      simp only [mulBy58]
      rw [List.reverse_cons, List.reverse_cons, ofBe_append, ofBe_append, hlow, hone,
        List.length_singleton, List.length_singleton, List.length_cons, pow_succ, pow_one]
      have hsplit := Nat.div_add_mod (byte.toNat * 58 + carry) 256
      calc _ = ((mulBy58 ((byte.toNat * 58 + carry) / 256) n).2 * 256 ^ n.length
                + ofBe (mulBy58 ((byte.toNat * 58 + carry) / 256) n).1.reverse) * 256
              + (byte.toNat * 58 + carry) % 256 := by ring
        _ = ofBe n.reverse * 256 * 58
              + (256 * ((byte.toNat * 58 + carry) / 256) + (byte.toNat * 58 + carry) % 256) := by
            rw [hvalue]
            ring
        _ = _ := by
            rw [hsplit]
            ring

/-- A carry below 58 takes one byte, or none. -/
theorem carryBytes_eq {carry : Nat} (h : carry < 58) :
    carryBytes 4 carry = if carry = 0 then [] else [UInt8.ofNat carry] := by
  have hnext : carry / 256 = 0 := by omega
  by_cases h0 : carry = 0
  · simp [carryBytes, h0]
  · simp [carryBytes, h0, hnext]

/-- Reading a digit: the number times 58 plus the digit, no zero at the
end, and at most one more byte used. -/
theorem bs58Push_spec {cap i : Nat} {n : Bytes} (hi : i < 58) (hcap : n.length < cap)
    (hn : NoLeadingZero n.reverse) :
    ∃ n', bs58Push cap n i = .ok n' ∧ ofBe n'.reverse = ofBe n.reverse * 58 + i
      ∧ NoLeadingZero n'.reverse ∧ n'.length ≤ n.length + 1 := by
  obtain ⟨hvalue, hlt, hlen⟩ := mulBy58_spec hi n
  simp only [bs58Push]
  generalize mulBy58 i n = d at *
  obtain ⟨low, carry⟩ := d
  simp only at hvalue hlt hlen ⊢
  rw [carryBytes_eq hlt]
  by_cases h0 : carry = 0
  · rw [if_pos h0]
    rw [h0, Nat.zero_mul, Nat.zero_add] at hvalue
    refine ⟨low, rfl, hvalue, ?_, by omega⟩
    apply noLeadingZero_iff.mpr
    rw [List.length_reverse, hlen, hvalue]
    rcases noLeadingZero_iff.mp hn with hnil | hle
    · left
      rw [List.reverse_eq_nil_iff] at hnil ⊢
      rw [← List.length_eq_zero_iff, hlen, hnil]
      rfl
    · right
      rw [List.length_reverse] at hle
      omega
  · rw [if_neg h0]
    refine ⟨low ++ [UInt8.ofNat carry], ?_, ?_, ?_, ?_⟩
    · simp [pushByte, hlen, hcap]
    · rw [List.reverse_append, List.reverse_singleton, List.singleton_append, ofBe_cons,
        List.length_reverse, UInt8.toNat_ofNat', hlen, Nat.mod_eq_of_lt (by omega)]
      exact hvalue
    · rw [List.reverse_append, List.reverse_singleton, List.singleton_append, NoLeadingZero,
        List.head?_cons]
      intro h
      have := congrArg UInt8.toNat (Option.some.inj h)
      rw [UInt8.toNat_ofNat', Nat.mod_eq_of_lt (by omega)] at this
      exact h0 this
    · simp [hlen]

/-- The digits the decoder reads off the characters. -/
def digitsRead (cs : List Char) (is : List Nat) : Prop :=
  cs.map (fun c => BS58_ALPHABET.idxOf? c.toUInt8) = is.map some

theorem digitsRead_lt {cs : List Char} {is : List Nat} (h : digitsRead cs is) :
    ∀ i ∈ is, i < 58 := by
  intro i hi
  have hmem : some i ∈ cs.map fun c => BS58_ALPHABET.idxOf? c.toUInt8 := by
    rw [h]
    exact List.mem_map_of_mem hi
  obtain ⟨c, -, hc⟩ := List.mem_map.mp hmem
  have hlen : BS58_ALPHABET.length = 58 := (List.length_map _).trans base58Chars_length
  rw [← hlen]
  exact (List.idxOf?_eq_some_iff.mp hc).1

/-- The loop, from any used bytes: the digits are shifted in. -/
theorem bs58DecodeLoop_spec {cap : Nat} {cs : List Char} {is : List Nat} {n : Bytes}
    (hread : digitsRead cs is) (hcap : n.length + cs.length ≤ cap) (hn : NoLeadingZero n.reverse) :
    ∃ n', bs58DecodeLoop cap cs n = .ok (.ok n') ∧ NoLeadingZero n'.reverse
      ∧ ofBe n'.reverse = is.foldl (fun v i => v * 58 + i) (ofBe n.reverse) := by
  have hlt := digitsRead_lt hread
  induction cs generalizing is n with
  | nil =>
      have his : is = [] := by simpa [digitsRead] using hread.symm
      exact ⟨n, rfl, hn, by rw [his]; rfl⟩
  | cons c cs ih =>
      cases is with
      | nil => cases hread
      | cons i is =>
          obtain ⟨hhead, hrest⟩ := List.cons.inj hread
          have hc : BS58_ALPHABET.idxOf? c.toUInt8 = some i := hhead
          rw [List.length_cons] at hcap
          obtain ⟨n₁, hpush, hvalue, hn₁, hlen⟩ :=
            bs58Push_spec (hlt i List.mem_cons_self) (by omega : n.length < cap) hn
          obtain ⟨n', hloop, hn', hfold⟩ := ih hrest (by omega) hn₁
            fun j hj => hlt j (List.mem_cons_of_mem _ hj)
          refine ⟨n', ?_, hn', by rw [hfold, hvalue]; rfl⟩
          rw [bs58DecodeLoop, hc]
          simp only [hpush]
          exact hloop

/-- What the decoder makes of a string whose digits it can read: the
leading `1`s as zeros, then the number. -/
theorem bs58Decode_eq {s : String} {is : List Nat} (hread : digitsRead s.toList is) :
    bs58Decode s = .ok (.ok (List.replicate (s.toList.takeWhile (· == '1')).length 0
      ++ toBe (radixValue 58 is))) := by
  have hcap : ([] : Bytes).length + s.toList.length ≤ s.utf8ByteSize := by
    simpa using length_le_utf8ByteSize s
  obtain ⟨n, hloop, hn, hvalue⟩ := bs58DecodeLoop_spec hread hcap (by simp [NoLeadingZero])
  have hrev : n.reverse = toBe (radixValue 58 is) := by
    rw [radixValue_eq_foldl, ← ofBe_nil, ← List.reverse_nil, ← hvalue, toBe_ofBe hn]
  simp only [bs58Decode, hloop]
  simp [hrev, Except.map]

/-- An alphabet string decodes to the numeral it spells. -/
theorem bs58Decode_spelled {is : List Nat} (his : ∀ i ∈ is, i < 58) :
    bs58Decode (String.ofList (is.map charOf58))
      = .ok (.ok (List.replicate (leadingZeros is) 0 ++ toBe (radixValue 58 is))) := by
  have hread : digitsRead (is.map charOf58) is := by
    rw [digitsRead, List.map_map]
    exact List.map_congr_left fun i hi => idxOf?_charOf58 i (his i hi)
  have hones : ((is.map charOf58).takeWhile (· == '1')).length = leadingZeros is := by
    clear hread
    induction is with
    | nil => rfl
    | cons i is ih =>
        have hone := charOf58_eq_one_iff i (his i List.mem_cons_self)
        have hrest := ih fun j hj => his j (List.mem_cons_of_mem _ hj)
        rw [leadingZeros] at hrest ⊢
        by_cases hi : i = 0
        · have hc : charOf58 i = '1' := hone.mpr hi
          rw [List.map_cons, hc, hi]
          simp [hrest]
        · simp [hone, hi]
  rw [← String.toList_ofList (l := is.map charOf58)] at hread hones
  rw [bs58Decode_eq hread, hones]

-- ========================================================== round trips

/-- A string of alphabet characters only. -/
def OverAlphabet (s : String) : Prop := ∀ c ∈ s.toList, c ∈ base58Chars

/-- The encoder's text is over the alphabet and is read back. -/
theorem bs58Decode_bs58 (b : Bytes) :
    ∃ s, bs58 b = .ok s ∧ OverAlphabet s ∧ bs58Decode s = .ok (.ok b) := by
  obtain ⟨hsplit, hw⟩ := zeros_split b
  generalize (b.takeWhile (· == 0)).length = z at hsplit hw
  generalize b.drop z = w at hsplit hw
  have hlt : ∀ i ∈ spell 58 z (ofBe w), i < 58 := fun i hi => spell_lt (by omega) hi
  refine ⟨String.ofList ((spell 58 z (ofBe w)).map charOf58), ?_, ?_, ?_⟩
  · rw [hsplit]
    exact bs58_eq hw
  · intro c hc
    rw [String.toList_ofList] at hc
    obtain ⟨i, hi, rfl⟩ := List.mem_map.mp hc
    exact charOf58_mem (hlt i hi)
  · rw [bs58Decode_spelled hlt, leadingZeros_spell, radixValue_spell, toBe_ofBe hw, ← hsplit]

/-- What the decoder reads off an alphabet string is written back. -/
theorem bs58_bs58Decode {s : String} (hs : OverAlphabet s) :
    ∃ b, bs58Decode s = .ok (.ok b) ∧ bs58 b = .ok s := by
  obtain ⟨is, his, hmap⟩ := exists_digits hs
  have hs' : s = String.ofList (is.map charOf58) := by rw [← hmap, String.ofList_toList]
  refine ⟨_, by rw [hs']; exact bs58Decode_spelled his, ?_⟩
  rw [bs58_eq (noLeadingZero_toBe _), ofBe_toBe, spell_leading_value (by omega) his, hs']

section Checked

variable (sha256 : Bytes → B256)

theorem length_checksum (data : Bytes) : (checksum sha256 data).length = 4 := by
  rw [checksum, List.length_take, (sha256 _).len]
  rfl

/-- What the encoder appends, the decoder finds and takes off. -/
theorem stripCheck_checked (version : UInt8) (payload : Bytes) :
    stripCheck sha256 (version :: payload ++ checksum sha256 (version :: payload))
      = .ok payload := by
  have hcheck := length_checksum sha256 (version :: payload)
  have hlen : (version :: payload ++ checksum sha256 (version :: payload)).length - 4
      = (version :: payload).length := by
    rw [List.length_append, hcheck]
    omega
  have hlong : ¬ (version :: payload ++ checksum sha256 (version :: payload)).length < 5 := by
    rw [List.length_append, hcheck, List.length_cons]
    omega
  rw [stripCheck, if_neg hlong]
  simp only [hlen, List.take_left', List.drop_left']
  simp

/-- An address is read back from its base58check text. -/
theorem base58checkDecode_encode (version : UInt8) (payload : Bytes) :
    ∃ s, base58checkEncode sha256 version payload = .ok s
      ∧ base58checkDecode sha256 s = .ok (.ok payload) := by
  obtain ⟨s, henc, -, hdec⟩ :=
    bs58Decode_bs58 (version :: payload ++ checksum sha256 (version :: payload))
  refine ⟨s, henc, ?_⟩
  rw [base58checkDecode, hdec]
  exact congrArg Except.ok (stripCheck_checked sha256 version payload)

/-- The encoder stops on every window, and the two are inverse to each
other: bytes to alphabet strings and back, alphabet strings to bytes and
back, payloads through their checked form. -/
theorem base58_bijection :
    (∀ window, after bs58Round (windowSize window + 1) window = none)
      ∧ (∀ b, ∃ s, bs58 b = .ok s ∧ OverAlphabet s ∧ bs58Decode s = .ok (.ok b))
      ∧ (∀ s, OverAlphabet s → ∃ b, bs58Decode s = .ok (.ok b) ∧ bs58 b = .ok s)
      ∧ ∀ version payload, ∃ s, base58checkEncode sha256 version payload = .ok s
          ∧ base58checkDecode sha256 s = .ok (.ok payload) := by
  refine ⟨?_, bs58Decode_bs58, fun s => bs58_bs58Decode, base58checkDecode_encode sha256⟩
  intro window
  exact after_eq_none bs58Round_decreasing (Nat.lt_succ_self _)

end Checked

-- ============================================================ acceptance

/-- The decoder takes a string. -/
def Accepts (s : String) : Prop := ∃ b, bs58Decode s = .ok (.ok b)

theorem bs58DecodeLoop_mem {cap : Nat} {cs : List Char} {n n' : Bytes}
    (h : bs58DecodeLoop cap cs n = .ok (.ok n')) : ∀ c ∈ cs, c.toUInt8 ∈ BS58_ALPHABET := by
  induction cs generalizing n with
  | nil => simp
  | cons c cs ih =>
      rw [bs58DecodeLoop] at h
      cases hc : BS58_ALPHABET.idxOf? c.toUInt8 with
      | none =>
          simp only [hc] at h
          cases h
      | some i =>
          simp only [hc] at h
          obtain ⟨n₁, -, hrest⟩ := bind_ok h
          have hmem : c.toUInt8 ∈ BS58_ALPHABET := by
            rw [← List.isSome_idxOf?, hc]
            rfl
          intro x hx
          rcases List.mem_cons.mp hx with rfl | hx
          · exact hmem
          · exact ih hrest x hx

/-- It takes the strings whose low bytes are in the alphabet. -/
theorem accepts_iff {s : String} :
    Accepts s ↔ ∀ c ∈ s.toList, c.toUInt8 ∈ BS58_ALPHABET := by
  constructor
  · intro h
    obtain ⟨b, hb⟩ := h
    obtain ⟨r, hloop, hr⟩ := bind_ok hb
    cases r with
    | error e => cases hr
    | ok n => exact bs58DecodeLoop_mem hloop
  · intro hmem
    have hread : digitsRead s.toList
        (s.toList.map fun c => (BS58_ALPHABET.idxOf? c.toUInt8).getD 0) := by
      rw [digitsRead, List.map_map]
      apply List.map_congr_left
      intro c hc
      obtain ⟨i, hi⟩ := Option.isSome_iff_exists.mp (List.isSome_idxOf?.mpr (hmem c hc))
      simp [hi]
    exact ⟨_, bs58Decode_eq hread⟩

/-- A string the low bytes of whose code points all are alphabet bytes,
with a code point behind `U+00FF` among them. -/
def Lookalike (s : String) : Prop :=
  (∀ c ∈ s.toList, ∃ a ∈ base58Chars, c.toNat % 256 = a.toNat) ∧ ∃ c ∈ s.toList, 256 ≤ c.toNat

/-- A character is looked up by what its code point leaves modulo 256. -/
theorem toUInt8_mem_iff {c : Char} :
    c.toUInt8 ∈ BS58_ALPHABET ↔ ∃ a ∈ base58Chars, c.toNat % 256 = a.toNat := by
  rw [BS58_ALPHABET, List.mem_map]
  refine exists_congr fun a => and_congr_right fun ha => ?_
  have hsmall := base58Chars_ascii a ha
  rw [← UInt8.toNat_inj, toNat_toUInt8, toNat_toUInt8, Nat.mod_eq_of_lt (by omega), eq_comm]

/-- Below `U+0100` that is the character itself. -/
theorem mem_base58Chars_iff {c : Char} :
    c ∈ base58Chars ↔ c.toUInt8 ∈ BS58_ALPHABET ∧ c.toNat < 256 := by
  constructor
  · intro hc
    have hsmall := base58Chars_ascii c hc
    exact ⟨List.mem_map_of_mem hc, by omega⟩
  · intro h
    obtain ⟨a, ha, hmod⟩ := toUInt8_mem_iff.mp h.1
    rw [Nat.mod_eq_of_lt h.2] at hmod
    have hca : c = a := Char.toNat_inj.mp hmod
    rw [hca]
    exact ha

/-- What gets past the alphabet. -/
theorem lookalike_iff {s : String} : Lookalike s ↔ Accepts s ∧ ¬ OverAlphabet s := by
  have hlow : Accepts s ↔ ∀ c ∈ s.toList, ∃ a ∈ base58Chars, c.toNat % 256 = a.toNat :=
    accepts_iff.trans (forall₂_congr fun c _ => toUInt8_mem_iff)
  rw [Lookalike, ← hlow]
  refine and_congr_right fun hacc => ?_
  have hbytes := accepts_iff.mp hacc
  simp only [OverAlphabet, not_forall]
  constructor
  · intro h
    obtain ⟨c, hc, hbig⟩ := h
    exact ⟨c, hc, fun hmem => absurd (mem_base58Chars_iff.mp hmem).2 (by omega)⟩
  · intro h
    obtain ⟨c, hc, hno⟩ := h
    refine ⟨c, hc, ?_⟩
    by_contra hsmall
    exact hno (mem_base58Chars_iff.mpr ⟨hbytes c hc, by omega⟩)

-- ============================================================ injectivity

/-- Alphabet strings that decode alike are the same string. -/
theorem bs58Decode_inj {s t : String} {b : Bytes} (hs : OverAlphabet s) (ht : OverAlphabet t)
    (hsb : bs58Decode s = .ok (.ok b)) (htb : bs58Decode t = .ok (.ok b)) : s = t := by
  obtain ⟨b₁, hs₁, hwrite₁⟩ := bs58_bs58Decode hs
  obtain ⟨b₂, ht₁, hwrite₂⟩ := bs58_bs58Decode ht
  rw [hsb] at hs₁
  rw [htb] at ht₁
  cases hs₁
  cases ht₁
  rw [hwrite₁] at hwrite₂
  exact Except.ok.inj hwrite₂

section Checked

variable {sha256 : Bytes → B256}

/-- A checked string is its version, its payload and their checksum. -/
theorem stripCheck_ok {raw payload : Bytes} (h : stripCheck sha256 raw = .ok payload) :
    ∃ version, raw = version :: payload ++ checksum sha256 (version :: payload) := by
  rw [stripCheck] at h
  split at h
  · cases h
  · rename_i hlong
    simp only at h
    split at h
    · cases h
    · rename_i hcheck
      have hcheck := not_not.mp hcheck
      have hsplit := List.take_append_drop (raw.length - 4) raw
      cases hbody : raw.take (raw.length - 4) with
      | nil =>
          have := congrArg List.length hbody
          simp only [List.length_take, List.length_nil] at this
          omega
      | cons version rest =>
          rw [hbody] at h hcheck hsplit
          rw [← hcheck] at hsplit
          cases h
          exact ⟨version, hsplit.symm⟩

theorem base58checkDecode_ok {s : String} {payload : Bytes}
    (h : base58checkDecode sha256 s = .ok (.ok payload)) :
    ∃ raw, bs58Decode s = .ok (.ok raw) ∧ stripCheck sha256 raw = .ok payload := by
  obtain ⟨r, hs, hr⟩ := bind_ok h
  cases r with
  | error e => cases hr
  | ok raw => exact ⟨raw, hs, Except.ok.inj hr⟩

end Checked

/-- Of any set of strings: the decoders take none outside the alphabet,
and no two of them decode alike, exactly if there is no lookalike among
them. Behind a checksum, two of one version never decode to the same
payload. -/
theorem decode_strict_iff (sha256 : Bytes → B256) (S : String → Prop) :
    ((∀ s, S s → Accepts s → OverAlphabet s)
      ∧ (∀ s payload, S s → base58checkDecode sha256 s = .ok (.ok payload) → OverAlphabet s)
      ∧ (∀ s t b, S s → S t → bs58Decode s = .ok (.ok b) → bs58Decode t = .ok (.ok b) → s = t)
      ∧ (∀ s t version rest rest' payload, S s → S t →
          bs58Decode s = .ok (.ok (version :: rest)) → bs58Decode t = .ok (.ok (version :: rest')) →
          base58checkDecode sha256 s = .ok (.ok payload) →
          base58checkDecode sha256 t = .ok (.ok payload) → s = t))
      ↔ ∀ s, S s → ¬ Lookalike s := by
  constructor
  · intro h s hs hlook
    obtain ⟨hacc, hout⟩ := lookalike_iff.mp hlook
    exact hout (h.1 s hs hacc)
  · intro hnone
    have halpha : ∀ s, S s → Accepts s → OverAlphabet s := by
      intro s hs hacc
      by_contra hout
      exact hnone s hs (lookalike_iff.mpr ⟨hacc, hout⟩)
    have hinj : ∀ s t b, S s → S t → bs58Decode s = .ok (.ok b) → bs58Decode t = .ok (.ok b) →
        s = t := fun s t b hs ht hsb htb =>
      bs58Decode_inj (halpha s hs ⟨b, hsb⟩) (halpha t ht ⟨b, htb⟩) hsb htb
    refine ⟨halpha, ?_, hinj, ?_⟩
    · intro s payload hs hcheck
      obtain ⟨raw, hraw, -⟩ := base58checkDecode_ok hcheck
      exact halpha s hs ⟨raw, hraw⟩
    · intro s t version rest rest' payload hs ht hsraw htraw hscheck htcheck
      obtain ⟨raw, hraw, hstrip⟩ := base58checkDecode_ok hscheck
      obtain ⟨raw', hraw', hstrip'⟩ := base58checkDecode_ok htcheck
      rw [hsraw] at hraw
      rw [htraw] at hraw'
      cases hraw
      cases hraw'
      obtain ⟨v, hbody⟩ := stripCheck_ok hstrip
      obtain ⟨v', hbody'⟩ := stripCheck_ok hstrip'
      obtain ⟨hv, hrest⟩ := List.cons.inj hbody
      obtain ⟨hv', hrest'⟩ := List.cons.inj hbody'
      have hsame : rest = rest' := by rw [hrest, hrest', ← hv, ← hv']
      rw [hsame] at hsraw
      exact hinj s t _ hs ht hsraw htraw

theorem bs58Decode_lookalike : bs58Decode "\u0132" = .ok (.ok [1]) := by decide +kernel

/-- `U+0132` is taken, and read as `2`. -/
theorem lookalike_accepted :
    Accepts "\u0132" ∧ ¬ OverAlphabet "\u0132"
      ∧ bs58Decode "\u0132" = bs58Decode "2" ∧ "\u0132" ≠ "2" := by
  refine ⟨⟨[1], bs58Decode_lookalike⟩, ?_, ?_, by decide⟩
  · intro h
    exact absurd (h '\u0132' (by simp)) (by decide +kernel)
  · rw [bs58Decode_lookalike]
    decide +kernel

end KoinosEvm.Proofs
