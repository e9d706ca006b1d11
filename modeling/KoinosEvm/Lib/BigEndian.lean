/-
Big-endian byte strings and the numbers they stand for.

`beBytes k n` is the fixed-width form (`to_be_bytes`), `toBe n` the
minimal one: no leading zero, the empty string for zero. `ofBe` reads
either. The minimal form is what any sufficiently wide fixed form leaves
after its leading zeros are dropped (`toBe_eq_dropZeros`), and it is the
only zero-free form of its number (`toBe_ofBe`). `shiftIn` is the machine
word a byte loop builds, and reads the same number while it fits
(`shiftIn_toNat`).
-/
import Mathlib.Tactic

namespace Lib

/-- The number a big-endian byte string stands for. -/
def ofBe (bs : List UInt8) : Nat :=
  bs.foldl (fun acc b => acc * 256 + b.toNat) 0

/-- The low `8 * k` bits of `n` in `k` bytes. -/
def beBytes : Nat → Nat → List UInt8
  | 0, _ => []
  | k + 1, n => beBytes k (n / 256) ++ [UInt8.ofNat n]

/-- The same bytes in front of others, the last first: what an evaluation
takes in one pass. -/
def beBytesOnto : Nat → Nat → List UInt8 → List UInt8
  | 0, _, bs => bs
  | k + 1, n, bs => beBytesOnto k (n / 256) (UInt8.ofNat n :: bs)

/-- Bytes shifted into a machine word from the right:
`for &b in bytes { out = (out << 8) | b }`. -/
def shiftIn (w : Nat) (bytes : List UInt8) : BitVec w :=
  bytes.foldl (fun out b => (out <<< 8) ||| b.toBitVec.setWidth w) 0

/-- Strip the leading zeros. -/
def dropZeros (bs : List UInt8) : List UInt8 := bs.dropWhile (· == 0)

/-- The minimal big-endian form. -/
def toBe (n : Nat) : List UInt8 := dropZeros (beBytes (n.log2 / 8 + 1) n)

/-- A canonical integer string: it does not start with a zero byte. -/
def NoLeadingZero (bs : List UInt8) : Prop := bs.head? ≠ some 0

instance (bs : List UInt8) : Decidable (NoLeadingZero bs) :=
  inferInstanceAs (Decidable (_ ≠ _))

-- ============================================================ reading

theorem foldl_ofBe (bs : List UInt8) (acc : Nat) :
    bs.foldl (fun acc b => acc * 256 + b.toNat) acc
      = acc * 256 ^ bs.length + ofBe bs := by
  induction bs generalizing acc with
  | nil => simp [ofBe]
  | cons b bs ih =>
      unfold ofBe
      rw [List.foldl_cons, List.foldl_cons, ih, ih, List.length_cons]
      ring

@[simp] theorem ofBe_nil : ofBe [] = 0 := rfl

theorem ofBe_cons (b : UInt8) (bs : List UInt8) :
    ofBe (b :: bs) = b.toNat * 256 ^ bs.length + ofBe bs := by
  show (b :: bs).foldl _ 0 = _
  rw [List.foldl_cons, foldl_ofBe]
  simp

theorem ofBe_append (xs ys : List UInt8) :
    ofBe (xs ++ ys) = ofBe xs * 256 ^ ys.length + ofBe ys := by
  show (xs ++ ys).foldl _ 0 = _
  rw [List.foldl_append, foldl_ofBe]
  rfl

theorem ofBe_lt (bs : List UInt8) : ofBe bs < 256 ^ bs.length := by
  induction bs with
  | nil => simp
  | cons b bs ih =>
      rw [ofBe_cons, List.length_cons, pow_succ]
      have hb : b.toNat ≤ 255 := by
        have := b.toNat_lt
        omega
      have := Nat.mul_le_mul_right (256 ^ bs.length) hb
      omega

/-- Only zero bytes stand for zero. -/
theorem ofBe_eq_zero_iff {bs : List UInt8} : ofBe bs = 0 ↔ ∀ b ∈ bs, b = 0 := by
  induction bs with
  | nil => simp
  | cons b bs ih =>
      have hpow : 0 < 256 ^ bs.length := Nat.pow_pos (by decide)
      rw [ofBe_cons, Nat.add_eq_zero_iff, Nat.mul_eq_zero, ih, List.forall_mem_cons,
        or_iff_left hpow.ne']
      exact and_congr_left fun _ => UInt8.toNat_inj (b := 0)

theorem ofBe_replicate_zero (k : Nat) : ofBe (List.replicate k 0) = 0 := by
  induction k with
  | zero => rfl
  | succ k ih =>
      rw [List.replicate_succ, ofBe_cons, ih]
      simp

/-- Leading zeros do not count. -/
theorem ofBe_dropZeros (bs : List UInt8) : ofBe (dropZeros bs) = ofBe bs := by
  induction bs with
  | nil => rfl
  | cons b bs ih =>
      unfold dropZeros at ih ⊢
      rw [List.dropWhile_cons]
      by_cases hb : b = 0
      · subst hb
        rw [if_pos (by decide), ih, ofBe_cons]
        simp
      · rw [if_neg (by simpa using hb)]

-- ======================================================== fixed width

@[simp] theorem length_beBytes (k n : Nat) : (beBytes k n).length = k := by
  induction k generalizing n with
  | zero => rfl
  | succ k ih => simp [beBytes, ih]

theorem beBytes_ne {j k : Nat} (h : j ≠ k) (m n : Nat) : beBytes j m ≠ beBytes k n := by
  intro heq
  have hlen := congrArg List.length heq
  rw [length_beBytes, length_beBytes] at hlen
  exact h hlen

theorem beBytesOnto_eq (k n : Nat) (bs : List UInt8) : beBytesOnto k n bs = beBytes k n ++ bs := by
  induction k generalizing n bs with
  | zero => rfl
  | succ k ih => rw [beBytesOnto, ih, beBytes, List.append_assoc, List.singleton_append]

theorem beBytes_eq_onto (k n : Nat) : beBytes k n = beBytesOnto k n [] := by
  rw [beBytesOnto_eq, List.append_nil]

theorem ofBe_beBytes (k n : Nat) : ofBe (beBytes k n) = n % 256 ^ k := by
  induction k generalizing n with
  | zero => simp [beBytes, Nat.mod_one]
  | succ k ih =>
      have hlast : ofBe [UInt8.ofNat n] = n % 256 := by
        rw [ofBe_cons]
        simp
      rw [beBytes, ofBe_append, ih, hlast, List.length_singleton, pow_one,
        pow_succ, Nat.mul_comm (256 ^ k) 256, Nat.mod_mul, Nat.mul_comm]
      omega

theorem beBytes_ofBe (bs : List UInt8) : beBytes bs.length (ofBe bs) = bs := by
  induction bs using List.reverseRecOn with
  | nil => rfl
  | append_singleton bs b ih =>
      have hb := b.toNat_lt
      have hval : ofBe (bs ++ [b]) = ofBe bs * 256 + b.toNat := by
        rw [ofBe_append, ofBe_cons]
        simp
      have hlen : (bs ++ [b]).length = bs.length + 1 := by simp
      have hdiv : (ofBe bs * 256 + b.toNat) / 256 = ofBe bs := by omega
      have hlow : UInt8.ofNat (ofBe bs * 256 + b.toNat) = b := by
        apply UInt8.toNat_inj.mp
        rw [UInt8.toNat_ofNat']
        omega
      rw [hlen, beBytes, hval, hdiv, hlow, ih]

/-- A wider form only has more leading zeros. -/
theorem beBytes_widen {k n : Nat} (j : Nat) (h : n < 256 ^ k) :
    beBytes (j + k) n = List.replicate j 0 ++ beBytes k n := by
  have hlen : (List.replicate j (0 : UInt8) ++ beBytes k n).length = j + k := by
    simp
  have hval : ofBe (List.replicate j (0 : UInt8) ++ beBytes k n) = n := by
    rw [ofBe_append, ofBe_replicate_zero, ofBe_beBytes, Nat.mod_eq_of_lt h]
    omega
  calc beBytes (j + k) n
      = beBytes (List.replicate j (0 : UInt8) ++ beBytes k n).length
          (ofBe (List.replicate j (0 : UInt8) ++ beBytes k n)) := by rw [hlen, hval]
    _ = List.replicate j 0 ++ beBytes k n := beBytes_ofBe _

-- ======================================================= minimal form

theorem dropZeros_replicate (j : Nat) (bs : List UInt8) :
    dropZeros (List.replicate j 0 ++ bs) = dropZeros bs := by
  induction j with
  | zero => rfl
  | succ j ih =>
      rw [List.replicate_succ, List.cons_append]
      exact ih

theorem dropZeros_of_noLeadingZero {bs : List UInt8} (h : NoLeadingZero bs) :
    dropZeros bs = bs := by
  cases bs with
  | nil => rfl
  | cons b bs =>
      have hb : b ≠ 0 := by
        intro h0
        exact h (by rw [h0]; rfl)
      exact List.dropWhile_cons_of_neg (by simpa using hb)

theorem noLeadingZero_dropZeros (bs : List UInt8) : NoLeadingZero (dropZeros bs) := by
  induction bs with
  | nil => simp [dropZeros, NoLeadingZero]
  | cons b bs ih =>
      unfold dropZeros at ih ⊢
      rw [List.dropWhile_cons]
      by_cases hb : b = 0
      · rw [if_pos (by simpa using hb)]
        exact ih
      · rw [if_neg (by simpa using hb)]
        intro h
        injection h with h
        exact hb h

theorem lt_log2_width (n : Nat) : n < 256 ^ (n.log2 / 8 + 1) := by
  have hlt : n < 2 ^ (n.log2 + 1) := Nat.lt_log2_self
  have hpow : (256 : Nat) ^ (n.log2 / 8 + 1) = 2 ^ (8 * (n.log2 / 8 + 1)) := by
    rw [Nat.pow_mul]
  rw [hpow]
  exact lt_of_lt_of_le hlt (Nat.pow_le_pow_right (by omega) (by omega))

/-- The minimal form, from any fixed width that holds the number. -/
theorem toBe_eq_dropZeros {k n : Nat} (h : n < 256 ^ k) :
    toBe n = dropZeros (beBytes k n) := by
  unfold toBe
  rcases Nat.le_total (n.log2 / 8 + 1) k with hle | hle
  · obtain ⟨j, rfl⟩ := Nat.exists_eq_add_of_le' hle
    rw [beBytes_widen j (lt_log2_width n), dropZeros_replicate]
  · obtain ⟨j, hj⟩ := Nat.exists_eq_add_of_le' hle
    rw [hj, beBytes_widen j h, dropZeros_replicate]

theorem noLeadingZero_toBe (n : Nat) : NoLeadingZero (toBe n) :=
  noLeadingZero_dropZeros _

theorem ofBe_toBe (n : Nat) : ofBe (toBe n) = n := by
  unfold toBe
  rw [ofBe_dropZeros, ofBe_beBytes, Nat.mod_eq_of_lt (lt_log2_width n)]

theorem toBe_ofBe {bs : List UInt8} (h : NoLeadingZero bs) : toBe (ofBe bs) = bs := by
  rw [toBe_eq_dropZeros (ofBe_lt bs), beBytes_ofBe, dropZeros_of_noLeadingZero h]

theorem length_dropZeros_le (bs : List UInt8) : (dropZeros bs).length ≤ bs.length :=
  (List.dropWhile_sublist _).length_le

theorem length_toBe_le {k n : Nat} (h : n < 256 ^ k) : (toBe n).length ≤ k := by
  have := length_dropZeros_le (beBytes k n)
  rw [length_beBytes] at this
  rw [toBe_eq_dropZeros h]
  exact this

theorem toBe_ne_nil {n : Nat} (h : n ≠ 0) : toBe n ≠ [] := by
  intro h0
  have := ofBe_toBe n
  rw [h0] at this
  exact h this.symm

/-- Left-padding a minimal form to width `k` gives the fixed form. -/
theorem pad_toBe {k n : Nat} (h : n < 256 ^ k) :
    List.replicate (k - (toBe n).length) 0 ++ toBe n = beBytes k n := by
  have hle := length_toBe_le h
  have hlen : (List.replicate (k - (toBe n).length) (0 : UInt8) ++ toBe n).length
      = k := by
    rw [List.length_append, List.length_replicate]
    omega
  have hval : ofBe (List.replicate (k - (toBe n).length) (0 : UInt8) ++ toBe n)
      = n := by
    rw [ofBe_append, ofBe_replicate_zero, ofBe_toBe]
    omega
  have := beBytes_ofBe (List.replicate (k - (toBe n).length) (0 : UInt8) ++ toBe n)
  rw [hlen, hval] at this
  exact this.symm

-- ======================================================= machine words

/-- Shifting bytes in from the right reads them as a big-endian number,
as long as they fit. -/
theorem foldl_shiftIn {w : Nat} :
    ∀ (bytes : List UInt8) (out : BitVec w), (out.toNat + 1) * 256 ^ bytes.length ≤ 2 ^ w →
      (bytes.foldl
          (fun (out : BitVec w) (b : UInt8) => (out <<< 8) ||| b.toBitVec.setWidth w)
          out).toNat
        = out.toNat * 256 ^ bytes.length + ofBe bytes := by
  intro bytes
  induction bytes with
  | nil => intro out _; simp
  | cons b bytes ih =>
      intro out hfit
      have hpos : 1 ≤ 256 ^ bytes.length := Nat.one_le_pow _ _ (by omega)
      rw [List.length_cons, pow_succ] at hfit
      have hstep : (out.toNat + 1) * 256 ≤ 2 ^ w := by
        calc (out.toNat + 1) * 256
            ≤ (out.toNat + 1) * (256 ^ bytes.length * 256) := by
              exact Nat.mul_le_mul_left _ (Nat.le_mul_of_pos_left _ (by omega))
          _ ≤ 2 ^ w := hfit
      have hb := b.toNat_lt
      have hval : ((out <<< 8) ||| b.toBitVec.setWidth w).toNat
          = out.toNat * 256 + b.toNat := by
        have hbw : b.toBitVec.toNat % 2 ^ w = b.toNat :=
          Nat.mod_eq_of_lt (lt_of_lt_of_le hb (by omega))
        have hout : out.toNat * 2 ^ 8 % 2 ^ w = out.toNat * 2 ^ 8 :=
          Nat.mod_eq_of_lt (by omega)
        rw [BitVec.toNat_or, BitVec.toNat_shiftLeft, BitVec.toNat_setWidth, hbw,
          Nat.shiftLeft_eq, hout, Nat.mul_comm, ← Nat.two_pow_add_eq_or_of_lt hb]
        omega
      rw [List.foldl_cons, ih _ (by
        rw [hval]
        calc (out.toNat * 256 + b.toNat + 1) * 256 ^ bytes.length
            ≤ ((out.toNat + 1) * 256) * 256 ^ bytes.length :=
              Nat.mul_le_mul_right _ (by omega)
          _ = (out.toNat + 1) * (256 ^ bytes.length * 256) := by ring
          _ ≤ 2 ^ w := hfit), hval, ofBe_cons, List.length_cons, pow_succ]
      ring

theorem shiftIn_toNat {w : Nat} {bytes : List UInt8} (h : 8 * bytes.length ≤ w) :
    (shiftIn w bytes).toNat = ofBe bytes := by
  have hpow : (256 : Nat) ^ bytes.length ≤ 2 ^ w := by
    calc (256 : Nat) ^ bytes.length = 2 ^ (8 * bytes.length) := by rw [Nat.pow_mul]
      _ ≤ 2 ^ w := Nat.pow_le_pow_right (by omega) h
  unfold shiftIn
  rw [foldl_shiftIn bytes 0 (by simpa using hpow)]
  simp

end Lib
