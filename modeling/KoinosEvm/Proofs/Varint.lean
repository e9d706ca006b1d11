/-
Varints across the two programs.

The engine's `decode_varint` and the proxy's `read_varint` are two loops
over the same bytes. The engine refuses a tenth byte above 1 and every
eleventh byte; the proxy accepts the former (the surplus bits fall off
the `u64`). On everything the engine accepts they agree, value and
length (`readVarint_of_decodeVarint`), and the engine's decoder inverts
the engine's encoder (`decodeVarint_encodeVarint`).
-/
import KoinosEvm.Engine.Proto
import KoinosEvm.Proxy.EngineProto
import Mathlib.Tactic

namespace KoinosEvm.Proofs

open Engine.Proto Proxy

-- ============================================================ bit facts

/-- The seven payload bits of a byte. -/
theorem payload_toNat (b : UInt8) :
    ((b &&& 0x7F).toUInt64).toNat = b.toNat % 128 := by
  rw [UInt8.toNat_toUInt64, UInt8.toNat_and]
  exact Nat.and_two_pow_sub_one_eq_mod b.toNat 7

/-- The continuation bit is the byte's top half. -/
theorem noContinuation_iff (b : UInt8) : b &&& 0x80 = 0 ↔ b.toNat < 128 := by
  have hbits : ∀ i : Fin 256, i.val &&& 128 = 0 ↔ i.val < 128 := by decide +kernel
  rw [← UInt8.toNat_inj, UInt8.toNat_and]
  exact hbits ⟨b.toNat, b.toNat_lt⟩

/-- Adding disjoint bits above `s` is addition. -/
theorem orShift_toNat (acc p : UInt64) {s : Nat} (hs : s < 64)
    (hacc : acc.toNat < 2 ^ s) (hp : p.toNat * 2 ^ s < 2 ^ 64) :
    (acc ||| (p <<< UInt64.ofNat s)).toNat = acc.toNat + p.toNat * 2 ^ s := by
  have hsh : (UInt64.ofNat s).toNat % 64 = s := by
    rw [UInt64.toNat_ofNat']
    omega
  rw [UInt64.toNat_or, UInt64.toNat_shiftLeft, hsh, Nat.shiftLeft_eq,
    Nat.mod_eq_of_lt hp, Nat.or_comm, Nat.mul_comm p.toNat,
    ← Nat.two_pow_add_eq_or_of_lt hacc]
  omega

-- ======================================================= what is consumed

/-- An accepted varint consumes at least one byte, at most ten, and none
behind the data. -/
theorem decodeVarintLoop_consumed :
    ∀ {d : Bytes} {i s : Nat} {acc v : UInt64} {n : Nat},
      decodeVarintLoop d i s acc = some (v, n) →
      i < n ∧ n ≤ i + d.length ∧ n ≤ 10 := by
  intro d
  induction d with
  | nil => intro i s acc v n h; cases h
  | cons b d ih =>
      intro i s acc v n h
      simp only [decodeVarintLoop] at h
      split at h
      · cases h
      · split at h
        · cases h
        · split at h
          · injection h with h
            injection h with _ h
            simp only [List.length_cons]
            omega
          · obtain ⟨h1, h2, h3⟩ := ih h
            simp only [List.length_cons]
            omega

theorem decodeVarint_consumed {d : Bytes} {v : UInt64} {n : Nat}
    (h : decodeVarint d = some (v, n)) : 0 < n ∧ n ≤ d.length := by
  obtain ⟨h1, h2, -⟩ := decodeVarintLoop_consumed h
  omega

/-- `read_varint` moves over at least one byte of non-empty data and
never behind its end, whether it succeeds or not. -/
theorem readVarintLoop_moved :
    ∀ (d : Bytes) (val : UInt64) (s m : Nat),
      m ≤ (readVarintLoop d val s m).2
        ∧ (readVarintLoop d val s m).2 ≤ m + d.length
        ∧ (d ≠ [] → m < (readVarintLoop d val s m).2) := by
  intro d
  induction d with
  | nil => intro val s m; simp [readVarintLoop]
  | cons b d ih =>
      intro val s m
      simp only [readVarintLoop, List.length_cons]
      split
      · simp
      · split
        · simp
        · have h := ih (val ||| ((b &&& 0x7f).toUInt64 <<< UInt64.ofNat s))
            (s + 7) (m + 1)
          refine ⟨by omega, by omega, fun _ => by omega⟩

/-- The position after `read_varint` lies within the buffer, and past
the old one when that was. -/
theorem readVarint_pos {buf : Bytes} {pos : Nat} (h : pos < buf.length) :
    pos < (readVarint buf pos).2 ∧ (readVarint buf pos).2 ≤ buf.length := by
  have hne : buf.drop pos ≠ [] := by
    intro h0
    have := congrArg List.length h0
    simp only [List.length_drop, List.length_nil] at this
    omega
  obtain ⟨-, h2, h3⟩ :=
    readVarintLoop_moved (buf.drop pos) 0 0 0
  have h3 := h3 hne
  simp only [List.length_drop] at h2
  simp only [readVarint]
  omega

/-- At the end of the buffer `read_varint` does not move. -/
theorem readVarint_pos_le {buf : Bytes} {pos : Nat} (h : pos ≤ buf.length) :
    pos ≤ (readVarint buf pos).2 ∧ (readVarint buf pos).2 ≤ buf.length := by
  obtain ⟨-, h2, -⟩ :=
    readVarintLoop_moved (buf.drop pos) 0 0 0
  simp only [List.length_drop] at h2
  simp only [readVarint]
  omega

-- ==================================================== the two decoders

/-- In lock step from byte `i`: what the engine accepts, the proxy reads
as the same value over the same bytes. -/
theorem readVarintLoop_of_decode :
    ∀ {d : Bytes} {i : Nat} {acc v : UInt64} {n : Nat},
      decodeVarintLoop d i (7 * i) acc = some (v, n) →
      readVarintLoop d acc (7 * i) i = (.ok v, n) := by
  intro d
  induction d with
  | nil => intro i acc v n h; cases h
  | cons b d ih =>
      intro i acc v n h
      simp only [decodeVarintLoop] at h
      simp only [readVarintLoop]
      split at h
      · cases h
      · split at h
        · cases h
        · split at h
          next hb =>
            injection h with h
            injection h with hv hn
            rw [if_pos hb, ← hv, ← hn]
          next hb =>
            have h10 := decodeVarintLoop_consumed h
            rw [if_neg hb, if_neg (by omega)]
            exact ih h

/-- What the engine reads as a varint, the proxy reads alike. -/
theorem readVarint_of_decodeVarint {buf : Bytes} {pos n : Nat} {v : UInt64}
    (h : decodeVarint (buf.drop pos) = some (v, n)) :
    readVarint buf pos = (.ok v, pos + n) := by
  have hloop := readVarintLoop_of_decode (i := 0) h
  simp only [readVarint]
  rw [hloop]

-- ============================================== encoding and decoding

/-- A byte of the encoding carries the value's low seven bits. -/
theorem low7_toNat (v : UInt64) : ((v &&& 0x7F).toUInt8).toNat = v.toNat % 128 := by
  rw [UInt64.toNat_toUInt8, UInt64.toNat_and]
  have h7 : v.toNat &&& (0x7F : UInt64).toNat = v.toNat % 128 :=
    Nat.and_two_pow_sub_one_eq_mod v.toNat 7
  rw [h7]
  omega

theorem shr7_toNat (v : UInt64) : (v >>> 7).toNat = v.toNat / 128 := by
  rw [UInt64.toNat_shiftRight]
  exact Nat.shiftRight_eq_div_pow v.toNat 7

theorem continued_toNat (b : UInt8) (h : b.toNat < 128) :
    (b ||| 0x80).toNat = b.toNat + 128 := by
  have hbits : ∀ i : Fin 128, i.val ||| 128 = i.val + 128 := by decide +kernel
  rw [UInt8.toNat_or]
  exact hbits ⟨b.toNat, h⟩

theorem eq_zero_of_toNat {v : UInt64} : v = 0 ↔ v.toNat = 0 := by
  constructor
  · rintro rfl
    rfl
  · intro h
    exact UInt64.toNat_inj.mp h

/-- The value is shifted out within seven bits. -/
theorem shr7_eq_zero {v : UInt64} : v >>> 7 = 0 ↔ v.toNat < 128 := by
  rw [eq_zero_of_toNat, shr7_toNat]
  omega

-- one round of the encoder ..

theorem encodeVarintLoop_last {v : UInt64} (h : v.toNat < 128) (fuel : Nat) :
    encodeVarintLoop (fuel + 1) v = [(v &&& 0x7F).toUInt8] := by
  rw [encodeVarintLoop]
  exact if_pos (shr7_eq_zero.mpr h)

theorem encodeVarintLoop_more {v : UInt64} (h : 128 ≤ v.toNat) (fuel : Nat) :
    encodeVarintLoop (fuel + 1) v
      = ((v &&& 0x7F).toUInt8 ||| 0x80) :: encodeVarintLoop fuel (v >>> 7) := by
  rw [encodeVarintLoop]
  exact if_neg (mt shr7_eq_zero.mp (Nat.not_lt.mpr h))

-- .. and of the decoder

/-- The result with the payload of a byte. -/
def withPayload (acc : UInt64) (b : UInt8) (s : Nat) : UInt64 :=
  acc ||| ((b &&& 0x7F).toUInt64 <<< UInt64.ofNat s)

section Round

variable {b : UInt8} {d : Bytes} {i s : Nat} {acc : UInt64}

theorem withPayload_toNat (hs : s < 64) (hacc : acc.toNat < 2 ^ s)
    (hp : b.toNat % 128 * 2 ^ s < 2 ^ 64) :
    (withPayload acc b s).toNat = acc.toNat + b.toNat % 128 * 2 ^ s := by
  rw [← payload_toNat] at hp ⊢
  exact orShift_toNat acc _ hs hacc hp

/-- A payload that fits is not refused on the tenth byte. -/
theorem payload_fits (hp : b.toNat % 128 * 2 ^ s < 2 ^ 64) :
    ¬ (s = 63 ∧ 1 < (b &&& 0x7F).toUInt64) := by
  rintro ⟨rfl, h1⟩
  have hlt : 1 < b.toNat % 128 := by
    rw [← payload_toNat]
    exact UInt64.lt_iff_toNat_lt.mp h1
  omega

theorem decodeVarintLoop_last (hi : i < 10) (hb : b.toNat < 128)
    (hp : b.toNat % 128 * 2 ^ s < 2 ^ 64) :
    decodeVarintLoop (b :: d) i s acc = some (withPayload acc b s, i + 1) := by
  simp only [decodeVarintLoop]
  rw [if_neg (by omega), if_neg (payload_fits hp), if_pos ((noContinuation_iff b).mpr hb)]
  rfl

theorem decodeVarintLoop_more (hi : i < 10) (hb : 128 ≤ b.toNat)
    (hp : b.toNat % 128 * 2 ^ s < 2 ^ 64) :
    decodeVarintLoop (b :: d) i s acc
      = decodeVarintLoop d (i + 1) (s + 7) (withPayload acc b s) := by
  simp only [decodeVarintLoop]
  rw [if_neg (by omega), if_neg (payload_fits hp),
    if_neg (mt (noContinuation_iff b).mp (Nat.not_lt.mpr hb))]
  rfl

end Round

/-- The engine's decoder inverts its encoder from byte `i`, where the
bits below `7 * i` are already read and those above still fit. -/
theorem decodeVarintLoop_encode (rest : Bytes) :
    ∀ (fuel : Nat) {i : Nat} {v : UInt64} (acc : UInt64), i + fuel = 10 → 1 ≤ fuel →
      acc.toNat < 2 ^ (7 * i) → v.toNat * 2 ^ (7 * i) < 2 ^ 64 →
      ∃ w, decodeVarintLoop (encodeVarintLoop fuel v ++ rest) i (7 * i) acc
          = some (w, i + (encodeVarintLoop fuel v).length)
        ∧ w.toNat = acc.toNat + v.toNat * 2 ^ (7 * i) := by
  intro fuel
  induction fuel with
  | zero => intro i v acc _ h1; omega
  | succ fuel ih =>
      intro i v acc hi _ hacc hv
      have hmod : v.toNat % 128 * 2 ^ (7 * i) < 2 ^ 64 :=
        lt_of_le_of_lt (Nat.mul_le_mul_right _ (Nat.mod_le _ _)) hv
      rcases Nat.lt_or_ge v.toNat 128 with hlt | hge
      · -- the last byte
        have hb : ((v &&& 0x7F).toUInt8).toNat = v.toNat := by
          rw [low7_toNat, Nat.mod_eq_of_lt hlt]
        have hbmod : ((v &&& 0x7F).toUInt8).toNat % 128 = v.toNat := by
          rw [hb, Nat.mod_eq_of_lt hlt]
        rw [encodeVarintLoop_last hlt, List.cons_append, List.nil_append,
          decodeVarintLoop_last (by omega) (by rwa [hb]) (by rwa [hbmod])]
        refine ⟨_, rfl, ?_⟩
        rw [withPayload_toNat (by omega) hacc (by rwa [hbmod]), hbmod]
      · -- a continued byte, of which there is no tenth
        have hi8 : i ≤ 8 := by
          by_contra h9
          obtain rfl : i = 9 := by omega
          omega
        have hb : ((v &&& 0x7F).toUInt8 ||| 0x80).toNat = v.toNat % 128 + 128 := by
          rw [continued_toNat _ (by rw [low7_toNat]; exact Nat.mod_lt _ (by omega)), low7_toNat]
        have hbmod : ((v &&& 0x7F).toUInt8 ||| 0x80).toNat % 128 = v.toNat % 128 := by
          rw [hb]
          omega
        have hacc' := withPayload_toNat (b := (v &&& 0x7F).toUInt8 ||| 0x80) (by omega) hacc
          (by rwa [hbmod])
        rw [hbmod] at hacc'
        have hpow : (2 : Nat) ^ (7 * (i + 1)) = 128 * 2 ^ (7 * i) := by
          rw [Nat.mul_succ, pow_add]
          ring
        have hfull : v.toNat % 128 * 2 ^ (7 * i) ≤ 127 * 2 ^ (7 * i) :=
          Nat.mul_le_mul_right _ (by omega)
        have hrest : (v >>> 7).toNat * 2 ^ (7 * (i + 1)) < 2 ^ 64 := by
          rw [shr7_toNat, hpow, ← Nat.mul_assoc]
          exact lt_of_le_of_lt (Nat.mul_le_mul_right _ (Nat.div_mul_le_self _ _)) hv
        obtain ⟨w, hw, hwn⟩ := ih (i := i + 1)
          (withPayload acc ((v &&& 0x7F).toUInt8 ||| 0x80) (7 * i)) (by omega) (by omega)
          (by rw [hacc', hpow]; omega) hrest
        rw [encodeVarintLoop_more hge, List.cons_append,
          decodeVarintLoop_more (by omega) (by rw [hb]; omega) (by rwa [hbmod])]
        refine ⟨w, ?_, ?_⟩
        · rw [← Nat.mul_succ, hw, List.length_cons, Nat.add_right_comm, Nat.add_assoc]
        · have hdiv := Nat.div_add_mod v.toNat 128
          calc w.toNat
              = acc.toNat + v.toNat % 128 * 2 ^ (7 * i)
                  + v.toNat / 128 * (128 * 2 ^ (7 * i)) := by rw [hwn, hacc', shr7_toNat, hpow]
            _ = acc.toNat + (128 * (v.toNat / 128) + v.toNat % 128) * 2 ^ (7 * i) := by ring
            _ = acc.toNat + v.toNat * 2 ^ (7 * i) := by rw [hdiv]

/-- The engine's decoder inverts its encoder, whatever follows. -/
theorem decodeVarint_encodeVarint (v : UInt64) (rest : Bytes) :
    decodeVarint (encodeVarint v ++ rest) = some (v, (encodeVarint v).length) := by
  obtain ⟨w, hw, hwn⟩ := decodeVarintLoop_encode rest 10 (i := 0) (v := v) 0 rfl
    (Nat.succ_pos 9) (Nat.succ_pos 0) (by simpa using v.toNat_lt)
  have hwv : w = v := UInt64.toNat_inj.mp (by simpa using hwn)
  rw [hwv, Nat.zero_add] at hw
  exact hw

theorem encodeVarintLoop_ne_nil (fuel : Nat) (v : UInt64) : encodeVarintLoop (fuel + 1) v ≠ [] := by
  rcases Nat.lt_or_ge v.toNat 128 with hlt | hge
  · rw [encodeVarintLoop_last hlt]
    exact List.cons_ne_nil _ _
  · rw [encodeVarintLoop_more hge]
    exact List.cons_ne_nil _ _

theorem encodeVarint_ne_nil (v : UInt64) : encodeVarint v ≠ [] := encodeVarintLoop_ne_nil 9 v

end KoinosEvm.Proofs
