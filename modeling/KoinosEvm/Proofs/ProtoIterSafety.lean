/-
Running `ProtoIter` to its end on hostile bytes.

The iterator is fed bytes anyone can put on chain, and goes on after an
error from the middle of the broken field. Its position never leaves the
buffer and strictly grows, so a run has at most as many items as bytes;
every payload it yields is a slice of the input. What can go wrong is
one addition: a length varint near `2 ^ 64` on top of the position. The
result here is exact: the run is safe if and only if no length header it
comes to claims that much.
-/
import KoinosEvm.Proofs.Wire

namespace KoinosEvm.Proofs

open Proxy

-- ======================================================== what is meant

/-- `ys` is a slice of `xs`. -/
def IsSlice (ys xs : Bytes) : Prop :=
  ∃ start len, start + len ≤ xs.length ∧ ys = (xs.drop start).take len

/-- Iterating to the end, past errors: no panic, only slices of the
input, and an end within as many steps as there are bytes. -/
structure IterSafe (checks : Checks) (buf : Bytes) : Prop where
  noPanic : ∀ p, ProtoItem.panic p ∉ itemsOf checks buf
  slices : ∀ f, ProtoItem.ok f ∈ itemsOf checks buf → IsSlice f.payload buf
  finite : Lib.after (ProtoIter.next checks) (buf.length + 1)
    (ProtoIter.new buf) = none

/-- The length header at a position, if that is where a length-delimited
field with readable tag and length begins: the offset behind the header
and the length it claims. -/
def lengthHeader (buf : Bytes) (pos : Nat) : Option (Nat × Nat) :=
  match readVarint buf pos with
  | (.ok tag, p) =>
      if (tag &&& 7).toNat = 2 then
        match readVarint buf p with
        | (.ok len, q) => some (q, len.toNat)
        | (.error _, _) => none
      else none
  | (.error _, _) => none

/-- Every length header the iteration comes to claims a length that,
counted from behind the header, stays below `2 ^ 64`. -/
def LengthsFit (checks : Checks) (buf : Bytes) : Prop :=
  ∀ it, Lib.Reach (ProtoIter.next checks) (ProtoIter.new buf) it →
    ∀ q len, lengthHeader buf it.pos = some (q, len) → q + len < 2 ^ 64

-- ===================================================== along the run

/-- The iteration never changes the buffer. -/
theorem reach_buf {checks : Checks} {it it' : ProtoIter}
    (h : Lib.Reach (ProtoIter.next checks) it it') : it'.buf = it.buf := by
  induction h with
  | refl => rfl
  | step _ hn ih => rw [(protoIter_next_pos hn).1, ih]

/-- The position behind a length header lies in the buffer. -/
theorem lengthHeader_pos {buf : Bytes} {pos q len : Nat} (hpos : pos < buf.length)
    (h : lengthHeader buf pos = some (q, len)) :
    q ≤ buf.length ∧ len < 2 ^ 64 := by
  have htag := readVarint_pos hpos
  unfold lengthHeader at h
  split at h
  next tag p hr =>
    rw [hr] at htag
    have hbody := readVarint_pos_le htag.2
    split at h
    · split at h
      next l q' hq =>
        rw [hq] at hbody
        injection h with h
        injection h with h1 h2
        subst h1 h2
        exact ⟨hbody.2, l.toNat_lt⟩
      next => cases h
    · cases h
  next => cases h

/-- What the iterator does at a length header. -/
theorem next_of_lengthHeader (checks : Checks) {it : ProtoIter} {q len : Nat}
    (hpos : it.pos < it.buf.length)
    (h : lengthHeader it.buf it.pos = some (q, len)) :
    ∃ field, it.next checks = some (ProtoIter.take checks it.buf q field len) := by
  unfold lengthHeader at h
  unfold ProtoIter.next
  rw [if_neg (by omega)]
  split at h
  next tag p hr =>
    split at h
    next h2 =>
      split at h
      next l q' hq =>
        injection h with h
        injection h with h1 h2'
        subst h1 h2'
        rw [hr]
        refine ⟨(tag >>> 3).toNat % 2 ^ 32, ?_⟩
        simp only [h2, hq]
        rfl
      next => cases h
    next => cases h
  next => cases h

/-- A yield is a panic exactly when its length header overflows. -/
theorem next_panic_iff {checks : Checks} {it it' : ProtoIter} {x : ProtoItem}
    (hbuf : it.buf.length < 2 ^ 63) (hn : it.next checks = some (x, it')) :
    (∃ p, x = .panic p) ↔
      ∃ q len, lengthHeader it.buf it.pos = some (q, len) ∧ 2 ^ 64 ≤ q + len := by
  constructor
  · rintro ⟨p, rfl⟩
    obtain ⟨hlt, hcase⟩ := protoIter_next_cases hn
    have htag := readVarint_pos hlt
    rcases hcase with ⟨e, p', hr, hx, -⟩ | ⟨tag, p', hr, hcase⟩
    · cases hx
    · rw [hr] at htag
      have hbody := readVarint_pos_le htag.2
      rcases hcase with ⟨-, v, q, hq, hx, -⟩ | ⟨e, q, hq, hx, -⟩ |
        ⟨h2, len, q, hq, hx⟩ | ⟨e, hx, -⟩
      · cases hx
      · cases hx
      · rw [hq] at hbody
        refine ⟨q, len.toNat, ?_, ?_⟩
        · unfold lengthHeader
          rw [hr]
          simp only [h2, hq]
          rfl
        · rcases protoIter_take_cases checks
            ((tag >>> 3).toNat % 2 ^ 32) len.toNat_lt hbody.2 hbuf with
            ⟨hov, -⟩ | ⟨-, -, ht⟩ | ⟨-, ht⟩
          · exact hov
          · rw [ht] at hx
            injection hx with hx
            cases hx
          · rw [ht] at hx
            injection hx with hx
            cases hx
      · cases hx
  · rintro ⟨q, len, hh, hov⟩
    have hlt := (protoIter_next_cases hn).1
    obtain ⟨hq, hlen⟩ := lengthHeader_pos hlt hh
    obtain ⟨field, hnext⟩ := next_of_lengthHeader checks hlt hh
    rcases protoIter_take_cases checks field hlen hq hbuf with
      ⟨-, p, ht⟩ | ⟨hno, -, -⟩ | ⟨hno, -⟩
    · rw [hnext, ht] at hn
      injection hn with hn
      injection hn with hx _
      exact ⟨p, hx.symm⟩
    · omega
    · omega

/-- Every payload is a slice of the buffer. -/
theorem next_slice {checks : Checks} {it it' : ProtoIter} {f : ProtoField}
    (hbuf : it.buf.length < 2 ^ 63)
    (hn : it.next checks = some (.ok f, it')) : IsSlice f.payload it.buf := by
  obtain ⟨hlt, hcase⟩ := protoIter_next_cases hn
  have htag := readVarint_pos hlt
  rcases hcase with ⟨e, p, hr, hx, -⟩ | ⟨tag, p, hr, hcase⟩
  · cases hx
  · rw [hr] at htag
    have hbody := readVarint_pos_le htag.2
    rcases hcase with ⟨-, v, q, hq, hx, -⟩ | ⟨e, q, hq, hx, -⟩ |
      ⟨h2, len, q, hq, hx⟩ | ⟨e, hx, -⟩
    · -- a varint field carries the empty slice
      injection hx with hx
      rw [hx]
      exact ⟨0, 0, by omega, rfl⟩
    · cases hx
    · rw [hq] at hbody
      rcases protoIter_take_cases checks
        ((tag >>> 3).toNat % 2 ^ 32) len.toNat_lt hbody.2 hbuf with
        ⟨-, p, ht⟩ | ⟨-, -, ht⟩ | ⟨hle, ht⟩
      · rw [ht] at hx
        injection hx with hx
        cases hx
      · rw [ht] at hx
        injection hx with hx
        cases hx
      · rw [ht] at hx
        injection hx with hx
        injection hx with hx
        rw [hx]
        exact ⟨q, len.toNat, hle, rfl⟩
    · cases hx

-- ========================================================= the result

/-- Iterating `ProtoIter` to the end is safe exactly on the inputs whose
length headers all fit, in a build with overflow checks and in one
without. -/
theorem protoIter_safe_iff (checks : Checks) (buf : NativeBuf) :
    IterSafe checks buf.bytes ↔ LengthsFit checks buf.bytes := by
  constructor
  · intro hsafe it hr q len hh
    by_contra hov
    have hit : it.buf = buf.bytes := reach_buf hr
    have hbuf : it.buf.length < 2 ^ 63 := hit ▸ buf.fits
    rw [← hit] at hh
    have hlt : it.pos < it.buf.length := by
      by_contra hge
      have hend : it.buf.drop it.pos = [] := List.drop_eq_nil_of_le (by omega)
      simp [lengthHeader, readVarint, hend, readVarintLoop] at hh
    obtain ⟨field, hnext⟩ := next_of_lengthHeader checks hlt hh
    rcases ht : ProtoIter.take checks it.buf q field len with ⟨x, it'⟩
    rw [ht] at hnext
    obtain ⟨p, rfl⟩ := (next_panic_iff hbuf hnext).mpr ⟨q, len, hh, by omega⟩
    exact hsafe.noPanic p
      ((Lib.mem_collect_iff (protoIter_decreasing checks)).mpr ⟨it, it', hr, hnext⟩)
  · intro hfit
    refine ⟨?_, ?_, ?_⟩
    · intro p hp
      obtain ⟨it, it', hr, hn⟩ :=
        (Lib.mem_collect_iff (protoIter_decreasing checks)).mp hp
      have hit : it.buf = buf.bytes := reach_buf hr
      obtain ⟨q, len, hh, hov⟩ :=
        (next_panic_iff (hit ▸ buf.fits) hn).mp ⟨p, rfl⟩
      have hlt := hfit it hr q len (hit ▸ hh)
      omega
    · intro f hf
      obtain ⟨it, it', hr, hn⟩ :=
        (Lib.mem_collect_iff (protoIter_decreasing checks)).mp hf
      have hit : it.buf = buf.bytes := reach_buf hr
      exact hit ▸ next_slice (hit ▸ buf.fits) hn
    · refine Lib.after_eq_none (protoIter_decreasing checks) ?_
      simp [ProtoIter.left, ProtoIter.new]

/-- Eleven bytes: a field-1 tag and the length `2 ^ 64 - 1`. -/
def hugeLength : Bytes :=
  [0x0a, 0xff, 0xff, 0xff, 0xff, 0xff, 0xff, 0xff, 0xff, 0xff, 0x01]

/-- They panic either build of the proxy. -/
theorem hugeLength_panics :
    ¬ IterSafe .on hugeLength ∧ ¬ IterSafe .off hugeLength :=
  ⟨fun h => h.noPanic .addOverflow (by decide +kernel),
    fun h => h.noPanic .sliceOrder (by decide +kernel)⟩

end KoinosEvm.Proofs
