/-
The wire codec as a whole.

The engine's field encoders, one after the other, write what its iterator
reads: the fields that are not defaults, in order, and the proxy's
iterator reads the same (`fieldsOf_encoded`). On any bytes the iterator
takes only steps the machine can take, on a 32-bit `usize` too
(`nextIn_eq`): no slice is out of range and no sum overflows. It ends, and
the payloads it yields lie one behind the other (`payload_spans`).
-/
import KoinosEvm.Engine.ProtoIndexed
import KoinosEvm.Proofs.Wire

namespace KoinosEvm.Proofs

open Lib Engine.Proto Proxy

-- ========================================================== round trip

/-- A field through the encoder of its kind. -/
def encodeField : Field → Bytes
  | (n, .varint v) => encodeVarintField n v
  | (n, .lengthDelimited bs) => encodeBytesField n bs

/-- A value that is not its type's default. -/
def NonDefault : FieldValue → Bool
  | .varint v => v ≠ 0
  | .lengthDelimited bs => !bs.isEmpty

/-- What the encoders leave of a list of fields. -/
def written (fs : List Field) : List Field := fs.filter fun f => NonDefault f.2

theorem encodeField_eq (f : Field) : encodeField f = (written [f]).flatMap wire := by
  obtain ⟨n, value⟩ := f
  cases value with
  | varint v =>
      rw [encodeField, encodeVarintField_eq, varintField]
      by_cases hv : v = 0
      · simp [written, NonDefault, hv]
      · simp [written, NonDefault, hv]
  | lengthDelimited bs =>
      rw [encodeField, encodeBytesField_eq, bytesField]
      cases bs with
      | nil => simp [written, NonDefault]
      | cons b bs => simp [written, NonDefault]

theorem encoded_eq (fs : List Field) : fs.flatMap encodeField = (written fs).flatMap wire := by
  induction fs with
  | nil => rfl
  | cons f fs ih =>
      rw [List.flatMap_cons, ih, encodeField_eq, ← List.flatMap_append, written, written, written,
        ← List.filter_append]
      rfl

/-- A payload is no longer than what it is written in. -/
theorem payload_length_le {n : Nat} {bs : Bytes} {fs : List Field}
    (h : (n, .lengthDelimited bs) ∈ fs) : bs.length ≤ (fs.flatMap wire).length := by
  induction fs with
  | nil => cases h
  | cons f fs ih =>
      rw [List.flatMap_cons, List.length_append]
      rcases List.mem_cons.mp h with rfl | h
      · simp only [wire, List.length_append]
        omega
      · exact le_trans (ih h) (Nat.le_add_left _ _)

/-- The fields that are written are read back, by the engine and by the
proxy. -/
theorem fieldsOf_encoded {fs : List Field} {out : NativeBuf}
    (hfs : ∀ f ∈ fs, 1 ≤ f.1 ∧ f.1 < 2 ^ 29) (hout : out.bytes = fs.flatMap encodeField) :
    fieldsOf out.bytes = written fs
      ∧ ∀ checks, itemsOf checks out.bytes = (written fs).map fun f => .ok (toProto f) := by
  have hlen : ((written fs).flatMap wire).length < 2 ^ 63 := by
    rw [← encoded_eq, ← hout]
    exact out.fits
  have hcarries : ∀ f ∈ written fs, Carries f := by
    intro f hf
    obtain ⟨hone, hbig⟩ := hfs f (List.mem_of_mem_filter hf)
    obtain ⟨n, value⟩ := f
    simp only at hone hbig
    cases value with
    | varint v => exact ⟨by omega, by omega⟩
    | lengthDelimited bs =>
        have := payload_length_le hf
        exact ⟨by omega, by omega, by omega⟩
  rw [hout, encoded_eq]
  exact ⟨fieldsOf_wire hcarries, fun checks => itemsOf_wire hcarries hlen⟩

-- ========================================================== machine steps

/-- What is decoded lies in what is left. -/
theorem decodeVarint_within {data : Bytes} {pos n : Nat} {v : UInt64}
    (h : decodeVarint (data.drop pos) = some (v, n)) : pos + n ≤ data.length := by
  have hn := decodeVarint_consumed h
  rw [List.length_drop] at hn
  omega

section Machine

variable {w pos : Nat} {data : Bytes}

theorem decodeAt_ok (hdata : data.length < 2 ^ w) (hpos : pos ≤ data.length) :
    decodeAt w data pos = .ok ((decodeVarint (data.drop pos)).map fun r => (r.1, pos + r.2)) := by
  rw [decodeAt, sliceFrom_ok hpos]
  simp only [bind, Except.bind]
  cases h : decodeVarint (data.drop pos) with
  | none => rfl
  | some r =>
      have hn := decodeVarint_within h
      simp only [addIn_ok (by omega : pos + r.2 < 2 ^ w)]
      rfl

theorem payloadAt_ok (hdata : data.length < 2 ^ w) (len : UInt64) :
    payloadAt w data pos len = .ok (if data.length < pos + len.toNat then none
      else some ((data.drop pos).take len.toNat, pos + len.toNat)) := by
  rw [payloadAt]
  by_cases hstop : data.length < pos + len.toNat
  · rw [if_pos hstop]
    unfold fitsIn checkedAddIn
    by_cases hlen : len.toNat < 2 ^ w
    · by_cases hadd : pos + len.toNat < 2 ^ w
      · simp [hlen, hadd, hstop]
      · simp [hlen, hadd]
    · simp [hlen]
  · rw [if_neg hstop]
    have hlen : fitsIn w len.toNat = some len.toNat := if_pos (by omega)
    have hadd : checkedAddIn w pos len.toNat = some (pos + len.toNat) := if_pos (by omega)
    simp only [hlen, hadd, if_neg hstop]
    rw [sliceOf_ok (by omega) (by omega), addIn_ok (by omega), Nat.add_sub_cancel_left]
    rfl

/-- On data the target can hold, every step the iterator takes is in
range. -/
theorem nextIn_eq (it : FieldIter) (hdata : it.data.length < 2 ^ w) :
    it.nextIn w = .ok it.next := by
  rw [FieldIter.nextIn, FieldIter.next]
  by_cases hend : it.data.length ≤ it.pos
  · rw [if_pos hend, if_pos hend]
  rw [if_neg hend, if_neg hend, decodeAt_ok hdata (by omega)]
  cases htag : decodeVarint (it.data.drop it.pos) with
  | none => rfl
  | some r =>
      obtain ⟨tag, n⟩ := r
      have hn := decodeVarint_within htag
      simp only [Option.map_some, bind, Except.bind, Option.bind, decodeAt_ok hdata hn]
      split
      · rfl
      split
      · cases decodeVarint (it.data.drop (it.pos + n)) with
        | none => rfl
        | some r => rfl
      split
      · cases decodeVarint (it.data.drop (it.pos + n)) with
        | none => rfl
        | some r =>
            simp only [Option.map_some, payloadAt_ok hdata]
            by_cases hstop : it.data.length < it.pos + n + r.2 + r.1.toNat
            · simp only [if_pos hstop]
            · simp only [if_neg hstop]
      · rfl

end Machine

-- ================================================================= spans

/-- A yield takes its field from between the two positions; a payload ends
where the iterator stands after it, behind the two varints in front. -/
theorem payload_span {it it' : FieldIter} {n : Nat} {bs : Bytes}
    (h : it.next = some ((n, .lengthDelimited bs), it')) :
    it.pos + 2 + bs.length ≤ it'.pos ∧ it'.pos ≤ it.data.length
      ∧ bs = (it.data.drop (it'.pos - bs.length)).take bs.length := by
  obtain ⟨-, -, tag, k, htag, -, -, hbody⟩ := fieldIter_next_cases h
  have hk := decodeVarint_consumed htag
  rcases hbody with ⟨-, v, m, -, hf, -⟩ | ⟨-, len, m, hlen, hle, hf, hpos⟩
  · cases hf
  · have hm := decodeVarint_consumed hlen
    obtain ⟨-, hbs⟩ := Prod.mk.inj hf
    have hbs := FieldValue.lengthDelimited.inj hbs
    have hsize : bs.length = len.toNat := by
      rw [hbs, List.length_take, List.length_drop]
      omega
    refine ⟨by omega, by omega, ?_⟩
    rw [hpos, hsize, Nat.add_sub_cancel]
    exact hbs

/-- The iterator never goes back. -/
theorem reach_pos {it it' : FieldIter} (h : Reach FieldIter.next it it') :
    it'.data = it.data ∧ it.pos ≤ it'.pos := by
  induction h with
  | refl => exact ⟨rfl, le_refl _⟩
  | step _ hn ih =>
      have hnext := fieldIter_next_pos hn
      have hdata := (fieldIter_next_cases hn).2.1
      exact ⟨hdata.trans ih.1, by omega⟩

/-- Payloads lie one behind the other. -/
theorem payload_spans {it t u u' : FieldIter} {n m : Nat} {p q : Bytes}
    (ht : it.next = some ((n, .lengthDelimited p), t)) (hreach : Reach FieldIter.next t u)
    (hu : u.next = some ((m, .lengthDelimited q), u')) :
    t.pos - p.length < u'.pos - q.length ∧ t.pos ≤ u'.pos - q.length := by
  have hp := payload_span ht
  have hq := payload_span hu
  have hle := (reach_pos hreach).2
  omega

/-- The wire codec: fields that are encoded are read back by both readers,
defaults left out; a varint is read back from in front of anything; and on
any bytes a target can hold the iterator ends, takes only steps in range,
and yields payloads one behind the other. -/
theorem wire_codec :
    (∀ (fs : List Field) (out : NativeBuf), (∀ f ∈ fs, 1 ≤ f.1 ∧ f.1 < 2 ^ 29) →
        out.bytes = fs.flatMap encodeField →
        fieldsOf out.bytes = written fs
          ∧ ∀ checks, itemsOf checks out.bytes = (written fs).map fun f => .ok (toProto f))
      ∧ (∀ n rest, decodeVarint (encodeVarint n ++ rest) = some (n, (encodeVarint n).length))
      ∧ ∀ data : Bytes,
          (∀ w it, data.length < 2 ^ w → Reach FieldIter.next (.new data) it →
              it.nextIn w = .ok it.next)
            ∧ after FieldIter.next (data.length + 1) (.new data) = none
            ∧ ∀ it t n p, Reach FieldIter.next (.new data) it →
                it.next = some ((n, .lengthDelimited p), t) →
                p.length ≤ t.pos ∧ t.pos ≤ data.length
                  ∧ p = (data.drop (t.pos - p.length)).take p.length
                  ∧ ∀ u u' m q, Reach FieldIter.next t u →
                      u.next = some ((m, .lengthDelimited q), u') →
                      t.pos - p.length < u'.pos - q.length ∧ t.pos ≤ u'.pos - q.length := by
  refine ⟨fun fs out => fieldsOf_encoded, decodeVarint_encodeVarint, fun data => ⟨?_, ?_, ?_⟩⟩
  · intro w it hdata hreach
    apply nextIn_eq
    rw [(reach_pos hreach).1]
    exact hdata
  · apply after_eq_none fieldIter_decreasing
    show data.length - 0 < data.length + 1
    omega
  · intro it t n p hreach hnext
    obtain ⟨hspan, hle, hslice⟩ := payload_span hnext
    rw [(reach_pos hreach).1] at hle hslice
    exact ⟨by omega, hle, hslice, fun u u' m q => payload_spans hnext⟩

end KoinosEvm.Proofs
