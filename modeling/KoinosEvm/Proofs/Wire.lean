/-
The protobuf wire format, seen from both programs.

`wire` writes one field without dropping anything; the engine's encoders
are `wire` on non-default values. Two facts carry every round trip above:

- the engine's iterator, standing before `wire f`, yields `f` and stops
  right behind it (`fieldIter_wire`), so a concatenation of fields reads
  back as that list (`fieldsOf_wire`);
- whatever the engine's iterator yields on any bytes at all, the proxy's
  iterator yields at the same place (`protoIter_of_fieldIter`), so the
  proxy's items are the engine's fields followed by whatever the proxy
  makes of the bytes the engine refused (`items_eq`).

The second is the bridge between the programs: the proxy is at least as
lenient as the engine, and all disagreement is behind the engine's stop.
-/
import KoinosEvm.Proofs.Varint

namespace KoinosEvm.Proofs

open Engine.Proto Proxy

-- ================================================ both iterators advance

/-- `FieldIter::next`, inverted: the tag, what it says, and the body. -/
theorem fieldIter_next_cases {it it' : FieldIter} {f : Field}
    (h : it.next = some (f, it')) :
    it.pos < it.data.length ∧ it'.data = it.data ∧
    ∃ tag n, decodeVarint (it.data.drop it.pos) = some (tag, n) ∧
      (tag >>> 3).toNat ≠ 0 ∧ (tag >>> 3).toNat < 2 ^ 32 ∧
      ((tag &&& 7 = 0 ∧ ∃ v m,
          decodeVarint (it.data.drop (it.pos + n)) = some (v, m) ∧
          f = ((tag >>> 3).toNat, .varint v) ∧ it'.pos = it.pos + n + m) ∨
        (tag &&& 7 = 2 ∧ ∃ len m,
          decodeVarint (it.data.drop (it.pos + n)) = some (len, m) ∧
          it.pos + n + m + len.toNat ≤ it.data.length ∧
          f = ((tag >>> 3).toNat, .lengthDelimited
            ((it.data.drop (it.pos + n + m)).take len.toNat)) ∧
          it'.pos = it.pos + n + m + len.toNat)) := by
  unfold FieldIter.next at h
  split at h
  · cases h
  · next hlt =>
    simp only [Option.bind_eq_bind, Option.bind_eq_some_iff, Prod.exists] at h
    obtain ⟨tag, n, htag, h⟩ := h
    split at h
    · cases h
    · next hfn =>
      split at h
      · next h0 =>
        simp only [Option.bind_eq_some_iff, Prod.exists] at h
        obtain ⟨v, m, hv, h⟩ := h
        injection h with h
        injection h with hf hit
        refine ⟨by omega, by rw [← hit], tag, n, htag, by omega, by omega,
          Or.inl ⟨h0, v, m, hv, hf.symm, by rw [← hit]⟩⟩
      · split at h
        · next h2 =>
          simp only [Option.bind_eq_some_iff, Prod.exists] at h
          obtain ⟨len, m, hlen, h⟩ := h
          split at h
          · cases h
          · next hstop =>
            injection h with h
            injection h with hf hit
            refine ⟨by omega, by rw [← hit], tag, n, htag, by omega, by omega,
              Or.inr ⟨h2, len, m, hlen, by omega, hf.symm, by rw [← hit]⟩⟩
        · cases h

/-- The engine's iterator moves forward and stays within the data. -/
theorem fieldIter_next_pos {it it' : FieldIter} {f : Field}
    (h : it.next = some (f, it')) :
    it.pos < it'.pos ∧ it'.pos ≤ it.data.length := by
  obtain ⟨hlt, -, tag, n, htag, -, -, hbody⟩ := fieldIter_next_cases h
  have hn := decodeVarint_consumed htag
  simp only [List.length_drop] at hn
  rcases hbody with ⟨-, v, m, hv, -, hpos⟩ | ⟨-, len, m, hlen, hle, -, hpos⟩
  · have hm := decodeVarint_consumed hv
    simp only [List.length_drop] at hm
    omega
  · omega

theorem fieldIter_decreasing : Lib.Decreasing FieldIter.next FieldIter.left := by
  intro it f it' h
  have hpos := fieldIter_next_pos h
  have hdata := (fieldIter_next_cases h).2.1
  unfold FieldIter.left
  rw [hdata]
  omega

/-- The length-delimited arm, inverted: it panics exactly when the
addition leaves `usize`, errs when the field is cut off, and otherwise
yields a slice. -/
theorem protoIter_take_cases (checks : Checks) {buf : Bytes} {pos len : Nat}
    (field : Nat) (hlen : len < 2 ^ 64) (hpos : pos ≤ buf.length)
    (hbuf : buf.length < 2 ^ 63) :
    (2 ^ 64 ≤ pos + len ∧ ∃ p, ProtoIter.take checks buf pos field len
        = (.panic p, ⟨buf, buf.length⟩)) ∨
    (pos + len < 2 ^ 64 ∧ buf.length < pos + len ∧
      ProtoIter.take checks buf pos field len
        = (.err "length-delimited field overflows buf", ⟨buf, pos⟩)) ∨
    (pos + len ≤ buf.length ∧ ProtoIter.take checks buf pos field len
        = (.ok ⟨field, 2, (buf.drop pos).take len, 0⟩, ⟨buf, pos + len⟩)) := by
  unfold ProtoIter.take
  by_cases hov : 2 ^ 64 ≤ pos + len
  · -- the wrapped end lies before `pos`, so both builds panic
    refine Or.inl ⟨hov, ?_⟩
    cases checks with
    | on => exact ⟨_, if_pos ⟨rfl, hov⟩⟩
    | off =>
        refine ⟨.sliceOrder, ?_⟩
        rw [if_neg (by simp)]
        simp only
        rw [if_neg (by omega), if_pos (by omega)]
  · have hmod : (pos + len) % 2 ^ 64 = pos + len := Nat.mod_eq_of_lt (by omega)
    rw [if_neg (fun h => hov h.2), hmod]
    simp only
    by_cases hcut : buf.length < pos + len
    · exact Or.inr (Or.inl ⟨by omega, hcut, if_pos hcut⟩)
    · refine Or.inr (Or.inr ⟨by omega, ?_⟩)
      rw [if_neg hcut, if_neg (by omega), Nat.add_sub_cancel_left]

/-- `ProtoIter::next`, inverted. -/
theorem protoIter_next_cases {checks : Checks} {it it' : ProtoIter} {x : ProtoItem}
    (h : it.next checks = some (x, it')) :
    it.pos < it.buf.length ∧
    ((∃ e p, readVarint it.buf it.pos = (.error e, p) ∧
        x = .err e ∧ it' = ⟨it.buf, p⟩) ∨
      ∃ tag p, readVarint it.buf it.pos = (.ok tag, p) ∧
        (((tag &&& 7).toNat = 0 ∧ ∃ v q, readVarint it.buf p = (.ok v, q) ∧
            x = .ok ⟨(tag >>> 3).toNat % 2 ^ 32, 0, [], v⟩ ∧ it' = ⟨it.buf, q⟩) ∨
          (∃ e q, readVarint it.buf p = (.error e, q) ∧
            x = .err e ∧ it' = ⟨it.buf, q⟩) ∨
          ((tag &&& 7).toNat = 2 ∧ ∃ len q, readVarint it.buf p = (.ok len, q) ∧
            (x, it') = ProtoIter.take checks it.buf q
              ((tag >>> 3).toNat % 2 ^ 32) len.toNat) ∨
          (∃ e, x = .err e ∧ it' = ⟨it.buf, p⟩))) := by
  unfold ProtoIter.next at h
  split at h
  · cases h
  · next hlt =>
    refine ⟨by omega, ?_⟩
    split at h
    next e p htag =>
      injection h with h
      injection h with hx hit
      exact Or.inl ⟨e, p, htag, hx.symm, hit.symm⟩
    next tag p htag =>
      refine Or.inr ⟨tag, p, htag, ?_⟩
      simp only at h
      split at h
      next h0 =>
        split at h
        next v q hv =>
          injection h with h
          injection h with hx hit
          rw [h0] at hx
          exact Or.inl ⟨h0, v, q, hv, hx.symm, hit.symm⟩
        next e q hv =>
          injection h with h
          injection h with hx hit
          exact Or.inr (Or.inl ⟨e, q, hv, hx.symm, hit.symm⟩)
      next =>
        split at h
        next h2 =>
          split at h
          next e q hv =>
            injection h with h
            injection h with hx hit
            exact Or.inr (Or.inl ⟨e, q, hv, hx.symm, hit.symm⟩)
          next len q hv =>
            injection h with h
            exact Or.inr (Or.inr (Or.inl ⟨h2, len, q, hv, h.symm⟩))
        next =>
          injection h with h
          injection h with hx hit
          exact Or.inr (Or.inr (Or.inr ⟨_, hx.symm, hit.symm⟩))

/-- The length-delimited arm leaves a position in the buffer, at or
behind the one it was given, unless it panicked and sits at the end. -/
theorem protoIter_take_pos (checks : Checks) {buf : Bytes} {pos : Nat}
    (field len : Nat) (hpos : pos ≤ buf.length) :
    (ProtoIter.take checks buf pos field len).2.buf = buf ∧
    pos ≤ (ProtoIter.take checks buf pos field len).2.pos ∧
    (ProtoIter.take checks buf pos field len).2.pos ≤ buf.length := by
  unfold ProtoIter.take
  split
  · exact ⟨rfl, hpos, le_refl _⟩
  · simp only
    split
    · exact ⟨rfl, le_refl _, hpos⟩
    · split
      · exact ⟨rfl, hpos, le_refl _⟩
      · simp only [true_and]
        omega

/-- The proxy's iterator moves forward and stays within the buffer,
over good fields and errors alike. -/
theorem protoIter_next_pos {checks : Checks} {it it' : ProtoIter} {x : ProtoItem}
    (h : it.next checks = some (x, it')) :
    it'.buf = it.buf ∧ it.pos < it'.pos ∧ it'.pos ≤ it.buf.length := by
  obtain ⟨hlt, hcase⟩ := protoIter_next_cases h
  have htag := readVarint_pos hlt
  rcases hcase with ⟨e, p, hr, -, rfl⟩ | ⟨tag, p, hr, hcase⟩
  · rw [hr] at htag
    exact ⟨rfl, htag⟩
  · rw [hr] at htag
    have hbody := readVarint_pos_le htag.2
    rcases hcase with ⟨-, v, q, hq, -, rfl⟩ | ⟨e, q, hq, -, rfl⟩ |
      ⟨-, len, q, hq, hx⟩ | ⟨e, -, rfl⟩
    · rw [hq] at hbody
      exact ⟨rfl, lt_of_lt_of_le htag.1 hbody.1, hbody.2⟩
    · rw [hq] at hbody
      exact ⟨rfl, lt_of_lt_of_le htag.1 hbody.1, hbody.2⟩
    · rw [hq] at hbody
      have ht := protoIter_take_pos checks ((tag >>> 3).toNat % 2 ^ 32) len.toNat
        hbody.2
      rw [← hx] at ht
      exact ⟨ht.1, lt_of_lt_of_le htag.1 (hbody.1.trans ht.2.1), ht.2.2⟩
    · exact ⟨rfl, htag⟩

theorem protoIter_decreasing (checks : Checks) :
    Lib.Decreasing (ProtoIter.next checks) ProtoIter.left := by
  intro it x it' h
  obtain ⟨hbuf, hlt, hle⟩ := protoIter_next_pos h
  unfold ProtoIter.left
  rw [hbuf]
  omega

-- ============================================ the proxy follows the engine

/-- The proxy's view of a field. -/
def toProto : Field → ProtoField
  | (n, .varint v) => ⟨n, 0, [], v⟩
  | (n, .lengthDelimited bs) => ⟨n, 2, bs, 0⟩

/-- Where the engine's iterator yields a field, the proxy's yields the
same one and both stand behind it. -/
theorem protoIter_of_fieldIter {checks : Checks} {data : Bytes} {pos : Nat}
    {f : Field} {it' : FieldIter} (hdata : data.length < 2 ^ 63)
    (h : FieldIter.next ⟨data, pos⟩ = some (f, it')) :
    ProtoIter.next checks ⟨data, pos⟩
      = some (.ok (toProto f), ⟨data, it'.pos⟩) := by
  obtain ⟨hlt, -, tag, n, htag, -, h32, hbody⟩ := fieldIter_next_cases h
  simp only at hlt htag hbody
  unfold ProtoIter.next
  rw [if_neg (by simp only; omega)]
  simp only [readVarint_of_decodeVarint htag, Nat.mod_eq_of_lt h32]
  rcases hbody with ⟨h0, v, m, hv, rfl, hpos⟩ | ⟨h2, len, m, hlen, hle, rfl, hpos⟩
  · have hw : (tag &&& 7).toNat = 0 := by rw [h0]; rfl
    rw [if_pos hw, readVarint_of_decodeVarint hv]
    simp only [hw, hpos, toProto]
  · have hw : (tag &&& 7).toNat = 2 := by rw [h2]; rfl
    rw [if_neg (by omega), if_pos hw, readVarint_of_decodeVarint hlen]
    simp only [hpos, toProto, Option.some.injEq]
    rcases protoIter_take_cases checks (tag >>> 3).toNat
        len.toNat_lt (by omega : pos + n + m ≤ data.length) hdata with
      ⟨hov, -⟩ | ⟨-, hcut, -⟩ | ⟨-, ht⟩
    · omega
    · omega
    · exact ht

/-- The proxy's items are the engine's fields, then whatever the proxy
reads from where the engine stopped. -/
theorem items_eq (checks : Checks) (it : FieldIter)
    (hdata : it.data.length < 2 ^ 63) :
    ProtoIter.items checks ⟨it.data, it.pos⟩
      = it.fields.map (fun f => .ok (toProto f))
        ++ ProtoIter.items checks ⟨it.data, it.stop.pos⟩ := by
  revert hdata
  refine Lib.run_induction fieldIter_decreasing (P := fun it : FieldIter =>
    it.data.length < 2 ^ 63 → ProtoIter.items checks ⟨it.data, it.pos⟩
      = it.fields.map (fun f => .ok (toProto f))
        ++ ProtoIter.items checks ⟨it.data, it.stop.pos⟩) ?_ ?_ it
  · intro it hn _
    rw [FieldIter.fields, FieldIter.stop, Lib.collect_none hn, Lib.final_none hn]
    rfl
  · intro it f it' hn ih hdata
    have hd : it'.data = it.data := (fieldIter_next_cases hn).2.1
    rw [FieldIter.fields, FieldIter.stop, Lib.collect_some fieldIter_decreasing hn,
      Lib.final_some fieldIter_decreasing hn]
    rw [hd] at ih
    rw [ProtoIter.items, Lib.collect_some (protoIter_decreasing checks)
      (protoIter_of_fieldIter hdata hn)]
    exact congrArg _ (ih hdata)

-- ========================================================= round trips

/-- One field on the wire, defaults and all. -/
def wire : Field → Bytes
  | (n, .varint v) => encodeTag n wireVarint ++ encodeVarint v
  | (n, .lengthDelimited bs) =>
      encodeTag n wireLengthDelimited ++ encodeVarint (UInt64.ofNat bs.length) ++ bs

/-- A field the wire can carry: a positive 32-bit number, a length in 64
bits. -/
def Carries : Field → Prop
  | (n, .varint _) => n ≠ 0 ∧ n < 2 ^ 32
  | (n, .lengthDelimited bs) => n ≠ 0 ∧ n < 2 ^ 32 ∧ bs.length < 2 ^ 64

/-- The tag of a field gives its number and its wire type back. -/
theorem tag_parts {n : Nat} (hn : n < 2 ^ 32) {t : UInt8} (ht : t.toNat < 8) :
    (((UInt64.ofNat n <<< 3) ||| t.toUInt64) >>> 3).toNat = n ∧
      ((UInt64.ofNat n <<< 3) ||| t.toUInt64) &&& 7 = t.toUInt64 := by
  have hval : ((UInt64.ofNat n <<< 3) ||| t.toUInt64).toNat = 8 * n + t.toNat := by
    have hshift : (UInt64.ofNat n <<< 3).toNat = 8 * n := by
      rw [UInt64.toNat_shiftLeft, UInt64.toNat_ofNat']
      show (n % 2 ^ 64) <<< 3 % 2 ^ 64 = 8 * n
      rw [Nat.shiftLeft_eq]
      omega
    rw [UInt64.toNat_or, hshift, UInt8.toNat_toUInt64]
    exact (Nat.two_pow_add_eq_or_of_lt (i := 3) ht n).symm
  refine ⟨?_, ?_⟩
  · rw [UInt64.toNat_shiftRight, hval]
    show (8 * n + t.toNat) >>> 3 = n
    rw [Nat.shiftRight_eq_div_pow]
    omega
  · apply UInt64.toNat_inj.mp
    rw [UInt64.toNat_and, hval, UInt8.toNat_toUInt64]
    show (8 * n + t.toNat) &&& (2 ^ 3 - 1) = t.toNat
    rw [Nat.and_two_pow_sub_one_eq_mod]
    omega

/-- Standing before a field, the iterator yields it and stops right
behind it. -/
theorem fieldIter_wire {f : Field} (hf : Carries f) (pre rest : Bytes) :
    FieldIter.next ⟨pre ++ wire f ++ rest, pre.length⟩
      = some (f, ⟨pre ++ wire f ++ rest, (pre ++ wire f).length⟩) := by
  -- the tag, and the bytes behind it
  have htag : ∀ (n : Nat) (t : UInt8) (body : Bytes),
      decodeVarint ((pre ++ (encodeTag n t ++ body) ++ rest).drop pre.length)
        = some ((UInt64.ofNat n <<< 3) ||| t.toUInt64, (encodeTag n t).length) := by
    intro n t body
    rw [List.append_assoc, List.drop_left, List.append_assoc]
    exact decodeVarint_encodeVarint _ _
  have hbody : ∀ (n : Nat) (t : UInt8) (body : Bytes),
      (pre ++ (encodeTag n t ++ body) ++ rest).drop (pre.length + (encodeTag n t).length)
        = body ++ rest := by
    intro n t body
    rw [List.append_assoc, List.append_assoc, ← List.drop_drop, List.drop_left,
      List.drop_left]
  have hin : ∀ (n : Nat) (t : UInt8) (body : Bytes),
      ¬ (pre ++ (encodeTag n t ++ body) ++ rest).length ≤ pre.length := by
    intro n t body
    have hpos : 0 < (encodeTag n t).length :=
      List.length_pos_iff.mpr (encodeVarint_ne_nil _)
    rw [List.length_append, List.length_append, List.length_append]
    omega
  obtain ⟨n, v⟩ := f
  unfold FieldIter.next
  cases v with
  | varint v =>
      obtain ⟨hn0, hn⟩ := hf
      obtain ⟨hnum, htype⟩ := tag_parts hn (t := wireVarint) (by decide)
      have htype0 : ((UInt64.ofNat n <<< 3) ||| wireVarint.toUInt64) &&& 7 = 0 := htype
      simp only [wire]
      refine (if_neg (hin n wireVarint (encodeVarint v))).trans ?_
      rw [htag n wireVarint (encodeVarint v)]
      simp only [Option.bind_eq_bind, Option.bind_some, hnum, htype0]
      rw [if_neg (by omega), if_pos trivial, hbody, decodeVarint_encodeVarint]
      simp only [Option.bind_some, List.length_append, Nat.add_assoc]
  | lengthDelimited bs =>
      obtain ⟨hn0, hn, hlen⟩ := hf
      obtain ⟨hnum, htype⟩ := tag_parts hn (t := wireLengthDelimited) (by decide)
      have htype2 : ((UInt64.ofNat n <<< 3) ||| wireLengthDelimited.toUInt64) &&& 7 = 2 :=
        htype
      have hlen64 : (UInt64.ofNat bs.length).toNat = bs.length :=
        UInt64.toNat_ofNat_of_lt' hlen
      simp only [wire, List.append_assoc (encodeTag n wireLengthDelimited)]
      refine (if_neg
        (hin n wireLengthDelimited (encodeVarint (UInt64.ofNat bs.length) ++ bs))).trans ?_
      rw [htag n wireLengthDelimited (encodeVarint (UInt64.ofNat bs.length) ++ bs)]
      simp only [Option.bind_eq_bind, Option.bind_some, hnum, htype2]
      rw [if_neg (by omega), if_neg (by decide), if_pos trivial, hbody, List.append_assoc,
        decodeVarint_encodeVarint]
      simp only [Option.bind_some, hlen64]
      rw [if_neg (by simp only [List.length_append]; omega), ← List.drop_drop, hbody,
        List.append_assoc, List.drop_left, List.take_left]
      simp only [List.length_append, Nat.add_assoc]

/-- A loop over a concatenation of fields sees these fields and ends at
the end. -/
theorem fieldIter_run :
    ∀ (fs : List Field) (pre : Bytes), (∀ f ∈ fs, Carries f) →
      FieldIter.fields ⟨pre ++ fs.flatMap wire, pre.length⟩ = fs ∧
        (FieldIter.stop ⟨pre ++ fs.flatMap wire, pre.length⟩).pos
          = (pre ++ fs.flatMap wire).length := by
  intro fs
  induction fs with
  | nil =>
      intro pre _
      have hn : FieldIter.next ⟨pre ++ [].flatMap wire, pre.length⟩ = none := by
        unfold FieldIter.next
        exact if_pos (by simp)
      rw [FieldIter.fields, FieldIter.stop, Lib.collect_none hn, Lib.final_none hn]
      simp
  | cons f fs ih =>
      intro pre hall
      have hn := fieldIter_wire (hall f List.mem_cons_self) pre (fs.flatMap wire)
      have hrest := ih (pre ++ wire f) fun g hg => hall g (List.mem_cons_of_mem _ hg)
      rw [List.flatMap_cons, ← List.append_assoc]
      rw [FieldIter.fields, FieldIter.stop, Lib.collect_some fieldIter_decreasing hn,
        Lib.final_some fieldIter_decreasing hn]
      exact ⟨congrArg (f :: ·) hrest.1, hrest.2⟩

/-- What is written as fields is read back as these fields. -/
theorem fieldsOf_wire {fs : List Field} (h : ∀ f ∈ fs, Carries f) :
    fieldsOf (fs.flatMap wire) = fs :=
  (fieldIter_run fs [] h).1

/-- The proxy reads them back too, without an error. -/
theorem itemsOf_wire {checks : Checks} {fs : List Field} (h : ∀ f ∈ fs, Carries f)
    (hlen : (fs.flatMap wire).length < 2 ^ 63) :
    itemsOf checks (fs.flatMap wire) = fs.map fun f => .ok (toProto f) := by
  have hrun := fieldIter_run fs [] h
  have heq := items_eq checks ⟨fs.flatMap wire, 0⟩ hlen
  have hstop : ProtoIter.items checks ⟨fs.flatMap wire, (fs.flatMap wire).length⟩ = [] :=
    Lib.collect_none (if_pos (le_refl _))
  have hpos : (FieldIter.stop ⟨fs.flatMap wire, 0⟩).pos = (fs.flatMap wire).length := hrun.2
  have hfields : FieldIter.fields ⟨fs.flatMap wire, 0⟩ = fs := hrun.1
  rw [hpos, hfields] at heq
  simp only [hstop, List.append_nil] at heq
  exact heq

-- ======================================= the field encoders, as fields

/-- The field `encode_varint_field` writes, if any. -/
def varintField (n : Nat) (v : UInt64) : List Field :=
  if v = 0 then [] else [(n, .varint v)]

/-- The field `encode_bool_field` writes, if any. -/
def boolField (n : Nat) (b : Bool) : List Field :=
  if b then [(n, .varint 1)] else []

/-- The field `encode_bytes_field` and `encode_submessage_field` write, if
any. -/
def bytesField (n : Nat) (bs : Bytes) : List Field :=
  if bs.isEmpty then [] else [(n, .lengthDelimited bs)]

theorem encodeVarintField_eq (n : Nat) (v : UInt64) :
    encodeVarintField n v = (varintField n v).flatMap wire := by
  unfold encodeVarintField varintField
  by_cases h : v = 0
  · rw [if_pos h, if_pos h]
    rfl
  · rw [if_neg h, if_neg h]
    simp [wire]

theorem encodeBoolField_eq (n : Nat) (b : Bool) :
    encodeBoolField n b = (boolField n b).flatMap wire := by
  cases b <;> simp [encodeBoolField, boolField, wire]

theorem encodeBytesField_eq (n : Nat) (bs : Bytes) :
    encodeBytesField n bs = (bytesField n bs).flatMap wire := by
  unfold encodeBytesField bytesField
  by_cases h : bs.isEmpty = true
  · rw [if_pos h, if_pos h]
    rfl
  · rw [if_neg h, if_neg h]
    simp [wire]

theorem encodeSubmessageField_eq (n : Nat) (bs : Bytes) :
    encodeSubmessageField n bs = (bytesField n bs).flatMap wire :=
  encodeBytesField_eq n bs

/-- The fields the encoders write are ones the wire can carry. -/
theorem carries_varintField {n : Nat} (v : UInt64) (hn : n ≠ 0 ∧ n < 2 ^ 32) :
    ∀ f ∈ varintField n v, Carries f := by
  intro f hf
  unfold varintField at hf
  split at hf
  · cases hf
  · rw [List.mem_singleton.mp hf]
    exact hn

theorem carries_boolField {n : Nat} (b : Bool) (hn : n ≠ 0 ∧ n < 2 ^ 32) :
    ∀ f ∈ boolField n b, Carries f := by
  intro f hf
  unfold boolField at hf
  split at hf
  · rw [List.mem_singleton.mp hf]
    exact hn
  · cases hf

theorem carries_bytesField {n : Nat} {bs : Bytes} (h : bs.length < 2 ^ 64)
    (hn : n ≠ 0 ∧ n < 2 ^ 32) : ∀ f ∈ bytesField n bs, Carries f := by
  intro f hf
  unfold bytesField at hf
  split at hf
  · cases hf
  · rw [List.mem_singleton.mp hf]
    exact ⟨hn.1, hn.2, h⟩

theorem bytesField_fixed {k : Nat} (n : Nat) (a : FixedBytes (k + 1)) :
    bytesField n a.bytes = [(n, .lengthDelimited a.bytes)] := by
  have hne : a.bytes.isEmpty ≠ true := by
    intro h
    have hlen := a.len
    rw [List.isEmpty_iff.mp h] at hlen
    cases hlen
  exact if_neg hne

theorem carries_fixed {k n : Nat} (a : FixedBytes k) (hk : k < 2 ^ 64)
    (hn : n ≠ 0 ∧ n < 2 ^ 32) : ∀ f ∈ bytesField n a.bytes, Carries f :=
  carries_bytesField (by rw [a.len]; exact hk) hn

-- ============================================================== sizes

theorem length_encodeVarint_le (v : UInt64) : (encodeVarint v).length ≤ 10 :=
  (decodeVarintLoop_consumed (decodeVarint_encodeVarint v [])).2.2

/-- Twenty bytes are enough around a field's payload. -/
theorem length_wire_le (f : Field) : (wire f).length ≤ 20 + (toProto f).payload.length := by
  obtain ⟨n, v⟩ := f
  cases v with
  | varint v =>
      have h1 := length_encodeVarint_le ((UInt64.ofNat n <<< 3) ||| wireVarint.toUInt64)
      have h2 := length_encodeVarint_le v
      simp only [wire, encodeTag, toProto, List.length_append, List.length_nil]
      omega
  | lengthDelimited bs =>
      have h1 := length_encodeVarint_le
        ((UInt64.ofNat n <<< 3) ||| wireLengthDelimited.toUInt64)
      have h2 := length_encodeVarint_le (UInt64.ofNat bs.length)
      simp only [wire, encodeTag, toProto, List.length_append]
      omega

/-- A message of few fields stays small where its payloads do. -/
theorem length_flatMap_wire_le {bound : Nat} :
    ∀ {fs : List Field}, (∀ f ∈ fs, (toProto f).payload.length ≤ bound) →
      (fs.flatMap wire).length ≤ fs.length * (20 + bound) := by
  intro fs
  induction fs with
  | nil => simp
  | cons f fs ih =>
      intro h
      rw [List.forall_mem_cons] at h
      have hf := length_wire_le f
      have hfs := ih h.2
      rw [List.flatMap_cons, List.length_append, List.length_cons, Nat.succ_mul]
      omega

theorem payload_bytesField {n : Nat} {bs : Bytes} {f : Field} (h : f ∈ bytesField n bs) :
    (toProto f).payload = bs := by
  unfold bytesField at h
  split at h
  · cases h
  · rw [List.mem_singleton.mp h]
    rfl

theorem length_bytesField_le (n : Nat) (bs : Bytes) : (bytesField n bs).length ≤ 1 := by
  unfold bytesField
  split
  · exact Nat.zero_le _
  · exact le_refl _

theorem length_varintField_le (n : Nat) (v : UInt64) : (varintField n v).length ≤ 1 := by
  unfold varintField
  split
  · exact Nat.zero_le _
  · exact le_refl _

theorem length_encodeBytesField_le (n : Nat) (bs : Bytes) :
    (encodeBytesField n bs).length ≤ 20 + bs.length := by
  rw [encodeBytesField_eq]
  calc ((bytesField n bs).flatMap wire).length
      ≤ (bytesField n bs).length * (20 + bs.length) :=
        length_flatMap_wire_le fun f hf => by rw [payload_bytesField hf]
    _ ≤ 1 * (20 + bs.length) := Nat.mul_le_mul_right _ (length_bytesField_le n bs)
    _ = 20 + bs.length := Nat.one_mul _

theorem length_encodeVarintField_le (n : Nat) (v : UInt64) :
    (encodeVarintField n v).length ≤ 20 := by
  have h1 := length_encodeVarint_le ((UInt64.ofNat n <<< 3) ||| wireVarint.toUInt64)
  have h2 := length_encodeVarint_le v
  unfold encodeVarintField
  split
  · exact Nat.zero_le _
  · rw [List.length_append, encodeTag]
    omega

theorem length_encodeBoolField_le (n : Nat) (b : Bool) :
    (encodeBoolField n b).length ≤ 20 := by
  have h1 := length_encodeVarint_le ((UInt64.ofNat n <<< 3) ||| wireVarint.toUInt64)
  have h2 := length_encodeVarint_le 1
  unfold encodeBoolField
  split
  · exact Nat.zero_le _
  · rw [List.length_append, encodeTag]
    omega

end KoinosEvm.Proofs
