/-
Canonical RLP, one level deep.

`encodeString` and `encodeList` are the two canonical encodings: a single
byte below 0x80 is itself, everything else is a header and the payload,
and a header spells lengths from 56 on in minimal big-endian form. The
strict reader `decodeItem` accepts exactly these (`decodeItem_iff`), so
an encoding determines its kind, its payload and where it ends
(`encode_inj`).
-/
import KoinosEvm.Lib.BigEndian
import Mathlib.Data.FinEnum

namespace Lib.Rlp

/-- Payload lengths the format can spell. -/
def maxLen : Nat := 2 ^ 64

/-- The canonical header of a payload of `len` bytes; `base` is 0x80 for
strings and 0xc0 for lists. -/
def header (base len : Nat) : List UInt8 :=
  if len < 56 then [UInt8.ofNat (base + len)]
  else UInt8.ofNat (base + 55 + (toBe len).length) :: toBe len

/-- The canonical encoding of a byte string. -/
def encodeString (payload : List UInt8) : List UInt8 :=
  match payload with
  | [b] => if b < 0x80 then [b] else header 0x80 1 ++ [b]
  | _ => header 0x80 payload.length ++ payload

/-- The canonical encoding of a list from the concatenation of its
encoded items. -/
def encodeList (payload : List UInt8) : List UInt8 :=
  header 0xc0 payload.length ++ payload

/-- The canonical encoding of a number. -/
def encodeInt (n : Nat) : List UInt8 := encodeString (toBe n)

/-- Either kind. -/
def encode (list : Bool) (payload : List UInt8) : List UInt8 :=
  if list then encodeList payload else encodeString payload

/-- One encoded item, of either kind. -/
def IsItem (x : List UInt8) : Prop :=
  ∃ list payload, payload.length < maxLen ∧ x = encode list payload

-- ==================================================== the strict reader

/-- The length spelled by the `n` bytes in front of `bs`, refused when it
has a leading zero or fits a short header. -/
def readLength (n : Nat) (bs : List UInt8) : Option (Nat × List UInt8) :=
  if bs.length < n ∨ ¬ NoLeadingZero (bs.take n) ∨ ofBe (bs.take n) < 56 then none
  else some (ofBe (bs.take n), bs.drop n)

/-- Strict header: kind, payload length, and the bytes from the payload
on. -/
def decodeHeader : List UInt8 → Option (Bool × Nat × List UInt8)
  | [] => none
  | b :: rest =>
      if b.toNat < 0x80 then some (false, 1, b :: rest)
      else if b.toNat < 0xb8 then
        -- a single byte below 0x80 must stand for itself
        if b.toNat = 0x81 ∧ ∀ c ∈ rest.head?, c.toNat < 0x80 then none
        else some (false, b.toNat - 0x80, rest)
      else if b.toNat < 0xc0 then
        (readLength (b.toNat - 0xb7) rest).map fun (len, r) => (false, len, r)
      else if b.toNat < 0xf8 then some (true, b.toNat - 0xc0, rest)
      else (readLength (b.toNat - 0xf7) rest).map fun (len, r) => (true, len, r)

/-- Strict item: kind, payload, and what follows. -/
def decodeItem (bs : List UInt8) : Option (Bool × List UInt8 × List UInt8) :=
  match decodeHeader bs with
  | none => none
  | some (list, len, r) =>
      if r.length < len then none else some (list, r.take len, r.drop len)

-- =============================================================== headers

theorem readLength_toBe {len : Nat} (h : 56 ≤ len) (rest : List UInt8) :
    readLength (toBe len).length (toBe len ++ rest) = some (len, rest) := by
  unfold readLength
  have htake : (toBe len ++ rest).take (toBe len).length = toBe len :=
    List.take_left
  rw [htake, ofBe_toBe, List.drop_left, if_neg]
  rintro (hlt | hz | hlt)
  · rw [List.length_append] at hlt
    omega
  · exact hz (noLeadingZero_toBe len)
  · omega

theorem readLength_sound {n len : Nat} {bs rest : List UInt8}
    (h : readLength n bs = some (len, rest)) :
    bs = toBe len ++ rest ∧ (toBe len).length = n ∧ 56 ≤ len := by
  unfold readLength at h
  split at h
  · cases h
  · next hno =>
    have hlen : n ≤ bs.length := by
      by_contra hlt
      exact hno (Or.inl (by omega))
    have hz : NoLeadingZero (bs.take n) := by
      by_contra hz
      exact hno (Or.inr (Or.inl hz))
    have h56 : 56 ≤ ofBe (bs.take n) := by
      by_contra hlt
      exact hno (Or.inr (Or.inr (by omega)))
    injection h with h
    injection h with h1 h2
    subst h1 h2
    rw [toBe_ofBe hz]
    exact ⟨(List.take_append_drop n bs).symm, by simp [hlen], h56⟩

/-- The minimal form of a long length has between one and eight bytes. -/
theorem length_toBe_long {len : Nat} (h56 : 56 ≤ len) (hmax : len < maxLen) :
    1 ≤ (toBe len).length ∧ (toBe len).length ≤ 8 := by
  refine ⟨?_, length_toBe_le (k := 8) (by simpa [maxLen] using hmax)⟩
  have hne : toBe len ≠ [] := toBe_ne_nil (by omega)
  exact List.length_pos_iff.mpr hne

private theorem ofNat_toNat {n : Nat} (h : n < 256) : (UInt8.ofNat n).toNat = n := by
  rw [UInt8.toNat_ofNat']
  omega

/-- The reader inverts a string header, the one-byte case aside. -/
theorem decodeHeader_string {len : Nat} (hmax : len < maxLen) (rest : List UInt8)
    (hone : len = 1 → ∃ c ∈ rest.head?, 0x80 ≤ c.toNat) :
    decodeHeader (header 0x80 len ++ rest) = some (false, len, rest) := by
  unfold header
  by_cases hshort : len < 56
  · have hb : (UInt8.ofNat (0x80 + len)).toNat = 0x80 + len := ofNat_toNat (by omega)
    rw [if_pos hshort]
    simp only [List.cons_append, List.nil_append, decodeHeader, hb]
    rw [if_neg (by omega), if_pos (by omega), if_neg, Nat.add_sub_cancel_left]
    rintro ⟨h81, hsmall⟩
    obtain ⟨c, hc, hge⟩ := hone (by omega)
    have := hsmall c hc
    omega
  · have h8 := length_toBe_long (by omega) hmax
    have hb : (UInt8.ofNat (0x80 + 55 + (toBe len).length)).toNat
        = 0xb7 + (toBe len).length := by
      rw [ofNat_toNat (by omega)]
    rw [if_neg hshort]
    simp only [List.cons_append, decodeHeader, hb]
    rw [if_neg (by omega), if_neg (by omega), if_pos (by omega),
      Nat.add_sub_cancel_left, readLength_toBe (by omega)]
    rfl

/-- The reader inverts a list header. -/
theorem decodeHeader_list {len : Nat} (hmax : len < maxLen) (rest : List UInt8) :
    decodeHeader (header 0xc0 len ++ rest) = some (true, len, rest) := by
  unfold header
  by_cases hshort : len < 56
  · have hb : (UInt8.ofNat (0xc0 + len)).toNat = 0xc0 + len := ofNat_toNat (by omega)
    rw [if_pos hshort]
    simp only [List.cons_append, List.nil_append, decodeHeader, hb]
    rw [if_neg (by omega), if_neg (by omega), if_neg (by omega), if_pos (by omega),
      Nat.add_sub_cancel_left]
  · have h8 := length_toBe_long (by omega) hmax
    have hb : (UInt8.ofNat (0xc0 + 55 + (toBe len).length)).toNat
        = 0xf7 + (toBe len).length := by
      rw [ofNat_toNat (by omega)]
    rw [if_neg hshort]
    simp only [List.cons_append, decodeHeader, hb]
    rw [if_neg (by omega), if_neg (by omega), if_neg (by omega), if_neg (by omega),
      Nat.add_sub_cancel_left, readLength_toBe (by omega)]
    rfl

-- ================================================================ items

/-- The canonical encoding of a string is a header and the payload,
unless the payload is one small byte. -/
theorem encodeString_cases (payload : List UInt8) :
    (∃ b : UInt8, b.toNat < 0x80 ∧ payload = [b] ∧ encodeString payload = [b]) ∨
      ((payload.length = 1 → ∃ c ∈ payload.head?, 0x80 ≤ c.toNat) ∧
        encodeString payload = header 0x80 payload.length ++ payload) := by
  match payload with
  | [] => exact Or.inr ⟨by simp, rfl⟩
  | [b] =>
      by_cases hb : b < 0x80
      · exact Or.inl ⟨b, UInt8.lt_iff_toNat_lt.mp hb, rfl, if_pos hb⟩
      · refine Or.inr ⟨fun _ => ⟨b, rfl, ?_⟩, if_neg hb⟩
        exact UInt8.not_lt.mp hb
  | b :: c :: bs => exact Or.inr ⟨by simp, rfl⟩

/-- The strict reader accepts every canonical encoding. -/
theorem decodeItem_encode (list : Bool) {payload : List UInt8}
    (hmax : payload.length < maxLen) (rest : List UInt8) :
    decodeItem (encode list payload ++ rest) = some (list, payload, rest) := by
  have hsplit : ∀ l, decodeHeader (encode list payload ++ rest)
        = some (l, payload.length, payload ++ rest) →
      decodeItem (encode list payload ++ rest) = some (l, payload, rest) := by
    intro l hl
    unfold decodeItem
    rw [hl]
    simp only
    rw [if_neg (by rw [List.length_append]; omega), List.take_left, List.drop_left]
  cases list with
  | true =>
      apply hsplit
      show decodeHeader (header 0xc0 payload.length ++ payload ++ rest) = _
      rw [List.append_assoc]
      exact decodeHeader_list hmax _
  | false =>
      rcases encodeString_cases payload with ⟨b, hb, hp, henc⟩ | ⟨hone, henc⟩
      · apply hsplit
        show decodeHeader (encodeString payload ++ rest) = _
        rw [henc, hp]
        simp only [List.cons_append, List.nil_append, decodeHeader,
          List.length_singleton]
        rw [if_pos hb]
      · apply hsplit
        show decodeHeader (encodeString payload ++ rest) = _
        rw [henc, List.append_assoc]
        refine decodeHeader_string hmax _ ?_
        intro h1
        obtain ⟨c, hc, hge⟩ := hone h1
        refine ⟨c, ?_, hge⟩
        cases payload with
        | nil => cases hc
        | cons x xs => exact hc

/-- One byte is the header of a short payload. -/
theorem header_short {base len : Nat} {b : UInt8} (hb : b.toNat = base + len) (hlen : len < 56) :
    header base len = [b] := by
  unfold header
  rw [if_pos hlen, ← hb, UInt8.ofNat_toNat]

/-- The length read behind the first byte makes it the header of a long
one. -/
theorem header_long (base : Nat) {n len : Nat} {b : UInt8} {rest r : List UInt8}
    (hb : b.toNat = base + 55 + n) (hn : n ≤ 8) (hr : readLength n rest = some (len, r)) :
    len < maxLen ∧ b :: rest = header base len ++ r ∧ 56 ≤ len := by
  obtain ⟨hrest, hlen, h56⟩ := readLength_sound hr
  have hlt : len < 256 ^ n := by
    have h1 := ofBe_lt (toBe len)
    rwa [ofBe_toBe, hlen] at h1
  have hmax : 256 ^ n ≤ maxLen :=
    calc 256 ^ n ≤ 256 ^ 8 := Nat.pow_le_pow_right (by omega) hn
      _ = 2 ^ 64 := by norm_num
  refine ⟨lt_of_lt_of_le hlt hmax, ?_, h56⟩
  unfold header
  rw [if_neg (by omega), hlen, ← hb, UInt8.ofNat_toNat, hrest]
  rfl

/-- What the strict header reader accepts is a canonical header. -/
theorem decodeHeader_sound {bs r : List UInt8} {list : Bool} {len : Nat}
    (h : decodeHeader bs = some (list, len, r)) :
    len < maxLen ∧
    ((∃ b rest, b.toNat < 0x80 ∧ bs = b :: rest ∧ r = bs ∧ list = false ∧ len = 1) ∨
      (list = false ∧ bs = header 0x80 len ++ r ∧
        (len = 1 → ∃ c ∈ r.head?, 0x80 ≤ c.toNat)) ∨
      (list = true ∧ bs = header 0xc0 len ++ r)) := by
  cases bs with
  | nil => cases h
  | cons b rest =>
      have hb256 := b.toNat_lt
      simp only [decodeHeader] at h
      split at h
      · next hb =>
        injection h with h
        injection h with h1 h
        injection h with h2 h3
        refine ⟨by rw [← h2]; unfold maxLen; omega, Or.inl ⟨b, rest, hb, rfl, h3.symm, h1.symm,
          h2.symm⟩⟩
      · split at h
        · next hge hlt =>
          split at h
          · cases h
          · next hone =>
            injection h with h
            injection h with h1 h
            injection h with h2 h3
            subst h1 h2 h3
            refine ⟨by unfold maxLen; omega, Or.inr (Or.inl ⟨rfl, ?_, ?_⟩)⟩
            · rw [header_short (b := b) (by omega) (by omega)]
              rfl
            · intro h1
              by_contra hno
              refine hone ⟨by omega, ?_⟩
              intro c hc
              by_contra hge
              exact hno ⟨c, hc, by omega⟩
        · split at h
          · next hge hlt =>
            obtain ⟨⟨len', r'⟩, hr, hmk⟩ := Option.map_eq_some_iff.mp h
            injection hmk with h1 h
            injection h with h2 h3
            subst h1 h2 h3
            obtain ⟨hmax, hbs, h56⟩ :=
              header_long 0x80 (b := b) (by omega) (by omega) hr
            exact ⟨hmax, Or.inr (Or.inl ⟨rfl, hbs, by omega⟩)⟩
          · split at h
            · injection h with h
              injection h with h1 h
              injection h with h2 h3
              subst h1 h2 h3
              refine ⟨by unfold maxLen; omega, Or.inr (Or.inr ⟨rfl, ?_⟩)⟩
              rw [header_short (b := b) (by omega) (by omega)]
              rfl
            · obtain ⟨⟨len', r'⟩, hr, hmk⟩ := Option.map_eq_some_iff.mp h
              injection hmk with h1 h
              injection h with h2 h3
              subst h1 h2 h3
              obtain ⟨hmax, hbs, -⟩ :=
                header_long 0xc0 (b := b) (by omega) (by omega) hr
              exact ⟨hmax, Or.inr (Or.inr ⟨rfl, hbs⟩)⟩

/-- The strict reader accepts exactly the canonical encodings. -/
theorem decodeItem_iff {bs payload rest : List UInt8} {list : Bool} :
    decodeItem bs = some (list, payload, rest)
      ↔ payload.length < maxLen ∧ bs = encode list payload ++ rest := by
  refine ⟨?_, ?_⟩
  · intro h
    unfold decodeItem at h
    cases hh : decodeHeader bs with
    | none => rw [hh] at h; cases h
    | some p =>
        obtain ⟨l, len, r⟩ := p
        rw [hh] at h
        simp only at h
        split at h
        · cases h
        · next hlen =>
          injection h with h
          injection h with h1 h
          injection h with h2 h3
          subst h1
          have hplen : payload.length = len := by
            rw [← h2, List.length_take]
            omega
          have hr : r = payload ++ rest := by
            rw [← h2, ← h3, List.take_append_drop]
          obtain ⟨hmax, hcase⟩ := decodeHeader_sound hh
          refine ⟨by rw [hplen]; exact hmax, ?_⟩
          rcases hcase with ⟨b, tl, hb, hbs, hrb, rfl, hl1⟩ | ⟨rfl, hbs, hone⟩ |
            ⟨rfl, hbs⟩
          · -- the byte that stands for itself
            have hp : payload = [b] := by
              rw [← h2, hrb, hbs, hl1]
              rfl
            have hb' : b < 0x80 := UInt8.lt_iff_toNat_lt.mpr hb
            have henc : encodeString [b] = [b] := if_pos hb'
            show bs = encodeString payload ++ rest
            rw [hp, henc, ← hrb, hr, hp]
          · show bs = encodeString payload ++ rest
            rcases encodeString_cases payload with ⟨b, hb, hp, -⟩ | ⟨-, henc⟩
            · obtain ⟨c, hc, hge⟩ := hone (by rw [← hplen, hp]; rfl)
              rw [hr, hp] at hc
              have hbc : b = c := Option.some.inj hc
              rw [← hbc] at hge
              omega
            · rw [henc, hplen, List.append_assoc, ← hr]
              exact hbs
          · show bs = encodeList payload ++ rest
            unfold encodeList
            rw [hplen, List.append_assoc, ← hr]
            exact hbs
  · intro h
    rw [h.2]
    exact decodeItem_encode list h.1 rest

/-- An encoding determines its kind, its payload and where it ends. -/
theorem encode_inj {l l' : Bool} {p p' r r' : List UInt8}
    (hp : p.length < maxLen) (hp' : p'.length < maxLen)
    (h : encode l p ++ r = encode l' p' ++ r') : l = l' ∧ p = p' ∧ r = r' := by
  have h1 := decodeItem_encode l hp r
  rw [h, decodeItem_encode l' hp' r'] at h1
  injection h1 with h1
  injection h1 with hl h1
  injection h1 with hpp hr
  exact ⟨hl.symm, hpp.symm, hr.symm⟩

theorem encode_ne_nil (l : Bool) {p : List UInt8} (hp : p.length < maxLen) :
    encode l p ≠ [] := by
  intro h
  have h1 := decodeItem_encode l hp []
  rw [h] at h1
  cases h1

/-- The first byte tells the kinds apart. -/
theorem encodeList_head {p : List UInt8} (hp : p.length < maxLen) :
    ∃ b rest, encodeList p = b :: rest ∧ 0xc0 ≤ b.toNat := by
  unfold encodeList header
  by_cases hshort : p.length < 56
  · rw [if_pos hshort]
    refine ⟨_, _, rfl, ?_⟩
    rw [ofNat_toNat (by omega)]
    omega
  · have h8 := length_toBe_long (by omega) hp
    rw [if_neg hshort]
    refine ⟨_, _, rfl, ?_⟩
    rw [ofNat_toNat (by omega)]
    omega

theorem length_le_encodeString (p : List UInt8) : p.length ≤ (encodeString p).length := by
  rcases encodeString_cases p with ⟨b, -, hp, henc⟩ | ⟨-, henc⟩
  · rw [henc, hp]
  · rw [henc, List.length_append]
    exact Nat.le_add_left _ _

/-- A header takes at most nine bytes. -/
theorem length_encodeString_le {p : List UInt8} (h : p.length < maxLen) :
    (encodeString p).length ≤ p.length + 9 := by
  rcases encodeString_cases p with ⟨b, -, -, henc⟩ | ⟨-, henc⟩
  · rw [henc, List.length_singleton]
    omega
  · rw [henc, List.length_append]
    unfold header
    by_cases hshort : p.length < 56
    · rw [if_pos hshort, List.length_singleton]
      omega
    · have h8 := length_toBe_long (by omega) h
      rw [if_neg hshort, List.length_cons]
      omega

/-- A larger number has no shorter encoding. -/
theorem length_encodeInt_mono {m n : Nat} (h : m ≤ n) (hn : n < 256 ^ 32) :
    (encodeInt m).length ≤ (encodeInt n).length := by
  have hlen : (toBe m).length ≤ (toBe n).length := by
    apply length_toBe_le
    calc m ≤ n := h
      _ = ofBe (toBe n) := (ofBe_toBe n).symm
      _ < 256 ^ (toBe n).length := ofBe_lt _
  have h32 : (toBe n).length ≤ 32 := length_toBe_le hn
  have hheader : ∀ k, k ≤ 32 → (header 0x80 k).length = 1 := by
    intro k hk
    unfold header
    rw [if_pos (by omega)]
    rfl
  unfold encodeInt
  rcases encodeString_cases (toBe n) with ⟨b, hb, hp, henc⟩ | ⟨-, henc⟩
  · -- `n` is one small byte, so `m` is one too, or zero
    have hn128 : n < 128 := by
      rw [← ofBe_toBe n, hp, ofBe_cons]
      simpa using hb
    rcases encodeString_cases (toBe m) with ⟨c, -, -, henc'⟩ | ⟨hone, henc'⟩
    · rw [henc, henc']
      rfl
    · rw [henc, henc', List.length_append, hheader _ (by omega)]
      rcases Nat.eq_zero_or_pos (toBe m).length with h0 | hpos
      · rw [h0]
        rfl
      · rw [hp] at hlen
        obtain ⟨c, hc, hge⟩ := hone (le_antisymm hlen hpos)
        obtain ⟨d, hd⟩ := List.length_eq_one_iff.mp (le_antisymm hlen hpos)
        rw [hd] at hc
        have hcd : d = c := Option.some.inj hc
        have hm : m = d.toNat := by
          rw [← ofBe_toBe m, hd, ofBe_cons]
          simp
        rw [hm, hcd] at h
        omega
  · rw [henc, List.length_append, hheader _ h32]
    rcases encodeString_cases (toBe m) with ⟨c, -, -, henc'⟩ | ⟨-, henc'⟩
    · rw [henc', List.length_singleton]
      omega
    · rw [henc', List.length_append, hheader _ (by omega)]
      omega

-- ======================================================= item sequences

/-- Split a payload into its items, headers checked. -/
def splitItems : Nat → List UInt8 → Option (List (List UInt8))
  | _, [] => some []
  | 0, _ :: _ => none
  | fuel + 1, bs =>
      match decodeItem bs with
      | none => none
      | some (list, payload, rest) =>
          (splitItems fuel rest).map (encode list payload :: ·)

/-- The splitter inverts concatenation, on enough fuel. -/
theorem splitItems_flatten :
    ∀ (items : List (List UInt8)) {fuel : Nat}, (∀ x ∈ items, IsItem x) →
      items.length ≤ fuel → splitItems fuel items.flatten = some items := by
  intro items
  induction items with
  | nil => intro fuel _ _; cases fuel <;> rfl
  | cons x items ih =>
      intro fuel hitems hfuel
      obtain ⟨list, payload, hp, hx⟩ := hitems x List.mem_cons_self
      obtain ⟨k, rfl⟩ : ∃ k, fuel = k + 1 := by
        cases fuel with
        | zero => simp at hfuel
        | succ k => exact ⟨k, rfl⟩
      have htail := ih (fun y hy => hitems y (List.mem_cons_of_mem _ hy))
        (Nat.le_of_succ_le_succ hfuel)
      have hdec := decodeItem_encode list hp items.flatten
      rw [← hx] at hdec
      have hne : x ++ items.flatten ≠ [] := by
        intro h0
        exact encode_ne_nil list hp (hx ▸ (List.append_eq_nil_iff.mp h0).1)
      rw [List.flatten_cons]
      cases hc : x ++ items.flatten with
      | nil => exact absurd hc hne
      | cons b bs =>
          rw [hc] at hdec
          simp only [splitItems, hdec, htail, Option.map_some, ← hx]

/-- What the splitter returns is a sequence of items. -/
theorem splitItems_sound :
    ∀ {fuel : Nat} {bs : List UInt8} {items : List (List UInt8)},
      splitItems fuel bs = some items →
      bs = items.flatten ∧ ∀ x ∈ items, IsItem x := by
  intro fuel
  induction fuel with
  | zero =>
      intro bs items h
      cases bs with
      | nil =>
          injection h with h
          rw [← h]
          exact ⟨rfl, by simp⟩
      | cons b bs => cases h
  | succ fuel ih =>
      intro bs items h
      cases bs with
      | nil =>
          injection h with h
          rw [← h]
          exact ⟨rfl, by simp⟩
      | cons b bs =>
          simp only [splitItems] at h
          cases hd : decodeItem (b :: bs) with
          | none => rw [hd] at h; cases h
          | some p =>
              obtain ⟨list, payload, rest⟩ := p
              rw [hd] at h
              simp only at h
              obtain ⟨tail, htail, rfl⟩ := Option.map_eq_some_iff.mp h
              obtain ⟨hp, hbs⟩ := decodeItem_iff.mp hd
              obtain ⟨hrest, hitems⟩ := ih htail
              refine ⟨by rw [hbs, hrest]; rfl, ?_⟩
              intro x hx
              rcases List.mem_cons.mp hx with rfl | hx
              · exact ⟨list, payload, hp, rfl⟩
              · exact hitems x hx

end Lib.Rlp
