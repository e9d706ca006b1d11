/-
The proxy's RLP reader, on any bytes.

Every step of the reader is one the machine can take (`rlpHeaderIn_eq`,
`fromListIn_eq`, `rlpDecodeBytesIn_eq` and so on): a long header reads its
length bytes where it has checked that they are, a claimed length up to
2^64 - 1 meets `checked_add` and a comparison before it is sliced by, and
a header and its payload are never empty (`isFramed_take`), so the loop of
`from_list` comes to its end. What it returns is the payload of the list cut behind each
header's payload (`fromList_items`).
-/
import KoinosEvm.Lib.Fallible
import KoinosEvm.Proofs.EthTx
import KoinosEvm.Proxy.RlpIndexed

namespace KoinosEvm.Proofs

open Lib
open Proxy.EthTx

-- ============================================================== headers

theorem subIn_byte {b c : UInt8} (h : ¬ b ≤ c) (k : UInt8) (n : Nat) (hk : k.toNat = n)
    (hn : n ≤ c.toNat + 1) : subIn b.toNat n = .ok (b - k).toNat := by
  have hlt : c.toNat < b.toNat := by
    rw [UInt8.le_iff_toNat_le] at h
    omega
  have hkb : k ≤ b := UInt8.le_iff_toNat_le.mpr (by omega)
  rw [subIn_ok (by omega), UInt8.toNat_sub_of_le b k hkb, hk]

/-- How long the length of a long header can be. -/
theorem toNat_lenOfLen {b k : UInt8} {n : Nat} (hb : b.toNat ≤ n) (hk : k.toNat ≤ b.toNat)
    (hn : n ≤ k.toNat + 8) : (b - k).toNat ≤ 8 := by
  rw [UInt8.toNat_sub_of_le b k (UInt8.le_iff_toNat_le.mpr hk)]
  omega

/-- The rounds that are left shift in the bytes that are left. -/
theorem lenLoopIn_eq {buf : Bytes} {n i : Nat} (hbuf : 1 + i + n ≤ buf.length)
    (hi : i + n ≤ 8) (len : BitVec 64) :
    lenLoopIn buf n i len = .ok (((buf.drop (1 + i)).take n).foldl
      (fun out b => (out <<< 8) ||| b.toBitVec.setWidth 64) len) := by
  induction n generalizing i len with
  | zero => rfl
  | succ n ih =>
      have hlt : 1 + i < buf.length := by omega
      rw [List.drop_eq_getElem_cons hlt, List.take_succ_cons, List.foldl_cons, lenLoopIn,
        addIn_ok (by omega)]
      simp only [orFault_ok, bind, Except.bind, indexOf_ok hlt]
      rw [ih (by omega) (by omega)]
      rfl

theorem longHeaderIn_eq (b : UInt8) (rest : Bytes) (list : Bool) {lenOfLen : Nat}
    (h : lenOfLen ≤ 8) (msg : String) :
    longHeaderIn (b :: rest) list lenOfLen msg = orErr (longHeader list lenOfLen rest msg) := by
  rw [longHeaderIn, longHeader, addIn_ok (by omega)]
  simp only [orFault_ok, bind, Except.bind, List.length_cons]
  by_cases hshort : rest.length < lenOfLen
  · rw [if_pos hshort, if_pos (by omega)]
    rfl
  · rw [if_neg hshort, if_neg (by omega),
      lenLoopIn_eq (by rw [List.length_cons]; omega) (by omega)]
    rfl

/-- A header is read without leaving the buffer. -/
theorem rlpHeaderIn_eq (buf : Bytes) : rlpHeaderIn buf = orErr (rlpHeader buf) := by
  cases buf with
  | nil => rfl
  | cons b rest =>
      have hb := b.toNat_lt
      have hindex : indexOf (b :: rest) 0 = .ok b := indexOf_ok (Nat.succ_pos _)
      rw [rlpHeaderIn, rlpHeader, hindex, if_neg (by simp)]
      simp only [orFault_ok, bind, Except.bind]
      by_cases h7f : b ≤ 0x7f
      · rw [if_pos h7f, if_pos h7f]
        rfl
      rw [if_neg h7f, if_neg h7f]
      by_cases hb7 : b ≤ 0xb7
      · rw [if_pos hb7, if_pos hb7, subIn_byte h7f 0x80 0x80 rfl (le_refl _)]
        rfl
      rw [if_neg hb7, if_neg hb7]
      by_cases hbf : b ≤ 0xbf
      · have h8 : (b - 0xb7).toNat ≤ 8 :=
          toNat_lenOfLen (UInt8.le_iff_toNat_le.mp hbf)
            (Nat.le_of_not_le (mt UInt8.le_iff_toNat_le.mpr hb7)) (le_refl _)
        rw [if_pos hbf, if_pos hbf, subIn_byte hb7 0xb7 0xb7 rfl (Nat.le_succ _)]
        exact longHeaderIn_eq b rest false h8 _
      rw [if_neg hbf, if_neg hbf]
      by_cases hf7 : b ≤ 0xf7
      · rw [if_pos hf7, if_pos hf7, subIn_byte hbf 0xc0 0xc0 rfl (le_refl _)]
        rfl
      have h8 : (b - 0xf7).toNat ≤ 8 :=
        toNat_lenOfLen (Nat.le_of_lt_succ hb)
          (Nat.le_of_not_le (mt UInt8.le_iff_toNat_le.mpr hf7)) (le_refl _)
      rw [if_neg hf7, if_neg hf7, subIn_byte hf7 0xf7 0xf7 rfl (Nat.le_succ _)]
      exact longHeaderIn_eq b rest true h8 _

-- ================================================================ lists

/-- The loop ends within the payload's length, and takes only steps in
range: every round leaves less of it. -/
theorem itemsLoopIn_eq {payload : Bytes} {fuel fuel' pos : Nat} (items : List Bytes)
    (hfuel : payload.length - pos < fuel) (hfuel' : payload.length - pos ≤ fuel') :
    itemsLoopIn payload fuel pos items = orErr (itemsLoop payload fuel' pos items) := by
  induction fuel generalizing fuel' pos items with
  | zero => omega
  | succ fuel ih =>
      by_cases hpos : pos < payload.length
      · obtain ⟨fuel', rfl⟩ : ∃ k, fuel' = k + 1 := ⟨fuel' - 1, by omega⟩
        rw [itemsLoopIn, itemsLoop, if_pos hpos, if_pos hpos, sliceFrom_ok (by omega)]
        simp only [orFault_ok, bind, Except.bind, rlpHeaderIn_eq]
        cases hhead : rlpHeader (payload.drop pos) with
        | error e => rfl
        | ok r =>
            obtain ⟨list, len, start⟩ := r
            simp only [orErr_ok]
            cases htotal : checkedAdd start len "RLP item length overflow" with
            | error e => rfl
            | ok total =>
                simp only [orErr_ok]
                cases hend : checkedAdd pos total "RLP item length overflow" with
                | error e => rfl
                | ok itemEnd =>
                    simp only [orErr_ok]
                    rw [checkedAdd_sum htotal] at hend
                    have hstop := checkedAdd_sum hend
                    by_cases hlong : payload.length < itemEnd
                    · rw [if_pos hlong, if_pos hlong]
                      rfl
                    · have hone := (isFramed_take hhead (by rw [List.length_drop]; omega)).1
                      rw [if_neg hlong, if_neg hlong, sliceOf_ok (by omega) (by omega),
                        ← List.drop_take]
                      exact ih _ (by omega) (by omega)
      · rw [itemsLoopIn, if_neg hpos]
        cases fuel' with
        | zero => rfl
        | succ fuel' =>
            rw [itemsLoop, if_neg hpos]
            rfl

/-- A round that goes on: what it cuts off, and where it goes on. -/
theorem itemsLoop_cons {payload : Bytes} {fuel pos : Nat} {items out : List Bytes}
    (hpos : pos < payload.length) (h : itemsLoop payload (fuel + 1) pos items = .ok out) :
    ∃ size, 1 ≤ size ∧ pos + size ≤ payload.length
      ∧ IsFramed ((payload.drop pos).take size)
      ∧ itemsLoop payload fuel (pos + size) (items ++ [(payload.drop pos).take size])
        = .ok out := by
  rw [itemsLoop, if_pos hpos] at h
  obtain ⟨⟨list, len, start⟩, hhead, h⟩ := bind_ok h
  obtain ⟨total, htotal, h⟩ := bind_ok h
  obtain ⟨itemEnd, hend, h⟩ := bind_ok h
  obtain rfl := checkedAdd_sum htotal
  obtain rfl := checkedAdd_sum hend
  by_cases hlong : payload.length < pos + (start + len)
  · rw [if_pos hlong] at h
    cases h
  · rw [if_neg hlong, List.drop_take, Nat.add_sub_cancel_left] at h
    obtain ⟨hone, hframed⟩ := isFramed_take hhead (by rw [List.length_drop]; omega)
    exact ⟨start + len, hone, by omega, hframed, h⟩

/-- Where the payload is read, nothing is cut off any more. -/
theorem itemsLoop_done {payload : Bytes} {pos : Nat} {items out : List Bytes}
    (hpos : payload.length ≤ pos) (hout : items = out) :
    ∃ more, out = items ++ more ∧ more.flatten = payload.drop pos ∧ ∀ x ∈ more, IsFramed x := by
  refine ⟨[], by rw [hout, List.append_nil], ?_, by simp⟩
  rw [List.drop_eq_nil_of_le hpos]
  rfl

/-- The items that are still cut off make up what is still unread. -/
theorem itemsLoop_flatten {payload : Bytes} {fuel pos : Nat} {items out : List Bytes}
    (hfuel : payload.length - pos ≤ fuel) (h : itemsLoop payload fuel pos items = .ok out) :
    ∃ more, out = items ++ more ∧ more.flatten = payload.drop pos ∧ ∀ x ∈ more, IsFramed x := by
  induction fuel generalizing pos items with
  | zero => exact itemsLoop_done (by omega) (Except.ok.inj h)
  | succ fuel ih =>
      by_cases hpos : pos < payload.length
      · obtain ⟨size, hone, hle, hframed, hrest⟩ := itemsLoop_cons hpos h
        obtain ⟨more, hout, hflat, hall⟩ := ih (by omega) hrest
        refine ⟨(payload.drop pos).take size :: more, ?_, ?_, ?_⟩
        · rw [hout, List.append_assoc]
          rfl
        · rw [List.flatten_cons, hflat, ← List.drop_drop, List.take_append_drop]
        · exact List.forall_mem_cons.mpr ⟨hframed, hall⟩
      · rw [itemsLoop, if_neg hpos] at h
        exact itemsLoop_done (by omega) (Except.ok.inj h)

/-- `from_list` cuts the list's payload into items, each a header and its
payload. -/
theorem fromList_items {buf : Bytes} {items : List Bytes} (h : fromList buf = .ok items) :
    ∃ len start, rlpHeader buf = .ok (true, len, start) ∧ start + len ≤ buf.length
      ∧ items.flatten = (buf.drop start).take len ∧ ∀ x ∈ items, IsFramed x := by
  obtain ⟨⟨list, len, start⟩, hhead, h⟩ := bind_ok h
  cases list with
  | false => cases h
  | true =>
      obtain ⟨payloadEnd, hend, h⟩ := bind_ok h
      obtain rfl := checkedAdd_sum hend
      by_cases hlong : buf.length < start + len
      · rw [if_pos hlong] at h
        cases h
      · rw [if_neg hlong, List.drop_take, Nat.add_sub_cancel_left] at h
        obtain ⟨more, hout, hflat, hall⟩ := itemsLoop_flatten (Nat.sub_le _ _) h
        obtain rfl : items = more := hout
        exact ⟨len, start, hhead, by omega, hflat, hall⟩

/-- `from_list` ends, and takes only steps in range. -/
theorem fromListIn_eq {fuel : Nat} (buf : Bytes) (hfuel : buf.length < fuel) :
    fromListIn fuel buf = orErr (fromList buf) := by
  rw [fromListIn, fromList, rlpHeaderIn_eq]
  cases hhead : rlpHeader buf with
  | error e => rfl
  | ok r =>
      obtain ⟨list, len, start⟩ := r
      simp only [orErr_ok, bind, Except.bind]
      cases list with
      | false => rfl
      | true =>
          simp only [Bool.not_true, Bool.false_eq_true, if_false]
          cases hend : checkedAdd start len "RLP list length overflow" with
          | error e => rfl
          | ok payloadEnd =>
              simp only [orErr_ok]
              have hstop := checkedAdd_sum hend
              by_cases hlong : buf.length < payloadEnd
              · rw [if_pos hlong, if_pos hlong]
                rfl
              · rw [if_neg hlong, if_neg hlong, sliceOf_ok (by omega) (by omega),
                  ← List.drop_take, orFault_ok]
                apply itemsLoopIn_eq
                · rw [List.length_drop, List.length_take]
                  omega
                · exact Nat.sub_le _ _

-- =============================================================== fields

theorem rlpDecodeBytesIn_eq (buf : Bytes) :
    rlpDecodeBytesIn buf = orErr (rlpDecodeBytes buf) := by
  rw [rlpDecodeBytesIn, rlpDecodeBytes, rlpHeaderIn_eq]
  cases buf with
  | nil => rfl
  | cons b rest =>
      have hindex : indexOf (b :: rest) 0 = .ok b := indexOf_ok (Nat.succ_pos _)
      cases hhead : rlpHeader (b :: rest) with
      | error e => rfl
      | ok r =>
          obtain ⟨list, len, start⟩ := r
          simp only [orErr_ok, bind, Except.bind, hindex, orFault_ok]
          cases list with
          | true => rfl
          | false =>
              simp only [Bool.false_eq_true, if_false, List.head?_cons, Option.mem_def,
                Option.some.injEq, forall_eq']
              by_cases hsmall : b ≤ 0x7f
              · rw [if_pos hsmall, if_pos hsmall, sliceOf_ok (Nat.zero_le _) (Nat.succ_pos _)]
                rfl
              · rw [if_neg hsmall, if_neg hsmall]
                cases hend : checkedAdd start len "RLP bytes length overflow" with
                | error e => rfl
                | ok payloadEnd =>
                    simp only [orErr_ok]
                    have hstop := checkedAdd_sum hend
                    by_cases hlong : (b :: rest).length < payloadEnd
                    · rw [if_pos hlong, if_pos hlong]
                      rfl
                    · rw [if_neg hlong, if_neg hlong, sliceOf_ok (by omega) (by omega),
                        ← List.drop_take]
                      rfl

theorem decodeU64In_eq (x : Bytes) : decodeU64In x = orErr (decodeU64 x) := by
  rw [decodeU64In, decodeU64, rlpDecodeBytesIn_eq]
  cases rlpDecodeBytes x with
  | error e => rfl
  | ok b =>
      simp only [orErr_ok, bind, Except.bind]
      by_cases hlong : 8 < b.length
      · rw [if_pos hlong, if_pos hlong]
        rfl
      · rw [if_neg hlong, if_neg hlong]
        rfl

theorem decodeU256BeIn_eq (x : Bytes) :
    decodeU256BeIn x = orErr ((decodeU256Be x).map FixedBytes.bytes) := by
  rw [decodeU256BeIn, decodeU256Be, rlpDecodeBytesIn_eq]
  cases rlpDecodeBytes x with
  | error e => rfl
  | ok b =>
      simp only [orErr_ok, bind, Except.bind]
      by_cases hlong : 32 < b.length
      · rw [if_pos hlong, dif_pos hlong]
        rfl
      · rw [if_neg hlong, dif_neg hlong, subIn_ok (by omega), orFault_ok]
        simp only
        rw [copyFrom_ok (by rw [List.length_replicate]; omega)
          (by rw [List.length_replicate]; omega), List.take_replicate,
          min_eq_left (Nat.sub_le _ _)]
        rfl

theorem decodeAddressIn_eq (x : Bytes) :
    decodeAddressIn x = orErr ((decodeAddress x).map (Option.map FixedBytes.bytes)) := by
  rw [decodeAddressIn, decodeAddress, rlpDecodeBytesIn_eq]
  cases rlpDecodeBytes x with
  | error e => rfl
  | ok b =>
      simp only [orErr_ok, bind, Except.bind]
      by_cases hempty : b.isEmpty = true
      · rw [if_pos hempty, if_pos hempty]
        rfl
      · rw [if_neg hempty, if_neg hempty]
        by_cases hlen : b.length = 20
        · have hbytes : FixedBytes.ofBytes? 20 b = some ⟨b, hlen⟩ := dif_pos hlen
          rw [if_pos hlen, hbytes, copyFrom_ok (Nat.zero_le _) (by rw [hlen]; rfl)]
          rfl
        · have hbytes : FixedBytes.ofBytes? 20 b = none := dif_neg hlen
          rw [if_neg hlen, hbytes]
          rfl

-- ============================================================ the reader

/-- On any bytes the reader ends with a value or an error, without leaving
a buffer or a width on its way; and the items it returns are the payload
of the list, each one header and its payload. -/
theorem rlp_reader (buf : Bytes) :
    (∀ fuel, buf.length < fuel → fromListIn fuel buf = orErr (fromList buf))
      ∧ rlpDecodeBytesIn buf = orErr (rlpDecodeBytes buf)
      ∧ decodeU64In buf = orErr (decodeU64 buf)
      ∧ decodeU256BeIn buf = orErr ((decodeU256Be buf).map FixedBytes.bytes)
      ∧ decodeAddressIn buf = orErr ((decodeAddress buf).map (Option.map FixedBytes.bytes))
      ∧ ∀ items, fromList buf = .ok items →
          ∃ len start, rlpHeader buf = .ok (true, len, start) ∧ start + len ≤ buf.length
            ∧ items.flatten = (buf.drop start).take len ∧ ∀ x ∈ items, IsFramed x :=
  ⟨fun _ => fromListIn_eq buf, rlpDecodeBytesIn_eq buf, decodeU64In_eq buf,
    decodeU256BeIn_eq buf, decodeAddressIn_eq buf, fun _ => fromList_items⟩

/-- A list of two strings with a byte behind it, and a list that claims
more than 2^63 bytes. -/
theorem rlp_reader_sample :
    fromListIn 6 [0xc3, 0x05, 0x81, 0x80, 0x00] = .ok [[0x05], [0x81, 0x80]]
      ∧ (∃ len start, start + len ≤ 5
          ∧ [[0x05], [0x81, 0x80]].flatten
            = (([0xc3, 0x05, 0x81, 0x80, 0x00] : Bytes).drop start).take len)
      ∧ fromListIn 10 (0xff :: List.replicate 8 0xff)
        = .error (.err "RLP list length overflow") := by
  have hitems : fromList [0xc3, 0x05, 0x81, 0x80, 0x00] = .ok [[0x05], [0x81, 0x80]] := rfl
  obtain ⟨hlist, -, -, -, -, hframed⟩ := rlp_reader [0xc3, 0x05, 0x81, 0x80, 0x00]
  obtain ⟨len, start, -, hlen, hflat, -⟩ := hframed _ hitems
  refine ⟨?_, ⟨len, start, hlen, hflat⟩, ?_⟩
  · rw [hlist 6 (by simp), hitems]
    rfl
  · rw [(rlp_reader (0xff :: List.replicate 8 0xff)).1 10 (by simp)]
    rfl

end KoinosEvm.Proofs
