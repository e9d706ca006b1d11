/-
Headers with their payloads.

The proxy's reader takes any header form, the canonical one or not, so what
an item is to it is said by the reader itself: `IsFramed x` is one header
and its payload, all of `x`. A header reads nothing behind itself
(`rlpHeader_frame`), so it is read the same where its item is cut out
(`isFramed_take`) and where more follows (`IsFramed.append`), and the loop
of `from_list` parts a row of such items again (`itemsLoop_items`).
-/
import KoinosEvm.Proxy.EthTx

namespace KoinosEvm.Proofs

open Lib
open Proxy.EthTx (rlpHeader longHeader itemsLoop checkedAdd)

theorem checkedAdd_of_lt {a b : Nat} (h : a + b < 2 ^ 64) (msg : String) :
    checkedAdd a b msg = .ok (a + b) := if_pos h

theorem ok_bind {α β : Type} (a : α) (f : α → Except String β) :
    (Except.ok a >>= f) = f a := rfl

theorem checkedAdd_sum {a b c : Nat} {msg : String} (h : checkedAdd a b msg = .ok c) :
    c = a + b := by
  rw [checkedAdd] at h
  split at h
  · exact (Except.ok.inj h).symm
  · cases h

-- ============================================================== headers

/-- A long header is behind its length, and reads only that. -/
theorem longHeader_frame {lenOfLen : Nat} {rest : Bytes} {l list : Bool} {len start : Nat}
    {msg : String} (h : longHeader l lenOfLen rest msg = .ok (list, len, start)) :
    start = 1 + lenOfLen ∧ lenOfLen ≤ rest.length
      ∧ ∀ rest' : Bytes, lenOfLen ≤ rest'.length → rest'.take lenOfLen = rest.take lenOfLen →
          longHeader l lenOfLen rest' msg = .ok (list, len, start) := by
  rw [longHeader] at h
  by_cases hshort : rest.length < lenOfLen
  · rw [if_pos hshort] at h
    cases h
  · rw [if_neg hshort] at h
    have hresult := Except.ok.inj h
    refine ⟨(congrArg (fun r => r.2.2) hresult).symm, by omega, ?_⟩
    intro rest' hlen htake
    rw [longHeader, if_neg (by omega), htake, hresult]

/-- A header lies in the buffer, it and its payload are never empty, and
nothing behind it is read. -/
theorem rlpHeader_frame {b : UInt8} {rest : Bytes} {list : Bool} {len start : Nat}
    (h : rlpHeader (b :: rest) = .ok (list, len, start)) :
    start ≤ rest.length + 1 ∧ 1 ≤ start + len
      ∧ ∀ rest' : Bytes, start ≤ rest'.length + 1 →
          rest'.take (start - 1) = rest.take (start - 1) →
          rlpHeader (b :: rest') = .ok (list, len, start) := by
  have hlong : ∀ {l : Bool} {n : Nat} {msg : String},
      longHeader l n rest msg = .ok (list, len, start) →
      start ≤ rest.length + 1 ∧ 1 ≤ start + len
        ∧ ∀ rest' : Bytes, start ≤ rest'.length + 1 →
            rest'.take (start - 1) = rest.take (start - 1) →
            longHeader l n rest' msg = .ok (list, len, start) := by
    intro l n msg hl
    obtain ⟨hstart, hn, hframe⟩ := longHeader_frame hl
    refine ⟨by omega, by omega, ?_⟩
    intro rest' hlen htake
    rw [hstart, Nat.add_sub_cancel_left] at htake
    exact hframe rest' (by omega) htake
  simp only [rlpHeader] at h ⊢
  by_cases h7f : b ≤ 0x7f
  · simp only [if_pos h7f] at h ⊢
    cases h
    exact ⟨Nat.zero_le _, le_refl _, fun _ _ _ => rfl⟩
  simp only [if_neg h7f] at h ⊢
  by_cases hb7 : b ≤ 0xb7
  · simp only [if_pos hb7] at h ⊢
    cases h
    exact ⟨Nat.le_add_left _ _, Nat.le_add_right _ _, fun _ _ _ => rfl⟩
  simp only [if_neg hb7] at h ⊢
  by_cases hbf : b ≤ 0xbf
  · simp only [if_pos hbf] at h ⊢
    exact hlong h
  simp only [if_neg hbf] at h ⊢
  by_cases hf7 : b ≤ 0xf7
  · simp only [if_pos hf7] at h ⊢
    cases h
    exact ⟨Nat.le_add_left _ _, Nat.le_add_right _ _, fun _ _ _ => rfl⟩
  simp only [if_neg hf7] at h ⊢
  exact hlong h

/-- A header with its payload: the whole of it, no more. -/
def IsFramed (x : Bytes) : Prop :=
  ∃ list len start, rlpHeader x = .ok (list, len, start) ∧ x.length = start + len

/-- A header with its payload, cut out of what it stands in. -/
theorem isFramed_take {buf : Bytes} {list : Bool} {len start : Nat}
    (h : rlpHeader buf = .ok (list, len, start)) (hlen : start + len ≤ buf.length) :
    1 ≤ start + len ∧ IsFramed (buf.take (start + len)) := by
  cases buf with
  | nil => cases h
  | cons b rest =>
      obtain ⟨-, hone, hframe⟩ := rlpHeader_frame h
      obtain ⟨k, hk⟩ : ∃ k, start + len = k + 1 := ⟨start + len - 1, by omega⟩
      rw [List.length_cons] at hlen
      refine ⟨hone, list, len, start, ?_, List.length_take_of_le (by rw [List.length_cons]; omega)⟩
      rw [hk, List.take_succ_cons]
      apply hframe
      · rw [List.length_take_of_le (by omega)]
        omega
      · rw [List.take_take, min_eq_left (by omega)]

theorem IsFramed.length_pos {x : Bytes} (h : IsFramed x) : 0 < x.length := by
  obtain ⟨list, len, start, hread, hlen⟩ := h
  have hone := (isFramed_take hread (le_of_eq hlen.symm)).1
  omega

/-- What follows an item changes nothing of its header. -/
theorem IsFramed.append {x : Bytes} (h : IsFramed x) (more : Bytes) :
    ∃ list len start, rlpHeader (x ++ more) = .ok (list, len, start)
      ∧ x.length = start + len := by
  obtain ⟨list, len, start, hread, hlen⟩ := h
  cases x with
  | nil => cases hread
  | cons b rest =>
      obtain ⟨hstart, -, hframe⟩ := rlpHeader_frame hread
      refine ⟨list, len, start, ?_, hlen⟩
      rw [List.cons_append]
      apply hframe
      · rw [List.length_append]
        omega
      · exact List.take_append_of_le_length (by omega)

-- ================================================================ lists

/-- No item is empty. -/
theorem length_le_flatten_framed {items : List Bytes} (hall : ∀ x ∈ items, IsFramed x) :
    items.length ≤ items.flatten.length := by
  induction items with
  | nil => exact le_refl 0
  | cons x items ih =>
      have hx := (hall x List.mem_cons_self).length_pos
      have htail := ih (fun y hy => hall y (List.mem_cons_of_mem _ hy))
      rw [List.flatten_cons, List.length_append, List.length_cons]
      omega

/-- The loop parts a payload into its items: at `pre.length` the items
behind are still to come. -/
theorem itemsLoop_append {payload : Bytes} (hfits : payload.length < 2 ^ 64)
    {items : List Bytes} (pre : Bytes) (acc : List Bytes) {fuel : Nat}
    (hpay : payload = pre ++ items.flatten) (hall : ∀ x ∈ items, IsFramed x)
    (hfuel : items.length ≤ fuel) :
    itemsLoop payload fuel pre.length acc = .ok (acc ++ items) := by
  induction items generalizing pre acc fuel with
  | nil =>
      rw [List.flatten_nil, List.append_nil] at hpay
      rw [hpay, List.append_nil]
      cases fuel with
      | zero => rfl
      | succ fuel =>
          rw [itemsLoop]
          exact if_neg (lt_irrefl _)
  | cons x items ih =>
      obtain ⟨fuel, rfl⟩ : ∃ k, fuel = k + 1 := by
        cases fuel with
        | zero => simp at hfuel
        | succ k => exact ⟨k, rfl⟩
      have hx := hall x List.mem_cons_self
      have hpos := hx.length_pos
      obtain ⟨list, len, start, hread, hx⟩ := hx.append items.flatten
      rw [List.flatten_cons, ← List.append_assoc] at hpay
      have hlen : payload.length = pre.length + x.length + items.flatten.length := by
        rw [hpay, List.length_append, List.length_append]
      have hdrop : payload.drop pre.length = x ++ items.flatten := by
        rw [hpay, List.append_assoc, List.drop_left]
      have hend : payload.take (pre.length + x.length) = pre ++ x := by
        rw [hpay, ← List.length_append, List.take_left]
      have hnext := ih (pre ++ x) (acc ++ [x]) hpay
        (fun y hy => hall y (List.mem_cons_of_mem _ hy)) (Nat.le_of_succ_le_succ hfuel)
      rw [itemsLoop, if_pos (by omega), hdrop, hread, ok_bind]
      simp only
      rw [checkedAdd_of_lt (by omega), ok_bind, ← hx, checkedAdd_of_lt (by omega), ok_bind,
        if_neg (by omega), hend, List.drop_left, ← List.length_append, hnext,
        List.append_assoc]
      rfl

/-- From its start it returns them all. -/
theorem itemsLoop_items {payload : Bytes} (hfits : payload.length < 2 ^ 64)
    {items : List Bytes} {fuel : Nat} (hpay : payload = items.flatten)
    (hall : ∀ x ∈ items, IsFramed x) (hfuel : items.length ≤ fuel) :
    itemsLoop payload fuel 0 [] = .ok items :=
  itemsLoop_append hfits [] [] hpay hall hfuel

end KoinosEvm.Proofs
