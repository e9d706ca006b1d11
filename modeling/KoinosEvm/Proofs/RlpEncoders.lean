/-
The proxy's RLP writers, against its reader and each other.

`wrap_rlp_list` and `rlp_encode_u64` spell the canonical form
(`wrapRlpList_eq`, `rlpEncodeU64_eq`), which the reader inverts. What
`create_address` hashes is written out once more in the source; its
payload is a short one, so one byte is its header too
(`createAddressRlp_eq`).
-/
import KoinosEvm.Proofs.EthTx
import KoinosEvm.Proxy.CreateAddress

namespace KoinosEvm.Proofs

open Lib Lib.Rlp
open Proxy (createAddress createAddressRlp nonceBytes)
open Proxy.EthTx (decodeU64 fromList rlpEncodeU64 wrapRlpList)

-- ================================================================ lists

theorem length_flatten_le_wrapRlpList (items : List Bytes) :
    items.flatten.length ≤ (wrapRlpList items).length := by
  simp only [wrapRlpList]
  by_cases hshort : (items.map List.length).sum ≤ 55
  · rw [if_pos hshort, List.length_cons]
    exact Nat.le_succ _
  · rw [if_neg hshort, List.length_cons, List.length_append]
    omega

/-- The reader parts a written list again. -/
theorem fromList_wrapRlpList {items : List Bytes} (hall : ∀ x ∈ items, IsFramed x)
    (hfits : (wrapRlpList items).length < 2 ^ 64) :
    fromList (wrapRlpList items) = .ok items := by
  have heq := wrapRlpList_eq (lt_of_le_of_lt (length_flatten_le_wrapRlpList items) hfits)
  rw [heq] at hfits ⊢
  exact fromList_encodeList hall hfits

-- ============================================================== numbers

/-- The canonical form has no leading zero, and nothing at all for zero. -/
theorem rlpEncodeU64_canonical (n : UInt64) :
    ∃ bytes, rlpEncodeU64 n = encodeString bytes ∧ NoLeadingZero bytes
      ∧ ofBe bytes = n.toNat ∧ (bytes = [] ↔ n = 0) := by
  refine ⟨toBe n.toNat, rlpEncodeU64_eq n, noLeadingZero_toBe _, ofBe_toBe _, ?_⟩
  constructor
  · intro hnil
    by_contra hne
    exact toBe_ne_nil (fun hz => hne (UInt64.toNat_inj.mp hz)) hnil
  · intro hz
    rw [hz]
    rfl

/-- A number is at most eight bytes behind a header. -/
theorem length_rlpEncodeU64_le (n : UInt64) : (rlpEncodeU64 n).length ≤ 17 := by
  have hlen : (toBe n.toNat).length ≤ 8 := length_toBe_le (by simpa using n.toNat_lt)
  have hle := length_encodeString_le (lt_of_le_of_lt hlen (by decide : 8 < maxLen))
  rw [rlpEncodeU64_eq]
  unfold encodeInt
  omega

-- ================================================= the contract address

/-- The nonce is written as `rlp_encode_u64` writes it. -/
theorem nonceBytes_eq (n : UInt64) : nonceBytes n = rlpEncodeU64 n := by
  unfold nonceBytes rlpEncodeU64
  by_cases h0 : n = 0
  · rw [if_pos h0, if_pos h0]
  · rw [if_neg h0, if_neg h0]
    generalize dropZeros (beBytes 8 n.toNat) = bytes
    cases bytes with
    | nil => rfl
    | cons b rest =>
        cases rest with
        | nil =>
            by_cases hb : b ≤ 0x7f
            · have hone : [b].length = 1 ∧ ∀ c ∈ [b].head?, c ≤ 0x7f :=
                ⟨rfl, fun c hc => Option.some.inj hc ▸ hb⟩
              exact (if_pos hone).trans (if_pos hb).symm
            · have hone : ¬([b].length = 1 ∧ ∀ c ∈ [b].head?, c ≤ 0x7f) :=
                fun h => hb (h.2 b rfl)
              exact (if_neg hone).trans (if_neg hb).symm
        | cons c more =>
            apply if_neg
            rintro ⟨hone, -⟩
            cases hone

theorem encodeString_address (a : Address) :
    encodeString a.bytes = (0x80 + 20) :: a.bytes := by
  rcases encodeString_cases a.bytes with ⟨b, -, hb, -⟩ | ⟨-, henc⟩
  · have hlen := a.len
    rw [hb] at hlen
    cases hlen
  · rw [henc, a.len]
    rfl

/-- The third writer agrees with the other two. -/
theorem createAddressRlp_eq (sender : Address) (nonce : UInt64) :
    createAddressRlp sender nonce
      = wrapRlpList [encodeString sender.bytes, rlpEncodeU64 nonce] := by
  have hlen := length_rlpEncodeU64_le nonce
  have hsum : ([(0x80 + 20) :: sender.bytes, rlpEncodeU64 nonce].map List.length).sum
      = ((0x80 + 20) :: sender.bytes).length + (rlpEncodeU64 nonce).length := by
    simp
  have hshort : ((0x80 + 20) :: sender.bytes).length + (rlpEncodeU64 nonce).length ≤ 55 := by
    rw [List.length_cons, sender.len]
    omega
  unfold createAddressRlp wrapRlpList
  simp only [encodeString_address, nonceBytes_eq]
  rw [hsum, if_pos hshort, List.flatten_cons, List.flatten_cons, List.flatten_nil,
    List.append_nil]

-- ============================================================ the writers

/-- What is written is canonical and is read back. The items are any that
the reader takes, the canonical ones among them; a list that is read is in
memory, so its length is a `usize`. -/
theorem rlp_encoders :
    (∀ items : List Bytes, items.flatten.length < 2 ^ 64 →
        wrapRlpList items = encodeList items.flatten)
      ∧ (∀ x, IsItem x → IsFramed x)
      ∧ (∀ items : List Bytes, (∀ x ∈ items, IsFramed x) →
          (wrapRlpList items).length < 2 ^ 64 → fromList (wrapRlpList items) = .ok items)
      ∧ (∀ n, (∃ bytes, rlpEncodeU64 n = encodeString bytes ∧ NoLeadingZero bytes
            ∧ ofBe bytes = n.toNat ∧ (bytes = [] ↔ n = 0))
          ∧ decodeU64 (rlpEncodeU64 n) = .ok n)
      ∧ ∀ (keccak : Bytes → B256) (sender : Address) (nonce : UInt64),
          createAddressRlp sender nonce
              = wrapRlpList [encodeString sender.bytes, rlpEncodeU64 nonce]
            ∧ (createAddress keccak sender nonce).bytes
              = (keccak (createAddressRlp sender nonce)).bytes.drop 12 := by
  refine ⟨fun _ => wrapRlpList_eq, fun _ => isFramed_of_isItem, fun _ => fromList_wrapRlpList,
    ?_, ?_⟩
  · intro n
    refine ⟨rlpEncodeU64_canonical n, ?_⟩
    rw [rlpEncodeU64_eq]
    exact proxy_decodeU64 n
  · intro keccak sender nonce
    exact ⟨createAddressRlp_eq sender nonce, rfl⟩

/-- An item that is not canonical and one behind a long header, and the
first number that takes two bytes. -/
theorem rlp_encoders_sample :
    fromList (wrapRlpList [[0x81, 0x05], encodeString (List.replicate 60 0x07)])
        = .ok [[0x81, 0x05], encodeString (List.replicate 60 0x07)]
      ∧ wrapRlpList [[0x81, 0x05]] = encodeList [0x81, 0x05]
      ∧ decodeU64 (rlpEncodeU64 0x80) = .ok 0x80 := by
  obtain ⟨hwrap, hitem, hread, hnumber, -⟩ := rlp_encoders
  refine ⟨hread _ ?_ (by decide), hwrap [[0x81, 0x05]] (by decide), (hnumber 0x80).2⟩
  intro x hx
  rcases List.mem_cons.mp hx with rfl | hx
  · exact ⟨false, 1, 1, rfl, rfl⟩
  · rw [List.mem_singleton.mp hx]
    exact hitem _ ⟨false, List.replicate 60 0x07, by decide, rfl⟩

end KoinosEvm.Proofs
