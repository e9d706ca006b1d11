/-
A block hash that is handed out, given back.

A Koinos block id is a multihash: two bytes that say it is a SHA-256 digest,
and the digest. What is handed out is the digest, and a request puts the two
bytes back, unless the digest begins with the same two bytes itself: then it
passes for the whole multihash, and the node is asked for a block with a
shorter id. For every other digest a look-up by hash is one by number
(`resolvesBack_iff`).
-/
import KoinosEvm.Proofs.Hex
import KoinosEvm.Proxy.BlockHash

namespace KoinosEvm.Proofs

open Proxy

section Digests

variable [HexCrate]

-- ============================================================ the property

/-- The Koinos id of a block, from its digest. -/
def multihash (d : B256) : String := "0x1220" ++ hexEncode d.bytes

/-- What is handed out for it. -/
def handedOut (d : B256) : Value := stripKoinosHashPrefix (.string (multihash d))

/-- The requests with the hash that is handed out answer as those with the
number of the block. -/
structure FoundByHash (backend : BlockBackend) (d : B256) (height : UInt64)
    (more : List Value) : Prop where
  block : backend.handleGetBlockByHash (.array (handedOut d :: more))
    = backend.handleGetBlockByNumber (.array (quantity height :: more))
  receipts : backend.handleGetBlockReceipts (.array (handedOut d :: more))
    = backend.handleGetBlockReceipts (.array (quantity height :: more))
  count : backend.handleBlockTxCount (.array (handedOut d :: more)) true
    = backend.handleBlockTxCount (.array (quantity height :: more)) false
  indexed : backend.handleTxByBlockAndIndex (.array (handedOut d :: more)) true
    = backend.handleTxByBlockAndIndex (.array (quantity height :: more)) false

/-- The hash that is handed out is turned back into the block's id, and every
block that the node has under this id is found by it. -/
structure ResolvesBack (d : B256) : Prop where
  restored : (handedOut d).asStr.map restoreKoinosHashPrefix = some (multihash d)
  found : ∀ (backend : BlockBackend) (height : UInt64) (more : List Value),
    backend.fetchBlockHeight (multihash d) = some height → FoundByHash backend d height more

-- ============================================================== the hashes

theorem handedOut_eq (d : B256) : handedOut d = .string ("0x" ++ hexEncode d.bytes) := by
  rw [handedOut, stripKoinosHashPrefix, multihash]
  simp only [Value.asStr, stripPrefix_append, Option.map_some, Option.getD_some]

/-- What is handed out has the length of an Ethereum hash. -/
theorem strLen_handedOut (d : B256) : strLen ("0x" ++ hexEncode d.bytes) = 66 := by
  rw [strLen, String.toList_append, List.map_append, List.sum_append,
    sum_utf8Size (hexDigits_hexEncode _), length_hexEncode, d.len]
  rfl

/-- The digest passes for a multihash. -/
theorem startsWith_handedOut (d : B256) :
    startsWith "0x1220" ("0x" ++ hexEncode d.bytes) = true ↔ [0x12, 0x20] <+: d.bytes := by
  rw [startsWith_iff, String.toList_append, toList_hexEncode, ← prefix_hexEncode_iff]
  exact List.prefix_append_right_inj "0x".toList

theorem restore_handedOut (d : B256) (h : ¬ [0x12, 0x20] <+: d.bytes) :
    restoreKoinosHashPrefix ("0x" ++ hexEncode d.bytes) = multihash d := by
  rw [restoreKoinosHashPrefix, if_neg (mt (startsWith_handedOut d).mp h), stripPrefix_append]
  rfl

/-- A digest that passes for a multihash is left alone. -/
theorem restore_eq_iff (d : B256) :
    restoreKoinosHashPrefix ("0x" ++ hexEncode d.bytes) = multihash d
      ↔ ¬ [0x12, 0x20] <+: d.bytes := by
  refine ⟨fun heq h => ?_, restore_handedOut d⟩
  rw [restoreKoinosHashPrefix, if_pos ((startsWith_handedOut d).mpr h)] at heq
  have hlen := congrArg (fun s => s.toList.length) heq
  simp only [multihash, String.toList_append, List.length_append] at hlen
  exact absurd (Nat.add_right_cancel hlen) (by decide)

-- ============================================================ the requests

section Requests

variable {backend : BlockBackend} {d : B256} {height : UInt64} {more : List Value}

theorem heightOfHash_handedOut (h : ¬ [0x12, 0x20] <+: d.bytes)
    (hfound : backend.fetchBlockHeight (multihash d) = some height) :
    backend.heightOfHash ("0x" ++ hexEncode d.bytes) = some height := by
  rw [BlockBackend.heightOfHash, restore_handedOut d h, hfound]

omit [HexCrate] in
theorem heightOfTag_quantity :
    backend.heightOfTag ("0x" ++ String.ofList (Nat.toDigits 16 height.toNat))
      = .ok (some height) := by
  have hstarts : ∀ s, startsWith "0x" ("0x" ++ s) = true := by
    intro s
    rw [startsWith, stripPrefix_append]
    rfl
  have hword : ∀ s word, startsWith "0x" word = false → "0x" ++ s ≠ word := by
    intro s word hnot heq
    rw [← heq, hstarts] at hnot
    cases hnot
  have hnamed : ¬ ("0x" ++ String.ofList (Nat.toDigits 16 height.toNat) = "latest"
      ∨ "0x" ++ String.ofList (Nat.toDigits 16 height.toNat) = "pending"
      ∨ "0x" ++ String.ofList (Nat.toDigits 16 height.toNat) = "safe"
      ∨ "0x" ++ String.ofList (Nat.toDigits 16 height.toNat) = "finalized") := by
    rintro (h | h | h | h)
    · exact hword _ _ (by decide) h
    · exact hword _ _ (by decide) h
    · exact hword _ _ (by decide) h
    · exact hword _ _ (by decide) h
  rw [BlockBackend.heightOfTag, resolveBlockNumberTag, if_neg hnamed,
    if_neg (hword _ _ (by decide)), if_pos (hstarts _), parseQuantity_quantity]
  rfl

/-- The look-ups by the hash that is handed out are those by number. -/
theorem foundByHash (h : ¬ [0x12, 0x20] <+: d.bytes)
    (hfound : backend.fetchBlockHeight (multihash d) = some height) :
    FoundByHash backend d height more := by
  have hparam : ∀ s, paramStr (.array (.string s :: more)) 0 = .ok s := fun _ => rfl
  have hhash := heightOfHash_handedOut h hfound
  have htag : backend.heightOfTag _ = .ok (some height) := heightOfTag_quantity
  have hquantity : quantity height
      = .string ("0x" ++ String.ofList (Nat.toDigits 16 height.toNat)) := rfl
  have hstarts : startsWith "0x" ("0x" ++ hexEncode d.bytes) = true := by
    rw [startsWith, stripPrefix_append]
    rfl
  constructor
  case block =>
    rw [hquantity, handedOut_eq, BlockBackend.handleGetBlockByHash,
      BlockBackend.handleGetBlockByNumber, hparam, hparam]
    simp only [badParams, bind, Except.bind]
    rw [hhash, htag]
    rfl
  case receipts =>
    rw [hquantity, handedOut_eq, BlockBackend.handleGetBlockReceipts,
      BlockBackend.handleGetBlockReceipts, hparam, hparam]
    simp only [badParams, bind, Except.bind]
    rw [if_pos ⟨strLen_handedOut d, hstarts⟩, if_neg (fun h => strLen_quantity height h.1), hhash,
      htag]
  case count =>
    rw [hquantity, handedOut_eq, BlockBackend.handleBlockTxCount, BlockBackend.handleBlockTxCount,
      hparam, hparam]
    simp only [badParams, bind, Except.bind, if_true]
    rw [hhash, htag]
    rfl
  case indexed =>
    have hindex : ∀ s s', paramStr (.array (.string s :: more)) 1
        = paramStr (.array (.string s' :: more)) 1 := fun _ _ => rfl
    rw [hquantity, handedOut_eq, BlockBackend.handleTxByBlockAndIndex,
      BlockBackend.handleTxByBlockAndIndex, hparam, hparam, hindex]
    simp only [badParams, bind, Except.bind, if_true]
    rw [hhash, htag]
    rfl

end Requests

/-- A block hash that is handed out resolves back to its block exactly if the
digest does not begin with the bytes of the multihash prefix. -/
theorem resolvesBack_iff (d : B256) : ResolvesBack d ↔ ¬ [0x12, 0x20] <+: d.bytes := by
  have hrestored : (handedOut d).asStr.map restoreKoinosHashPrefix = some (multihash d)
      ↔ ¬ [0x12, 0x20] <+: d.bytes := by
    rw [handedOut_eq, ← restore_eq_iff]
    exact Option.some_inj
  exact ⟨fun h => hrestored.mp h.restored,
    fun h => ⟨hrestored.mpr h, fun _ _ _ hfound => foundByHash h hfound⟩⟩

end Digests

/-- A digest that begins with the two bytes is not found again. -/
theorem prefixedDigest_lost :
    ¬ ResolvesBack ⟨0x12 :: 0x20 :: List.replicate 30 0, rfl⟩ :=
  fun h => (resolvesBack_iff _).mp h ⟨List.replicate 30 0, rfl⟩

end KoinosEvm.Proofs
