/-
The canvas pixel by pixel.

What is stored is a color for each position (`colorsOf`). The loop of
`setPixels` keeps one word apart and writes it back when another is needed,
so what it has painted is the stored words with the loaded one over them
(`shown`). Loading a word does not change that (`shown_loadWord`), and a
round of the loop changes it at its own position (`shown_paintOne`): a
batch has the effect of its pixels painted one after the other
(`paint_colors`), whatever words they are in. `getCanvas` lists the colors
(`getCanvas_colors`).
-/
import KoinosEvm.Lib.Writes
import KoinosEvm.Proofs.PixelCanvas

namespace KoinosEvm.Proofs

open Lib Contracts Contracts.PixelCanvas

-- =============================================================== colors

/-- The color at a position; there are 4096. -/
def colorsOf (words : Words) (p : UInt16) : UInt8 :=
  if h : p.toNat / 32 < WORDS then ⟨lane 8 (words ⟨p.toNat / 32, h⟩) (p.toNat % 32)⟩ else 0

theorem word_lt {p : UInt16} (hp : p < 4096) : p.toNat / 32 < WORDS := by
  have hlt : p.toNat < 4096 := hp
  show p.toNat / 32 < 128
  omega

theorem pixel_colors {s : Canvas} {p : UInt16} (hp : p < 4096) :
    pixel s p = .ok (colorsOf s.words p) := by
  obtain ⟨hi, c, hpixel, hlane⟩ := pixel_eq hp
  rw [hpixel, colorsOf, dif_pos hi, ← hlane]

/-- A pixel painted in its word changes that position, and no other. -/
theorem colorsOf_update {words : Words} {q : UInt16} (hq : q.toNat / 32 < WORDS) (c : UInt8) :
    colorsOf (Function.update words ⟨q.toNat / 32, hq⟩
        (setLane (words ⟨q.toNat / 32, hq⟩) (q.toNat % 32) c.toBitVec))
      = Function.update (colorsOf words) q c := by
  funext p
  by_cases hpq : p = q
  · subst hpq
    rw [Function.update_self, colorsOf, dif_pos hq, Function.update_self,
      lane_setLane_self _ _ (by omega)]
  · rw [Function.update_of_ne hpq, colorsOf, colorsOf]
    by_cases hp : p.toNat / 32 < WORDS
    · rw [dif_pos hp, dif_pos hp]
      by_cases hword : p.toNat / 32 = q.toNat / 32
      · have hlane : p.toNat % 32 ≠ q.toNat % 32 := by
          intro hlane
          apply hpq
          apply UInt16.toNat_inj.mp
          omega
        have hsame : (⟨p.toNat / 32, hp⟩ : Fin WORDS) = ⟨q.toNat / 32, hq⟩ := Fin.ext hword
        rw [hsame, Function.update_self, lane_setLane_of_ne _ _ (by omega) hlane]
      · rw [Function.update_of_ne fun h => hword (Fin.mk.inj h)]
    · rw [dif_neg hp, dif_neg hp]

-- ============================================================= the loop

/-- The stored words with the loaded one over them. -/
def shown (c : Cursor) : Words :=
  if h : c.curIdx.toNat < WORDS then Function.update c.words ⟨c.curIdx.toNat, h⟩ c.curWord
  else c.words

section Loop

variable {c c' : Cursor} {words words' : Words}

theorem shown_writeWord (h : writeWord c.words c.curIdx c.curWord = .ok words) :
    words = shown c := by
  obtain ⟨hi, rfl⟩ := writeWord_ok h
  rw [shown, dif_pos hi]

theorem shown_writeBack (h : writeBack c = .ok words) : words = shown c := by
  unfold writeBack at h
  split at h
  next => exact shown_writeWord h
  next hno =>
    cases h
    rw [shown, dif_neg]
    rw [Decidable.not_not.mp hno]
    exact noWord_outside

/-- Loading a word writes the old one back: what is shown stays. -/
theorem shown_loadWord {idx : U256} (hidx : idx.toNat < WORDS) (h : loadWord c idx = .ok c') :
    c'.curIdx = idx ∧ shown c' = shown c := by
  unfold loadWord at h
  split at h
  next =>
    obtain ⟨words, hwords, h⟩ := bind_ok h
    obtain ⟨word, hword, h⟩ := bind_ok h
    obtain ⟨hi, rfl⟩ := readWord_ok hword
    cases h
    refine ⟨rfl, ?_⟩
    rw [← shown_writeBack hwords, shown, dif_pos hidx, Function.update_eq_self]
  next heq =>
    cases h
    exact ⟨(Decidable.not_not.mp heq).symm, rfl⟩

/-- A round paints its pixel. -/
theorem shown_paintOne {q : UInt16 × UInt8} (h : paintOne c q = .ok c') :
    colorsOf (shown c') = Function.update (colorsOf (shown c)) q.1 q.2 := by
  obtain ⟨_, hpos, h⟩ := bind_ok h
  obtain ⟨_, -, h⟩ := bind_ok h
  obtain ⟨c₁, hload, h⟩ := bind_ok h
  have hnat : (q.1.toBitVec.setWidth 256).toNat = q.1.toNat :=
    BitVec.toNat_setWidth_of_le (by omega)
  have hlt : q.1.toNat < 4096 := by
    have hguard := require_ok hpos
    rw [BitVec.lt_def, hnat] at hguard
    exact hguard
  have hidx : (wordIdx (q.1.toBitVec.setWidth 256)).toNat = q.1.toNat / 32 := by
    rw [wordIdx, BitVec.toNat_ushiftRight, hnat, Nat.shiftRight_eq_div_pow]
  have hi : q.1.toNat / 32 < WORDS := by
    show q.1.toNat / 32 < 128
    omega
  obtain ⟨hcur, hshown⟩ := shown_loadWord (by rw [hidx]; exact hi) hload
  cases h
  rw [painted_lane, hnat, ← hshown, ← colorsOf_update hi]
  congr 1
  have hword : c₁.curIdx.toNat = q.1.toNat / 32 := by rw [hcur, hidx]
  simp only [shown, hword, dif_pos hi, Function.update_self, Function.update_idem]

/-- The loop paints its pixels one after the other. -/
theorem shown_batch {batch : List (UInt16 × UInt8)} (h : batch.foldlM paintOne c = .ok c') :
    colorsOf (shown c') = applyAll batch (colorsOf (shown c)) := by
  induction batch generalizing c with
  | nil =>
      cases h
      rfl
  | cons q batch ih =>
      rw [List.foldlM_cons] at h
      obtain ⟨c₁, hround, hrest⟩ := bind_ok h
      rw [ih hrest, shown_paintOne hround, applyAll_cons]

/-- A batch that is painted. -/
theorem paint_colors {batch : List (UInt16 × UInt8)} (h : paint words batch = .ok words') :
    colorsOf words' = applyAll batch (colorsOf words) := by
  obtain ⟨c, hloop, hwrite⟩ := bind_ok h
  rw [shown_writeWord hwrite, shown_batch hloop, shown, dif_neg noWord_outside]

end Loop

section Batch

variable {s s' : Canvas} {ctx : CallContext} {positions : List UInt16} {colors : List UInt8}
  {ev : PixelsSet} {p : UInt16}

/-- What an accepted batch leaves on the canvas. -/
theorem setPixels_colors (h : setPixels s ctx positions colors = .ok (s', ev)) :
    positions.length = colors.length
      ∧ colorsOf s'.words = applyAll (positions.zip colors) (colorsOf s.words) := by
  obtain ⟨_, -, h⟩ := bind_ok h
  obtain ⟨_, hlen, h⟩ := bind_ok h
  obtain ⟨_, -, h⟩ := bind_ok h
  obtain ⟨painted, -, h⟩ := bind_ok h
  obtain ⟨_, -, h⟩ := bind_ok h
  obtain ⟨words, hwords, h⟩ := bind_ok h
  obtain ⟨total, -, h⟩ := bind_ok h
  obtain ⟨pixels, -, h⟩ := bind_ok h
  cases h
  exact ⟨require_ok hlen, paint_colors hwords⟩

/-- The last occurrence of a position in a batch gives its color. -/
theorem pixel_last (h : setPixels s ctx positions colors = .ok (s', ev)) (hp : p < 4096) {k : Nat}
    (hk : positions[k]? = some p) (hlast : ∀ j, k < j → positions[j]? ≠ some p) :
    ∃ c, colors[k]? = some c ∧ pixel s' p = .ok c := by
  obtain ⟨hlen, hcolors⟩ := setPixels_colors h
  obtain ⟨hkp, rfl⟩ := List.getElem?_eq_some_iff.mp hk
  have hkc : k < colors.length := by omega
  have hkz : k < (positions.zip colors).length := by
    rw [List.length_zip]
    omega
  refine ⟨colors[k], List.getElem?_eq_getElem hkc, ?_⟩
  have hsplit : positions.zip colors = (positions.zip colors).take k
      ++ (positions[k], colors[k]) :: (positions.zip colors).drop (k + 1) := by
    have hget : (positions.zip colors)[k] = (positions[k], colors[k]) := List.getElem_zip
    rw [← hget, ← List.drop_eq_getElem_cons hkz, List.take_append_drop]
  have hlater : ∀ x ∈ (positions.zip colors).drop (k + 1), x.1 ≠ positions[k] := by
    intro x hx heq
    obtain ⟨j, hj, rfl⟩ := List.getElem_of_mem hx
    rw [List.getElem_drop, List.getElem_zip] at heq
    rw [List.length_drop, List.length_zip] at hj
    refine hlast (k + 1 + j) (by omega) ?_
    rw [List.getElem?_eq_getElem (by omega)]
    exact congrArg some heq
  rw [pixel_colors hp, hcolors, hsplit]
  exact congrArg Except.ok (applyAll_last _ (positions[k], colors[k]) hlater _)

/-- A position that a batch leaves out keeps its color. -/
theorem pixel_kept (h : setPixels s ctx positions colors = .ok (s', ev)) (hp : p < 4096)
    (hno : p ∉ positions) : pixel s' p = pixel s p := by
  obtain ⟨-, hcolors⟩ := setPixels_colors h
  rw [pixel_colors hp, pixel_colors hp, hcolors, applyAll_notMem]
  intro x hx heq
  exact hno (heq ▸ (List.of_mem_zip hx).1)

end Batch

-- ========================================================== the whole canvas

/-- The bytes of the positions for which `done` holds are their colors, the
others are zero. -/
structure Drawn (words : Words) (out : Bytes) (done : Nat → Prop) : Prop where
  length : out.length = 4096
  drawn : ∀ p : UInt16, p < 4096 → done p.toNat → out[p.toNat]? = some (colorsOf words p)
  blank : ∀ p : UInt16, p < 4096 → ¬ done p.toNat → out[p.toNat]? = some 0

section Draw

variable {words : Words} {out : Bytes} {done : Nat → Prop}

/-- Byte `j` of word `i` is written where its pixel is: no sum overflows
and the target is on the canvas. -/
theorem canvasByte_eq {i j : Nat} (hi : i < WORDS) (hj : j < 32) (word : BitVec 256)
    (hout : out.length = 4096) :
    canvasByte (BitVec.ofNat 256 i <<< 5) word out j
      = .ok (out.set (i * 32 + j) ⟨lane 8 word j⟩) := by
  have hi' : i < 128 := hi
  have hbase : (BitVec.ofNat 256 i <<< 5).toNat = i * 32 := by
    rw [BitVec.toNat_shiftLeft, BitVec.toNat_ofNat, Nat.shiftLeft_eq]
    omega
  have hofs : (BitVec.ofNat 256 j).toNat = j := by
    rw [BitVec.toNat_ofNat]
    omega
  have hadd : checkedAdd (BitVec.ofNat 256 i <<< 5) (BitVec.ofNat 256 j)
      = .ok (BitVec.ofNat 256 i <<< 5 + BitVec.ofNat 256 j) := by
    rw [checkedAdd, if_pos (by omega)]
  have htarget : (BitVec.ofNat 256 i <<< 5 + BitVec.ofNat 256 j).toNat = i * 32 + j := by
    rw [BitVec.toNat_add, hbase, hofs]
    omega
  have hshift : (BitVec.ofNat 256 j <<< 3).toNat = j * 8 := by
    rw [BitVec.toNat_shiftLeft, hofs, Nat.shiftLeft_eq]
    omega
  have hbyte : (word >>> (BitVec.ofNat 256 j <<< 3)).setWidth 8 = lane 8 word j := by
    rw [BitVec.ushiftRight_eq', hshift]
    rfl
  simp only [canvasByte, hadd, hbyte]
  show writeByte out _ _ = _
  rw [writeByte, htarget, if_pos (by omega)]

/-- One pixel more is drawn. -/
theorem Drawn.set {i j : Nat} (hi : i < WORDS) (hj : j < 32) (h : Drawn words out done) :
    Drawn words (out.set (i * 32 + j) ⟨lane 8 (words ⟨i, hi⟩) j⟩)
      fun p => done p ∨ p = i * 32 + j := by
  have hi' : i < 128 := hi
  refine ⟨by rw [List.length_set, h.length], ?_, ?_⟩
  · intro p hp hdone
    by_cases heq : p.toNat = i * 32 + j
    · have hword : p.toNat / 32 = i := by omega
      have hlane : p.toNat % 32 = j := by omega
      have hin : i * 32 + j < out.length := by
        rw [h.length]
        omega
      rw [heq, List.getElem?_set_self hin, colorsOf]
      simp only [hword, hlane, dif_pos hi]
    · rw [List.getElem?_set_ne (Ne.symm heq)]
      exact h.drawn p hp (hdone.resolve_right heq)
  · intro p hp hdone
    obtain ⟨hold, hne⟩ := not_or.mp hdone
    rw [List.getElem?_set_ne (Ne.symm hne)]
    exact h.blank p hp hold

/-- A byte is drawn. -/
theorem drawn_canvasByte {i j : Nat} (hi : i < WORDS) (hj : j < 32) (h : Drawn words out done) :
    ∃ out', canvasByte (BitVec.ofNat 256 i <<< 5) (words ⟨i, hi⟩) out j = .ok out'
      ∧ Drawn words out' fun p => done p ∨ p = i * 32 + j :=
  ⟨_, canvasByte_eq hi hj (words ⟨i, hi⟩) h.length, h.set hi hj⟩

theorem Drawn.congr {done' : Nat → Prop} (h : Drawn words out done)
    (hsame : ∀ p < 4096, done p ↔ done' p) : Drawn words out done' where
  length := h.length
  drawn p hp hdone := h.drawn p hp ((hsame _ hp).mpr hdone)
  blank p hp hdone := h.blank p hp fun h' => hdone ((hsame _ hp).mp h')

/-- The inner loop draws its word's bytes, in order. -/
theorem drawn_bytes {i : Nat} (hi : i < WORDS) (h : Drawn words out done) {n : Nat} (hn : n ≤ 32) :
    ∃ out', (List.range n).foldlM (canvasByte (BitVec.ofNat 256 i <<< 5) (words ⟨i, hi⟩)) out
        = .ok out'
      ∧ Drawn words out' fun p => done p ∨ (p / 32 = i ∧ p % 32 < n) := by
  induction n with
  | zero => exact ⟨out, rfl, h.congr fun p _ => by simp⟩
  | succ n ih =>
      obtain ⟨out₁, hloop, hdrawn⟩ := ih (by omega)
      obtain ⟨out', hbyte, hdrawn'⟩ := drawn_canvasByte hi (by omega : n < 32) hdrawn
      refine ⟨out', ?_, hdrawn'.congr fun p _ => ?_⟩
      · rw [List.range_succ]
        exact foldlM_concat_ok hloop hbyte
      · rw [or_assoc]
        refine or_congr_right ?_
        omega

/-- A word that is zero has nothing to draw. -/
theorem colorsOf_zero {p : UInt16} {i : Nat} (hi : i < WORDS) (hzero : words ⟨i, hi⟩ = 0)
    (hp : p.toNat / 32 = i) : colorsOf words p = 0 := by
  rw [colorsOf]
  simp only [hp, dif_pos hi, hzero, lane_zero]
  rfl

/-- A round of the outer loop. -/
theorem drawn_canvasWord {i : Nat} (hi : i < WORDS) (h : Drawn words out fun p => p / 32 < i) :
    ∃ out', canvasWord words out i = .ok out' ∧ Drawn words out' fun p => p / 32 < i + 1 := by
  have hi' : i < 128 := hi
  have hidx : (BitVec.ofNat 256 i).toNat = i := by
    rw [BitVec.toNat_ofNat]
    omega
  have hread : readWord words (BitVec.ofNat 256 i) = .ok (words ⟨i, hi⟩) := by
    rw [readWord]
    simp only [hidx, dif_pos hi]
  have hround : canvasWord words out i = if words ⟨i, hi⟩ = 0 then .ok out
      else (List.range 32).foldlM (canvasByte (BitVec.ofNat 256 i <<< 5) (words ⟨i, hi⟩)) out := by
    rw [canvasWord, hread]
    rfl
  by_cases hzero : words ⟨i, hi⟩ = 0
  · rw [hround, if_pos hzero]
    refine ⟨out, rfl, h.length, ?_, ?_⟩
    · intro p hp hdone
      by_cases hold : p.toNat / 32 < i
      · exact h.drawn p hp hold
      · rw [colorsOf_zero hi hzero (by omega)]
        exact h.blank p hp hold
    · intro p hp hdone
      exact h.blank p hp (by omega)
  · obtain ⟨out', hloop, hdrawn⟩ := drawn_bytes hi h (by omega : 32 ≤ 32)
    rw [hround, if_neg hzero]
    refine ⟨out', hloop, hdrawn.congr fun p _ => ?_⟩
    have := Nat.mod_lt p (by omega : 0 < 32)
    omega

theorem drawn_words (words : Words) {n : Nat} (hn : n ≤ WORDS) :
    ∃ out, (List.range n).foldlM (canvasWord words) (List.replicate PIXELS.toNat 0) = .ok out
      ∧ Drawn words out fun p => p / 32 < n := by
  induction n with
  | zero =>
      refine ⟨_, rfl, List.length_replicate, ?_, ?_⟩
      · intro p _ hdone
        exact absurd hdone (by omega)
      · intro p hp _
        exact List.getElem?_replicate_of_lt hp
  | succ n ih =>
      obtain ⟨out, hloop, hdrawn⟩ := ih (by omega)
      obtain ⟨out', hword, hdrawn'⟩ := drawn_canvasWord (by omega) hdrawn
      refine ⟨out', ?_, hdrawn'⟩
      rw [List.range_succ]
      exact foldlM_concat_ok hloop hword

end Draw

/-- `getCanvas` has a byte for each position, its pixel. -/
theorem getCanvas_pixels (s : Canvas) :
    ∃ out, getCanvas s = .ok out ∧ out.length = 4096
      ∧ ∀ p : UInt16, p < 4096 → ∃ c, out[p.toNat]? = some c ∧ pixel s p = .ok c := by
  obtain ⟨out, hloop, hdrawn⟩ := drawn_words s.words (Nat.le_refl WORDS)
  refine ⟨out, hloop, hdrawn.length, ?_⟩
  intro p hp
  exact ⟨_, hdrawn.drawn p hp (word_lt hp), pixel_colors hp⟩

/-- Painting through the word cache is painting pixel by pixel: after a
batch that any canvas accepts, a position has the color of its last
occurrence, or its old one; and `getCanvas` shows of any canvas what
`pixel` does. -/
theorem canvas_pixels (s : Canvas) :
    (∀ ctx positions colors s' ev, setPixels s ctx positions colors = .ok (s', ev) →
        ∀ p : UInt16, p < 4096 →
          (∀ k : Nat, positions[k]? = some p → (∀ j, k < j → positions[j]? ≠ some p) →
              ∃ c, colors[k]? = some c ∧ pixel s' p = .ok c)
            ∧ (p ∉ positions → pixel s' p = pixel s p))
      ∧ ∃ out, getCanvas s = .ok out ∧ out.length = 4096
          ∧ ∀ p : UInt16, p < 4096 → ∃ c, out[p.toNat]? = some c ∧ pixel s p = .ok c := by
  refine ⟨?_, getCanvas_pixels s⟩
  intro ctx positions colors s' ev h p hp
  exact ⟨fun k hk hlast => pixel_last h hp hk hlast, pixel_kept h hp⟩

/-- A batch that goes to another word and comes back. -/
theorem canvas_pixels_back :
    ∃ s' ev, setPixels (deploy 0) ⟨0, 0⟩ [5, 40, 5] [1, 2, 3] = .ok (s', ev)
      ∧ pixel s' 5 = .ok 3 ∧ pixel s' 40 = .ok 2 ∧ pixel s' 6 = pixel (deploy 0) 6 := by
  have hok : (setPixels (deploy 0) ⟨0, 0⟩ [5, 40, 5] [1, 2, 3]).toBool = true := by
    decide +kernel
  cases h : setPixels (deploy 0) ⟨0, 0⟩ [5, 40, 5] [1, 2, 3] with
  | error e =>
      rw [h] at hok
      cases hok
  | ok r =>
      obtain ⟨s', ev⟩ := r
      have hpixels := (canvas_pixels (deploy 0)).1 _ _ _ _ _ h
      have hbehind : ∀ (p : UInt16) (j : Nat), 3 ≤ j →
          ([5, 40, 5] : List UInt16)[j]? ≠ some p := by
        intro p j hj
        rw [List.getElem?_eq_none hj]
        simp
      obtain ⟨c, hc, hfive⟩ := (hpixels 5 (by decide)).1 2 rfl (hbehind 5)
      obtain ⟨d, hd, hforty⟩ := (hpixels 40 (by decide)).1 1 rfl (by
        intro j hj
        obtain rfl | hj : j = 2 ∨ 3 ≤ j := by omega
        · decide
        · exact hbehind 40 j hj)
      cases hc
      cases hd
      exact ⟨s', ev, rfl, hfive, hforty, (hpixels 6 (by decide)).2 (by decide)⟩

end KoinosEvm.Proofs
