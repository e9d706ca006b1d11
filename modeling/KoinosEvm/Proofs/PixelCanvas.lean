/-
The accounts of the canvas, over every run.

A batch that is accepted is counted three times: in the total, for its
artist and for its block (`setPixels_ok`). So the total is the sum over the
artists and the sum over the blocks, whatever calls came (`Accounted`). That
every stored pixel is in the palette is carried through the loop: the words
written so far and the word that is loaded are `Paletted`, a pixel being a
lane of its word. A call that fails, or comes while the contract is paused,
paints nothing (`step_cases`).
-/
import KoinosEvm.Contracts.PixelCanvas
import KoinosEvm.Lib.Fallible
import KoinosEvm.Lib.Lanes
import Mathlib.Algebra.BigOperators.Group.Finset.Basic
import Mathlib.Data.FinEnum

namespace KoinosEvm.Proofs

open Lib Contracts Contracts.PixelCanvas

-- ============================================================== solidity

theorem require_ok {cond : Prop} [Decidable cond] {msg : String} {u : Unit}
    (h : require cond msg = .ok u) : cond := by
  unfold require at h
  split at h
  next hcond => exact hcond
  next => cases h

theorem checkedAdd_ok {a b c : U256} (h : checkedAdd a b = .ok c) :
    c.toNat = a.toNat + b.toNat := by
  unfold checkedAdd at h
  split at h
  next hlt =>
    cases h
    rw [BitVec.toNat_add, Nat.mod_eq_of_lt hlt]
  next => cases h

/-- A counter that goes up takes the sum of all counters with it. -/
theorem sum_update {K : Type} [Fintype K] [DecidableEq K] (f : K → U256) (k : K) {v : U256}
    {n : Nat} (hv : v.toNat = (f k).toNat + n) :
    ∑ x, (Function.update f k v x).toNat = ∑ x, (f x).toNat + n := by
  have hrest : ∑ x ∈ Finset.univ.erase k, (Function.update f k v x).toNat
      = ∑ x ∈ Finset.univ.erase k, (f x).toNat :=
    Finset.sum_congr rfl fun x hx => by
      rw [Function.update_of_ne (Finset.ne_of_mem_erase hx)]
  rw [← Finset.add_sum_erase Finset.univ _ (Finset.mem_univ k), hrest,
    ← Finset.add_sum_erase Finset.univ _ (Finset.mem_univ k), Function.update_self, hv]
  omega

-- =============================================================== the words

/-- Every pixel of the word is a color of the palette. -/
def Paletted (word : U256) : Prop := ∀ j, j < 32 → lane 8 word j < 16

section Words

variable {words words' : Words} {i word : U256} {c c' : Cursor}

theorem readWord_ok (h : readWord words i = .ok word) :
    ∃ hi : i.toNat < WORDS, word = words ⟨i.toNat, hi⟩ := by
  unfold readWord at h
  split at h
  next hi =>
    cases h
    exact ⟨hi, rfl⟩
  next => cases h

theorem writeWord_ok (h : writeWord words i word = .ok words') :
    ∃ hi : i.toNat < WORDS, words' = Function.update words ⟨i.toNat, hi⟩ word := by
  unfold writeWord at h
  split at h
  next hi =>
    cases h
    exact ⟨hi, rfl⟩
  next => cases h

/-- The sentinel is no word's index. -/
theorem noWord_outside : ¬ noWord.toNat < WORDS := by decide

/-- The words are paletted, and so is the loaded one, if one is. -/
structure CursorPaletted (c : Cursor) : Prop where
  words : ∀ i, Paletted (c.words i)
  curWord : c.curIdx.toNat < WORDS → Paletted c.curWord

theorem paletted_write (hc : CursorPaletted c)
    (h : writeWord c.words c.curIdx c.curWord = .ok words') : ∀ i, Paletted (words' i) := by
  obtain ⟨hi, rfl⟩ := writeWord_ok h
  intro i
  by_cases hk : i = ⟨c.curIdx.toNat, hi⟩
  · rw [hk, Function.update_self]
    exact hc.curWord hi
  · rw [Function.update_of_ne hk]
    exact hc.words i

theorem paletted_load {idx : U256} (hc : CursorPaletted c) (h : loadWord c idx = .ok c') :
    CursorPaletted c' ∧ c'.curIdx = idx := by
  unfold loadWord at h
  split at h
  next hne =>
    obtain ⟨words, hwords, hrest⟩ := bind_ok h
    obtain ⟨word, hword, hrest⟩ := bind_ok hrest
    cases hrest
    have hall : ∀ i, Paletted (words i) := by
      unfold writeBack at hwords
      split at hwords
      · exact paletted_write hc hwords
      · cases hwords
        exact hc.words
    obtain ⟨hi, rfl⟩ := readWord_ok hword
    exact ⟨⟨hall, fun _ => hall _⟩, rfl⟩
  next heq =>
    cases h
    exact ⟨hc, (Decidable.not_not.mp heq).symm⟩

-- ================================================================ a pixel

/-- `pos & 31`. -/
theorem and_31_toNat (pos : U256) : (pos &&& 31).toNat = pos.toNat % 32 := by
  rw [BitVec.toNat_and]
  exact Nat.and_two_pow_sub_one_eq_mod pos.toNat 5

theorem shiftOf_toNat (pos : U256) : (shiftOf pos).toNat = pos.toNat % 32 * 8 := by
  rw [shiftOf, BitVec.toNat_shiftLeft, and_31_toNat, Nat.shiftLeft_eq]
  omega

/-- The position's lane is replaced. -/
theorem painted_lane (word pos : U256) (color : BitVec 8) :
    (word &&& ~~~((0xff : U256) <<< shiftOf pos)) ||| (color.setWidth 256 <<< shiftOf pos)
      = setLane word (pos.toNat % 32) color := by
  rw [setLane, BitVec.shiftLeft_eq', BitVec.shiftLeft_eq', shiftOf_toNat]
  rfl

theorem paletted_paint {j : Nat} {color : BitVec 8} (hword : Paletted word) (hcolor : color < 16)
    (hj : j < 32) : Paletted (setLane word j color) := by
  intro k hk
  by_cases heq : k = j
  · subst heq
    rwa [lane_setLane_self _ _ (by omega)]
  · rw [lane_setLane_of_ne _ _ (by omega) heq]
    exact hword k hk

/-- A round of the loop. -/
theorem paletted_paintOne {p : UInt16 × UInt8} (hc : CursorPaletted c)
    (h : paintOne c p = .ok c') : CursorPaletted c' := by
  obtain ⟨_, -, h⟩ := bind_ok h
  obtain ⟨_, hcolor, h⟩ := bind_ok h
  obtain ⟨c₁, hload, h⟩ := bind_ok h
  have hlt := require_ok hcolor
  obtain ⟨hc₁, hidx⟩ := paletted_load hc hload
  cases h
  refine ⟨hc₁.words, fun hi => ?_⟩
  rw [painted_lane]
  refine paletted_paint (hc₁.curWord hi) ?_ (Nat.mod_lt _ (by omega))
  rw [BitVec.lt_def, BitVec.toNat_setWidth_of_le (by omega)] at hlt
  exact hlt

/-- A batch that is painted leaves the words paletted. -/
theorem paletted_batch {batch : List (UInt16 × UInt8)} (hwords : ∀ i, Paletted (words i))
    (h : paint words batch = .ok words') : ∀ i, Paletted (words' i) := by
  obtain ⟨c, hloop, hwrite⟩ := bind_ok h
  have hstart : CursorPaletted ⟨words, noWord, 0⟩ :=
    ⟨hwords, fun hi => absurd hi noWord_outside⟩
  exact paletted_write (foldlM_ok CursorPaletted (fun _ _ _ => paletted_paintOne) hstart hloop)
    hwrite

end Words

-- ================================================================ a call

/-- What a batch of `n` pixels by an artist in a block does to the storage. -/
structure Paints (s : Canvas) (ctx : CallContext) (n : Nat) (s' : Canvas) : Prop where
  unpaused : s.paused = false
  total : s'.totalPixels.toNat = s.totalPixels.toNat + n
  artist : ∃ v, v.toNat = (s.pixelsBy ctx.sender).toNat + n
    ∧ s'.pixelsBy = Function.update s.pixelsBy ctx.sender v
  block : ∃ v, v.toNat = (s.paintedInBlock ctx.blockNumber).toNat + n ∧ v ≤ BLOCK_PIXEL_CAP
    ∧ s'.paintedInBlock = Function.update s.paintedInBlock ctx.blockNumber v
  words : (∀ i, Paletted (s.words i)) → ∀ i, Paletted (s'.words i)

/-- Nothing is painted. -/
structure Unpainted (s s' : Canvas) : Prop where
  words : s'.words = s.words
  totalPixels : s'.totalPixels = s.totalPixels
  pixelsBy : s'.pixelsBy = s.pixelsBy
  paintedInBlock : s'.paintedInBlock = s.paintedInBlock

section Calls

variable {s s' : Canvas} {ctx : CallContext}

theorem setPixels_ok {positions : List UInt16} {colors : List UInt8} {ev : PixelsSet}
    (h : setPixels s ctx positions colors = .ok (s', ev)) :
    Paints s ctx positions.length s' := by
  obtain ⟨_, hpaused, h⟩ := bind_ok h
  obtain ⟨_, -, h⟩ := bind_ok h
  obtain ⟨_, hbatch, h⟩ := bind_ok h
  obtain ⟨painted, hpainted, h⟩ := bind_ok h
  obtain ⟨_, hcap, h⟩ := bind_ok h
  obtain ⟨words, hwords, h⟩ := bind_ok h
  obtain ⟨total, htotal, h⟩ := bind_ok h
  obtain ⟨pixels, hpixels, h⟩ := bind_ok h
  cases h
  have hn : (BitVec.ofNat 256 positions.length).toNat = positions.length := by
    have hle : positions.length ≤ 128 := (require_ok hbatch).2
    exact Nat.mod_eq_of_lt (by omega)
  have hcount {a c : U256} (hadd : checkedAdd a (BitVec.ofNat 256 positions.length) = .ok c) :
      c.toNat = a.toNat + positions.length := by
    rw [checkedAdd_ok hadd, hn]
  exact
    { unpaused := require_ok hpaused
      total := hcount htotal
      artist := ⟨pixels, hcount hpixels, rfl⟩
      block := ⟨painted, hcount hpainted, require_ok hcap, rfl⟩
      words := fun hall => paletted_batch hall hwords }

/-- A call paints a batch, or nothing. -/
theorem step_cases (s : Canvas) (c : Call) :
    (∃ ctx n, Paints s ctx n (step s c)) ∨ Unpainted s (step s c) := by
  unfold step
  split
  next s' hcall =>
    cases c with
    | setPixels ctx positions colors =>
        cases hres : setPixels s ctx positions colors with
        | error e =>
            rw [call, hres] at hcall
            cases hcall
        | ok r =>
            rw [call, hres] at hcall
            cases hcall
            exact .inl ⟨ctx, positions.length, setPixels_ok hres⟩
    | setPaused ctx p =>
        obtain ⟨-, -, hrest⟩ := bind_ok hcall
        cases hrest
        exact .inr ⟨rfl, rfl, rfl, rfl⟩
  next => exact .inr ⟨rfl, rfl, rfl, rfl⟩

/-- While the contract is paused, nothing is painted. -/
theorem unpainted_of_paused (hpaused : s.paused = true) (c : Call) : Unpainted s (step s c) := by
  rcases step_cases s c with ⟨ctx, n, hpaints⟩ | hunpainted
  · rw [hpaints.unpaused] at hpaused
    cases hpaused
  · exact hunpainted

end Calls

-- ============================================================ the accounts

/-- The three counters agree, no block is over its cap, and every stored
pixel is in the palette. -/
structure Accounted (s : Canvas) : Prop where
  artists : s.totalPixels.toNat = ∑ a, (s.pixelsBy a).toNat
  blocks : s.totalPixels.toNat = ∑ b, (s.paintedInBlock b).toNat
  cap : ∀ b, s.paintedInBlock b ≤ 1024
  palette : ∀ pos, pos < 4096 → ∃ c, pixel s pos = .ok c ∧ c < 16

/-- .. with the palette said of the words. -/
structure CanvasInv (s : Canvas) : Prop where
  artists : s.totalPixels.toNat = ∑ a, (s.pixelsBy a).toNat
  blocks : s.totalPixels.toNat = ∑ b, (s.paintedInBlock b).toNat
  cap : ∀ b, s.paintedInBlock b ≤ BLOCK_PIXEL_CAP
  words : ∀ i, Paletted (s.words i)

section Inv

variable {s s' : Canvas} {ctx : CallContext} {n : Nat}

/-- `pixel` reads a lane of the position's word. -/
theorem pixel_eq {pos : UInt16} (hpos : pos < 4096) :
    ∃ (hi : pos.toNat / 32 < WORDS) (c : UInt8), pixel s pos = .ok c
      ∧ c.toBitVec = lane 8 (s.words ⟨pos.toNat / 32, hi⟩) (pos.toNat % 32) := by
  have hlt : pos.toNat < 4096 := hpos
  have hguard : pos.toBitVec.setWidth 256 < PIXELS := by
    rw [BitVec.lt_def, BitVec.toNat_setWidth_of_le (by omega)]
    exact hlt
  have hidx : ((pos >>> 5).toBitVec.setWidth 256).toNat = pos.toNat / 32 := by
    rw [BitVec.toNat_setWidth_of_le (by omega)]
    show (pos >>> 5).toNat = _
    rw [UInt16.toNat_shiftRight, Nat.shiftRight_eq_div_pow]
    rfl
  have hi : pos.toNat / 32 < WORDS := by
    show pos.toNat / 32 < 128
    omega
  have hshift : ((pos &&& 31) <<< 3).toNat = pos.toNat % 32 * 8 := by
    rw [UInt16.toNat_shiftLeft, UInt16.toNat_and]
    have hmod : pos.toNat &&& (31 : UInt16).toNat = pos.toNat % 32 :=
      Nat.and_two_pow_sub_one_eq_mod pos.toNat 5
    have hthree : (3 : UInt16).toNat % 16 = 3 := rfl
    rw [hmod, Nat.shiftLeft_eq, hthree]
    omega
  refine ⟨hi, ⟨(s.words ⟨_, hi⟩ >>> ((pos &&& 31) <<< 3).toNat).setWidth 8⟩, ?_, ?_⟩
  · rw [pixel, require, if_pos hguard, readWord]
    simp only [hidx, dif_pos hi]
    rfl
  · rw [hshift]
    rfl

theorem CanvasInv.accounted (h : CanvasInv s) : Accounted s where
  artists := h.artists
  blocks := h.blocks
  cap := h.cap
  palette := by
    intro pos hpos
    obtain ⟨hi, c, hpixel, hlane⟩ := pixel_eq hpos
    have hlt := h.words ⟨_, hi⟩ (pos.toNat % 32) (Nat.mod_lt _ (by omega))
    rw [← hlane] at hlt
    exact ⟨c, hpixel, hlt⟩

theorem CanvasInv.paints (h : CanvasInv s) (hp : Paints s ctx n s') : CanvasInv s' := by
  obtain ⟨pixels, hpixels, hby⟩ := hp.artist
  obtain ⟨painted, hpainted, hcap, hin⟩ := hp.block
  refine ⟨?_, ?_, fun b => ?_, hp.words h.words⟩
  · rw [hp.total, hby, sum_update _ _ hpixels, h.artists]
  · rw [hp.total, hin, sum_update _ _ hpainted, h.blocks]
  · rw [hin]
    by_cases hb : b = ctx.blockNumber
    · rw [hb, Function.update_self]
      exact hcap
    · rw [Function.update_of_ne hb]
      exact h.cap b

theorem CanvasInv.unpainted (h : CanvasInv s) (hu : Unpainted s s') : CanvasInv s' := by
  obtain ⟨hwords, htotal, hby, hin⟩ := hu
  refine ⟨?_, ?_, ?_, ?_⟩
  · rw [htotal, hby]
    exact h.artists
  · rw [htotal, hin]
    exact h.blocks
  · rw [hin]
    exact h.cap
  · rw [hwords]
    exact h.words

theorem canvasInv_deploy (sender : SolAddress) : CanvasInv (deploy sender) where
  artists := (Finset.sum_eq_zero fun _ _ => rfl).symm
  blocks := (Finset.sum_eq_zero fun _ _ => rfl).symm
  cap := fun b => Nat.zero_le _
  words := fun i j hj => by
    show lane 8 (0 : U256) j < 16
    rw [lane_zero]
    decide

theorem canvasInv_run (deployer : SolAddress) (calls : List Call) :
    CanvasInv (run deployer calls) := by
  induction calls using List.reverseRecOn with
  | nil => exact canvasInv_deploy deployer
  | append_singleton calls c ih =>
      rw [run, List.foldl_append]
      rcases step_cases (run deployer calls) c with ⟨ctx, n, hpaints⟩ | hunpainted
      · exact ih.paints hpaints
      · exact ih.unpainted hunpainted

end Inv

/-- After any calls, from any senders, in any blocks: the counters agree, the
cap holds, the pixels are in the palette, and a call while the contract is
paused paints nothing. -/
theorem canvas_accounted (deployer : SolAddress) (calls : List Call) :
    Accounted (run deployer calls) ∧ ∀ c, (run deployer calls).paused = true →
      Unpainted (run deployer calls) (step (run deployer calls) c) :=
  ⟨(canvasInv_run deployer calls).accounted, fun c hpaused => unpainted_of_paused hpaused c⟩

end KoinosEvm.Proofs
