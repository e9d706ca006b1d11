/-
The shared pixel canvas (scripts/forge/src/PixelCanvas.sol).

A `uint256` is a `U256`, and its checked addition reverts on overflow
(`checkedAdd`). A call that reverts has no state: `Except` gives back the
error, and whoever runs calls keeps the state from before. An array that is
passed in is a list of elements in their range, which the ABI decoder sees
to, and its length a `Nat`.
-/
import KoinosEvm.Basic
import Mathlib.Data.BitVec
import Mathlib.Logic.Function.Basic

namespace KoinosEvm.Contracts

-- ============================================================== solidity

/-- `address`. -/
abbrev SolAddress := BitVec 160

/-- Why a call reverts: a `require` with its text, or a `Panic(uint256)`. -/
inductive Revert where
  | require (msg : String)
  | panic (code : Nat)
  deriving DecidableEq

/-- `require`. -/
def require (cond : Prop) [Decidable cond] (msg : String) : Except Revert Unit :=
  if cond then .ok () else .error (.require msg)

/-- `a + b` of checked arithmetic. -/
def checkedAdd (a b : U256) : Except Revert U256 :=
  if a.toNat + b.toNat < 2 ^ 256 then .ok (a + b) else .error (.panic 0x11)

/-- `msg.sender` and `block.number`. -/
structure CallContext where
  sender : SolAddress
  blockNumber : U256

namespace PixelCanvas

-- ============================================================= constants

def PIXELS : U256 := 4096
def WORDS : Nat := 128
def MAX_BATCH : Nat := 128
def BLOCK_PIXEL_CAP : U256 := 1024

-- ================================================================= state

/-- `_words`: 32 pixels of 8 bits in each word. -/
abbrev Words := Fin WORDS → U256

/-- The storage of the contract. -/
structure Canvas where
  words : Words
  totalPixels : U256
  pixelsBy : SolAddress → U256
  paintedInBlock : U256 → U256
  owner : SolAddress
  paused : Bool

/-- The constructor. -/
def deploy (sender : SolAddress) : Canvas where
  words := fun _ => 0
  totalPixels := 0
  pixelsBy := fun _ => 0
  paintedInBlock := fun _ => 0
  owner := sender
  paused := false

/-- The event `PixelsSet`. -/
structure PixelsSet where
  artist : SolAddress
  positions : List UInt16
  colors : List UInt8
  deriving DecidableEq

/-- `_words[i]`. -/
def readWord (words : Words) (i : U256) : Except Revert U256 :=
  if h : i.toNat < WORDS then .ok (words ⟨i.toNat, h⟩) else .error (.panic 0x32)

/-- `_words[i] = word`. -/
def writeWord (words : Words) (i word : U256) : Except Revert Words :=
  if h : i.toNat < WORDS then .ok (Function.update words ⟨i.toNat, h⟩ word)
  else .error (.panic 0x32)

-- ============================================================== painting

/-- `type(uint256).max`: no word is loaded. -/
def noWord : U256 := BitVec.allOnes 256

/-- The loop's variables, and the words written so far. -/
structure Cursor where
  words : Words
  curIdx : U256
  curWord : U256

/-- `pos >> 5`. -/
def wordIdx (pos : U256) : U256 := pos >>> 5

/-- `(pos & 31) << 3`. -/
def shiftOf (pos : U256) : U256 := (pos &&& 31) <<< 3

/-- The loaded word, if one is, is written back. -/
def writeBack (c : Cursor) : Except Revert Words :=
  if c.curIdx ≠ noWord then writeWord c.words c.curIdx c.curWord else .ok c.words

/-- The word of the position is the loaded one. -/
def loadWord (c : Cursor) (idx : U256) : Except Revert Cursor :=
  if idx ≠ c.curIdx then do
    let words ← writeBack c
    let word ← readWord words idx
    .ok ⟨words, idx, word⟩
  else .ok c

/-- One round of the loop. -/
def paintOne (c : Cursor) (p : UInt16 × UInt8) : Except Revert Cursor := do
  let pos := p.1.toBitVec.setWidth 256
  let color := p.2.toBitVec.setWidth 256
  require (pos < PIXELS) "pos out of range"
  require (color < 16) "color out of range"
  let c ← loadWord c (wordIdx pos)
  .ok { c with
    curWord := (c.curWord &&& ~~~((0xff : U256) <<< shiftOf pos)) ||| (color <<< shiftOf pos) }

/-- The loop, and the write behind it. -/
def paint (words : Words) (batch : List (UInt16 × UInt8)) : Except Revert Words := do
  let c ← batch.foldlM paintOne ⟨words, noWord, 0⟩
  writeWord c.words c.curIdx c.curWord

/-- `setPixels`: the storage after it, and its event. -/
def setPixels (s : Canvas) (ctx : CallContext) (positions : List UInt16)
    (colors : List UInt8) : Except Revert (Canvas × PixelsSet) := do
  require (s.paused = false) "paused"
  let n := positions.length
  require (n = colors.length) "length mismatch"
  require (1 ≤ n ∧ n ≤ MAX_BATCH) "batch size"
  let painted ← checkedAdd (s.paintedInBlock ctx.blockNumber) (BitVec.ofNat 256 n)
  require (painted ≤ BLOCK_PIXEL_CAP) "block pixel cap"
  let words ← paint s.words (positions.zip colors)
  let totalPixels ← checkedAdd s.totalPixels (BitVec.ofNat 256 n)
  let pixels ← checkedAdd (s.pixelsBy ctx.sender) (BitVec.ofNat 256 n)
  .ok ({ s with
    words := words
    totalPixels := totalPixels
    pixelsBy := Function.update s.pixelsBy ctx.sender pixels
    paintedInBlock := Function.update s.paintedInBlock ctx.blockNumber painted },
    ⟨ctx.sender, positions, colors⟩)

/-- `setPaused`. -/
def setPaused (s : Canvas) (ctx : CallContext) (p : Bool) : Except Revert Canvas := do
  require (ctx.sender = s.owner) "not owner"
  .ok { s with paused := p }

-- ================================================================= reads

/-- `pixel`. -/
def pixel (s : Canvas) (pos : UInt16) : Except Revert UInt8 := do
  require (pos.toBitVec.setWidth 256 < PIXELS) "pos out of range"
  let word ← readWord s.words ((pos >>> 5).toBitVec.setWidth 256)
  .ok ⟨(word >>> ((pos &&& 31) <<< 3).toNat).setWidth 8⟩

/-- `out[i] = b` of a `bytes memory`. -/
def writeByte (out : Bytes) (i : U256) (b : UInt8) : Except Revert Bytes :=
  if i.toNat < out.length then .ok (out.set i.toNat b) else .error (.panic 0x32)

/-- The inner loop of `getCanvas`: `out[base + j] = bytes1(uint8(word >> (j << 3)))`. -/
def canvasByte (base word : U256) (out : Bytes) (j : Nat) : Except Revert Bytes := do
  let target ← checkedAdd base (BitVec.ofNat 256 j)
  writeByte out target ⟨(word >>> (BitVec.ofNat 256 j <<< 3)).setWidth 8⟩

/-- A round of the outer loop. A word that is zero is skipped: its bytes are. -/
def canvasWord (words : Words) (out : Bytes) (i : Nat) : Except Revert Bytes := do
  let word ← readWord words (BitVec.ofNat 256 i)
  if word = 0 then .ok out
  else (List.range 32).foldlM (canvasByte (BitVec.ofNat 256 i <<< 5) word) out

/-- `getCanvas`. -/
def getCanvas (s : Canvas) : Except Revert Bytes :=
  (List.range WORDS).foldlM (canvasWord s.words) (List.replicate PIXELS.toNat 0)

-- ================================================================= calls

/-- A transaction to the contract. -/
inductive Call where
  | setPixels (ctx : CallContext) (positions : List UInt16) (colors : List UInt8)
  | setPaused (ctx : CallContext) (p : Bool)

/-- The storage after a call, or the revert. -/
def call (s : Canvas) : Call → Except Revert Canvas
  | .setPixels ctx positions colors => (setPixels s ctx positions colors).map Prod.fst
  | .setPaused ctx p => setPaused s ctx p

/-- A call that reverts leaves the storage unchanged. -/
def step (s : Canvas) (c : Call) : Canvas :=
  match call s c with
  | .ok s' => s'
  | .error _ => s

/-- The storage after calls, from the deployment on. -/
def run (deployer : SolAddress) (calls : List Call) : Canvas :=
  calls.foldl step (deploy deployer)

end PixelCanvas

end KoinosEvm.Contracts
