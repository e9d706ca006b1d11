/-
What the head poller pushes.

A tick pushes a run of heights that follow each other, unless a height that
is not visible yet stands before one that is: that one is pushed and the
poller goes on from it, and the height before it is not tried again. A head
of zero is taken for no head at all, so the next one is not replayed either.
Where neither happens (`HeadKept`), each height is pushed once and in order,
and what is left out was more than ten below a head (`heads_in_order`).
-/
import KoinosEvm.Lib.Fallible
import KoinosEvm.Proxy.NewHeads

namespace KoinosEvm.Proofs

open Lib Proxy

-- ============================================================ the property

/-- The first head that the ticks observe. -/
def firstHead (ticks : List HeadTick) : Option UInt64 := ticks.findSome? HeadTick.head

/-- A head was more than ten above the height. -/
def Outrun (ticks : List HeadTick) (h : UInt64) : Prop :=
  ∃ t ∈ ticks, ∃ head, t.head = some head ∧ h.toNat + 10 < head.toNat

/-- Each height is pushed once, in order; one above the first head is left out
only where a head was more than ten above it. -/
structure HeadsInOrder (ticks : List HeadTick) (p : HeadPoller) : Prop where
  increasing : p.heightsPushed.Pairwise (· < ·)
  skipped : ∀ first h h', firstHead ticks = some first → first < h → h < h' →
    h' ∈ p.heightsPushed → h ∉ p.heightsPushed → Outrun ticks h

-- =========================================================== the condition

/-- A height that is not visible yet. -/
def hidden (block : UInt64 → Except RpcFailure Value) (h : UInt64) : Prop :=
  block h = .ok .null

/-- The heights of a tick's loop up to the first that fails. -/
def reached (block : UInt64 → Except RpcFailure Value) (hs : List UInt64) : List UInt64 :=
  hs.takeWhile fun h => (block h).isOk

/-- Where the loop of a tick begins. -/
def loopStart (p : HeadPoller) (height : UInt64) : Nat :=
  max (p.observed height + 1).toNat (height.toNat - 10)

/-- A tick takes no head after one of zero for the first, does not overflow,
and finds no height hidden before one that it reaches and that is not. -/
structure HeadKept (checks : Checks) (seen : Bool) (p : HeadPoller) (t : HeadTick) : Prop where
  known : ∀ height, t.head = some height → seen = true → p.lastHead = 0 → height = 0
  fits : ∀ height, t.head = some height → checks = .on ∨ (p.observed height).toNat + 1 < 2 ^ 64
  shown : ∀ height, t.head = some height →
    (reached t.block (HeadPoller.heights (loopStart p height) height)).Pairwise fun h h' =>
      hidden t.block h → hidden t.block h'

/-- All ticks of a run do; `seen` once a head has been observed. -/
def AllHeadsKept (checks : Checks) : Bool → HeadPoller → List HeadTick → Prop
  | _, _, [] => True
  | seen, p, t :: ts =>
      HeadKept checks seen p t
        ∧ ∀ p', p.tick checks t = .ok p' → AllHeadsKept checks (seen || t.head.isSome) p' ts

-- ================================================================= the loop

section Loop

variable {block : UInt64 → Except RpcFailure Value}

/-- What the loop pushes. -/
def headsOf (block : UInt64 → Except RpcFailure Value) : List UInt64 → List (UInt64 × Value)
  | [] => []
  | h :: hs =>
      match block h with
      | .ok .null => headsOf block hs
      | .ok obj => (h, withoutTransactions obj) :: headsOf block hs
      | .error _ => []

theorem headsOf_visible {h : UInt64} {hs : List UInt64} {obj : Value} (hobj : block h = .ok obj)
    (hne : obj ≠ .null) :
    headsOf block (h :: hs) = (h, withoutTransactions obj) :: headsOf block hs := by
  rw [headsOf, hobj]
  split
  next hnull => exact absurd (Except.ok.inj hnull) hne
  next heq => rw [← Except.ok.inj heq]
  next herror => cases herror

theorem pushHeads_eq (hs : List UInt64) (p : HeadPoller) :
    HeadPoller.pushHeads block hs p
      = ⟨((headsOf block hs).getLast?.map Prod.fst).getD p.lastHead,
          p.pushed ++ headsOf block hs⟩ := by
  induction hs generalizing p with
  | nil =>
      rw [HeadPoller.pushHeads, headsOf, List.append_nil]
      rfl
  | cons h hs ih =>
      rw [HeadPoller.pushHeads]
      split
      next hnull =>
        rw [headsOf, hnull]
        exact ih p
      next obj hne hobj =>
        rw [headsOf_visible hobj hne, ih, List.getLast?_cons, List.append_assoc]
        cases (headsOf block hs).getLast? with
        | none => rfl
        | some last => rfl
      next herror =>
        rw [headsOf, herror, List.append_nil]
        rfl

/-- Where all is hidden, nothing is pushed. -/
theorem headsOf_hidden {hs : List UInt64} (h : ∀ x ∈ reached block hs, hidden block x) :
    headsOf block hs = [] := by
  induction hs with
  | nil => rfl
  | cons x hs ih =>
      cases hx : block x with
      | error e => rw [headsOf, hx]
      | ok v =>
          have hreached : reached block (x :: hs) = x :: reached block hs := by
            rw [reached, List.takeWhile_cons, hx]
            rfl
          rw [hreached] at h
          obtain ⟨hhead, htail⟩ := List.forall_mem_cons.mp h
          have hnull : block x = .ok .null := hhead
          rw [headsOf, hnull]
          exact ih htail

/-- Where no hidden height stands before another, what is pushed follows each
other. -/
theorem headsOf_prefix {hs : List UInt64}
    (h : (reached block hs).Pairwise fun x y => hidden block x → hidden block y) :
    ((headsOf block hs).map Prod.fst) <+: hs := by
  induction hs with
  | nil => exact List.prefix_refl _
  | cons x hs ih =>
      cases hx : block x with
      | error e =>
          rw [headsOf, hx]
          exact List.nil_prefix
      | ok v =>
          have hreached : reached block (x :: hs) = x :: reached block hs := by
            rw [reached, List.takeWhile_cons, hx]
            rfl
          rw [hreached, List.pairwise_cons] at h
          rw [headsOf, hx]
          split
          next heq =>
            rw [headsOf_hidden fun y hy => h.1 y hy (hx.trans heq)]
            exact List.nil_prefix
          next => exact (List.prefix_cons_inj x).mpr (ih h.2)
          next heq => cases heq

end Loop

-- ============================================================== the heights

section Heights

variable {first : Nat} {height h : UInt64}

/-- The numbers of the range are heights. -/
theorem toNat_of_range {n : Nat} (hn : n ∈ List.range' first (height.toNat + 1 - first)) :
    (UInt64.ofNat n).toNat = n ∧ first ≤ n ∧ n ≤ height.toNat := by
  have hbound := height.toNat_lt
  have hrange := List.mem_range'_1.mp hn
  have hle : n ≤ height.toNat := by omega
  exact ⟨UInt64.toNat_ofNat_of_lt' (Nat.lt_of_le_of_lt hle hbound), hrange.1, hle⟩

theorem mem_heights : h ∈ HeadPoller.heights first height ↔ first ≤ h.toNat ∧ h ≤ height := by
  rw [HeadPoller.heights, List.mem_map, UInt64.le_iff_toNat_le]
  constructor
  · rintro ⟨n, hn, rfl⟩
    obtain ⟨heq, hfirst, hle⟩ := toNat_of_range hn
    rw [heq]
    exact ⟨hfirst, hle⟩
  · intro hh
    exact ⟨h.toNat, List.mem_range'_1.mpr (by omega), UInt64.ofNat_toNat⟩

theorem heights_increasing (first : Nat) (height : UInt64) :
    (HeadPoller.heights first height).Pairwise (· < ·) := by
  rw [HeadPoller.heights, List.pairwise_map]
  refine List.Pairwise.imp_of_mem ?_ (List.pairwise_lt_range' (s := first))
  intro m n hm hn hmn
  rw [UInt64.lt_iff_toNat_lt, (toNat_of_range hm).1, (toNat_of_range hn).1]
  exact hmn

end Heights

-- ================================================================ the ticks

/-- What holds after some of the ticks. -/
structure HeadInv (ticks : List HeadTick) (p : HeadPoller) : Prop where
  increasing : p.heightsPushed.Pairwise (· < ·)
  bounded : ∀ h ∈ p.heightsPushed, h ≤ p.lastHead
  covered : ∀ first h, firstHead ticks = some first → first < h → h ≤ p.lastHead →
    h ∉ p.heightsPushed → Outrun ticks h

section Ticks

variable {ticks : List HeadTick} {p : HeadPoller} {t : HeadTick} {height : UInt64}

theorem heightsPushed_append {last : UInt64} {more : List (UInt64 × Value)} :
    HeadPoller.heightsPushed ⟨last, p.pushed ++ more⟩ = p.heightsPushed ++ more.map Prod.fst :=
  List.map_append

/-- More heights, all after the last one, with none left out before the last
of them but those outrun. -/
theorem HeadInv.append (h : HeadInv ticks p) {more : List (UInt64 × Value)}
    (hincreasing : (more.map Prod.fst).Pairwise (· < ·))
    (hafter : ∀ x ∈ more.map Prod.fst, p.lastHead < x)
    (hgap : ∀ x, p.lastHead < x → ∀ y ∈ more.map Prod.fst, x ≤ y →
      x ∉ more.map Prod.fst → Outrun ticks x) :
    HeadInv ticks ⟨(more.getLast?.map Prod.fst).getD p.lastHead, p.pushed ++ more⟩ := by
  rcases List.eq_nil_or_concat' more with rfl | ⟨before, last, rfl⟩
  · rw [List.append_nil]
    exact h
  · rw [List.getLast?_concat]
    have hlast : last.1 ∈ (before ++ [last]).map Prod.fst :=
      List.mem_map_of_mem (List.mem_append_right before (List.mem_singleton_self last))
    have hupto : ∀ x ∈ (before ++ [last]).map Prod.fst, x ≤ last.1 := by
      intro x hx
      rw [List.map_append, List.pairwise_append] at hincreasing
      rw [List.map_append] at hx
      rcases List.mem_append.mp hx with hx | hx
      · exact UInt64.le_of_lt (hincreasing.2.2 x hx last.1 (List.mem_singleton_self _))
      · rw [List.mem_singleton.mp hx]
        exact UInt64.le_refl _
    refine ⟨?_, ?_, ?_⟩
    · rw [heightsPushed_append]
      exact List.pairwise_append.mpr ⟨h.increasing, hincreasing,
        fun x hx y hy => UInt64.lt_of_le_of_lt (h.bounded x hx) (hafter y hy)⟩
    · intro x hx
      rw [heightsPushed_append] at hx
      rcases List.mem_append.mp hx with hx | hx
      · exact UInt64.le_trans (h.bounded x hx) (UInt64.le_of_lt (hafter last.1 hlast))
      · exact hupto x hx
    · intro first x hfirst hlt hle hnot
      rw [heightsPushed_append, List.mem_append, not_or] at hnot
      by_cases hold : x ≤ p.lastHead
      · exact h.covered first x hfirst hlt hold hnot.1
      · exact hgap x (UInt64.not_le.mp hold) last.1 hlast hle hnot.2

/-- The loop of a tick, from the height after the last one. -/
theorem HeadInv.loop (h : HeadInv ticks p) (ht : t ∈ ticks) (hhead : t.head = some height)
    {next : UInt64} (hnext : next.toNat = p.lastHead.toNat + 1)
    (hshown : (reached t.block (HeadPoller.heights (max next.toNat (height.toNat - 10))
      height)).Pairwise fun h h' => hidden t.block h → hidden t.block h') :
    HeadInv ticks (HeadPoller.pushHeads t.block
      (HeadPoller.heights (max next.toNat (height.toNat - 10)) height) p) := by
  rw [pushHeads_eq]
  obtain ⟨rest, hrest⟩ := headsOf_prefix hshown
  have hsorted := heights_increasing (max next.toNat (height.toNat - 10)) height
  rw [← hrest, List.pairwise_append] at hsorted
  obtain ⟨hincreasing, -, hbefore⟩ := hsorted
  have hrange : ∀ x ∈ (headsOf t.block (HeadPoller.heights
      (max next.toNat (height.toNat - 10)) height)).map Prod.fst,
      p.lastHead < x ∧ x ≤ height := by
    intro x hx
    have hmem := List.mem_append_left rest hx
    rw [hrest] at hmem
    have hbounds := mem_heights.mp hmem
    exact ⟨UInt64.lt_iff_toNat_lt.mpr (by omega), hbounds.2⟩
  refine h.append hincreasing (fun x hx => (hrange x hx).1) ?_
  intro x hx y hy hxy hnot
  by_cases hfar : x.toNat + 10 < height.toNat
  · exact ⟨t, ht, height, hhead, hfar⟩
  · -- in the range, so pushed before `y` or left for later
    have hlt := UInt64.lt_iff_toNat_lt.mp hx
    have hmem : x ∈ HeadPoller.heights (max next.toNat (height.toNat - 10)) height :=
      mem_heights.mpr ⟨by omega, UInt64.le_trans hxy (hrange y hy).2⟩
    rw [← hrest] at hmem
    rcases List.mem_append.mp hmem with hmem | hmem
    · exact absurd hmem hnot
    · exact absurd hxy (UInt64.not_le.mpr (hbefore y hy x hmem))

/-- A tick without a defect. -/
theorem HeadInv.tick {checks : Checks} {seen : Bool} {p' : HeadPoller} (h : HeadInv ticks p)
    (ht : t ∈ ticks)
    (hnew : seen = false → p = .init ∧ ∀ height, t.head = some height →
      firstHead ticks = some height)
    (hkept : HeadKept checks seen p t) (hstep : p.tick checks t = .ok p') :
    HeadInv ticks p' := by
  rw [HeadPoller.tick] at hstep
  cases hhead : t.head with
  | none =>
      rw [hhead] at hstep
      cases hstep
      exact h
  | some height =>
      rw [hhead] at hstep
      obtain ⟨next, hnext, hloop⟩ := bind_ok hstep
      cases hloop
      have hfits : (p.observed height).toNat + 1 < 2 ^ 64 := by
        rcases hkept.fits height hhead with rfl | hfits
        · exact nextU64_on hnext
        · exact hfits
      have hbegun : HeadInv ticks { p with lastHead := p.observed height } := by
        cases seen with
        | false =>
            -- the first head, from which on all is covered
            obtain ⟨rfl, hfirst⟩ := hnew rfl
            refine ⟨List.Pairwise.nil, fun x hx => absurd hx List.not_mem_nil, ?_⟩
            intro first x hsome hlt hle _
            rw [hfirst height hhead] at hsome
            cases hsome
            exact absurd hle (UInt64.not_le.mpr hlt)
        | true =>
            have hsame : p.observed height = p.lastHead := by
              rw [HeadPoller.observed]
              split
              next hzero => rw [hzero, hkept.known height hhead rfl hzero]
              next => rfl
            rw [hsame]
            exact h
      have heq := nextU64_toNat hnext hfits
      have hstart : loopStart p height = max next.toNat (height.toNat - 10) := by
        rw [loopStart, heq, UInt64.toNat_add, UInt64.toNat_one, Nat.mod_eq_of_lt hfits]
      have hshown := hkept.shown height hhead
      rw [hstart] at hshown
      exact hbegun.loop ht hhead heq hshown

theorem HeadInv.run {checks : Checks} {seen : Bool} {ts : List HeadTick} (h : HeadInv ticks p)
    (hsub : ∀ t ∈ ts, t ∈ ticks)
    (hnew : seen = false → p = .init ∧ firstHead ticks = firstHead ts)
    (hkept : AllHeadsKept checks seen p ts) : HeadInv ticks (HeadPoller.run checks p ts) := by
  induction ts generalizing p seen with
  | nil => exact h
  | cons t ts ih =>
      obtain ⟨ht, hts⟩ := List.forall_mem_cons.mp hsub
      obtain ⟨hkept, hrest⟩ := hkept
      rw [HeadPoller.run]
      split
      next p' hstep =>
        have hnext : HeadInv ticks p' := by
          refine h.tick ht (fun hseen => ?_) hkept hstep
          obtain ⟨hinit, hfirst⟩ := hnew hseen
          refine ⟨hinit, fun height hhead => ?_⟩
          rw [hfirst, firstHead, List.findSome?_cons, hhead]
        refine ih hnext hts (fun hseen => ?_) (hrest p' hstep)
        -- no head so far, so the tick did nothing
        obtain ⟨hseen, hnone⟩ := Bool.or_eq_false_iff.mp hseen
        obtain ⟨hinit, hfirst⟩ := hnew hseen
        rw [Option.isSome_eq_false_iff, Option.isNone_iff_eq_none] at hnone
        rw [HeadPoller.tick, hnone] at hstep
        cases hstep
        refine ⟨hinit, ?_⟩
        rw [hfirst, firstHead, List.findSome?_cons, hnone]
        rfl
      next => exact h

end Ticks

/-- In a run of ticks without a defect the heads come in order. -/
theorem heads_in_order (checks : Checks) (ticks : List HeadTick)
    (h : AllHeadsKept checks false .init ticks) :
    HeadsInOrder ticks (HeadPoller.run checks .init ticks) := by
  have hinit : HeadInv ticks .init :=
    ⟨List.Pairwise.nil, fun x hx => absurd hx List.not_mem_nil,
      fun first x _ hlt hle _ => absurd hle (UInt64.not_le.mpr
        (UInt64.lt_of_le_of_lt (UInt64.le_iff_toNat_le.mpr (Nat.zero_le _)) hlt))⟩
  have hinv := hinit.run (fun _ ht => ht) (fun _ => ⟨rfl, rfl⟩) h
  exact ⟨hinv.increasing, fun first x y hfirst hlt hxy hy hx =>
    hinv.covered first x hfirst hlt (UInt64.le_trans (UInt64.le_of_lt hxy) (hinv.bounded y hy)) hx⟩

-- =============================================================== small runs

/-- A reply to `get_head_info`. -/
def headAt (height : String) : Except String Value :=
  .ok (.object [("head_topology", .object [("height", .string height)])])

/-- A node at a height, one block of which it does not show. -/
def tickAt (height : String) (missing : UInt64) : HeadTick :=
  ⟨headAt height, fun h => .ok (if h = missing then .null else .object [])⟩

theorem headKept_of_head {checks : Checks} {seen : Bool} {p : HeadPoller} {t : HeadTick}
    (height : UInt64) (hhead : t.head = some height)
    (hknown : seen = true → p.lastHead = 0 → height = 0)
    (hfits : (p.observed height).toNat + 1 < 2 ^ 64)
    (hshown : (reached t.block (HeadPoller.heights (loopStart p height) height)).Pairwise
      fun h h' => hidden t.block h → hidden t.block h') : HeadKept checks seen p t := by
  refine ⟨?_, ?_, ?_⟩
  · intro height' hhead'
    cases hhead.symm.trans hhead'
    exact hknown
  · intro height' hhead'
    cases hhead.symm.trans hhead'
    exact Or.inr hfits
  · intro height' hhead'
    cases hhead.symm.trans hhead'
    exact hshown

/-- A block that is not there when the head is, and then is: no height is left
out. -/
theorem heads_in_order_late :
    AllHeadsKept .off false .init [tickAt "1" 0, tickAt "3" 3, tickAt "3" 0]
      ∧ HeadsInOrder [tickAt "1" 0, tickAt "3" 3, tickAt "3" 0]
          (HeadPoller.run .off .init [tickAt "1" 0, tickAt "3" 3, tickAt "3" 0]) := by
  have hkept : AllHeadsKept .off false .init [tickAt "1" 0, tickAt "3" 3, tickAt "3" 0] := by
    refine ⟨headKept_of_head 1 rfl (by decide) (by decide) List.Pairwise.nil, ?_⟩
    intro p' hstep
    cases hstep
    refine ⟨headKept_of_head 3 rfl (by decide) (by decide) ?_, ?_⟩
    · exact List.pairwise_pair.mpr fun h2 => by cases h2
    intro p' hstep
    cases hstep
    refine ⟨headKept_of_head 3 rfl (by decide) (by decide) ?_, ?_⟩
    · exact List.pairwise_singleton _ _
    intro p' hstep
    trivial
  exact ⟨hkept, heads_in_order .off [tickAt "1" 0, tickAt "3" 3, tickAt "3" 0] hkept⟩

/-- Height 2 is not visible when the head is 3, and 3 is: only 3 is pushed, and
2 is not tried again. -/
theorem hiddenHead_skipped :
    ¬ HeadsInOrder [tickAt "1" 0, tickAt "3" 2]
      (HeadPoller.run .off .init [tickAt "1" 0, tickAt "3" 2]) := by
  intro h
  have hpushed : (HeadPoller.run .off .init [tickAt "1" 0, tickAt "3" 2]).heightsPushed = [3] := rfl
  obtain ⟨t, ht, head, hhead, hfar⟩ := h.skipped 1 2 3 rfl (by decide) (by decide)
    (by rw [hpushed]; decide) (by rw [hpushed]; decide)
  have hlow : head = 1 ∨ head = 3 := by
    rcases List.mem_pair.mp ht with rfl | rfl
    · exact Or.inl (Option.some.inj hhead).symm
    · exact Or.inr (Option.some.inj hhead).symm
  rcases hlow with rfl | rfl
  · exact absurd hfar (by decide)
  · exact absurd hfar (by decide)

end KoinosEvm.Proofs
