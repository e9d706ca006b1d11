/-
The parser as a plan.

`parse_raw_tx` decodes everything it can before it touches the crypto
seam: one hash of one payload, one recovery. So its pure part is a value,
the same in every monad (`parseRawTx_planned`), and what the parser does
on syscalls is what `recoverOver` does. No law of the RLP codec is needed
for this.
-/
import KoinosEvm.Proofs.TxCanonical

namespace KoinosEvm.Proofs

open Engine

/-- Hash the payload, recover the sender, fill it in. -/
def recoverOver {m : Type → Type} [Monad m] (crypto : Crypto m) (payload : Bytes)
    (p : ParsedTx) : ExceptT TxParseError m ParsedTx := do
  let signingHash ← crypto.keccak256 payload
  let sender ← crypto.recoverSender signingHash p.r p.s p.yParity
  return { p with sender := sender }

/-- The pure part of a parse: its error, or the payload to hash and the
fields, the sender aside. -/
abbrev Plan := Except TxParseError (Bytes × ParsedTx)

/-- What is left to do. -/
def Plan.act {m : Type → Type} [Monad m] (crypto : Crypto m) :
    Plan → ExceptT TxParseError m ParsedTx
  | .error e => throw e
  | .ok (payload, p) => recoverOver crypto payload p

/-- A parser in every monad. -/
abbrev Parser := (m : Type → Type) → [Monad m] → Crypto m → ExceptT TxParseError m ParsedTx

/-- One plan serves every monad, and it has a chain id. -/
def Planned (parser : Parser) : Prop :=
  ∃ plan : Plan, (∀ payload p, plan = .ok (payload, p) → p.chainId.isSome = true) ∧
    ∀ (m : Type → Type) [Monad m] [LawfulMonad m] (crypto : Crypto m),
      parser m crypto = plan.act crypto

theorem planned_throw (e : TxParseError) : Planned fun _ _ _ => throw e := by
  refine ⟨.error e, ?_, ?_⟩
  · intro payload p h
    cases h
  · intro m _ _ crypto
    rfl

/-- A pure step of the parser either ends it or goes on with its value. -/
theorem planned_bind {α : Type} {x : Except TxParseError α} {f : α → Parser}
    (h : ∀ a, x = .ok a → Planned (f a)) :
    Planned fun m _ crypto => liftM x >>= fun a => f a m crypto := by
  cases x with
  | error e =>
      obtain ⟨plan, hc, hplan⟩ := planned_throw e
      refine ⟨plan, hc, ?_⟩
      intro m _ _ crypto
      exact (throw_bind e _).trans (hplan m crypto)
  | ok a =>
      obtain ⟨plan, hc, hplan⟩ := h a rfl
      refine ⟨plan, hc, ?_⟩
      intro m _ _ crypto
      exact (liftM_ok_bind a _).trans (hplan m crypto)

/-- A check of the parser either ends it or goes on. -/
theorem planned_check {c : Prop} [Decidable c] {e : TxParseError} {k : Unit → Parser}
    (h : ¬ c → Planned (k ())) :
    Planned fun m _ crypto => if c then throw e >>= fun u => k u m crypto else k () m crypto := by
  by_cases hc : c
  · obtain ⟨plan, hsome, hplan⟩ := planned_throw e
    refine ⟨plan, hsome, ?_⟩
    intro m _ _ crypto
    exact (if_pos hc).trans ((throw_bind e _).trans (hplan m crypto))
  · obtain ⟨plan, hsome, hplan⟩ := h hc
    refine ⟨plan, hsome, ?_⟩
    intro m _ _ crypto
    exact (if_neg hc).trans (hplan m crypto)

/-- The effects at the end of a parse. -/
theorem planned_recover (payload : Bytes) {p : ParsedTx} (h : p.chainId.isSome = true) :
    Planned fun _ _ crypto => recoverOver crypto payload p := by
  refine ⟨.ok (payload, p), ?_, ?_⟩
  · intro payload' p' heq
    injection heq with heq
    injection heq with _ hp
    rw [← hp]
    exact h
  · intro m _ _ crypto
    rfl

variable (rlp : AlloyRlp)

theorem parseLegacy_planned (raw : Bytes) :
    Planned fun _ _ crypto => parseLegacy rlp crypto raw := by
  unfold parseLegacy
  apply planned_bind
  intro items _
  match items with
  | [i0, i1, i2, i3, i4, i5, i6, i7, i8] =>
      apply planned_bind
      intro nonce _
      apply planned_bind
      intro gasPrice _
      apply planned_bind
      intro gasLimit _
      apply planned_bind
      intro toAddr _
      apply planned_bind
      intro value _
      apply planned_bind
      intro data _
      apply planned_bind
      intro vRaw _
      apply planned_bind
      intro r _
      apply planned_bind
      intro s _
      apply planned_bind
      intro cy _
      obtain ⟨chainId, yParity⟩ := cy
      apply planned_bind
      intro _ _
      exact planned_recover _ (p := {
        kind := .eip155, chainId := some chainId, nonce := nonce
        gasLimit := gasLimit, maxFeePerGas := gasPrice
        maxPriorityFeePerGas := gasPrice, toAddr := toAddr, value := value, data := data
        r := r, s := s, yParity := yParity, sender := FixedBytes.zero 20 }) rfl
  | [] | [_] | [_, _] | [_, _, _] | [_, _, _, _] | [_, _, _, _, _] | [_, _, _, _, _, _]
  | [_, _, _, _, _, _, _] | [_, _, _, _, _, _, _, _]
  | _ :: _ :: _ :: _ :: _ :: _ :: _ :: _ :: _ :: _ :: _ => exact planned_throw _

theorem parseEip1559_planned (payload : Bytes) :
    Planned fun _ _ crypto => parseEip1559 rlp crypto payload := by
  unfold parseEip1559
  apply planned_bind
  intro items _
  match items with
  | [i0, i1, i2, i3, i4, i5, i6, i7, i8, i9, i10, i11] =>
      apply planned_bind
      intro chainId _
      apply planned_bind
      intro nonce _
      apply planned_bind
      intro maxPriority _
      apply planned_bind
      intro maxFee _
      apply planned_check
      intro _
      apply planned_bind
      intro gasLimit _
      apply planned_bind
      intro toAddr _
      apply planned_bind
      intro value _
      apply planned_bind
      intro data _
      apply planned_bind
      intro _ _
      apply planned_bind
      intro yParityRaw _
      apply planned_bind
      intro r _
      apply planned_bind
      intro s _
      apply planned_check
      intro _
      apply planned_bind
      intro _ _
      exact planned_recover _ (p := {
        kind := .eip1559, chainId := some chainId, nonce := nonce
        gasLimit := gasLimit, maxFeePerGas := maxFee
        maxPriorityFeePerGas := maxPriority, toAddr := toAddr, value := value, data := data
        r := r, s := s, yParity := yParityRaw.toUInt8, sender := FixedBytes.zero 20 }) rfl
  | [] | [_] | [_, _] | [_, _, _] | [_, _, _, _] | [_, _, _, _, _] | [_, _, _, _, _, _]
  | [_, _, _, _, _, _, _] | [_, _, _, _, _, _, _, _] | [_, _, _, _, _, _, _, _, _]
  | [_, _, _, _, _, _, _, _, _, _] | [_, _, _, _, _, _, _, _, _, _, _]
  | _ :: _ :: _ :: _ :: _ :: _ :: _ :: _ :: _ :: _ :: _ :: _ :: _ :: _ =>
      exact planned_throw _

/-- Every parse has a plan. -/
theorem parseRawTx_planned (raw : Bytes) :
    Planned fun _ _ crypto => parseRawTx rlp crypto raw := by
  cases raw with
  | nil => exact planned_throw _
  | cons first rest =>
      simp only [parseRawTx]
      by_cases hlist : 0xc0 ≤ first
      · simp only [if_pos hlist]
        exact parseLegacy_planned rlp (first :: rest)
      · simp only [if_neg hlist]
        by_cases htyped : first = 0x02
        · simp only [if_pos htyped]
          exact parseEip1559_planned rlp rest
        · simp only [if_neg htyped]
          exact planned_throw _

end KoinosEvm.Proofs
