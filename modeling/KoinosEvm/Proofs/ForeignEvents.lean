/-
What events of other contracts can do to an EVM receipt.

A Koinos receipt lists the events of every contract the transaction
called, each with its `source`. `decode_receipt_events` goes by name
alone. Its comment promises the engine's events; the result is the
engine's only as far as the foreign events in the array are inert, and
`foreignEvents_ignored_iff` says what inert means: no foreign `evm.log`
that decodes, no foreign failure report the engine does not make itself,
and no foreign gas or address report left as the last word with a value
of its own. A foreign payload that panics the reader takes the decoder
down with it.
-/
import KoinosEvm.Proofs.ReceiptSummary

namespace KoinosEvm.Proofs

open Proxy

-- ==================================================== the engine's share

/-- The event's `source` is the engine contract. -/
def fromEngine (engine : String) (ev : Value) : Bool :=
  ev.getStr "source" == some engine

/-- The subsequence of the engine's events. -/
def engineEvents (engine : String) (evs : List Value) : List Value :=
  evs.filter (fromEngine engine)

-- ====================================================== the last report

/-- A foreign report with no report behind it says what the engine's
last report before it says; `out` reads a report, or its absence, as the
decoder does. -/
def LastReportAgrees {α β : Type} (own : Value → Bool) (reports : Value → List α)
    (out : Option α → β) (evs : List Value) : Prop :=
  ∀ pre ev post v, evs = pre ++ ev :: post → own ev = false →
    (∀ e ∈ post, reports e = []) → (reports ev).getLast? = some v →
    out (some v) = out ((pre.filter own).flatMap reports).getLast?

/-- A split of `init ++ [e]` is at `e` or within `init`. -/
private theorem concat_split {α : Type} {init pre post : List α} {e x : α}
    (h : init ++ [e] = pre ++ x :: post) :
    (pre = init ∧ x = e ∧ post = []) ∨
      ∃ post', post = post' ++ [e] ∧ init = pre ++ x :: post' := by
  rcases List.eq_nil_or_concat post with rfl | ⟨post', y, rfl⟩
  · have h' : init ++ [e] = pre ++ [x] := h
    obtain ⟨h1, h2⟩ := List.append_inj' h' rfl
    injection h2 with h2
    exact Or.inl ⟨h1.symm, h2.symm, rfl⟩
  · have h' : init ++ [e] = (pre ++ x :: post') ++ [y] := by
      rw [h]
      simp
    obtain ⟨h1, h2⟩ := List.append_inj' h' rfl
    injection h2 with h2
    exact Or.inr ⟨post', by rw [h2, List.concat_eq_append], h1⟩

/-- The last report over all events reads as the engine's last report
exactly when foreign last words agree with it. -/
theorem lastReportAgrees_iff {α β : Type} (own : Value → Bool)
    (reports : Value → List α) (out : Option α → β) (evs : List Value) :
    out (evs.flatMap reports).getLast?
        = out ((evs.filter own).flatMap reports).getLast?
      ↔ LastReportAgrees own reports out evs := by
  induction evs using List.reverseRecOn with
  | nil => simp [LastReportAgrees]
  | append_singleton init e ih =>
      have hall : (init ++ [e]).flatMap reports
          = init.flatMap reports ++ reports e := by simp
      cases hr : reports e with
      | nil =>
          -- a silent last event leaves both sides as they were
          have hown : ((init ++ [e]).filter own).flatMap reports
              = (init.filter own).flatMap reports := by
            cases ho : own e <;> simp [List.filter_append, ho, hr]
          rw [hall, hr, List.append_nil, hown, ih]
          constructor
          · intro h pre ev post v heq hf hpost hv
            rcases concat_split heq with ⟨-, rfl, -⟩ | ⟨post', rfl, hinit⟩
            · rw [hr] at hv
              cases hv
            · exact h pre ev post' v hinit hf
                (fun x hx => hpost x (List.mem_append_left _ hx)) hv
          · intro h pre ev post v heq hf hpost hv
            refine h pre ev (post ++ [e]) v (by rw [heq]; simp) hf ?_ hv
            intro x hx
            rcases List.mem_append.mp hx with hx | hx
            · exact hpost x hx
            · rw [List.mem_singleton.mp hx]
              exact hr
      | cons r rs =>
          have hlast : (init.flatMap reports ++ r :: rs).getLast?
              = (r :: rs).getLast? := by
            rw [List.getLast?_append, List.getLast?_cons]
            rfl
          cases ho : own e with
          | true =>
              -- the engine has the last word
              have hown : ((init ++ [e]).filter own).flatMap reports
                  = (init.filter own).flatMap reports ++ r :: rs := by
                simp [List.filter_append, ho, hr]
              have hlast' : ((init.filter own).flatMap reports ++ r :: rs).getLast?
                  = (r :: rs).getLast? := by
                rw [List.getLast?_append, List.getLast?_cons]
                rfl
              rw [hall, hr, hown, hlast, hlast']
              refine ⟨fun _ => ?_, fun _ => rfl⟩
              intro pre ev post v heq hf hpost _
              rcases concat_split heq with ⟨-, rfl, -⟩ | ⟨post', rfl, -⟩
              · rw [ho] at hf
                cases hf
              · have hsilent := hpost e (by simp)
                rw [hr] at hsilent
                cases hsilent
          | false =>
              -- a foreign event has the last word
              have hown : ((init ++ [e]).filter own).flatMap reports
                  = (init.filter own).flatMap reports := by
                simp [List.filter_append, ho]
              rw [hall, hr, hown, hlast]
              constructor
              · intro h pre ev post v heq hf hpost hv
                rcases concat_split heq with ⟨rfl, rfl, -⟩ | ⟨post', rfl, -⟩
                · rw [hr] at hv
                  rw [← hv]
                  exact h
                · have hsilent := hpost e (by simp)
                  rw [hr] at hsilent
                  cases hsilent
              · intro h
                obtain ⟨v, hv⟩ : ∃ v, (r :: rs).getLast? = some v :=
                  ⟨_, List.getLast?_cons⟩
                rw [hv]
                exact h init e [] v rfl ho (by simp) (by rw [hr]; exact hv)

-- =========================================================== the logs

theorem length_numbered (i : Nat) (xs : List LogParts) :
    (numbered i xs).length = xs.length := by
  induction xs generalizing i with
  | nil => rfl
  | cons x xs ih => simp [numbered, ih]

/-- Dropping events loses contributions unless the dropped ones have
none. -/
private theorem filterMap_filter_length {α β : Type} (p : α → Bool)
    (f : α → Option β) (xs : List α) :
    ((xs.filter p).filterMap f).length ≤ (xs.filterMap f).length
      ∧ (((xs.filter p).filterMap f).length = (xs.filterMap f).length →
        ∀ x ∈ xs, p x = false → f x = none) := by
  induction xs with
  | nil => simp
  | cons x xs ih =>
      obtain ⟨hle, heq⟩ := ih
      cases hp : p x with
      | true =>
          cases hf : f x with
          | none =>
              simp only [List.filter_cons, hp, if_true, List.filterMap_cons, hf,
                List.mem_cons, forall_eq_or_imp, implies_true, true_and]
              exact ⟨hle, heq⟩
          | some y =>
              simp only [List.filter_cons, hp, if_true, List.filterMap_cons, hf,
                List.length_cons, List.mem_cons, forall_eq_or_imp]
              exact ⟨by omega, fun h => ⟨fun hc => by simp at hc, heq (by omega)⟩⟩
      | false =>
          cases hf : f x with
          | none =>
              simp only [List.filter_cons, hp, Bool.false_eq_true, if_false,
                List.filterMap_cons, hf, List.mem_cons, forall_eq_or_imp,
                implies_true, true_and]
              exact ⟨hle, heq⟩
          | some y =>
              simp only [List.filter_cons, hp, Bool.false_eq_true, if_false,
                List.filterMap_cons, hf, List.length_cons]
              exact ⟨by omega, fun h => by omega⟩

private theorem filterMap_filter_eq {α β : Type} (p : α → Bool) (f : α → Option β)
    (xs : List α) (h : ∀ x ∈ xs, p x = false → f x = none) :
    (xs.filter p).filterMap f = xs.filterMap f := by
  induction xs with
  | nil => rfl
  | cons x xs ih =>
      have ih := ih fun y hy => h y (List.mem_cons_of_mem _ hy)
      cases hp : p x with
      | true => simp [hp, List.filterMap_cons, ih]
      | false =>
          have hf := h x List.mem_cons_self hp
          simp [hp, hf, ih]

/-- The numbered logs survive dropping foreign events exactly when no
foreign event carries a log. -/
theorem logs_filter_iff (own : Value → Bool) (logOf : Value → Option LogParts)
    (evs : List Value) :
    numbered 0 (evs.filterMap logOf) = numbered 0 ((evs.filter own).filterMap logOf)
      ↔ ∀ ev ∈ evs, own ev = false → logOf ev = none := by
  constructor
  · intro h
    have hlen := congrArg List.length h
    rw [length_numbered, length_numbered] at hlen
    exact (filterMap_filter_length own logOf evs).2 hlen.symm
  · intro h
    rw [filterMap_filter_eq own logOf evs h]

-- ========================================================= the result

variable (checks : Checks) (b64 : Base64) (engine : String)

/-- The foreign events of the array leave no trace in the receipt. -/
structure ForeignInert (evs : List Value) : Prop where
  noPanic : ∀ ev ∈ evs, panics checks b64 ev = false
  noLog : ∀ ev ∈ evs, fromEngine engine ev = false → logOf checks b64 ev = none
  failure : ∀ ev ∈ evs, fromEngine engine ev = false →
    reportsFailure checks b64 ev = true →
    ∃ own ∈ evs, fromEngine engine own = true
      ∧ reportsFailure checks b64 own = true
  gas : LastReportAgrees (fromEngine engine) (gasReports checks b64)
    (fun r => r.getD 0) evs
  address : LastReportAgrees (fromEngine engine) (addressReports checks b64) id evs

/-- The foreign events are inert, or an event of the engine's own
already panics the decoder. -/
def ForeignHarmless (evs : List Value) : Prop :=
  (engineEvents engine evs).any (panics checks b64) = true
    ∨ ForeignInert checks b64 engine evs

/-- The decoder makes of the array what it makes of the engine's events
in it. -/
def ForeignIgnored (evs : List Value) : Prop :=
  decodeReceiptEvents checks b64 (some evs)
    = decodeReceiptEvents checks b64 (some (engineEvents engine evs))

variable {checks b64 engine}

/-- The failure flag of the array is the engine's. -/
private theorem failure_filter_iff (own fails : Value → Bool) (evs : List Value) :
    (!evs.any fails) = (!(evs.filter own).any fails)
      ↔ ∀ ev ∈ evs, own ev = false → fails ev = true →
          ∃ o ∈ evs, own o = true ∧ fails o = true := by
  have hiff : evs.any fails = (evs.filter own).any fails
      ↔ (evs.any fails = true → (evs.filter own).any fails = true) := by
    constructor
    · intro h h'
      rw [← h]
      exact h'
    · intro h
      cases hall : evs.any fails with
      | true => exact (h hall).symm
      | false =>
          symm
          rw [List.any_eq_false] at hall ⊢
          exact fun x hx => hall x (List.mem_filter.mp hx).1
  rw [Bool.not_inj_iff, hiff]
  simp only [List.any_eq_true, List.mem_filter]
  constructor
  · intro h ev hev _ hf
    obtain ⟨o, ⟨ho, hown⟩, hof⟩ := h ⟨ev, hev, hf⟩
    exact ⟨o, ho, hown, hof⟩
  · rintro h ⟨ev, hev, hf⟩
    cases ho : own ev with
    | true => exact ⟨ev, ⟨hev, ho⟩, hf⟩
    | false =>
        obtain ⟨o, ho', hown', hof⟩ := h ev hev ho hf
        exact ⟨o, ⟨ho', hown'⟩, hof⟩

/-- Without panics, ignoring the foreign events is agreeing on the four
parts of the summary. -/
theorem summary_filter_iff (evs : List Value) :
    summary checks b64 evs = summary checks b64 (engineEvents engine evs)
      ↔ (∀ ev ∈ evs, fromEngine engine ev = false → logOf checks b64 ev = none) ∧
        (∀ ev ∈ evs, fromEngine engine ev = false →
          reportsFailure checks b64 ev = true →
          ∃ own ∈ evs, fromEngine engine own = true
            ∧ reportsFailure checks b64 own = true) ∧
        LastReportAgrees (fromEngine engine) (gasReports checks b64)
          (fun r => r.getD 0) evs ∧
        LastReportAgrees (fromEngine engine) (addressReports checks b64) id evs := by
  rw [← logs_filter_iff, ← failure_filter_iff, ← lastReportAgrees_iff,
    ← lastReportAgrees_iff]
  simp only [summary, absorb, DecodedEvents.initial, DecodedEvents.mk.injEq,
    Bool.true_and, List.nil_append, Option.or_none, id, engineEvents]
  constructor
  · rintro ⟨hs, hg, ha, hl⟩
    exact ⟨hl, hs, hg, ha⟩
  · rintro ⟨hl, hs, hg, ha⟩
    exact ⟨hs, hg, ha, hl⟩

/-- One array: foreign events are ignored exactly when they are
harmless. -/
theorem foreignIgnored_iff (evs : List Value) :
    ForeignIgnored checks b64 engine evs
      ↔ ForeignHarmless checks b64 engine evs := by
  unfold ForeignHarmless
  unfold ForeignIgnored
  rw [decodeReceiptEvents_eq, decodeReceiptEvents_eq]
  have hsub : (engineEvents engine evs).any (panics checks b64) = true →
      evs.any (panics checks b64) = true := by
    simp only [List.any_eq_true, engineEvents, List.mem_filter]
    rintro ⟨ev, ⟨hev, -⟩, hp⟩
    exact ⟨ev, hev, hp⟩
  cases hown : (engineEvents engine evs).any (panics checks b64) with
  | true => simp [hsub hown]
  | false =>
      cases hall : evs.any (panics checks b64) with
      | true =>
          obtain ⟨ev, hev, hp⟩ := List.any_eq_true.mp hall
          constructor
          · intro h
            cases h
          · rintro (h | h)
            · cases h
            · rw [h.noPanic ev hev] at hp
              cases hp
      | false =>
          have hno : ∀ ev ∈ evs, panics checks b64 ev = false := by
            intro ev hev
            simpa using List.any_eq_false.mp hall ev hev
          simp only [Bool.false_eq_true, if_false, Except.ok.injEq, false_or]
          rw [summary_filter_iff]
          constructor
          · rintro ⟨hl, hf, hg, ha⟩
            exact ⟨hno, hl, hf, hg, ha⟩
          · intro h
            exact ⟨h.noLog, h.failure, h.gas, h.address⟩

/-- The decoder ignores the foreign events of an array exactly when they
are harmless; and two arrays with the same engine events and harmless
foreign ones decode alike. -/
theorem foreignEvents_ignored_iff (checks : Checks) (b64 : Base64)
    (engine : String) :
    (∀ evs, ForeignIgnored checks b64 engine evs
      ↔ ForeignHarmless checks b64 engine evs) ∧
    (∀ evs evs', engineEvents engine evs = engineEvents engine evs' →
      ForeignHarmless checks b64 engine evs →
      ForeignHarmless checks b64 engine evs' →
      decodeReceiptEvents checks b64 (some evs)
        = decodeReceiptEvents checks b64 (some evs')) := by
  refine ⟨foreignIgnored_iff, ?_⟩
  intro evs evs' hsame h h'
  have h1 : ForeignIgnored checks b64 engine evs := (foreignIgnored_iff evs).mpr h
  have h2 : ForeignIgnored checks b64 engine evs' := (foreignIgnored_iff evs').mpr h'
  unfold ForeignIgnored at h1 h2
  rw [h1, h2, hsame]

/-- An event of another contract under a name of its own. -/
def foreignTransfer : Value :=
  .object [("source", .string "1Other"), ("name", .string "token.transfer_event")]

/-- It is harmless next to an empty engine share. -/
theorem foreignTransfer_ignored :
    ForeignHarmless .off ⟨fun _ => none, fun _ => none⟩ "1Engine" [foreignTransfer] ∧
    decodeReceiptEvents .off ⟨fun _ => none, fun _ => none⟩ (some [foreignTransfer])
      = decodeReceiptEvents .off ⟨fun _ => none, fun _ => none⟩ (some []) := by
  obtain ⟨hiff, hpair⟩ :=
    foreignEvents_ignored_iff .off ⟨fun _ => none, fun _ => none⟩ "1Engine"
  have htransfer := (hiff [foreignTransfer]).mp rfl
  have hempty := (hiff []).mp rfl
  exact ⟨htransfer, hpair [foreignTransfer] [] rfl htransfer hempty⟩

/-- An event of another contract that calls itself `evm.log`. -/
def forgedLog : Value :=
  .object [("source", .string "1Other"), ("name", .string "evm.log")]

/-- It adds a log to a receipt in which the engine emitted nothing. -/
theorem forgedLog_counted :
    engineEvents "1Engine" [forgedLog] = engineEvents "1Engine" [] ∧
    ∀ checks b64, decodeReceiptEvents checks b64 (some [forgedLog])
      ≠ decodeReceiptEvents checks b64 (some []) := by
  refine ⟨rfl, ?_⟩
  intro checks b64 h
  cases checks <;> cases h

end KoinosEvm.Proofs
