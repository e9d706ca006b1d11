/-
Connections keep to their own subscriptions.

The number of a subscription is taken from one counter, so of two numbers
that are handed out no two are the same until the counter wraps around, in
whichever order the tasks take them (`numbersOf_run`). A connection sends
notifications only in the name of a subscription that it has, and it has only
those that it was given a number for before (`Preceded`). So a notification
never names a subscription of another connection, whatever the tasks do in
between.
-/
import KoinosEvm.Proofs.BlockHashes
import KoinosEvm.Proofs.WsStream

namespace KoinosEvm.Proofs

open Lib Proxy

/-- The subscriptions that events hand out. -/
def idsGiven (events : List (Ev ServerOp ServerRes)) : List String :=
  (numbersOf events).map subIdOf

-- ============================================================== the counter

section Counter

variable {s t : ServerState} {events : List (Ev ServerOp ServerRes)}

theorem iteratesAll_of_serves (h : History ServerStep s events t) : IteratesAll events := by
  induction h with
  | nil =>
      intro subs order hmem
      cases hmem
  | cons hstep _ ih =>
      intro subs order hmem
      rcases List.mem_cons.mp hmem with heq | hmem
      · cases hstep with
        | iterate order' h =>
            cases heq
            exact h
        | _ => cases heq
      · exact ih subs order hmem

/-- The numbers are handed out one after another. -/
theorem numbersOf_run (h : History ServerStep s events t) :
    numbersOf events
      = (List.range (numbersOf events).length).map fun k => s.subCounter + UInt64.ofNat k := by
  induction h with
  | nil => rfl
  | @cons s u t e events hstep _ ih =>
      cases hstep with
      | nextSub =>
          have hcons : numbersOf (⟨ServerOp.nextSub, s.subCounter⟩ :: events)
              = s.subCounter :: numbersOf events := rfl
          rw [hcons, List.length_cons, List.range_succ_eq_map, List.map_cons, List.map_map]
          refine congrArg₂ _ (by simp) (ih.trans (List.map_congr_left fun k _ => ?_))
          show s.subCounter + 1 + UInt64.ofNat k = s.subCounter + UInt64.ofNat (k + 1)
          rw [UInt64.ofNat_add, UInt64.add_assoc, UInt64.add_comm 1]
          rfl
      | _ => exact ih

theorem subIdOf_injective : Function.Injective subIdOf := by
  intro m n h
  have hdigits : Nat.toDigits 16 m.toNat = Nat.toDigits 16 n.toNat := by
    have hchars := congrArg String.toList h
    simp only [subIdOf, String.toList_append, String.toList_ofList] at hchars
    exact List.append_cancel_left hchars
  have hread := congrArg (fromHexLoop · 0) hdigits
  simp only [fromHexLoop_toDigits _ m.toNat_lt, fromHexLoop_toDigits _ n.toNat_lt] at hread
  exact UInt64.toNat_inj.mp (Except.ok.inj hread)

/-- No number is handed out twice before the counter wraps around. -/
theorem numbersOf_nodup (h : History ServerStep s events t)
    (hwrap : (numbersOf events).length ≤ 2 ^ 64) : (numbersOf events).Nodup := by
  rw [numbersOf_run h]
  refine List.Nodup.map_on ?_ List.nodup_range
  intro k hk k' hk' heq
  have hlt := (List.mem_range.mp hk).trans_le hwrap
  have hlt' := (List.mem_range.mp hk').trans_le hwrap
  have hnat := congrArg UInt64.toNat ((UInt64.add_right_inj _).mp heq)
  rwa [UInt64.toNat_ofNat', UInt64.toNat_ofNat', Nat.mod_eq_of_lt hlt, Nat.mod_eq_of_lt hlt']
    at hnat

end Counter

-- ============================================================ what is known

section Known

variable {tr : List (Ev ServerOp ServerRes)}

/-- Every notification is of a subscription that is known, or of which the
number was handed out before. -/
def Preceded (known : String → Prop) (events : List (Ev ServerOp ServerRes)) : Prop :=
  ∀ before e after, events = before ++ e :: after → ∀ s v, sentNote e = some (s, v) →
    known s ∨ s ∈ idsGiven before

theorem preceded_of_known {known : String → Prop}
    (h : ∀ e ∈ tr, ∀ s v, sentNote e = some (s, v) → known s) : Preceded known tr := by
  intro before e after heq s v hnote
  refine .inl (h e ?_ s v hnote)
  rw [heq]
  exact List.mem_append_right _ List.mem_cons_self

theorem preceded_mono {known known' : String → Prop} (h : Preceded known tr)
    (hle : ∀ s, known s → known' s) : Preceded known' tr := by
  intro before e after heq s v hnote
  exact (h before e after heq s v hnote).imp_left (hle s)

theorem preceded_append {known : String → Prop} {xs ys : List (Ev ServerOp ServerRes)}
    (hxs : Preceded known xs) (hys : Preceded (fun s => known s ∨ s ∈ idsGiven xs) ys) :
    Preceded known (xs ++ ys) := by
  intro before e after heq s v hnote
  rcases List.append_eq_append_iff.mp heq with ⟨mid, hbefore, hafter⟩ | ⟨mid, hxs', hafter⟩
  · rw [hbefore, idsGiven, numbersOf_append, List.map_append, List.mem_append]
    rcases hys mid e after hafter s v hnote with (hknown | hgiven) | hmid
    · exact .inl hknown
    · exact .inr (.inl hgiven)
    · exact .inr (.inr hmid)
  · cases mid with
    | nil =>
        rw [List.append_nil] at hxs'
        rw [List.nil_append] at hafter
        rcases hys [] e after hafter.symm s v hnote with (hknown | hgiven) | hmid
        · exact .inl hknown
        · exact .inr (hxs' ▸ hgiven)
        · cases hmid
    | cons x mid =>
        rw [List.cons_append] at hafter
        injection hafter with hx hmid
        subst hx
        exact hxs before e mid hxs' s v hnote

/-- A call that sends notifications of these subscriptions only. -/
def NamesOnly (subs : List Sub) (op : ServerOp) : Prop :=
  ∀ msg, op = .send msg → ∀ s v, noteOf msg = some (s, v) → ∃ sub ∈ subs, sub.id = s

theorem namesOnly_of_mem {entries : List Sub} {sub : Sub} (h : sub ∈ entries) (v : Value) :
    NamesOnly entries (.send (subscriptionMsg sub.id v)) := by
  intro msg hop s w hnote
  cases hop
  have hsub : noteOf (subscriptionMsg sub.id v) = some (sub.id, v) := rfl
  rw [hsub] at hnote
  cases hnote
  exact ⟨sub, h, rfl⟩

theorem sentNote_names {entries : List Sub} {e : Ev ServerOp ServerRes} {s : String} {v : Value}
    (h : NamesOnly entries e.1) (hnote : sentNote e = some (s, v)) :
    ∃ sub ∈ entries, sub.id = s := by
  obtain ⟨op, r⟩ := e
  cases op with
  | send msg => exact h msg rfl s v hnote
  | _ => cases hnote

variable [HexCrate] {cfg : ServerConfig} {client : IpAddr} {subs subs' : Subs}

/-- A subscription that lives after some requests lived before them, or is of
one of their numbers. -/
theorem afterRequests_known {s : String} {live : Option SubKind} {reqs : List Value}
    {numbers : List UInt64} (h : afterRequests cfg s live reqs numbers ≠ none) :
    live ≠ none ∨ s ∈ numbers.map subIdOf := by
  induction reqs generalizing live numbers with
  | nil =>
      rw [afterRequests] at h
      exact .inl h
  | cons req reqs ih =>
      rw [afterRequests] at h
      split at h
      · split at h
        next kind hkind =>
          have hnext := ih h
          cases numbers with
          | nil => exact hnext.imp_left fun hne => by simpa using hne
          | cons n numbers =>
              rcases hnext with hne | hmem
              · by_cases hid : subIdOf n = s
                · exact .inr (List.mem_map.mpr ⟨n, List.mem_cons_self, hid⟩)
                · exact .inl (by simpa [hid] using hne)
              · exact .inr (List.mem_cons_of_mem _ hmem)
        next => exact ih h
      · split at h
        · refine (ih h).imp_left fun hne hnone => hne ?_
          rw [hnone, ite_self]
        · exact ih h

/-- The subscriptions after a turn are those before it, and those of which
numbers were handed out in it. -/
theorem turn_known {input : WsInput} {s : String}
    (h : Exec (turn cfg client subs input) tr (.ok (some subs')))
    (hlive : kindOf subs' s ≠ none) : kindOf subs s ≠ none ∨ s ∈ idsGiven tr := by
  rw [turn_live h, afterTurn] at hlive
  split at hlive
  · split at hlive
    · exact afterRequests_known hlive
    · exact .inl hlive
  · exact .inl hlive

/-- A turn, however far it has come, names only subscriptions of the
connection. -/
theorem turn_names {input : WsInput} {q : ServerM (Option Subs)}
    (h : Runs (turn cfg client subs input) tr q) (hiter : IteratesAll tr) :
    ∀ e ∈ tr, ∀ s v, sentNote e = some (s, v) → kindOf subs s ≠ none := by
  have hquiet : NoNotes tr → ∀ e ∈ tr, ∀ s v, sentNote e = some (s, v) → kindOf subs s ≠ none := by
    intro hquiet e he s v hnote
    rw [hquiet e he] at hnote
    cases hnote
  have hnothing : ∀ next : Option Subs,
      Runs (pure next : ServerM (Option Subs)) tr q → NoNotes tr := by
    intro next hret
    cases hret
    intro e he
    cases he
  cases input with
  | text parsed =>
      cases parsed with
      | none =>
          exact hquiet (quiet_of_uses (runs_uses h (uses_sendOrEnd (noteOf_error _ _ _) subs)))
      | some parsed => exact hquiet (onText_quiet h)
  | event ev =>
      have hpush : Runs (Prog.ask (ServerOp.iterate subs.rows) >>= fun entries =>
          eachOk (pushTo ev) entries >>= fun sent =>
            if sent then pure (some subs) else pure none) tr q := h
      rcases runs_ask_bind hpush with rfl | ⟨order, rest, rfl, hrest⟩
      · exact hquiet fun e he => by cases he
      · have horder : List.Perm order subs.rows := hiter subs.rows order List.mem_cons_self
        have hloop : Uses (NamesOnly order) (fun _ => True) (eachOk (pushTo ev) order) :=
          uses_eachOk fun sub hsub => uses_pushTo ev sub fun v => namesOnly_of_mem hsub v
        have huses : Uses (NamesOnly order) (fun _ => True) (eachOk (pushTo ev) order >>=
            fun sent => if sent then pure (some subs) else pure none : ServerM (Option Subs)) :=
          uses_bind hloop fun sent => uses_ite (fun _ => uses_pure _) fun _ => uses_pure _
        intro e he s v hnote
        rcases List.mem_cons.mp he with rfl | he
        · cases hnote
        · obtain ⟨sub, hsub, hid⟩ := sentNote_names (runs_uses hrest huses e he) hnote
          intro hnone
          rw [kindOf, Option.map_eq_none_iff, Table.find?_eq_none] at hnone
          exact hnone (List.mem_map.mpr ⟨sub, horder.mem_iff.mp hsub, hid⟩)
  | other => exact hquiet (hnothing _ h)
  | hangup => exact hquiet (hnothing _ h)
  | lagged skipped => exact hquiet (hnothing _ h)
  | channelClosed => exact hquiet (hnothing _ h)

/-- The subscriptions of a connection. -/
def Holds (subs : Subs) (s : String) : Prop := kindOf subs s ≠ none

/-- A connection names only what it has, or was given before. -/
theorem connectionLoop_preceded {turns : Nat} {q : ServerM Unit}
    (h : Runs (connectionLoop cfg client turns subs) tr q) (hiter : IteratesAll tr) :
    Preceded (Holds subs) tr := by
  induction turns generalizing subs tr with
  | zero =>
      cases h
      exact preceded_of_known fun e he => by cases he
  | succ turns ih =>
      rcases runs_ask_bind h with rfl | ⟨input, rest, rfl, hrest⟩
      · exact preceded_of_known fun e he => by cases he
      · have hiter' : IteratesAll rest :=
          fun subs order hmem => hiter subs order (List.mem_cons_of_mem _ hmem)
        have hinput : Preceded (Holds subs) [⟨ServerOp.recv, input⟩] := by
          refine preceded_of_known fun e he s v hnote => ?_
          rw [List.mem_singleton.mp he] at hnote
          cases hnote
        refine preceded_append hinput (preceded_mono ?_ fun s hs => .inl hs)
        rcases runs_bind hrest with ⟨p, hp, -⟩ | ⟨next, tr₁, tr₂, h₁, h₂, rfl⟩
        · exact preceded_of_known (turn_names hp hiter')
        · obtain ⟨p, hp⟩ := runs_of_exec h₁
          refine preceded_append (preceded_of_known (turn_names hp hiter'.left)) ?_
          cases next with
          | none =>
              cases h₂
              exact preceded_of_known fun e he => by cases he
          | some subs' =>
              refine preceded_mono (ih h₂ hiter'.right) ?_
              intro s hs
              exact turn_known h₁ hs

-- ================================================================== the tasks

theorem silent_dispatch (server : ServerConfig) (req : Value) :
    Uses (fun op => isSilent op = true) (fun _ => True) (dispatch server req) :=
  (handles_dispatch server req).mono fun _ => silent_of_handle

theorem silent_dispatchAll (server : ServerConfig) (reqs : List Value) :
    Uses (fun op => isSilent op = true) (fun _ => True) (dispatchAll server reqs) := by
  induction reqs with
  | nil => exact uses_pure _
  | cons req reqs ih =>
      exact uses_bind (silent_dispatch server req) fun _ => uses_bind ih fun _ => uses_pure _

theorem silent_serve (server : ServerConfig) (payload : Value) :
    Uses (fun op => isSilent op = true) (fun _ => True) (serve server payload) := by
  cases payload with
  | array reqs =>
      cases reqs with
      | nil => exact uses_pure _
      | cons req reqs =>
          exact uses_bind (silent_dispatchAll server (req :: reqs)) fun _ => uses_pure _
  | _ =>
      refine uses_bind (silent_dispatch server _) fun response => ?_
      cases response with
      | some v => exact uses_pure _
      | none => exact uses_pure _

/-- A post sends nothing on a socket. -/
theorem silent_handleRpc (server : ServerConfig) (peer : IpAddr) (headers : Headers)
    (payload : Value) :
    Uses (fun op => isSilent op = true) (fun _ => True)
      (handleRpc server peer headers payload) := by
  unfold handleRpc
  refine uses_ite (fun _ => ?_) fun _ => ?_
  · exact uses_bind (uses_allow _ _) fun _ => uses_pure _
  · refine uses_bind (uses_allow _ _) fun granted => ?_
    exact uses_ite (fun _ => silent_serve server payload) fun _ => uses_pure _

/-- Whatever comes in, its task names only what it was given before. -/
theorem taskOf_preceded {incoming : Incoming} {q : ServerM (Option (Status × Value))}
    (h : Runs (taskOf cfg incoming) tr q) (hiter : IteratesAll tr) :
    Preceded (fun _ => False) tr := by
  cases incoming with
  | post peer headers payload =>
      have huses := uses_bind (silent_handleRpc cfg peer headers payload)
        fun reply => uses_pure (some reply)
      have hquiet := quiet_of_silent (runs_uses h huses)
      refine preceded_of_known fun e he s v hnote => ?_
      rw [hquiet e he] at hnote
      cases hnote
  | socket peer headers turns =>
      have hempty : ∀ s, ¬ Holds (.empty : Subs) s := fun s hs => hs rfl
      rcases runs_bind h with ⟨p, hp, -⟩ | ⟨u, tr₁, tr₂, h₁, h₂, rfl⟩
      · exact preceded_mono (connectionLoop_preceded hp hiter) hempty
      · obtain ⟨p, hp⟩ := runs_of_exec h₁
        cases h₂
        rw [List.append_nil] at hiter ⊢
        exact preceded_mono (connectionLoop_preceded hp hiter) hempty

end Known

-- ================================================================ isolation

section Isolation

variable {ι : Type} {run : List (ι × Ev ServerOp ServerRes)}

/-- The numbers that are handed out, with the task that each goes to. -/
def owners (run : List (ι × Ev ServerOp ServerRes)) : List (ι × UInt64) :=
  run.filterMap fun e => (numberOf e.2).map fun n => (e.1, n)

theorem owners_numbers (run : List (ι × Ev ServerOp ServerRes)) :
    (owners run).map Prod.snd = numbersOf (run.map Prod.snd) := by
  rw [owners, List.map_filterMap, numbersOf, List.filterMap_map]
  refine List.filterMap_congr fun e _ => ?_
  rw [Option.map_map, Function.comp_apply]
  exact Option.map_id_apply

variable [DecidableEq ι]

theorem mem_owners {i : ι} {n : UInt64} (h : n ∈ numbersOf (eventsOfTask i run)) :
    (i, n) ∈ owners run := by
  obtain ⟨e, he, hn⟩ := List.mem_filterMap.mp h
  obtain ⟨⟨k, e'⟩, hmem, rfl⟩ := List.mem_map.mp he
  obtain ⟨hrun, hk⟩ := List.mem_filter.mp hmem
  refine List.mem_filterMap.mpr ⟨(k, e'), hrun, ?_⟩
  rw [hn, of_decide_eq_true hk]
  rfl

/-- A number of one task is no number of another. -/
theorem numbers_apart (hnodup : (numbersOf (run.map Prod.snd)).Nodup) {i j : ι} {n : UInt64}
    (hi : n ∈ numbersOf (eventsOfTask i run)) (hj : n ∈ numbersOf (eventsOfTask j run)) :
    i = j := by
  rw [← owners_numbers] at hnodup
  exact congrArg Prod.fst (List.inj_on_of_nodup_map hnodup (mem_owners hi) (mem_owners hj) rfl)

/-- However the tasks are interleaved, a notification names a subscription
that its own connection was given before, and that no other ever is. -/
theorem notifications_isolated [HexCrate] {cfg : ServerConfig} {rps burst : UInt64}
    {incoming : ι → Incoming}
    {t : Tasks ServerOp ServerRes Panic (Option (Status × Value)) ServerState ι}
    (h : History (TaskStep ServerStep) (startServer cfg rps burst incoming) run t)
    (hwrap : (numbersOf (run.map Prod.snd)).length ≤ 2 ^ 64) :
    ∀ before i e after, run = before ++ (i, e) :: after → ∀ s v, sentNote e = some (s, v) →
      s ∈ idsGiven (eventsOfTask i before)
        ∧ ∀ j, j ≠ i → s ∉ idsGiven (eventsOfTask j run) := by
  intro before i e after heq s v hnote
  obtain ⟨hhost, htasks⟩ := tasks_run h
  have hiter : IteratesAll (eventsOfTask i run) := by
    intro subs order hmem
    obtain ⟨entry, hentry, hev⟩ := List.mem_map.mp hmem
    refine iteratesAll_of_serves hhost subs order ?_
    rw [← hev]
    exact List.mem_map_of_mem (List.mem_of_mem_filter hentry)
  have hsplit : eventsOfTask i run = eventsOfTask i before ++ e :: eventsOfTask i after := by
    rw [heq, eventsOfTask_append, eventsOfTask_cons_self]
  have hgiven : s ∈ idsGiven (eventsOfTask i before) :=
    (taskOf_preceded (htasks i) hiter _ _ _ hsplit s v hnote).resolve_left id
  refine ⟨hgiven, ?_⟩
  intro j hj hother
  obtain ⟨n, hn, hid⟩ := List.mem_map.mp hgiven
  obtain ⟨m, hm, hid'⟩ := List.mem_map.mp hother
  have hmn : m = n := subIdOf_injective (hid'.trans hid.symm)
  have hn' : n ∈ numbersOf (eventsOfTask i run) := by
    rw [hsplit, numbersOf_append]
    exact List.mem_append_left _ hn
  exact hj (numbers_apart (numbersOf_nodup hhost hwrap) (hmn ▸ hm) hn')

end Isolation

-- =================================================================== a sample

/-- Two peers that subscribe and hear of a head. -/
def subscriberIncoming : Bool → Incoming := fun _ => .socket (.v4 1) (fun _ => none) 2

def subscriberInputs : List WsInput := (sampleInputs.drop 1).take 2

/-- The connection to one, which is given this number. -/
def subscriberEvents (i : Bool) (number : UInt64) : List (Ev ServerOp ServerRes) :=
  scriptedEvents (subscriberIncoming i) subscriberInputs [true] number

/-- The second is given its number after the first, and hears of the head
before it. -/
def subscribersRun : List (Bool × Ev ServerOp ServerRes) :=
  interleave [false, true, false, false, true, true, true, false, true, true, true, false, false,
    false] (subscriberEvents false 1) (subscriberEvents true 2)

theorem subscribers_run : ∃ t, History (TaskStep ServerStep)
    (startServer sampleServer 1 4 subscriberIncoming) subscribersRun t := by
  have hhost : History ServerStep ⟨sampleLimiter, 0, 1⟩ (subscribersRun.map Prod.snd)
      ⟨drained (drained sampleLimiter 1) 1, 0, 3⟩ :=
    .cons (.recv _ trivial) (.cons (.recv _ trivial)
      (.cons (allowed_serves (by decide +kernel)) (.cons .nextSub
      (.cons (allowed_serves (by decide +kernel)) (.cons .nextSub (.cons (.send _)
      (.cons (.send _) (.cons (.recv _ trivial) (.cons (.iterate _ (.refl _)) (.cons (.send _)
      (.cons (.recv _ trivial) (.cons (.iterate _ (.refl _)) (.cons (.send _) .nil)))))))))))))
  refine tasks_of_runs hhost fun i => ?_
  cases i with
  | false => exact scriptedEvents_runs (subscriberIncoming false) subscriberInputs [true] 1
  | true => exact scriptedEvents_runs (subscriberIncoming true) subscriberInputs [true] 2

/-- The notification to each names its own subscription, and that is none of
the other's. -/
theorem subscriber_isolated :
    ("0x2" ∈ idsGiven (eventsOfTask true (subscribersRun.take 10)) ∧
        ∀ j, j ≠ true → "0x2" ∉ idsGiven (eventsOfTask j subscribersRun)) ∧
      "0x1" ∈ idsGiven (eventsOfTask false (subscribersRun.take 13)) ∧
        ∀ j, j ≠ false → "0x1" ∉ idsGiven (eventsOfTask j subscribersRun) := by
  obtain ⟨t, h⟩ := subscribers_run
  have hwrap : (numbersOf (subscribersRun.map Prod.snd)).length ≤ 2 ^ 64 := by decide
  exact ⟨notifications_isolated h hwrap (subscribersRun.take 10) true _ (subscribersRun.drop 11)
      rfl "0x2" (.number 7) rfl,
    notifications_isolated h hwrap (subscribersRun.take 13) false _ [] rfl "0x1" (.number 7) rfl⟩

end KoinosEvm.Proofs
