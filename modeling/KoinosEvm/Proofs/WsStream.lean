/-
What a subscriber is sent.

A connection goes through its inputs in turns (`turnsOf`). An event of the
pollers is worth so many notifications to a subscription (`deliveries`), and
a subscription lives from the request that made it to the one that ends it
(`afterTurn`). What a connection sends in the name of a subscription is the
worth of the events that come while it lives, each once and in the order they
come, whatever the order in which the connection goes through its
subscriptions, as long as what it sends goes out; when that fails the
connection ends, with the beginning of what was due.

The invariant is that the table of the connection is what the requests made
of it; a turn keeps it (`turn_live`), and only events have anything sent
(`turn_notes`).
-/
import KoinosEvm.Proofs.WsRequests

namespace KoinosEvm.Proofs

open Lib Proxy

-- ============================================================ what is due

/-- What an event is worth to a subscription. -/
def deliveries : SubKind → WsEvent → List Value
  | .newHeads, .newHead head => [head]
  | .logs addresses topics, .logs logs =>
      (logs.filter (logMatches addresses topics)).map WsLog.rendered
  | _, _ => []

/-- .. if the subscription lives. -/
def owed (live : Option SubKind) : WsInput → List Value
  | .event ev =>
      match live with
      | some kind => deliveries kind ev
      | none => []
  | _ => []

/-- Everything that is sent goes out. -/
def AllSent (events : List (Ev ServerOp ServerRes)) : Prop :=
  ∀ msg (sent : Bool), ⟨ServerOp.send msg, sent⟩ ∈ events → sent = true

/-- A `HashMap` hands out its entries, each once. -/
def IteratesAll (events : List (Ev ServerOp ServerRes)) : Prop :=
  ∀ subs (order : List Sub), ⟨ServerOp.iterate subs, order⟩ ∈ events → order.Perm subs

/-- A turn of a connection: its input, and what comes of it. -/
structure Turn where
  input : WsInput
  events : List (Ev ServerOp ServerRes)

/-- The limiter has admitted a text. -/
def isAdmitted : List (Ev ServerOp ServerRes) → Bool
  | ⟨.allow .., answer⟩ :: _ => (answer : Bool × Nat).1
  | _ => false

/-- A subscription after a turn. -/
def afterTurn [HexCrate] (cfg : ServerConfig) (s : String) (live : Option SubKind) (t : Turn) :
    Option SubKind :=
  match t.input with
  | .text (some parsed) =>
      if isAdmitted t.events then
        afterRequests cfg s live (requestsOf parsed) (numbersOf t.events)
      else live
  | _ => live

/-- What a subscription is due over some turns. -/
def stream [HexCrate] (cfg : ServerConfig) (s : String) :
    Option SubKind → List Turn → List Value
  | _, [] => []
  | live, t :: turns => owed live t.input ++ stream cfg s (afterTurn cfg s live t) turns

/-- The events before the first input, and the turns from there on. -/
def splitTurns : List (Ev ServerOp ServerRes) → List (Ev ServerOp ServerRes) × List Turn
  | [] => ([], [])
  | ⟨.recv, input⟩ :: events =>
      ([], ⟨input, (splitTurns events).1⟩ :: (splitTurns events).2)
  | e :: events => (e :: (splitTurns events).1, (splitTurns events).2)

/-- The turns of a connection. -/
def turnsOf (events : List (Ev ServerOp ServerRes)) : List Turn := (splitTurns events).2

-- =========================================================== what is pushed

section Push

variable {s : String}

/-- A program that sends what is due to a subscription, or ends with the
beginning of it when a message does not go out. -/
structure Delivers (s : String) (p : ServerM Bool) (due : List Value) : Prop where
  begins : ∀ tr o, Exec p tr o → notesTo s tr <+: due
  whole : ∀ tr, Exec p tr (.ok true) → notesTo s tr = due
  sent : ∀ tr o, Exec p tr o → AllSent tr → o = .ok true

theorem AllSent.left {xs ys : List (Ev ServerOp ServerRes)} (h : AllSent (xs ++ ys)) :
    AllSent xs := fun msg sent hmem => h msg sent (List.mem_append_left _ hmem)

theorem AllSent.right {xs ys : List (Ev ServerOp ServerRes)} (h : AllSent (xs ++ ys)) :
    AllSent ys := fun msg sent hmem => h msg sent (List.mem_append_right _ hmem)

theorem IteratesAll.left {xs ys : List (Ev ServerOp ServerRes)} (h : IteratesAll (xs ++ ys)) :
    IteratesAll xs := fun subs order hmem => h subs order (List.mem_append_left _ hmem)

theorem IteratesAll.right {xs ys : List (Ev ServerOp ServerRes)} (h : IteratesAll (xs ++ ys)) :
    IteratesAll ys := fun subs order hmem => h subs order (List.mem_append_right _ hmem)

theorem delivers_pure : Delivers s (pure true) [] where
  begins tr o h := by
    obtain ⟨rfl, -⟩ := exec_ret.mp h
    exact List.nil_prefix
  whole tr h := by
    obtain ⟨rfl, -⟩ := exec_ret.mp h
    rfl
  sent tr o h _ := (exec_ret.mp h).2

theorem notesTo_send (id : String) (v : Value) (sent : Bool) :
    notesTo s [⟨ServerOp.send (subscriptionMsg id v), sent⟩] = if id = s then [v] else [] := by
  have hnote : noteTo s ⟨ServerOp.send (subscriptionMsg id v), sent⟩
      = if id = s then some v else none := rfl
  split
  next h => rw [notesTo, List.filterMap_cons_some (by rw [hnote, if_pos h]), List.filterMap_nil]
  next h => rw [notesTo, List.filterMap_cons_none (by rw [hnote, if_neg h]), List.filterMap_nil]

theorem delivers_send (id : String) (v : Value) :
    Delivers s (send (subscriptionMsg id v)) (if id = s then [v] else []) where
  begins tr o h := by
    obtain ⟨sent, rfl, -⟩ := exec_ask.mp h
    rw [notesTo_send id v sent]
  whole tr h := by
    obtain ⟨sent, rfl, -⟩ := exec_ask.mp h
    rw [notesTo_send id v sent]
  sent tr o h hsent := by
    obtain ⟨sent, rfl, rfl⟩ := exec_ask.mp h
    rw [hsent _ sent List.mem_cons_self]
    rfl

theorem delivers_eachOk {α : Type} {body : α → ServerM Bool} {due : α → List Value}
    (hbody : ∀ x, Delivers s (body x) (due x)) (xs : List α) :
    Delivers s (eachOk body xs) (xs.flatMap due) := by
  induction xs with
  | nil => exact delivers_pure
  | cons x xs ih =>
      have hx := hbody x
      rw [List.flatMap_cons]
      refine ⟨?_, ?_, ?_⟩
      · intro tr o h
        rcases exec_bind.mp h with ⟨p, hp, -⟩ | ⟨ok, tr₁, tr₂, h₁, h₂, rfl⟩
        · exact (hx.begins tr _ hp).trans (List.prefix_append _ _)
        · cases ok with
          | false =>
              obtain ⟨rfl, -⟩ := exec_ret.mp h₂
              rw [List.append_nil]
              exact (hx.begins tr₁ _ h₁).trans (List.prefix_append _ _)
          | true =>
              rw [notesTo_append, hx.whole tr₁ h₁]
              exact (List.prefix_append_right_inj _).mpr (ih.begins tr₂ o h₂)
      · intro tr h
        obtain ⟨ok, tr₁, tr₂, h₁, h₂, rfl⟩ := exec_bind_ok.mp h
        cases ok with
        | false => cases (exec_ret.mp h₂).2
        | true => rw [notesTo_append, hx.whole tr₁ h₁, ih.whole tr₂ h₂]
      · intro tr o h hsent
        rcases exec_bind.mp h with ⟨p, hp, -⟩ | ⟨ok, tr₁, tr₂, h₁, h₂, rfl⟩
        · cases hx.sent tr _ hp hsent
        · cases hx.sent tr₁ _ h₁ hsent.left
          exact ih.sent tr₂ o h₂ hsent.right

/-- What one entry is sent of an event. -/
def dueTo (s : String) (ev : WsEvent) (sub : Sub) : List Value :=
  if sub.id = s then deliveries sub.kind ev else []

/-- The entries are gone through, in any order. -/
theorem flatMap_dueTo {subs : Subs} {order : List Sub} (horder : order.Perm subs.rows)
    (s : String) (ev : WsEvent) :
    order.flatMap (dueTo s ev) = owed (kindOf subs s) (.event ev) := by
  have hfilter : ∀ xs : List Sub, xs.flatMap (dueTo s ev)
      = (xs.filter fun sub => sub.id = s).flatMap fun sub => deliveries sub.kind ev := by
    intro xs
    induction xs with
    | nil => rfl
    | cons sub xs ih =>
        rw [List.flatMap_cons, ih, dueTo, List.filter_cons]
        by_cases hid : sub.id = s
        · rw [if_pos hid, if_pos (decide_eq_true hid), List.flatMap_cons]
        · rw [if_neg hid, if_neg (by simpa using hid), List.nil_append]
  have hperm : (order.filter fun sub => sub.id = s).Perm
      (subs.rows.filter fun sub => sub.id = s) := horder.filter _
  rw [hfilter]
  cases hfind : subs.find? s with
  | none =>
      have hnone : (subs.rows.filter fun sub => sub.id = s) = [] := by
        rw [List.filter_eq_nil_iff]
        intro sub hsub hid
        exact Table.find?_eq_none.mp hfind (List.mem_map.mpr ⟨sub, hsub, of_decide_eq_true hid⟩)
      rw [hnone] at hperm
      rw [List.perm_nil.mp hperm, kindOf, hfind]
      rfl
  | some sub =>
      rw [Table.filter_of_find? hfind] at hperm
      rw [List.perm_singleton.mp hperm, kindOf, hfind]
      exact List.append_nil _

theorem flatMap_matching (p : WsLog → Bool) (f : WsLog → Value) (logs : List WsLog) :
    logs.flatMap (fun log => if p log then [f log] else []) = (logs.filter p).map f := by
  induction logs with
  | nil => rfl
  | cons log logs ih =>
      rw [List.flatMap_cons, ih, List.filter_cons]
      split
      · rfl
      · rfl

theorem delivers_pushTo (ev : WsEvent) (sub : Sub) :
    Delivers s (pushTo ev sub) (dueTo s ev sub) := by
  have hnothing : deliveries sub.kind ev = [] → dueTo s ev sub = [] := by
    intro hnone
    rw [dueTo, hnone]
    exact ite_self []
  unfold pushTo
  cases hkind : sub.kind with
  | newHeads =>
      cases ev with
      | newHead head =>
          rw [dueTo, hkind]
          exact delivers_send sub.id head
      | logs logs =>
          rw [hnothing (by rw [hkind]; rfl)]
          exact delivers_pure
  | logs addresses topics =>
      cases ev with
      | newHead head =>
          rw [hnothing (by rw [hkind]; rfl)]
          exact delivers_pure
      | logs logs =>
          have hdue : dueTo s (.logs logs) sub
              = logs.flatMap fun log =>
                  if logMatches addresses topics log then
                    if sub.id = s then [log.rendered] else []
                  else [] := by
            rw [dueTo, hkind]
            by_cases hid : sub.id = s
            · simp only [if_pos hid]
              exact (flatMap_matching _ _ logs).symm
            · simp [hid]
          rw [hdue]
          refine delivers_eachOk (fun log => ?_) logs
          split
          · exact delivers_send sub.id log.rendered
          · exact delivers_pure

/-- What an event of the pollers has sent. -/
theorem pushEvent_delivers {subs : Subs} {ev : WsEvent} {tr : List (Ev ServerOp ServerRes)}
    {o : Except Panic Bool} (h : Exec (pushEvent subs ev) tr o) (hiter : IteratesAll tr) :
    notesTo s tr <+: owed (kindOf subs s) (.event ev)
      ∧ (o = .ok true ∨ AllSent tr → notesTo s tr = owed (kindOf subs s) (.event ev))
      ∧ (AllSent tr → o = .ok true) := by
  obtain ⟨order, rest, rfl, hrest⟩ := exec_ask_bind h
  have horder : List.Perm order subs.rows := hiter subs.rows order List.mem_cons_self
  have hdue := flatMap_dueTo horder s ev
  have hall := delivers_eachOk (delivers_pushTo (s := s) ev) order
  have hnotes : notesTo s (⟨ServerOp.iterate subs.rows, order⟩ :: rest) = notesTo s rest := rfl
  rw [hnotes, ← hdue]
  have hsent : AllSent (⟨ServerOp.iterate subs.rows, order⟩ :: rest) → o = .ok true :=
    fun hsent => hall.sent rest o hrest fun msg b hmem => hsent msg b (List.mem_cons_of_mem _ hmem)
  refine ⟨hall.begins rest o hrest, ?_, hsent⟩
  intro hdone
  have hok : o = .ok true := hdone.elim id hsent
  rw [hok] at hrest
  exact hall.whole rest hrest

end Push

-- ================================================================== a turn

section Turns

variable {cfg : ServerConfig} {client : IpAddr} {subs subs' : Subs} {s : String}
  {tr : List (Ev ServerOp ServerRes)}

/-- Calls that send no notification. -/
def IsQuiet (op : ServerOp) : Prop := ∀ msg, op = .send msg → noteOf msg = none

theorem quiet_of_uses (h : ∀ e ∈ tr, IsQuiet e.1) : NoNotes tr := by
  intro e he
  have hquiet := h e he
  obtain ⟨op, r⟩ := e
  cases op with
  | send msg => exact hquiet msg rfl
  | _ => rfl

theorem uses_sendOrEnd {msg : Value} (hmsg : noteOf msg = none) (subs : Subs) :
    Uses IsQuiet (fun _ => True) (sendOrEnd subs msg) := by
  refine uses_bind (uses_ask ?_) fun sent => ?_
  · intro msg' hop
    cases hop
    exact hmsg
  · cases sent with
    | true => exact uses_pure _
    | false => exact uses_pure _

theorem uses_allow (client : IpAddr) (cost : UInt64) :
    Uses (fun op => isSilent op = true) (fun _ => True) (allow client cost) :=
  uses_bind (uses_ask rfl) fun _ => uses_pure _

theorem sendOrEnd_ok {msg : Value} (h : Exec (sendOrEnd subs msg) tr (.ok (some subs'))) :
    subs' = subs := by
  obtain ⟨sent, rest, rfl, hrest⟩ := exec_ask_bind h
  cases sent with
  | true => exact (Option.some.inj (Except.ok.inj (exec_ret.mp hrest).2))
  | false => cases (exec_ret.mp hrest).2

theorem uses_eachOk {P : ServerOp → Prop} {α : Type} {body : α → ServerM Bool} {xs : List α}
    (hbody : ∀ x ∈ xs, Uses P (fun _ => True) (body x)) :
    Uses P (fun _ => True) (eachOk body xs) := by
  induction xs with
  | nil => exact uses_pure _
  | cons x xs ih =>
      refine uses_bind (hbody x List.mem_cons_self) fun ok => ?_
      cases ok with
      | true => exact ih fun y hy => hbody y (List.mem_cons_of_mem _ hy)
      | false => exact uses_pure _

/-- An entry is sent only messages in its own name. -/
theorem uses_pushTo {P : ServerOp → Prop} (ev : WsEvent) (sub : Sub)
    (hsend : ∀ v, P (.send (subscriptionMsg sub.id v))) :
    Uses P (fun _ => True) (pushTo ev sub) := by
  unfold pushTo
  split
  · exact uses_ask (hsend _)
  · refine uses_eachOk fun log _ => ?_
    exact uses_ite (fun _ => uses_ask (hsend _)) fun _ => uses_pure _
  · exact uses_pure _

/-- No input is waited for. -/
def IsInner (op : ServerOp) : Prop := op ≠ .recv

theorem isInner_of_silent {op : ServerOp} (h : isSilent op = true) : IsInner op := by
  intro hop
  subst hop
  cases h

theorem inner_sendOrEnd (subs : Subs) (msg : Value) :
    Uses IsInner (fun _ => True) (sendOrEnd subs msg) := by
  refine uses_bind (uses_ask ServerOp.noConfusion) fun sent => ?_
  cases sent with
  | true => exact uses_pure _
  | false => exact uses_pure _

theorem splitTurns_cons {e : Ev ServerOp ServerRes} (h : IsInner e.1)
    (events : List (Ev ServerOp ServerRes)) :
    splitTurns (e :: events) = (e :: (splitTurns events).1, (splitTurns events).2) := by
  obtain ⟨op, r⟩ := e
  cases op with
  | recv => exact absurd rfl h
  | _ => rfl

theorem splitTurns_append {xs ys : List (Ev ServerOp ServerRes)} (h : ∀ e ∈ xs, IsInner e.1) :
    splitTurns (xs ++ ys) = (xs ++ (splitTurns ys).1, (splitTurns ys).2) := by
  induction xs with
  | nil => rfl
  | cons e xs ih =>
      obtain ⟨hhead, htail⟩ := List.forall_mem_cons.mp h
      rw [List.cons_append, splitTurns_cons hhead, ih htail, List.cons_append]

theorem turnsOf_cons (input : WsInput) {xs : List (Ev ServerOp ServerRes)}
    (ys : List (Ev ServerOp ServerRes)) (h : ∀ e ∈ xs, IsInner e.1) (hys : (splitTurns ys).1 = []) :
    turnsOf (⟨ServerOp.recv, input⟩ :: (xs ++ ys)) = ⟨input, xs⟩ :: turnsOf ys := by
  have hrecv : turnsOf (⟨ServerOp.recv, input⟩ :: (xs ++ ys))
      = ⟨input, (splitTurns (xs ++ ys)).1⟩ :: (splitTurns (xs ++ ys)).2 := rfl
  rw [hrecv, splitTurns_append h, hys, List.append_nil]
  rfl

variable [HexCrate]

/-- A text has no notification sent, however far it is served. -/
theorem onText_quiet {parsed : Value} {q : ServerM (Option Subs)}
    (h : Runs (onText cfg client subs parsed) tr q) : NoNotes tr := by
  have hsilent : ∀ {α : Type} {p p' : ServerM α} {tr : List (Ev ServerOp ServerRes)},
      Runs p tr p' → Uses (fun op => isSilent op = true) (fun _ => True) p → NoNotes tr :=
    fun hruns huses => quiet_of_silent (runs_uses hruns huses)
  rcases runs_bind h with ⟨p, hp, -⟩ | ⟨granted, tr₁, tr₂, h₁, h₂, rfl⟩
  · exact hsilent hp (uses_allow client _)
  · obtain ⟨p, hp⟩ := runs_of_exec h₁
    refine (hsilent hp (uses_allow client _)).append ?_
    cases granted with
    | false =>
        exact quiet_of_uses (runs_uses h₂ (uses_sendOrEnd (noteOf_error _ _ _) subs))
    | true =>
        rcases runs_bind h₂ with ⟨p', hp', -⟩ | ⟨⟨response, subs₁⟩, tr₃, tr₄, h₃, h₄, rfl⟩
        · exact hsilent hp' (uses_serveText subs parsed)
        · obtain ⟨p', hp'⟩ := runs_of_exec h₃
          refine (hsilent hp' (uses_serveText subs parsed)).append ?_
          cases response with
          | none =>
              cases h₄
              intro e he
              cases he
          | some v =>
              have hv := (serveText_ok h₃).1 v rfl
              exact quiet_of_uses (runs_uses h₄ (uses_sendOrEnd hv subs₁))

/-- What a turn sends is what its input is worth. -/
theorem turn_notes {input : WsInput} {o : Except Panic (Option Subs)}
    (h : Exec (turn cfg client subs input) tr o) (hiter : IteratesAll tr) :
    notesTo s tr <+: owed (kindOf subs s) input
      ∧ ((∃ subs', o = .ok (some subs')) ∨ AllSent tr →
        notesTo s tr = owed (kindOf subs s) input) := by
  have hquiet : NoNotes tr → owed (kindOf subs s) input = [] →
      notesTo s tr <+: owed (kindOf subs s) input
        ∧ ((∃ subs', o = .ok (some subs')) ∨ AllSent tr →
          notesTo s tr = owed (kindOf subs s) input) := by
    intro hquiet howed
    rw [hquiet.notesTo, howed]
    exact ⟨List.nil_prefix, fun _ => rfl⟩
  have hnothing : ∀ next : Option Subs,
      Exec (pure next : ServerM (Option Subs)) tr o → NoNotes tr := by
    intro next hret e he
    rw [(exec_ret.mp hret).1] at he
    cases he
  cases input with
  | text parsed =>
      refine hquiet ?_ rfl
      obtain ⟨q, hq⟩ := runs_of_exec h
      cases parsed with
      | none => exact quiet_of_uses (runs_uses hq (uses_sendOrEnd (noteOf_error _ _ _) subs))
      | some parsed => exact onText_quiet hq
  | event ev =>
      rcases exec_bind.mp h with ⟨p, hp, rfl⟩ | ⟨ok, tr₁, tr₂, h₁, h₂, rfl⟩
      · have hpush := pushEvent_delivers (s := s) hp hiter
        refine ⟨hpush.1, ?_⟩
        rintro (⟨subs', hsome⟩ | hsent)
        · cases hsome
        · exact hpush.2.1 (.inr hsent)
      · have hrest : tr₂ = [] ∧ (ok = true ∨ o = .ok none) := by
          cases ok with
          | true => exact ⟨(exec_ret.mp h₂).1, .inl rfl⟩
          | false => exact ⟨(exec_ret.mp h₂).1, .inr (exec_ret.mp h₂).2⟩
        rw [hrest.1, List.append_nil] at hiter ⊢
        have hpush := pushEvent_delivers (s := s) h₁ hiter
        refine ⟨hpush.1, ?_⟩
        rintro (⟨subs', hsome⟩ | hsent)
        · rcases hrest.2 with rfl | hnone
          · exact hpush.2.1 (.inl rfl)
          · rw [hsome] at hnone
            cases hnone
        · exact hpush.2.1 (.inr hsent)
  | other => exact hquiet (hnothing _ h) rfl
  | hangup => exact hquiet (hnothing _ h) rfl
  | lagged skipped => exact hquiet (hnothing _ h) rfl
  | channelClosed => exact hquiet (hnothing _ h) rfl

/-- What a turn makes of a subscription. -/
theorem turn_live {input : WsInput} (h : Exec (turn cfg client subs input) tr (.ok (some subs'))) :
    kindOf subs' s = afterTurn cfg s (kindOf subs s) ⟨input, tr⟩ := by
  have hsame : ∀ next : Option Subs,
      Exec (pure next : ServerM (Option Subs)) tr (.ok (some subs')) → next = some subs' :=
    fun next hret => (Except.ok.inj (exec_ret.mp hret).2).symm
  cases input with
  | text parsed =>
      cases parsed with
      | none => rw [sendOrEnd_ok h]; rfl
      | some parsed =>
          obtain ⟨granted, tr₁, tr₂, h₁, h₂, rfl⟩ := exec_bind_ok.mp h
          obtain ⟨now, rfl⟩ := exec_allow h₁
          cases granted with
          | false => rw [sendOrEnd_ok h₂]; rfl
          | true =>
              obtain ⟨⟨response, subs₁⟩, tr₃, tr₄, h₃, h₄, rfl⟩ := exec_bind_ok.mp h₂
              have hsubs : subs' = subs₁ := by
                cases response with
                | none => exact (Option.some.inj (Except.ok.inj (exec_ret.mp h₄).2))
                | some v => exact sendOrEnd_ok h₄
              rw [hsubs, ← (serveText_ok h₃).2 s (numbersOf tr₄), ← numbersOf_append]
              rfl
  | event ev =>
      obtain ⟨ok, tr₁, tr₂, h₁, h₂, rfl⟩ := exec_bind_ok.mp h
      cases ok with
      | true =>
          cases (exec_ret.mp h₂).2
          rfl
      | false => cases (exec_ret.mp h₂).2
  | other =>
      cases hsame _ h
      rfl
  | hangup => cases hsame _ h
  | lagged skipped =>
      cases hsame _ h
      rfl
  | channelClosed => cases hsame _ h

-- ================================================================ the turns

/-- A turn waits for one input, its own. -/
theorem inner_turn (cfg : ServerConfig) (client : IpAddr) (subs : Subs) (input : WsInput) :
    Uses IsInner (fun _ => True) (turn cfg client subs input) := by
  cases input with
  | text parsed =>
      cases parsed with
      | none => exact inner_sendOrEnd subs _
      | some parsed =>
          have hallow := (uses_allow client (textCost parsed)).mono fun _ => isInner_of_silent
          refine uses_bind hallow fun granted => ?_
          cases granted with
          | false => exact inner_sendOrEnd subs _
          | true =>
              have hserve : Uses IsInner (fun _ => True) (serveText cfg subs parsed) :=
                (uses_serveText subs parsed).mono fun _ => isInner_of_silent
              refine uses_bind hserve fun served => ?_
              obtain ⟨response, subs₁⟩ := served
              cases response with
              | none => exact uses_pure _
              | some v => exact inner_sendOrEnd subs₁ v
  | event ev =>
      refine uses_bind (uses_bind (uses_ask ServerOp.noConfusion) fun order => ?_) fun ok => ?_
      · exact uses_eachOk fun sub _ => uses_pushTo ev sub fun v => ServerOp.noConfusion
      · cases ok with
        | true => exact uses_pure _
        | false => exact uses_pure _
  | other => exact uses_pure _
  | hangup => exact uses_pure _
  | lagged skipped => exact uses_pure _
  | channelClosed => exact uses_pure _

/-- The events of a connection begin with an input. -/
theorem splitTurns_connectionLoop {turns : Nat} {o : Except Panic Unit}
    (h : Exec (connectionLoop cfg client turns subs) tr o) : (splitTurns tr).1 = [] := by
  cases turns with
  | zero =>
      rw [(exec_ret.mp h).1]
      rfl
  | succ turns =>
      obtain ⟨input, rest, rfl, -⟩ := exec_ask_bind h
      rfl

/-- A turn that is the last. -/
theorem stream_lastTurn {input : WsInput} {o : Except Panic (Option Subs)}
    (h : Exec (turn cfg client subs input) tr o) (hiter : IteratesAll tr) (s : String) :
    notesTo s tr <+: stream cfg s (kindOf subs s) [⟨input, tr⟩]
      ∧ (AllSent tr → notesTo s tr = stream cfg s (kindOf subs s) [⟨input, tr⟩]) := by
  have hturn := turn_notes (s := s) h hiter
  rw [stream, stream, List.append_nil]
  exact ⟨hturn.1, fun hsent => hturn.2 (.inr hsent)⟩

theorem connectionLoop_stream {turns : Nat} {o : Except Panic Unit}
    (h : Exec (connectionLoop cfg client turns subs) tr o) (hiter : IteratesAll tr) (s : String) :
    notesTo s tr <+: stream cfg s (kindOf subs s) (turnsOf tr)
      ∧ (AllSent tr → notesTo s tr = stream cfg s (kindOf subs s) (turnsOf tr)) := by
  induction turns generalizing subs tr with
  | zero =>
      rw [(exec_ret.mp h).1]
      exact ⟨List.nil_prefix, fun _ => rfl⟩
  | succ turns ih =>
      obtain ⟨input, rest, rfl, hrest⟩ := exec_ask_bind h
      have hiter' : IteratesAll rest :=
        fun subs order hmem => hiter subs order (List.mem_cons_of_mem _ hmem)
      have hsent' : AllSent (⟨ServerOp.recv, input⟩ :: rest) → AllSent rest :=
        fun hsent msg b hmem => hsent msg b (List.mem_cons_of_mem _ hmem)
      have hnotes : notesTo s (⟨ServerOp.recv, input⟩ :: rest) = notesTo s rest := rfl
      rw [hnotes]
      rcases exec_bind.mp hrest with ⟨p, hp, rfl⟩ | ⟨next, tr₁, tr₂, h₁, h₂, rfl⟩
      · -- a handler panics in the turn
        have hinner := exec_uses hp (inner_turn cfg client subs input)
        have hlast := stream_lastTurn hp hiter' s
        have hturns := turnsOf_cons input [] hinner rfl
        rw [List.append_nil] at hturns
        rw [hturns]
        exact ⟨hlast.1, fun hsent => hlast.2 (hsent' hsent)⟩
      · have hinner := exec_uses h₁ (inner_turn cfg client subs input)
        cases next with
        | none =>
            obtain ⟨rfl, -⟩ := exec_ret.mp h₂
            rw [turnsOf_cons input [] hinner rfl]
            rw [List.append_nil] at hiter' hsent' ⊢
            have hlast := stream_lastTurn h₁ hiter' s
            exact ⟨hlast.1, fun hsent => hlast.2 (hsent' hsent)⟩
        | some subs' =>
            rw [turnsOf_cons input tr₂ hinner (splitTurns_connectionLoop h₂), stream,
              ← turn_live h₁, notesTo_append, (turn_notes h₁ hiter'.left).2 (.inl ⟨subs', rfl⟩)]
            have hrest' := ih h₂ hiter'.right
            refine ⟨(List.prefix_append_right_inj _).mpr hrest'.1, ?_⟩
            intro hsent
            rw [hrest'.2 (hsent' hsent).right]

/-- What a connection sends in the name of a subscription is what is due to
it, as far as it goes out. -/
theorem subscriber_stream {turns : Nat} {o : Except Panic Unit}
    (h : Exec (connection cfg client turns) tr o) (hiter : IteratesAll tr) (s : String) :
    notesTo s tr <+: stream cfg s none (turnsOf tr)
      ∧ (AllSent tr → notesTo s tr = stream cfg s none (turnsOf tr)) :=
  connectionLoop_stream h hiter s

end Turns

-- =================================================================== a sample

/-- A peer that hears of a head, subscribes, hears of the next, unsubscribes
and hears of the one after it. -/
def sampleInputs : List WsInput :=
  [.event (.newHead (.number 6)),
    .text (some (.object [("id", .number 1), ("method", .string "eth_subscribe"),
      ("params", .array [.string "newHeads"])])),
    .event (.newHead (.number 7)),
    .text (some (.object [("id", .number 2), ("method", .string "eth_unsubscribe"),
      ("params", .array [.string "0x1"])])),
    .event (.newHead (.number 8))]

/-- The rest of the proxy, with these inputs. -/
def samplePeer : (op : ServerOp) → List WsInput → ServerRes op × List WsInput
  | .recv, inputs => (inputs.headD .hangup, inputs.tail)
  | .allow .., inputs => ((true, 0), inputs)
  | .handle .., inputs => (.ok (.ok .null), inputs)
  | .send _, inputs => (true, inputs)
  | .nextSub, inputs => ((1 : UInt64), inputs)
  | .iterate subs, inputs => (subs, inputs)

/-- The connection to it. -/
def sampleConnection : Lib.Run ServerOp ServerRes Panic Unit (List WsInput) :=
  (connection sampleServer (.v4 1) 5).run samplePeer sampleInputs

theorem sampleConnection_iterates : IteratesAll sampleConnection.trace := by
  intro subs order hmem
  have hall : ∀ e ∈ sampleConnection.trace, ∀ subs (order : List Sub),
      e = ⟨ServerOp.iterate subs, order⟩ → order.Perm subs := by
    refine run_answers ?_ _ _
    intro op inputs subs order heq
    cases op with
    | iterate subs' =>
        cases heq
        exact .refl _
    | _ => cases heq
  exact hall _ hmem subs order rfl

theorem sampleConnection_sends : AllSent sampleConnection.trace := by
  intro msg sent hmem
  have hall : ∀ e ∈ sampleConnection.trace, ∀ msg (sent : Bool),
      e = ⟨ServerOp.send msg, sent⟩ → sent = true := by
    refine run_answers ?_ _ _
    intro op inputs msg sent heq
    cases op with
    | send msg' =>
        cases heq
        rfl
    | _ => cases heq
  exact hall _ hmem msg sent rfl

theorem sampleConnection_notified : notesTo "0x1" sampleConnection.trace = [.number 7] :=
  (subscriber_stream (run_exec samplePeer _ _) sampleConnection_iterates "0x1").2
    sampleConnection_sends

end KoinosEvm.Proofs
