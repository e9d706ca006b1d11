/-
What one syscall wrapper can do, said once.

`exec_callSystem` and `exec_callSystemMust` invert the two callers; the
wrappers above them inherit one lemma each. A trace is read through three
projections: the events it emitted (`eventsOf`), the objects it wrote or
removed (`writesOf`), and the reads that failed (`readsFailed`).
-/
import KoinosEvm.Engine.Start

namespace KoinosEvm.Proofs

open Engine Lib

-- ========================================================= projections

/-- An event in a receipt. -/
structure Emitted where
  name : String
  data : Bytes
  impacted : List Bytes
  deriving DecidableEq

/-- The event a syscall emitted: one the host refused is not in the
receipt. -/
def eventOf : HostEv → Option Emitted
  | ⟨.event name data impacted, reply⟩ =>
      if reply.rc = 0 then some ⟨name, data, impacted⟩ else none
  | _ => none

/-- The events of a trace. -/
def eventsOf (tr : List HostEv) : List Emitted := tr.filterMap eventOf

/-- The syscall writes or removes an object. -/
def isWrite : Syscall → Bool
  | .putObject .. => true
  | .removeObject .. => true
  | _ => false

/-- The object writes and removals of a trace. -/
def writesOf (tr : List HostEv) : List HostEv := tr.filter fun e => isWrite e.1

/-- Some `get_object` of the trace returned a nonzero code. -/
def ReadFails (tr : List HostEv) : Prop :=
  ∃ space key reply, (⟨.getObject space key, reply⟩ : HostEv) ∈ tr ∧ reply.rc ≠ 0

theorem eventsOf_append (xs ys : List HostEv) :
    eventsOf (xs ++ ys) = eventsOf xs ++ eventsOf ys := List.filterMap_append

theorem writesOf_append (xs ys : List HostEv) :
    writesOf (xs ++ ys) = writesOf xs ++ writesOf ys := List.filter_append ..

-- ========================================================== the callers

theorem exec_invoke {call : Syscall} {tr : List HostEv} {o : Except Exit Reply}
    (h : Exec (invokeSystemCall call) tr o) :
    ∃ reply, tr = [⟨call, reply⟩] ∧ o = .ok reply := exec_ask.mp h

theorem exec_rawLog {msg : Bytes} {tr : List HostEv} {o : Except Exit Unit}
    (h : Exec (rawLog msg) tr o) : o = .ok () ∧ ∃ reply, tr = [⟨.log msg, reply⟩] := by
  unfold rawLog at h
  rcases exec_bind.mp h with ⟨x, hx, -⟩ | ⟨r, tr₁, tr₂, h₁, h₂, rfl⟩
  · obtain ⟨_, -, hx⟩ := exec_invoke hx
    cases hx
  · obtain ⟨reply, rfl, -⟩ := exec_invoke h₁
    obtain ⟨rfl, rfl⟩ := exec_ret.mp h₂
    exact ⟨rfl, reply, rfl⟩

/-- A call that is answered gives its bytes; a refused one leaves a log line
before what is done about it. -/
theorem exec_answered {call : Syscall} {msg : Reply → Bytes} {refused : Reply → HostM Bytes}
    {tr : List HostEv} {o : Except Exit Bytes}
    (h : Exec (do
      let reply ← invokeSystemCall call
      if reply.rc ≠ 0 then
        rawLog (msg reply)
        refused reply
      else return reply.out) tr o) :
    ∃ reply, (reply.rc = 0 ∧ tr = [⟨call, reply⟩] ∧ o = .ok reply.out) ∨
      (reply.rc ≠ 0 ∧ ∃ m reply' rest, Exec (refused reply) rest o ∧
        tr = ⟨call, reply⟩ :: ⟨.log m, reply'⟩ :: rest) := by
  rcases exec_bind.mp h with ⟨x, hx, -⟩ | ⟨reply, tr₁, tr₂, h₁, h₂, rfl⟩
  · obtain ⟨_, -, hx⟩ := exec_invoke hx
    cases hx
  · obtain ⟨_, rfl, hr⟩ := exec_invoke h₁
    injection hr with hr
    subst hr
    refine ⟨reply, ?_⟩
    by_cases hrc : reply.rc = 0
    · rw [if_neg (not_not.mpr hrc)] at h₂
      obtain ⟨rfl, rfl⟩ := exec_ret.mp h₂
      exact Or.inl ⟨hrc, rfl, rfl⟩
    · rw [if_pos hrc] at h₂
      rcases exec_bind.mp h₂ with ⟨x, hx, -⟩ | ⟨u, tr₃, tr₄, h₃, h₄, rfl⟩
      · cases (exec_rawLog hx).1
      · obtain ⟨-, reply', rfl⟩ := exec_rawLog h₃
        exact Or.inr ⟨hrc, _, reply', tr₄, h₄, rfl⟩

/-- `call_system`: the bytes of an answered call, nothing of a refused
one, which leaves a log line. -/
theorem exec_callSystem {call : Syscall} {tr : List HostEv} {o : Except Exit Bytes}
    (h : Exec (callSystem call) tr o) :
    ∃ reply, (reply.rc = 0 ∧ tr = [⟨call, reply⟩] ∧ o = .ok reply.out) ∨
      (reply.rc ≠ 0 ∧ o = .ok [] ∧
        ∃ msg reply', tr = [⟨call, reply⟩, ⟨.log msg, reply'⟩]) := by
  unfold callSystem at h
  obtain ⟨reply, hok | ⟨hrc, msg, reply', rest, hrest, rfl⟩⟩ := exec_answered h
  · exact ⟨reply, Or.inl hok⟩
  · obtain ⟨rfl, rfl⟩ := exec_ret.mp hrest
    exact ⟨reply, Or.inr ⟨hrc, rfl, msg, reply', rfl⟩⟩

/-- `call_system_must`: the bytes of an answered call; a refused one
leaves a log line and ends the program. -/
theorem exec_callSystemMust {call : Syscall} {tr : List HostEv} {o : Except Exit Bytes}
    (h : Exec (callSystemMust call) tr o) :
    ∃ reply, (reply.rc = 0 ∧ tr = [⟨call, reply⟩] ∧ o = .ok reply.out) ∨
      (reply.rc ≠ 0 ∧ (∃ msg, o = .error (.failure msg)) ∧
        ∃ msg reply', tr = [⟨call, reply⟩, ⟨.log msg, reply'⟩]) := by
  unfold callSystemMust at h
  obtain ⟨reply, hok | ⟨hrc, msg, reply', rest, hrest, rfl⟩⟩ := exec_answered h
  · exact ⟨reply, Or.inl hok⟩
  · obtain ⟨rfl, rfl⟩ := exec_halt.mp hrest
    exact ⟨reply, Or.inr ⟨hrc, ⟨_, rfl⟩, msg, reply', rfl⟩⟩

/-- The shape of `event`, `put_object` and `remove_object`. -/
theorem exec_must {call : Syscall} {tr : List HostEv} {o : Except Exit Unit}
    (h : Exec (do let _ ← callSystemMust call) tr o) :
    ∃ reply, (reply.rc = 0 ∧ tr = [⟨call, reply⟩] ∧ o = .ok ()) ∨
      (reply.rc ≠ 0 ∧ (∃ msg, o = .error (.failure msg)) ∧
        ∃ msg reply', tr = [⟨call, reply⟩, ⟨.log msg, reply'⟩]) := by
  rcases exec_bind.mp h with ⟨x, hx, rfl⟩ | ⟨b, tr₁, tr₂, h₁, h₂, rfl⟩
  · obtain ⟨reply, ⟨-, -, hx⟩ | ⟨hrc, ⟨msg, hx⟩, htr⟩⟩ := exec_callSystemMust hx
    · cases hx
    · injection hx with hx
      exact ⟨reply, Or.inr ⟨hrc, ⟨msg, by rw [hx]⟩, htr⟩⟩
  · obtain ⟨reply, ⟨hrc, rfl, -⟩ | ⟨-, ⟨msg, hx⟩, -⟩⟩ := exec_callSystemMust h₁
    · obtain ⟨rfl, rfl⟩ := exec_ret.mp h₂
      exact ⟨reply, Or.inl ⟨hrc, rfl, rfl⟩⟩
    · cases hx

-- ================================================== calls of the callers

/-- The call was aborted: `SC_EXIT` with an error. -/
def Aborts (x : Exit) : Prop := ∃ msg, x = .failure msg

section Uses

variable {P : Syscall → Prop} (hlog : ∀ msg, P (.log msg)) {call : Syscall}
include hlog

theorem uses_rawLog (msg : Bytes) : Uses P Aborts (rawLog msg) :=
  uses_bind (uses_ask (hlog msg)) fun _ => uses_pure _

theorem uses_callSystem (h : P call) : Uses P Aborts (callSystem call) := by
  refine uses_bind (uses_ask h) fun reply => ?_
  split
  · exact uses_bind (uses_rawLog hlog _) fun _ => uses_pure _
  · exact uses_pure _

theorem uses_callSystemMust (h : P call) : Uses P Aborts (callSystemMust call) := by
  refine uses_bind (uses_ask h) fun reply => ?_
  split
  · exact uses_bind (uses_rawLog hlog _) fun _ => uses_halt ⟨_, rfl⟩
  · exact uses_pure _

theorem uses_log (msg : String) : Uses P Aborts (Sys.log msg) :=
  uses_bind (uses_callSystem hlog (hlog _)) fun _ => uses_pure _

/-- The fatal exits only log. -/
theorem uses_fatal {α : Type} (msg text : String) :
    Uses P Aborts (Sys.log msg >>= fun _ => (Sys.exitError text : HostM α)) :=
  uses_bind (uses_log hlog msg) fun _ => uses_halt ⟨_, rfl⟩

theorem uses_event {name : String} {data : Bytes} {impacted : List Bytes}
    (h : P (.event name data impacted)) : Uses P Aborts (Sys.event name data impacted) :=
  uses_bind (uses_callSystemMust hlog h) fun _ => uses_pure _

theorem uses_put {space : ObjectSpace} {key obj : Bytes} (h : P (.putObject space key obj)) :
    Uses P Aborts (Sys.putObject space key obj) :=
  uses_bind (uses_callSystemMust hlog h) fun _ => uses_pure _

theorem uses_remove {space : ObjectSpace} {key : Bytes} (h : P (.removeObject space key)) :
    Uses P Aborts (Sys.removeObject space key) :=
  uses_bind (uses_callSystemMust hlog h) fun _ => uses_pure _

/-- The space constructors only ask for the contract id. -/
theorem uses_contractZone (hid : P .getContractId) : Uses P Aborts contractZone := by
  refine uses_bind (uses_bind (uses_callSystem hlog hid) fun _ => uses_pure _) fun zone => ?_
  split
  · exact uses_fatal hlog _ _
  · exact uses_pure _

theorem uses_engineSpace (hid : P .getContractId) (id : UInt32) :
    Uses P Aborts (engineSpace id) :=
  uses_bind (uses_contractZone hlog hid) fun _ => uses_pure _

end Uses

-- ====================================================== smooth syscalls

/-- The syscalls that go through `call_system_must`. -/
def isMust : Syscall → Bool
  | .putObject .. => true
  | .removeObject .. => true
  | .event .. => true
  | _ => false

/-- The value in a reply of `hash`, `recover_public_key` or
`get_contract_id`, empty if the call was refused. -/
def valueIn (reply : Reply) : Bytes :=
  if reply.rc = 0 then Sys.decodeValue reply.out else []

/-- A reply that lets the engine go on: a state or event syscall that
succeeded, a contract id that is there. -/
def Smooth (e : HostEv) : Prop :=
  (isMust e.1 = true → e.2.rc = 0) ∧ (e.1 = .getContractId → valueIn e.2 ≠ [])

theorem smooth_log (msg : Bytes) (reply : Reply) : Smooth ⟨.log msg, reply⟩ := by
  refine ⟨?_, ?_⟩
  · intro h
    cases h
  · intro h
    cases h

theorem governed_callSystem {call : Syscall} (hmust : isMust call = false)
    (hid : call ≠ .getContractId) : Governed Smooth (callSystem call) := by
  have hsmooth : ∀ reply, Smooth ⟨call, reply⟩ := by
    intro reply
    refine ⟨?_, ?_⟩
    · intro h
      rw [hmust] at h
      cases h
    · intro h
      exact absurd h hid
  intro tr o h
  obtain ⟨reply, ⟨-, rfl, rfl⟩ | ⟨-, rfl, msg, reply', rfl⟩⟩ := exec_callSystem h
  · refine ⟨fun _ => ?_, fun _ => ⟨_, rfl⟩⟩
    intro e he
    rw [List.mem_singleton.mp he]
    exact hsmooth reply
  · refine ⟨fun _ => ?_, fun _ => ⟨_, rfl⟩⟩
    intro e he
    rcases List.mem_cons.mp he with rfl | he
    · exact hsmooth reply
    · rw [List.mem_singleton.mp he]
      exact smooth_log msg reply'

theorem governed_must {call : Syscall} (hmust : isMust call = true) :
    Governed Smooth (do let _ ← callSystemMust call : HostM Unit) := by
  intro tr o h
  obtain ⟨reply, ⟨hrc, rfl, rfl⟩ | ⟨hrc, ⟨msg, rfl⟩, m, reply', rfl⟩⟩ := exec_must h
  · refine ⟨fun _ => ?_, fun _ => ⟨_, rfl⟩⟩
    intro e he
    rw [List.mem_singleton.mp he]
    refine ⟨fun _ => hrc, ?_⟩
    intro hid
    rw [show call = .getContractId from hid] at hmust
    cases hmust
  · refine ⟨?_, ?_⟩
    · intro hok
      obtain ⟨a, ha⟩ := hok
      cases ha
    · intro hall
      exact absurd ((hall _ List.mem_cons_self).1 hmust) hrc

theorem governed_log (msg : String) : Governed Smooth (Sys.log msg) :=
  governed_bind (governed_callSystem rfl (by simp)) fun _ => governed_pure _

theorem governed_event (name : String) (data : Bytes) (impacted : List Bytes) :
    Governed Smooth (Sys.event name data impacted) := governed_must rfl

theorem governed_putObject (space : ObjectSpace) (key obj : Bytes) :
    Governed Smooth (Sys.putObject space key obj) := governed_must rfl

theorem governed_removeObject (space : ObjectSpace) (key : Bytes) :
    Governed Smooth (Sys.removeObject space key) := governed_must rfl

/-- The event is a log line. -/
def IsLog (e : HostEv) : Prop := ∃ msg, e.1 = .log msg

/-- `sys::log` makes log lines and goes on. -/
theorem exec_log {msg : String} {tr : List HostEv} {o : Except Exit Unit}
    (h : Exec (Sys.log msg) tr o) : o = .ok () ∧ ∀ e ∈ tr, IsLog e := by
  rcases exec_bind.mp h with ⟨x, hx, -⟩ | ⟨b, tr₁, tr₂, h₁, h₂, rfl⟩
  · obtain ⟨reply, ⟨-, -, hx⟩ | ⟨-, hx, -⟩⟩ := exec_callSystem hx
    · cases hx
    · cases hx
  · obtain ⟨rfl, rfl⟩ := exec_ret.mp h₂
    refine ⟨rfl, ?_⟩
    rw [List.append_nil]
    obtain ⟨reply, ⟨-, rfl, -⟩ | ⟨-, -, msg', reply', rfl⟩⟩ := exec_callSystem h₁
    · intro e he
      rw [List.mem_singleton.mp he]
      exact ⟨_, rfl⟩
    · intro e he
      rcases List.mem_cons.mp he with rfl | he
      · exact ⟨_, rfl⟩
      · rw [List.mem_singleton.mp he]
        exact ⟨_, rfl⟩

/-- The fatal exits: a log line, then an error. -/
theorem exec_fatal {α : Type} {msg text : String} {tr : List HostEv} {o : Except Exit α}
    (h : Exec (Sys.log msg >>= fun _ => Sys.exitError text) tr o) :
    o = .error (.failure (utf8 text)) ∧ ∀ e ∈ tr, IsLog e := by
  rcases exec_bind.mp h with ⟨x, hx, -⟩ | ⟨u, tr₁, tr₂, h₁, h₂, rfl⟩
  · cases (exec_log hx).1
  · obtain ⟨rfl, rfl⟩ := exec_halt.mp h₂
    refine ⟨rfl, ?_⟩
    rw [List.append_nil]
    exact (exec_log h₁).2

/-- `sys::get_contract_id`: the id in the reply. -/
theorem exec_getContractId {tr : List HostEv} {o : Except Exit Bytes}
    (h : Exec Sys.getContractId tr o) :
    ∃ reply rest, tr = ⟨.getContractId, reply⟩ :: rest ∧ (∀ e ∈ rest, IsLog e) ∧
      o = .ok (valueIn reply) := by
  rcases exec_bind.mp h with ⟨x, hx, -⟩ | ⟨result, tr₁, tr₂, h₁, h₂, rfl⟩
  · obtain ⟨reply, ⟨-, -, hx⟩ | ⟨-, hx, -⟩⟩ := exec_callSystem hx
    · cases hx
    · cases hx
  · obtain ⟨rfl, rfl⟩ := exec_ret.mp h₂
    obtain ⟨reply, ⟨hrc, rfl, hr⟩ | ⟨hrc, hr, msg, reply', rfl⟩⟩ := exec_callSystem h₁
    · injection hr with hr
      refine ⟨reply, [], rfl, by simp, ?_⟩
      rw [hr, valueIn, if_pos hrc]
    · injection hr with hr
      refine ⟨reply, [⟨.log msg, reply'⟩], rfl, ?_, ?_⟩
      · intro e he
        rw [List.mem_singleton.mp he]
        exact ⟨msg, rfl⟩
      · rw [hr, valueIn, if_neg hrc]
        rfl

/-- `contract_zone`: the id in the reply, where there is one. -/
theorem exec_contractZone {tr : List HostEv} {o : Except Exit Bytes}
    (h : Exec contractZone tr o) :
    ∃ reply rest, tr = ⟨.getContractId, reply⟩ :: rest ∧ (∀ e ∈ rest, IsLog e) ∧
      ((valueIn reply ≠ [] ∧ o = .ok (valueIn reply)) ∨
        (valueIn reply = [] ∧ ∃ msg, o = .error (.failure msg))) := by
  unfold contractZone at h
  rcases exec_bind.mp h with ⟨x, hx, -⟩ | ⟨zone, tr₁, tr₂, h₁, h₂, rfl⟩
  · obtain ⟨_, _, -, -, hx⟩ := exec_getContractId hx
    cases hx
  · obtain ⟨reply, rest, rfl, hlogs, hz⟩ := exec_getContractId h₁
    injection hz with hz
    subst hz
    by_cases he : (valueIn reply).isEmpty = true
    · rw [if_pos he] at h₂
      obtain ⟨ho, hlogs'⟩ := exec_fatal h₂
      refine ⟨reply, rest ++ tr₂, rfl, ?_, Or.inr ⟨List.isEmpty_iff.mp he, _, ho⟩⟩
      rw [List.forall_mem_append]
      exact ⟨hlogs, hlogs'⟩
    · rw [if_neg he] at h₂
      obtain ⟨rfl, rfl⟩ := exec_ret.mp h₂
      refine ⟨reply, rest, by rw [List.append_nil], hlogs, Or.inl ⟨?_, rfl⟩⟩
      intro h0
      exact he (List.isEmpty_iff.mpr h0)

theorem smooth_of_isLog {e : HostEv} (h : IsLog e) : Smooth e := by
  obtain ⟨call, reply⟩ := e
  obtain ⟨msg, rfl⟩ := h
  exact smooth_log msg reply

theorem governed_contractZone : Governed Smooth contractZone := by
  intro tr o h
  obtain ⟨reply, rest, rfl, hlogs, ⟨hid, rfl⟩ | ⟨hid, msg, rfl⟩⟩ := exec_contractZone h
  · refine ⟨fun _ => ?_, fun _ => ⟨_, rfl⟩⟩
    intro e he
    rcases List.mem_cons.mp he with rfl | he
    · refine ⟨?_, fun _ => hid⟩
      intro h
      cases h
    · exact smooth_of_isLog (hlogs e he)
  · refine ⟨?_, ?_⟩
    · intro hok
      obtain ⟨a, ha⟩ := hok
      cases ha
    · intro hall
      exact absurd hid ((hall _ List.mem_cons_self).2 rfl)

theorem governed_engineSpace (id : UInt32) : Governed Smooth (engineSpace id) :=
  governed_bind governed_contractZone fun _ => governed_pure _

end KoinosEvm.Proofs
