import NbIot.Ipc.WaitQueue

/-! # Events

`rt_event_send`, `rt_event_recv` and `rt_event_control` of `ipc.c`, on any number of event objects
and for any number of threads. A thread that waits for an event has written down in its control
block which bits it wants (`event_set`) and how (`event_info`); the send looks through the waiting
threads, in the order of the list, and resumes those whose condition its bits satisfy. A thread
that asked for `RT_EVENT_FLAG_CLEAR` takes its bits away from those behind it.
-/

namespace NbIot.Events

open Queues Kernel Function Option Run

/-! ## The functions of `ipc.c` -/

variable {T E : Type}

def flagAnd : BitVec 8 := 0x01

def flagOr : BitVec 8 := 0x02

def flagClear : BitVec 8 := 0x04

/-- `struct rt_event`. -/
structure Event where
  set : BitVec 32
  flag : IpcFlag

def rtEventInit (flag : IpcFlag) : Event := { set := 0, flag := flag }

/-- The test of both functions: whether `set` has the bits that are wanted. -/
def Satisfied (option : BitVec 8) (wanted set : BitVec 32) : Prop :=
  if option &&& flagAnd ≠ 0 then wanted &&& set = wanted
  else option &&& flagOr ≠ 0 ∧ wanted &&& set ≠ 0
  deriving Decidable

/-- A call that has returned; a receive that fails has not written to `*recved`. -/
inductive Call (T E : Type) where
  | sent (e : E) (err : Int)
  | received (t : T) (e : E) (recved : Option (BitVec 32)) (err : Int)
  | reset (e : E)
  deriving DecidableEq

/-- The kernel, the event objects, the fields `event_set` and `event_info` of the threads, the
event on which a thread has been suspended by a call that has not returned, and the calls that
have returned. -/
structure State (T E : Type) where
  kernel : Kernel T E
  event : E → Event
  eventSet : T → BitVec 32
  eventInfo : T → BitVec 8
  call : T → Option E
  log : List (Call T E)

/-- What the loop of `rt_event_send` changes. -/
structure Scan (T E : Type) where
  kernel : Kernel T E
  set : BitVec 32
  eventSet : T → BitVec 32

/-- `thread->event_set` after the test has been passed: an OR waiter keeps the bits it got. -/
def receivedSet (option : BitVec 8) (wanted set : BitVec 32) : BitVec 32 :=
  if option &&& flagAnd ≠ 0 then wanted else wanted &&& set

/-- `event->set` after bits have been received. -/
def clearSet (option : BitVec 8) (recved set : BitVec 32) : BitVec 32 :=
  if option &&& flagClear ≠ 0 then set &&& ~~~recved else set

section

variable [DecidableEq T] [DecidableEq E]

/-- The thread `t` has its event and is resumed. -/
def Scan.wake (sc : Scan T E) (info : T → BitVec 8) (t : T) : Scan T E where
  kernel := (sc.kernel.rtThreadResume t).1
  set := clearSet (info t) (receivedSet (info t) (sc.eventSet t) sc.set) sc.set
  eventSet := update sc.eventSet t (receivedSet (info t) (sc.eventSet t) sc.set)

/-- The loop of `rt_event_send`: it has moved on before a thread leaves the list, so it visits the
threads that were in the list when it began. -/
def scan (info : T → BitVec 8) : List T → Scan T E → Scan T E
  | [], sc => sc
  | t :: ts, sc =>
    scan info ts (if Satisfied (info t) (sc.eventSet t) sc.set then sc.wake info t else sc)

/-- The loop, run on the threads that wait for `e` after `set` has been added. -/
def sendScan (s : State T E) (e : E) (set : BitVec 32) : Scan T E :=
  scan s.eventInfo (s.kernel.queue (.wait e))
    { kernel := s.kernel, set := (s.event e).set ||| set, eventSet := s.eventSet }

def rtEventSend (s : State T E) (e : E) (set : BitVec 32) : State T E × Int :=
  if set = 0 then (s, -rtError)
  else
    ({ s with
        kernel := (sendScan s e set).kernel
        eventSet := (sendScan s e set).eventSet
        event := update s.event e { s.event e with set := (sendScan s e set).set } },
      rtEok)

/-- How `rt_event_recv` goes on after its first part: it returns, or it waits. -/
inductive Outcome where
  | returned (recved : Option (BitVec 32)) (err : Int)
  | waiting

/-- `rt_event_recv` of the thread `t`, up to `rt_schedule`. -/
def rtEventRecv (s : State T E) (t : T) (e : E) (set : BitVec 32) (option : BitVec 8)
    (timeout : BitVec 32) : Option (State T E × Outcome) :=
  if set = 0 then some (s, .returned none (-rtError))
  else if option &&& flagAnd = 0 ∧ option &&& flagOr = 0 then none
  else if Satisfied option set (s.event e).set then
    some ({ s with
        kernel := s.kernel.setError t rtEok
        event := update s.event e
          { s.event e with set := clearSet option set (s.event e).set } },
      .returned (some ((s.event e).set &&& set)) rtEok)
  else if timeout = 0 then
    some ({ s with kernel := (s.kernel.setError t rtEok).setError t (-rtEtimeout) },
      .returned none (-rtEtimeout))
  else
    ((s.kernel.setError t rtEok).rtIpcWait e t (s.event e).flag timeout.toInt).map fun k =>
      ({ s with
          kernel := k
          eventSet := update s.eventSet t set
          eventInfo := update s.eventInfo t option }, .waiting)

/-- `rt_event_recv` of the thread `t`, from the return of `rt_schedule` on: what is written to
`*recved` and what is returned. -/
def rtEventRecvBack (s : State T E) (t : T) : Option (BitVec 32) × Int :=
  if (s.kernel.tcb t).error ≠ rtEok then (none, (s.kernel.tcb t).error)
  else (some (s.eventSet t), (s.kernel.tcb t).error)

/-- `rt_event_control(RT_IPC_CMD_RESET)`; every other command is refused. -/
def rtEventControl (s : State T E) (e : E) : Option (State T E) :=
  (s.kernel.rtIpcListResumeAll e).map fun k =>
    { s with kernel := k, event := update s.event e { s.event e with set := 0 } }

/-- A send and a reset may come from any thread and from an interrupt handler. -/
inductive Action (T E : Type) where
  | send (e : E) (set : BitVec 32)
  | recv (t : T) (e : E) (set : BitVec 32) (option : BitVec 8) (timeout : BitVec 32)
  | back (t : T)
  | reset (e : E)
  | timeout (t : T)

def State.after (s : State T E) (t : T) (e : E) : Outcome → State T E
  | .returned recved err => { s with log := s.log ++ [.received t e recved err] }
  | .waiting => { s with call := update s.call t (some e) }

def step (s : State T E) : Action T E → Option (State T E)
  | .send e set =>
    some { (rtEventSend s e set).1 with log := s.log ++ [.sent e (rtEventSend s e set).2] }
  | .recv t e set option timeout =>
    if (s.kernel.tcb t).stat = .ready ∧ s.call t = none then
      (rtEventRecv s t e set option timeout).map fun (s', o) => s'.after t e o
    else none
  | .back t =>
    match s.call t with
    | some e =>
      if (s.kernel.tcb t).stat = .ready then
        some { s with
          call := update s.call t none
          log := s.log ++ [.received t e (rtEventRecvBack s t).1 (rtEventRecvBack s t).2] }
      else none
    | none => none
  | .reset e => (rtEventControl s e).map fun s' => { s' with log := s'.log ++ [.reset e] }
  | .timeout t =>
    if (s.kernel.tcb t).timer.linked then
      (s.kernel.rtThreadTimeout t).map fun k => { s with kernel := k }
    else none

end

/-- Events as `rt_event_init` makes them; nobody waits and no thread timer runs. -/
structure Start (s : State T E) : Prop where
  event : ∀ e, ∃ flag, s.event e = rtEventInit flag
  wait : ∀ e, s.kernel.queue (.wait e) = []
  timer : ∀ t, (s.kernel.tcb t).timer.linked = false
  call : ∀ t, s.call t = none
  log : s.log = []

/-! ## Sets of bits -/

variable {option : BitVec 8} {e : E} {s s' : State T E}

section

variable {wanted set set' : BitVec 32}

/-- `set'` has no bit that `set` does not have. -/
def Fewer (set' set : BitVec 32) : Prop := set' &&& set = set'

lemma Fewer.refl (set : BitVec 32) : Fewer set set := by
  simp [Fewer]

lemma Fewer.trans {a b c : BitVec 32} (h : Fewer a b) (h' : Fewer b c) : Fewer a c := by
  calc a &&& c = a &&& b &&& c := by rw [h]
    _ = a &&& (b &&& c) := BitVec.and_assoc a b c
    _ = a := by rw [h', h]

lemma fewer_clearSet (option : BitVec 8) (recved set : BitVec 32) :
    Fewer (clearSet option recved set) set := by
  unfold Fewer clearSet
  split
  · rw [BitVec.and_comm, ← BitVec.and_assoc, BitVec.and_self]
  exact BitVec.and_self

lemma Satisfied.of_fewer (h : Fewer set' set) (hs : Satisfied option wanted set') :
    Satisfied option wanted set := by
  have hand : wanted &&& set' = wanted &&& set &&& set' := by
    rw [BitVec.and_assoc, BitVec.and_comm set, h]
  unfold Satisfied at *
  split
  · rename_i hf
    rw [if_pos hf] at hs
    calc wanted &&& set = wanted &&& set' &&& set := by rw [hs]
      _ = wanted := by rw [BitVec.and_assoc, h, hs]
  rename_i hf
  rw [if_neg hf] at hs
  refine ⟨hs.1, fun hz => hs.2 ?_⟩
  rw [hand, hz]
  exact BitVec.zero_and

lemma receivedSet_eq (h : Satisfied option wanted set) :
    receivedSet option wanted set = set &&& wanted := by
  unfold Satisfied at h
  rw [receivedSet, BitVec.and_comm set]
  split
  · rename_i hf
    rw [if_pos hf] at h
    exact h.symm
  rfl

lemma Satisfied.wanted_ne_zero (h : Satisfied option wanted set)
    (hnot : ¬ Satisfied option wanted set') : wanted ≠ 0 := by
  rintro rfl
  exact hnot (by simpa [Satisfied] using h)

lemma clearSet_and (option : BitVec 8) (wanted set : BitVec 32) :
    clearSet option (set &&& wanted) set = clearSet option wanted set := by
  unfold clearSet
  split
  · refine BitVec.eq_of_getLsbD_eq fun i hi => ?_
    simp only [BitVec.getLsbD_and, BitVec.getLsbD_not]
    cases set.getLsbD i <;> simp
  rfl

end

/-! ## The loop of a send -/

section

variable [DecidableEq T] [DecidableEq E] {pend : T → Option E}

/-- What the loop leaves: the threads that still wait have waited before, their fields are as they
were, and those that the loop has visited are not satisfied by the bits that are left. -/
structure Scanned (info : T → BitVec 8) (pend : T → Option E) (ts : List T) (sc sc' : Scan T E) :
    Prop where
  blocked : Blocked sc'.kernel pend
  fewer : Fewer sc'.set sc.set
  error : ∀ t, (sc'.kernel.tcb t).error = (sc.kernel.tcb t).error
  waiter : ∀ {o t}, t ∈ sc'.kernel.queue (.wait o) →
    t ∈ sc.kernel.queue (.wait o) ∧ sc'.eventSet t = sc.eventSet t ∧
      (t ∈ ts → ¬ Satisfied (info t) (sc.eventSet t) sc'.set)

lemma scan_spec (info : T → BitVec 8) {ts : List T} {sc : Scan T E}
    (h : Blocked sc.kernel pend) (hts : ∀ t ∈ ts, t ∈ sc.kernel.queue (.wait e))
    (hnd : ts.Nodup) : Scanned info pend ts sc (scan info ts sc) := by
  induction ts generalizing sc with
  | nil => exact ⟨h, Fewer.refl _, fun _ => rfl, fun hm => ⟨hm, rfl, fun hn => absurd hn (by simp)⟩⟩
  | cons t ts ih =>
    obtain ⟨ht, hnd⟩ := List.nodup_cons.mp hnd
    rw [scan]
    by_cases hsat : Satisfied (info t) (sc.eventSet t) sc.set
    · -- `t` leaves the list, and takes its bits with it if it asked for that
      rw [if_pos hsat]
      obtain ⟨-, hs, he⟩ := h.queued (hts t (by simp))
      have hwait : ∀ o, (sc.wake info t).kernel.queue (.wait o) =
          unlink sc.kernel.queue t (.wait o) := Blocked.resume_wait hs
      have hrest : ∀ u ∈ ts, u ∈ (sc.wake info t).kernel.queue (.wait e) := by
        intro u hu
        rw [hwait]
        refine mem_unlink.mpr ⟨hts u (by simp [hu]), ?_⟩
        rintro rfl
        exact ht hu
      have hscan := ih (h.resume_of_suspend hs (.inl he)) hrest hnd
      have herror : ∀ u, ((sc.wake info t).kernel.tcb u).error = (sc.kernel.tcb u).error := by
        intro u
        simp only [Scan.wake, rtThreadResume_tcb hs]
        by_cases hu : u = t
        · rw [hu, update_self]
        rw [update_of_ne hu]
      refine ⟨hscan.blocked, hscan.fewer.trans (fewer_clearSet _ _ _),
        fun u => (hscan.error u).trans (herror u), fun {o u} hm => ?_⟩
      obtain ⟨hm', hes, hun⟩ := hscan.waiter hm
      rw [hwait] at hm'
      obtain ⟨hmem, hne⟩ := mem_unlink.mp hm'
      have hset : (sc.wake info t).eventSet u = sc.eventSet u := by simp [Scan.wake, hne]
      rw [hset] at hes hun
      refine ⟨hmem, hes, fun hu => hun ?_⟩
      exact (List.mem_cons.mp hu).resolve_left hne
    rw [if_neg hsat]
    have hscan := ih h (fun u hu => hts u (by simp [hu])) hnd
    refine ⟨hscan.blocked, hscan.fewer, hscan.error, fun {o u} hm => ?_⟩
    obtain ⟨hm', hes, hun⟩ := hscan.waiter hm
    refine ⟨hm', hes, fun hu => ?_⟩
    rcases List.mem_cons.mp hu with rfl | hu
    · exact fun hs => hsat (hs.of_fewer hscan.fewer)
    exact hun hu

end

/-! ## The invariant -/

/-- The event for which a thread waits. A thread that a reset has resumed waits for nothing, it
has only not seen the error yet. -/
def State.pend (s : State T E) (t : T) : Option E :=
  if (s.kernel.tcb t).error = -rtError then none else s.call t

structure Inv (s : State T E) : Prop where
  blocked : Blocked s.kernel s.pend
  option : ∀ {e t}, t ∈ s.kernel.queue (.wait e) →
    s.eventInfo t &&& flagAnd ≠ 0 ∨ s.eventInfo t &&& flagOr ≠ 0
  unsatisfied : ∀ {e t}, t ∈ s.kernel.queue (.wait e) →
    ¬ Satisfied (s.eventInfo t) (s.eventSet t) (s.event e).set

lemma inv_start {s : State T E} (h : Start s) : Inv s := by
  have hpend : ∀ t, s.pend t = none := fun t => by simp [State.pend, h.call]
  refine ⟨.of_empty h.wait h.timer hpend, ?_, ?_⟩
  · intro e t hm
    simp [h.wait] at hm
  intro e t hm
  simp [h.wait] at hm

section

variable {t : T}

lemma pend_of_call (hc : s.call t = none) : s.pend t = none := by
  simp [State.pend, hc]

lemma Inv.relog (h : Inv s) (log : List (Call T E)) : Inv { s with log := log } :=
  ⟨h.blocked, h.option, h.unsatisfied⟩

variable [DecidableEq T]

lemma pend_setError (hc : s.call t = none) (e : Int) :
    ({ s with kernel := s.kernel.setError t e } : State T E).pend = s.pend := by
  funext u
  by_cases hu : u = t
  · simp [State.pend, hu, hc]
  simp [State.pend, hu]

lemma Inv.setError (h : Inv s) (hc : s.call t = none) (e : Int) :
    Inv { s with kernel := s.kernel.setError t e } := by
  refine ⟨?_, h.option, h.unsatisfied⟩
  rw [pend_setError hc]
  exact h.blocked.setError (pend_of_call hc) e

variable [DecidableEq E] {set : BitVec 32} {k : Kernel T E}

omit [DecidableEq T] in
lemma Inv.clear (h : Inv s) (e : E) (ev : Event) (hf : Fewer ev.set (s.event e).set) :
    Inv { s with event := update s.event e ev } := by
  refine ⟨h.blocked, h.option, fun {o u} hm hs => h.unsatisfied hm ?_⟩
  by_cases ho : o = e
  · subst ho
    have hs' : Satisfied (s.eventInfo u) (s.eventSet u) ev.set := by simpa using hs
    exact hs'.of_fewer hf
  simpa [ho] using hs

lemma Inv.wait (h : Inv s) {time : Int} (hs : (s.kernel.tcb t).stat = .ready) (hc : s.call t = none)
    (hopt : ¬ (option &&& flagAnd = 0 ∧ option &&& flagOr = 0))
    (hsat : ¬ Satisfied option set (s.event e).set)
    (hk : (s.kernel.setError t rtEok).rtIpcWait e t (s.event e).flag time = some k) :
    Inv { s with
      kernel := k
      eventSet := update s.eventSet t set
      eventInfo := update s.eventInfo t option
      call := update s.call t (some e) } := by
  have hp := pend_of_call hc
  have hpark := (h.blocked.setError hp rtEok).wait_spec (by simpa using hs) hp (by simp) hk
  have hnot := h.blocked.notMem_of_ready hs
  have hwaiter : ∀ {o u}, u ∈ k.queue (.wait o) →
      u ≠ t ∧ u ∈ s.kernel.queue (.wait o) ∨ u = t ∧ o = e := by
    intro o u hm
    rcases (hpark.mem o u).mp hm with hm | ⟨ho, hu⟩
    · refine .inl ⟨?_, hm⟩
      rintro rfl
      exact hnot o hm
    exact .inr ⟨hu, ho⟩
  refine ⟨?_, fun {o u} hm => ?_, fun {o u} hm => ?_⟩
  · have herr := (hpark.blocked.queued ((hpark.mem e t).mpr (.inr ⟨rfl, rfl⟩))).2.2
    have hpend : State.pend { s with
        kernel := k
        eventSet := update s.eventSet t set
        eventInfo := update s.eventInfo t option
        call := update s.call t (some e) } = update s.pend t (some e) := by
      funext u
      by_cases hu : u = t
      · simp [State.pend, hu, herr, rtEok, rtError]
      simp [State.pend, hu, hpark.other u hu]
    rw [hpend]
    exact hpark.blocked
  · rcases hwaiter hm with ⟨hne, hm⟩ | ⟨rfl, -⟩
    · simpa [hne] using h.option hm
    simpa using not_and_or.mp hopt
  rcases hwaiter hm with ⟨hne, hm⟩ | ⟨rfl, rfl⟩
  · simpa [hne] using h.unsatisfied hm
  simpa using hsat

lemma inv_recv (h : Inv s) {timeout : BitVec 32}
    {o : Outcome} (hs : (s.kernel.tcb t).stat = .ready) (hc : s.call t = none)
    (hr : rtEventRecv s t e set option timeout = some (s', o)) : Inv (s'.after t e o) := by
  unfold rtEventRecv at hr
  split at hr
  · cases hr
    exact h.relog _
  split at hr
  · simp at hr
  split at hr
  · cases hr
    have hi := (h.setError hc rtEok).clear e
      { s.event e with set := clearSet option set (s.event e).set } (fewer_clearSet option set _)
    exact hi.relog _
  split at hr
  · cases hr
    exact ((h.setError hc rtEok).setError hc (-rtEtimeout)).relog _
  rename_i hopt hsat _
  obtain ⟨k, hk, hpair⟩ := map_eq_some_iff.mp hr
  cases hpair
  exact h.wait hs hc hopt hsat hk

lemma inv_send (h : Inv s) (e : E) (set : BitVec 32) : Inv (rtEventSend s e set).1 := by
  unfold rtEventSend
  split
  · exact h
  have hscan : Scanned s.eventInfo s.pend (s.kernel.queue (.wait e))
      { kernel := s.kernel, set := (s.event e).set ||| set, eventSet := s.eventSet }
      (sendScan s e set) :=
    scan_spec s.eventInfo h.blocked (fun t ht => ht) (h.blocked.nodup e)
  refine ⟨?_, fun hm => h.option (hscan.waiter hm).1, fun {o u} hm => ?_⟩
  · have hpend : State.pend { s with
        kernel := (sendScan s e set).kernel
        eventSet := (sendScan s e set).eventSet
        event := update s.event e
          { s.event e with set := (sendScan s e set).set } } = s.pend := by
      funext u
      simp only [State.pend, hscan.error u]
    rw [hpend]
    exact hscan.blocked
  obtain ⟨hm', hes, hun⟩ := hscan.waiter hm
  by_cases ho : o = e
  · subst ho
    simpa [hes] using hun hm'
  simpa [ho, hes] using h.unsatisfied hm'

lemma inv_reset (h : Inv s) (hr : rtEventControl s e = some s') : Inv s' := by
  obtain ⟨k, hk, ha⟩ := h.blocked.resumeAll e
  rw [rtEventControl, hk] at hr
  cases hr
  have hwaiter : ∀ {o u}, u ∈ k.queue (.wait o) → o ≠ e ∧ u ∈ s.kernel.queue (.wait o) := by
    intro o u hm
    by_cases ho : o = e
    · rw [ho, ha.empty] at hm
      simp at hm
    exact ⟨ho, ha.waits o ho ▸ hm⟩
  refine ⟨?_, fun hm => h.option (hwaiter hm).2, fun {o u} hm => ?_⟩
  · have hpend : State.pend { s with
        kernel := k
        event := update s.event e { s.event e with set := 0 } } =
        fun u => if u ∈ s.kernel.queue (.wait e) then none else s.pend u := by
      funext u
      by_cases hu : u ∈ s.kernel.queue (.wait e)
      · simp [State.pend, hu, (ha.aborted u hu).2]
      simp [State.pend, hu, ha.other u hu]
    rw [hpend]
    exact ha.blocked
  obtain ⟨ho, hm⟩ := hwaiter hm
  simpa [ho] using h.unsatisfied hm

omit [DecidableEq E] in
lemma inv_back (h : Inv s) (hs : (s.kernel.tcb t).stat = .ready)
    (log : List (Call T E)) : Inv { s with call := update s.call t none, log := log } := by
  refine ⟨?_, h.option, h.unsatisfied⟩
  have hpend : State.pend { s with call := update s.call t none, log := log } =
      update s.pend t none := by
    funext u
    by_cases hu : u = t
    · simp [State.pend, hu]
    simp [State.pend, hu]
  rw [hpend]
  exact h.blocked.finish hs

lemma inv_timeout (h : Inv s) (hl : (s.kernel.tcb t).timer.linked = true)
    (hk : s.kernel.rtThreadTimeout t = some k) : Inv { s with kernel := k } := by
  have hwaiter : ∀ {o u}, u ∈ k.queue (.wait o) → u ∈ s.kernel.queue (.wait o) := by
    intro o u hm
    rw [Blocked.timeout_wait hk] at hm
    exact (mem_unlink.mp hm).1
  refine ⟨?_, fun hm => h.option (hwaiter hm), fun hm => h.unsatisfied (hwaiter hm)⟩
  obtain ⟨-, htcb⟩ := Blocked.timeout_tcb hk
  obtain ⟨-, o, hm⟩ := h.blocked.timed hl
  have herr := (h.blocked.queued hm).2.2
  have hpend : State.pend { s with kernel := k } = s.pend := by
    funext u
    by_cases hu : u = t
    · simp [State.pend, hu, htcb, herr, Tcb.expired, rtEok, rtError, rtEtimeout]
    simp [State.pend, hu, htcb]
  rw [hpend]
  exact h.blocked.timeout hk

lemma inv_step (h : Inv s) {a : Action T E} (hstep : step s a = some s') : Inv s' := by
  cases a with
  | send e set =>
    cases hstep
    exact (inv_send h e set).relog _
  | recv t e set option timeout =>
    simp only [step] at hstep
    split at hstep
    · rename_i hidle
      obtain ⟨⟨u, o⟩, hr, rfl⟩ := map_eq_some_iff.mp hstep
      exact inv_recv h hidle.1 hidle.2 hr
    simp at hstep
  | back t =>
    simp only [step] at hstep
    split at hstep
    · split at hstep
      · rename_i hs
        cases hstep
        exact inv_back h hs _
      simp at hstep
    simp at hstep
  | reset e =>
    obtain ⟨u, hu, rfl⟩ := map_eq_some_iff.mp hstep
    exact (inv_reset h hu).relog _
  | timeout t =>
    simp only [step] at hstep
    split at hstep
    · rename_i hl
      obtain ⟨k, hk, rfl⟩ := map_eq_some_iff.mp hstep
      exact inv_timeout h hl hk
    simp at hstep

/-- **No satisfied waiter.** In every state of every run, a thread that waits for an event and
asked for all of its bits lacks one of them, and a thread that asked for any of its bits has none
of them. Every thread that waits asked in one of the two ways. -/
theorem no_satisfied_waiter {s₀ s : State T E} {as : List (Action T E)} (hs : Start s₀)
    (h : exec step s₀ as = some s) {e : E} {t : T} (ht : t ∈ s.kernel.queue (.wait e)) :
    if s.eventInfo t &&& flagAnd ≠ 0 then s.eventSet t &&& (s.event e).set ≠ s.eventSet t
    else s.eventInfo t &&& flagOr ≠ 0 ∧ s.eventSet t &&& (s.event e).set = 0 := by
  have hinv : Inv s := inv_of_exec (fun _ _ _ hu hstep => inv_step hu hstep) (inv_start hs) h
  have hopt := hinv.option ht
  have hun := hinv.unsatisfied ht
  unfold Satisfied at hun
  split at hun
  · rename_i hand
    rwa [if_pos hand]
  rename_i hand
  have hor := hopt.resolve_left hand
  rw [if_neg hand]
  exact ⟨hor, not_not.mp fun hne => hun ⟨hor, hne⟩⟩

end

def threeThreads : State (Fin 3) Unit where
  kernel := Kernel.ready ![20, 15, 10]
  event := fun _ => rtEventInit .fifo
  eventSet := fun _ => 0
  eventInfo := fun _ => 0
  call := fun _ => none
  log := []

lemma start_threeThreads : Start threeThreads :=
  ⟨fun _ => ⟨.fifo, rfl⟩, fun _ => rfl, fun _ => rfl, fun _ => rfl, rfl⟩

/-- The first thread waits for both of two bits and the second one for any of them; each would
clear what it gets. One bit is sent, then the other. -/
def clearInTurn : List (Action (Fin 3) Unit) :=
  [.recv 0 () 3 (flagAnd ||| flagClear) 0xffffffff, .recv 1 () 3 (flagOr ||| flagClear) 5,
    .send () 1, .send () 2]

theorem no_satisfied_waiter_clearInTurn : ∃ s, exec step threeThreads clearInTurn = some s ∧
      s.kernel.queue (.wait ()) = [0] ∧ (s.event ()).set = 2 ∧
      s.eventSet 0 &&& (s.event ()).set ≠ s.eventSet 0 := by
  obtain ⟨s, hs, hq, hset, hinfo⟩ : ∃ s, exec step threeThreads clearInTurn = some s ∧
      s.kernel.queue (.wait ()) = [0] ∧ (s.event ()).set = 2 ∧ s.eventInfo 0 = 5 := by
    decide +kernel
  have hwaits := no_satisfied_waiter start_threeThreads hs (e := ()) (t := 0) (by simp [hq])
  rw [hinfo] at hwaits
  exact ⟨s, hs, hq, hset, hwaits⟩

/-! ## Waiting and immediate reception -/

section

variable [DecidableEq T] [DecidableEq E]

def startScan (s : State T E) (e : E) (set : BitVec 32) : Scan T E :=
  { kernel := s.kernel, set := (s.event e).set ||| set, eventSet := s.eventSet }

def State.during (s : State T E) (e : E) (sc : Scan T E) : State T E :=
  { s with
    kernel := sc.kernel
    eventSet := sc.eventSet
    event := update s.event e { s.event e with set := sc.set } }

lemma scan_append (info : T → BitVec 8) (ts us : List T) (sc : Scan T E) :
    scan info (ts ++ us) sc = scan info us (scan info ts sc) := by
  induction ts generalizing sc with
  | nil => rfl
  | cons t ts ih => rw [List.cons_append, scan, scan, ih]

lemma scan_of_notMem (info : T → BitVec 8) {ts : List T} {t : T} (ht : t ∉ ts) (sc : Scan T E) :
    (scan info ts sc).eventSet t = sc.eventSet t ∧
      (scan info ts sc).kernel.tcb t = sc.kernel.tcb t := by
  induction ts generalizing sc with
  | nil => exact ⟨rfl, rfl⟩
  | cons u ts ih =>
    obtain ⟨hne, hts⟩ : t ≠ u ∧ t ∉ ts := by simpa using ht
    rw [scan]
    obtain ⟨hset, htcb⟩ := ih hts
      (if Satisfied (info u) (sc.eventSet u) sc.set then sc.wake info u else sc)
    rw [hset, htcb]
    split
    · refine ⟨update_of_ne hne _ _, ?_⟩
      by_cases hs : (sc.kernel.tcb u).stat = .suspend
      · simp [Scan.wake, rtThreadResume_tcb hs, hne]
      simp [Scan.wake, rtThreadResume_of_ne hs]
    exact ⟨rfl, rfl⟩

omit [DecidableEq T] [DecidableEq E] in
/-- A thread that a send has resumed with the bits `v` and that has not run since. -/
structure Woken (s : State T E) (t : T) (e : E) (v : BitVec 32) : Prop where
  call : s.call t = some e
  stat : (s.kernel.tcb t).stat = .ready
  error : (s.kernel.tcb t).error = rtEok
  set : s.eventSet t = v

lemma woken_step (h : Inv s) {t : T} {e : E} {v : BitVec 32} (hw : Woken s t e v)
    {a : Action T E} (ha : a ≠ .back t) (hstep : step s a = some s') : Woken s' t e v := by
  have hnot := h.blocked.notMem_of_ready hw.stat
  -- no step writes to the control block of `t`
  suffices hsame : s'.call t = s.call t ∧ s'.kernel.tcb t = s.kernel.tcb t ∧
      s'.eventSet t = s.eventSet t by
    obtain ⟨hcall, htcb, hset⟩ := hsame
    exact ⟨hcall.trans hw.call, htcb ▸ hw.stat, htcb ▸ hw.error, hset.trans hw.set⟩
  cases a with
  | send o set =>
    cases hstep
    unfold rtEventSend
    split
    · exact ⟨rfl, rfl, rfl⟩
    obtain ⟨hset, htcb⟩ := scan_of_notMem s.eventInfo (hnot o) (startScan s o set)
    exact ⟨rfl, htcb, hset⟩
  | recv u o set option timeout =>
    simp only [step] at hstep
    split at hstep
    · rename_i hidle
      have hne : t ≠ u := by
        rintro rfl
        simp [hw.call] at hidle
      obtain ⟨⟨s1, out⟩, hr, rfl⟩ := map_eq_some_iff.mp hstep
      unfold rtEventRecv at hr
      split at hr
      · cases hr
        exact ⟨rfl, rfl, rfl⟩
      split at hr
      · simp at hr
      split at hr
      · cases hr
        exact ⟨rfl, by simp [State.after, hne], rfl⟩
      split at hr
      · cases hr
        exact ⟨rfl, by simp [State.after, hne], rfl⟩
      obtain ⟨k, hk, hpair⟩ := map_eq_some_iff.mp hr
      cases hpair
      have hp := pend_of_call hidle.2
      have hpark := (h.blocked.setError hp rtEok).wait_spec (by simpa using hidle.1) hp
        (by simp) hk
      exact ⟨update_of_ne hne _ _, by simp [State.after, hpark.other t hne, hne],
        update_of_ne hne _ _⟩
    simp at hstep
  | back u =>
    have hne : t ≠ u := by
      rintro rfl
      exact ha rfl
    simp only [step] at hstep
    split at hstep
    · split at hstep
      · cases hstep
        exact ⟨update_of_ne hne _ _, rfl, rfl⟩
      simp at hstep
    simp at hstep
  | reset o =>
    obtain ⟨s1, hr, rfl⟩ := map_eq_some_iff.mp hstep
    obtain ⟨k, hk, habort⟩ := h.blocked.resumeAll o
    rw [rtEventControl, hk] at hr
    cases hr
    exact ⟨rfl, habort.other t (hnot o), rfl⟩
  | timeout u =>
    simp only [step] at hstep
    split at hstep
    · rename_i hl
      obtain ⟨k, hk, rfl⟩ := map_eq_some_iff.mp hstep
      obtain ⟨-, o, hm⟩ := h.blocked.timed hl
      have hne : t ≠ u := by
        rintro rfl
        exact hnot o hm
      obtain ⟨-, htcb⟩ := Blocked.timeout_tcb hk
      exact ⟨rfl, by simp [htcb, hne], rfl⟩
    simp at hstep

lemma recv_of_satisfied {e : E} {wanted : BitVec 32} {option : BitVec 8} (u : T)
    (timeout : BitVec 32) (hwanted : wanted ≠ 0)
    (hopt : ¬ (option &&& flagAnd = 0 ∧ option &&& flagOr = 0))
    (hsat : Satisfied option wanted (s.event e).set) :
    ∃ now, rtEventRecv s u e wanted option timeout =
        some (now, .returned (some ((s.event e).set &&& wanted)) rtEok) ∧
      (now.event e).set = clearSet option wanted (s.event e).set := by
  rw [rtEventRecv, if_neg hwanted, if_neg hopt, if_pos hsat]
  exact ⟨_, rfl, by simp⟩

/-- **Waiting and immediate reception agree.** Where the loop of a send comes to the waiting thread
`t`, an immediate receive with its arguments would get the event exactly when `t` is resumed; then
`t` gets the same bits, whatever happens before it runs, and the loop goes on with the bits that
the immediate receive would leave. -/
theorem reception_agrees {s₀ : State T E} {as : List (Action T E)} (hs : Start s₀)
    (hrun : exec step s₀ as = some s) {e : E} {t : T} (ts : List T) {us : List T}
    (hq : s.kernel.queue (.wait e) = ts ++ t :: us) {set : BitVec 32} (hset : set ≠ 0) (u : T)
    (timeout : BitVec 32) :
    let sc := scan s.eventInfo ts (startScan s e set)
    let immediate := rtEventRecv (s.during e sc) u e (s.eventSet t) (s.eventInfo t) timeout
    if Satisfied (s.eventInfo t) (s.eventSet t) sc.set then
      ∃ now recved sc', immediate = some (now, .returned (some recved) rtEok) ∧
        sendScan s e set = scan s.eventInfo us sc' ∧ sc'.set = (now.event e).set ∧
        ∀ bs s₂, exec step s (.send e set :: bs) = some s₂ → .back t ∉ bs →
          ∃ s₃, step s₂ (.back t) = some s₃ ∧ s₃.log = s₂.log ++ [.received t e (some recved) rtEok]
    else
      sendScan s e set = scan s.eventInfo us sc ∧
        ∀ now recved err, immediate ≠ some (now, .returned (some recved) err) := by
  intro sc immediate
  have hinv : Inv s := inv_of_exec (fun _ _ _ hu hstep => inv_step hu hstep) (inv_start hs) hrun
  have hmem : t ∈ s.kernel.queue (.wait e) := by simp [hq]
  have hnd := hinv.blocked.nodup e
  rw [hq, List.nodup_append] at hnd
  have hts : t ∉ ts := fun hm => hnd.2.2 t hm t (by simp) rfl
  have hus : t ∉ us := (List.nodup_cons.mp hnd.2.1).1
  obtain ⟨hes, htcb⟩ := scan_of_notMem s.eventInfo hts (startScan s e set)
  have hsend : sendScan s e set = scan s.eventInfo us
      (if Satisfied (s.eventInfo t) (s.eventSet t) sc.set then sc.wake s.eventInfo t else sc) := by
    rw [sendScan, hq, scan_append, scan, ← startScan, hes]
    rfl
  have hbits : ((s.during e sc).event e).set = sc.set := by simp [State.during]
  split
  · rename_i hsat
    rw [if_pos hsat] at hsend
    have hopt := not_and_or.mpr (hinv.option hmem)
    obtain ⟨now, hnow, hleft⟩ := recv_of_satisfied u timeout
      (hsat.wanted_ne_zero (hinv.unsatisfied hmem)) hopt (by rwa [hbits])
    rw [hbits] at hnow hleft
    have hrecv : receivedSet (s.eventInfo t) (sc.eventSet t) sc.set = sc.set &&& s.eventSet t := by
      rw [hes]
      exact receivedSet_eq hsat
    refine ⟨now, sc.set &&& s.eventSet t, sc.wake s.eventInfo t, hnow, hsend, ?_, ?_⟩
    · rw [hleft, ← clearSet_and, ← hrecv]
      rfl
    intro bs s₂ hbs hback
    obtain ⟨s₁, hs₁, hbs⟩ := exec_cons_eq_some.mp hbs
    obtain ⟨hpend, hstat, herr⟩ := hinv.blocked.queued hmem
    obtain ⟨hset', htcb'⟩ := scan_of_notMem s.eventInfo hus (sc.wake s.eventInfo t)
    have hready := congrFun (rtThreadResume_tcb (show (sc.kernel.tcb t).stat = .suspend by
      rw [htcb]; exact hstat)) t
    rw [update_self, htcb] at hready
    have hwoken : Woken s₁ t e (sc.set &&& s.eventSet t) := by
      have hcall : s.call t = some e := by simpa [State.pend, herr, rtEok, rtError] using hpend
      have htcb₁ := (congrArg (fun x => x.kernel.tcb t) hsend).trans (htcb'.trans hready)
      have hset₁ := (congrArg (fun x => x.eventSet t) hsend).trans hset'
      cases hs₁
      simp only [rtEventSend, if_neg hset]
      exact ⟨hcall, by rw [htcb₁], by rw [htcb₁]; exact herr,
        hset₁.trans ((update_self ..).trans hrecv)⟩
    obtain ⟨-, hcall, hstat, herr, hset₂⟩ := inv_of_forall_mem
      (I := fun s' => Inv s' ∧ Woken s' t e (sc.set &&& s.eventSet t)) (Q := fun a => a ≠ .back t)
      (fun _ _ _ hu ha hstep => ⟨inv_step hu.1 hstep, woken_step hu.1 hu.2 ha hstep⟩)
      ⟨inv_step hinv hs₁, hwoken⟩ (fun a ha => ne_of_mem_of_not_mem ha hback) hbs
    have hback₂ : rtEventRecvBack s₂ t = (some (sc.set &&& s.eventSet t), rtEok) := by
      simp [rtEventRecvBack, herr, hset₂]
    simp only [step, hcall, if_pos hstat, hback₂]
    exact ⟨_, rfl, rfl⟩
  rename_i hsat
  rw [if_neg hsat] at hsend
  refine ⟨hsend, fun now recved err heq => ?_⟩
  simp only [immediate, rtEventRecv, hbits] at heq
  split_ifs at heq <;> simp at heq

end

/-- Two threads wait for either of two bits, the first for one of them only and with
`RT_EVENT_FLAG_CLEAR`: of a send of both, the second gets what the first has left. -/
theorem reception_agrees_behind :
    ∃ s, exec step threeThreads [.recv 0 () 1 (flagOr ||| flagClear) 0xffffffff,
        .recv 1 () 3 (flagOr ||| flagClear) 0xffffffff] = some s ∧
      s.kernel.queue (.wait ()) = [0, 1] ∧ (scan s.eventInfo [0] (startScan s () 3)).set = 2 ∧
      ∃ now recved, rtEventRecv (s.during () (scan s.eventInfo [0] (startScan s () 3))) 2 ()
          (s.eventSet 1) (s.eventInfo 1) 0 = some (now, .returned (some recved) rtEok) ∧
        ∀ bs s₂, exec step s (.send () 3 :: bs) = some s₂ → .back 1 ∉ bs →
          ∃ s₃, step s₂ (.back 1) = some s₃ ∧
            s₃.log = s₂.log ++ [.received 1 () (some recved) rtEok] := by
  obtain ⟨s, hs, hq, hleft, hset, hinfo⟩ : ∃ s, exec step threeThreads
      [.recv 0 () 1 (flagOr ||| flagClear) 0xffffffff,
        .recv 1 () 3 (flagOr ||| flagClear) 0xffffffff] = some s ∧
        s.kernel.queue (.wait ()) = [0, 1] ∧ (scan s.eventInfo [0] (startScan s () 3)).set = 2 ∧
        s.eventSet 1 = 3 ∧ s.eventInfo 1 = 6 := by decide +kernel
  have hthree : (3 : BitVec 32) ≠ 0 := by decide
  have hagree := reception_agrees start_threeThreads hs [0] hq hthree 2 0
  rw [if_pos (by rw [hleft, hset, hinfo]; decide)] at hagree
  obtain ⟨now, recved, -, hnow, -, -, hback⟩ := hagree
  exact ⟨s, hs, hq, hleft, now, recved, hnow, hback⟩

end NbIot.Events
