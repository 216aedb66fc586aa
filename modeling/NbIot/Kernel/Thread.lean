import NbIot.Basic.Queues
import NbIot.Basic.Run

/-! # The thread management of `thread.c`, `scheduler.c` and `idle.c`

The kernel state is the control blocks of the threads, the lists their `tlist` nodes are linked in,
and the bitmap of the priorities that have a ready thread. The lists are the ready lists
`rt_thread_priority_table[p]`, `rt_thread_defunct`, and the wait lists of the objects in `O`.

* `T` is the type of thread control blocks, that is of their addresses.
* Interrupts are disabled in every part of the source that is one function here.
* A function that ends in a call of `rt_schedule` is modelled up to that call, and the call is
  added where a step of the system is put together.
* `none` is a failed `RT_ASSERT` (the handler loops forever) or an access through a pointer that
  is not one.
-/

namespace NbIot

open Queues Function

/-! ## Threads and lists -/

/-- `thread->stat`; `RT_THREAD_RUNNING` is never stored. -/
inductive Stat where
  | init
  | ready
  | suspend
  | close
  deriving DecidableEq

/-- The lists a `tlist` node can be linked in. -/
inductive Head (O : Type) where
  | ready (p : Nat)
  | defunct
  | wait (o : O)
  deriving DecidableEq

def rtEok : Int := 0
def rtError : Int := 1
def rtEtimeout : Int := 2
def rtEfull : Int := 3

def rtThreadPriorityMax : Nat := 32

def rtTickMax : Nat := 0xffffffff

/-- `thread->thread_timer`: whether it is linked in `rt_timer_list`, its flag
`RT_TIMER_FLAG_ACTIVATED`, and `init_tick`. -/
structure Timer where
  linked : Bool
  activated : Bool
  initTick : Nat
  deriving DecidableEq

/-- What `rt_timer_stop` does to a timer: without the flag it is left alone. -/
def Timer.stop (m : Timer) : Timer :=
  if m.activated then { m with linked := false, activated := false } else m

/-- The fields of `struct rt_thread` that the functions below use. `systemObject` is what
`rt_object_is_systemobject` tells of the thread, `cleanup` whether it has a cleanup function. -/
structure Tcb where
  stat : Stat
  error : Int
  initPriority : Nat
  currentPriority : Nat
  numberMask : BitVec 32
  cleanup : Bool
  systemObject : Bool
  timer : Timer
  deriving DecidableEq

/-- What `rt_thread_startup` writes before it resumes the thread. -/
def Tcb.started (c : Tcb) : Tcb :=
  { c with currentPriority := c.initPriority, numberMask := 1#32 <<< c.initPriority,
           stat := .suspend }

/-- What the expiry of the timer writes: `rt_timer_check` takes the timer out of the timer list
before it calls `rt_thread_timeout`, and clears the flag after it. -/
def Tcb.expired (c : Tcb) : Tcb :=
  { c with error := -rtEtimeout, timer := { c.timer with linked := false, activated := false } }

structure Kernel (T O : Type) where
  tcb : T → Tcb
  queue : Head O → List T
  readyPriorityGroup : BitVec 32
  currentThread : Option T
  schedulerLockNest : Nat

/-! ## Lists and timers -/

namespace Kernel

variable {T O : Type} [DecidableEq T] [DecidableEq O]

def setTcb (k : Kernel T O) (t : T) (c : Tcb) : Kernel T O :=
  { k with tcb := update k.tcb t c }

def setQueue (k : Kernel T O) (q : Head O → List T) : Kernel T O := { k with queue := q }

def setGroup (k : Kernel T O) (g : BitVec 32) : Kernel T O := { k with readyPriorityGroup := g }

def setCurrent (k : Kernel T O) (t : T) : Kernel T O := { k with currentThread := some t }

def rtListRemove (k : Kernel T O) (t : T) : Kernel T O := k.setQueue (unlink k.queue t)

/-- `rt_list_insert_before(head, &(thread->tlist))`: `t` becomes the last of the list. -/
def rtListInsertBefore (k : Kernel T O) (h : Head O) (t : T) : Kernel T O :=
  k.setQueue (update k.queue h (k.queue h ++ [t]))

/-- `rt_list_insert_after(head, &(thread->tlist))`: `t` becomes the first of the list. -/
def rtListInsertAfter (k : Kernel T O) (h : Head O) (t : T) : Kernel T O :=
  k.setQueue (update k.queue h (t :: k.queue h))

def rtTimerStop (k : Kernel T O) (t : T) : Kernel T O :=
  k.setTcb t { k.tcb t with timer := (k.tcb t).timer.stop }

/-- `rt_timer_control(RT_TIMER_CTRL_SET_TIME)` followed by `rt_timer_start`. -/
def rtTimerStart (k : Kernel T O) (t : T) (tick : Nat) : Option (Kernel T O) :=
  if tick < rtTickMax / 2 then
    some (k.setTcb t { k.tcb t with
      timer := { linked := true, activated := true, initTick := tick } })
  else none

/-- `rt_timer_detach`: the flag is not cleared. -/
def rtTimerDetach (k : Kernel T O) (t : T) : Kernel T O :=
  k.setTcb t { k.tcb t with timer := { (k.tcb t).timer with linked := false } }

/-! ## The scheduler -/

def lowestBitBitmap : List Nat :=
  let low := [0, 0, 1, 0, 2, 0, 1, 0, 3, 0, 1, 0, 2, 0, 1, 0]
  let row := fun n => n :: low.tail
  low ++ row 4 ++ row 5 ++ row 4 ++ row 6 ++ row 4 ++ row 5 ++ row 4 ++
    row 7 ++ row 4 ++ row 5 ++ row 4 ++ row 6 ++ row 4 ++ row 5 ++ row 4

def rtFfs (value : BitVec 32) : Nat :=
  if value = 0 then 0
  else if value &&& 0xff ≠ 0 then lowestBitBitmap.getD (value &&& 0xff).toNat 0 + 1
  else if value &&& 0xff00 ≠ 0 then
    lowestBitBitmap.getD ((value &&& 0xff00) >>> 8).toNat 0 + 9
  else if value &&& 0xff0000 ≠ 0 then
    lowestBitBitmap.getD ((value &&& 0xff0000) >>> 16).toNat 0 + 17
  else lowestBitBitmap.getD ((value &&& 0xff000000) >>> 24).toNat 0 + 25

/-- `rt_schedule`. With an empty bitmap the index is `-1`, and the first entry of an empty list
is the list head and not a thread. -/
def rtSchedule (k : Kernel T O) : Option (Kernel T O) :=
  if k.schedulerLockNest = 0 then
    if rtFfs k.readyPriorityGroup = 0 then none
    else
      match k.queue (.ready (rtFfs k.readyPriorityGroup - 1)) with
      | [] => none
      | toThread :: _ => some (k.setCurrent toThread)
  else some k

def rtScheduleInsertThread (k : Kernel T O) (t : T) : Kernel T O :=
  ((k.setTcb t { k.tcb t with stat := .ready }).rtListInsertBefore
    (.ready (k.tcb t).currentPriority) t).setGroup (k.readyPriorityGroup ||| (k.tcb t).numberMask)

def rtScheduleRemoveThread (k : Kernel T O) (t : T) : Kernel T O :=
  if (k.rtListRemove t).queue (.ready (k.tcb t).currentPriority) = [] then
    (k.rtListRemove t).setGroup (k.readyPriorityGroup &&& ~~~(k.tcb t).numberMask)
  else k.rtListRemove t

/-! ## The functions of `thread.c` -/

/-- `_rt_thread_init` on a control block that holds `junk`; `number_mask` is not set. -/
def rtThreadInitBlock (k : Kernel T O) (t : T) (junk : Tcb) (systemObject : Bool) (priority : Nat) :
    Option (Kernel T O) :=
  if priority < rtThreadPriorityMax then
    some ((k.rtListRemove t).setTcb t { junk with
      initPriority := priority, currentPriority := priority, error := rtEok, stat := .init,
      cleanup := false, systemObject := systemObject,
      timer := { linked := false, activated := false, initTick := 0 } })
  else none

/-- `rt_thread_init`: the object is made with the static flag. -/
def rtThreadInit (k : Kernel T O) (t : T) (junk : Tcb) (priority : Nat) : Option (Kernel T O) :=
  k.rtThreadInitBlock t junk true priority

/-- `rt_thread_create`, when both allocations succeed; `t` and `junk` are the block that
`rt_object_allocate` returned. -/
def rtThreadCreate (k : Kernel T O) (t : T) (junk : Tcb) (priority : Nat) :
    Option (Kernel T O) :=
  k.rtThreadInitBlock t junk false priority

def rtThreadSuspend (k : Kernel T O) (t : T) : Kernel T O × Int :=
  if (k.tcb t).stat ≠ .ready then (k, -rtError)
  else
    (((k.setTcb t { k.tcb t with stat := .suspend }).rtScheduleRemoveThread t).rtTimerStop t, rtEok)

def rtThreadResume (k : Kernel T O) (t : T) : Kernel T O × Int :=
  if (k.tcb t).stat ≠ .suspend then (k, -rtError)
  else (((k.rtListRemove t).rtTimerStop t).rtScheduleInsertThread t, rtEok)

def rtThreadStartup (k : Kernel T O) (t : T) : Option (Kernel T O) :=
  if (k.tcb t).stat = .init then
    some ((k.setTcb t (k.tcb t).started).rtThreadResume t).1
  else none

/-- `rt_thread_timeout`, as `rt_timer_check` calls it. -/
def rtThreadTimeout (k : Kernel T O) (t : T) : Option (Kernel T O) :=
  if (k.tcb t).stat = .suspend then
    some (((k.setTcb t (k.tcb t).expired).rtListRemove t).rtScheduleInsertThread t)
  else none

def rtThreadControl (k : Kernel T O) (t : T) (priority : Nat) : Kernel T O :=
  if (k.tcb t).stat = .ready then
    ((k.rtScheduleRemoveThread t).setTcb t { k.tcb t with
      currentPriority := priority, numberMask := 1#32 <<< priority }).rtScheduleInsertThread t
  else
    k.setTcb t { k.tcb t with currentPriority := priority, numberMask := 1#32 <<< priority }

/-- The test of `rt_thread_yield`: the node of a ready thread has two different neighbours when
the list it is in has another member. -/
def CanYield (k : Kernel T O) (t : T) : Prop :=
  (k.tcb t).stat = .ready ∧ t ∈ k.queue (.ready (k.tcb t).currentPriority) ∧
    1 < (k.queue (.ready (k.tcb t).currentPriority)).length

instance (k : Kernel T O) (t : T) : Decidable (k.CanYield t) :=
  inferInstanceAs (Decidable (_ ∧ _ ∧ _))

/-- `rt_thread_yield` of the thread `t`, when it does more than return. -/
def rtThreadYield (k : Kernel T O) (t : T) : Kernel T O :=
  (k.rtListRemove t).rtListInsertBefore (.ready (k.tcb t).currentPriority) t

/-- `rt_thread_sleep` of the thread `t`; what `rt_thread_suspend` returns is not looked at. -/
def rtThreadSleep (k : Kernel T O) (t : T) (tick : Nat) : Option (Kernel T O) :=
  (k.rtThreadSuspend t).1.rtTimerStart t tick

/-- What `rt_thread_detach`, `rt_thread_delete` and `rt_thread_exit` begin with: the thread
leaves the list it is in, its timer is detached, and it is closed. -/
def closeThread (k : Kernel T O) (t : T) : Kernel T O :=
  ((k.rtScheduleRemoveThread t).rtTimerDetach t).setTcb t
    { ((k.rtScheduleRemoveThread t).rtTimerDetach t).tcb t with stat := .close }

def rtThreadDetach (k : Kernel T O) (t : T) : Kernel T O :=
  if (k.tcb t).cleanup then (k.closeThread t).rtListInsertAfter .defunct t
  else k.closeThread t

def rtThreadDelete (k : Kernel T O) (t : T) : Kernel T O :=
  (k.closeThread t).rtListInsertAfter .defunct t

/-- `rt_thread_exit` of the thread `t`. -/
def rtThreadExit (k : Kernel T O) (t : T) : Kernel T O :=
  if (k.tcb t).systemObject ∧ ¬ (k.tcb t).cleanup then k.closeThread t
  else (k.closeThread t).rtListInsertAfter .defunct t

/-- One turn of the loop of `rt_thread_idle_excute`: the first dead thread is taken out. -/
def rtThreadIdleExcute (k : Kernel T O) : Kernel T O :=
  match k.queue .defunct with
  | [] => k
  | t :: _ => k.rtListRemove t

def readyTcb (priority : Nat) : Tcb where
  stat := .ready
  error := rtEok
  initPriority := priority
  currentPriority := priority
  numberMask := 1#32 <<< priority
  cleanup := false
  systemObject := true
  timer := { linked := false, activated := false, initTick := 0 }

def ready {n : Nat} (prio : Fin n → Nat) : Kernel (Fin n) O where
  tcb := fun t => readyTcb (prio t)
  queue := fun
    | .ready p => (List.finRange n).filter (prio · = p)
    | _ => []
  readyPriorityGroup := (List.finRange n).foldr (fun t g => g ||| 1#32 <<< prio t) 0
  currentThread := none
  schedulerLockNest := 0

end Kernel

/-! ## What the primitives change -/

namespace Kernel

section

variable {T O : Type} (k : Kernel T O) (t : T)

@[simp] lemma setQueue_tcb (q : Head O → List T) : (k.setQueue q).tcb = k.tcb := rfl
@[simp] lemma setQueue_queue (q : Head O → List T) : (k.setQueue q).queue = q := rfl
@[simp] lemma setQueue_group (q : Head O → List T) :
    (k.setQueue q).readyPriorityGroup = k.readyPriorityGroup := rfl

@[simp] lemma setGroup_tcb (g : BitVec 32) : (k.setGroup g).tcb = k.tcb := rfl
@[simp] lemma setGroup_queue (g : BitVec 32) : (k.setGroup g).queue = k.queue := rfl
@[simp] lemma setGroup_group (g : BitVec 32) : (k.setGroup g).readyPriorityGroup = g := rfl

variable [DecidableEq T]

@[simp] lemma setTcb_tcb (c : Tcb) : (k.setTcb t c).tcb = update k.tcb t c := rfl
@[simp] lemma setTcb_queue (c : Tcb) : (k.setTcb t c).queue = k.queue := rfl
@[simp] lemma setTcb_group (c : Tcb) :
    (k.setTcb t c).readyPriorityGroup = k.readyPriorityGroup := rfl

@[simp] lemma rtListRemove_tcb : (k.rtListRemove t).tcb = k.tcb := rfl
@[simp] lemma rtListRemove_queue : (k.rtListRemove t).queue = unlink k.queue t := rfl
@[simp] lemma rtListRemove_group :
    (k.rtListRemove t).readyPriorityGroup = k.readyPriorityGroup := rfl

@[simp] lemma rtScheduleRemoveThread_tcb : (k.rtScheduleRemoveThread t).tcb = k.tcb := by
  unfold rtScheduleRemoveThread
  split <;> simp

@[simp] lemma rtScheduleRemoveThread_queue :
    (k.rtScheduleRemoveThread t).queue = unlink k.queue t := by
  unfold rtScheduleRemoveThread
  split <;> simp

@[simp] lemma rtTimerStop_tcb : (k.rtTimerStop t).tcb =
    update k.tcb t { k.tcb t with timer := (k.tcb t).timer.stop } := rfl
@[simp] lemma rtTimerStop_queue : (k.rtTimerStop t).queue = k.queue := rfl
@[simp] lemma rtTimerStop_group : (k.rtTimerStop t).readyPriorityGroup = k.readyPriorityGroup := rfl

@[simp] lemma closeThread_tcb : (k.closeThread t).tcb = update k.tcb t
    { k.tcb t with stat := .close, timer := { (k.tcb t).timer with linked := false } } := by
  simp [closeThread, rtTimerDetach]

@[simp] lemma closeThread_queue : (k.closeThread t).queue = unlink k.queue t := by
  simp [closeThread, rtTimerDetach]

@[simp] lemma closeThread_group :
    (k.closeThread t).readyPriorityGroup = (k.rtScheduleRemoveThread t).readyPriorityGroup := rfl

variable [DecidableEq O]

@[simp] lemma rtScheduleInsertThread_tcb : (k.rtScheduleInsertThread t).tcb =
      update k.tcb t { k.tcb t with stat := .ready } := rfl

@[simp] lemma rtScheduleInsertThread_queue : (k.rtScheduleInsertThread t).queue =
      update k.queue (.ready (k.tcb t).currentPriority)
        (k.queue (.ready (k.tcb t).currentPriority) ++ [t]) := rfl

end

/-! ## What the functions change -/

section

lemma rtSchedule_spec {T O : Type} {k k' : Kernel T O} (h : k.rtSchedule = some k') :
    k'.tcb = k.tcb ∧ k'.queue = k.queue ∧ k'.readyPriorityGroup = k.readyPriorityGroup := by
  unfold rtSchedule at h
  split at h
  · split at h
    · simp at h
    split at h
    · simp at h
    cases h
    exact ⟨rfl, rfl, rfl⟩
  cases h
  exact ⟨rfl, rfl, rfl⟩

variable {T O : Type} [DecidableEq T] {k k' : Kernel T O} {t : T}

lemma rtThreadSuspend_tcb (h : (k.tcb t).stat = .ready) :
    (k.rtThreadSuspend t).1.tcb = update k.tcb t
      { k.tcb t with stat := .suspend, timer := (k.tcb t).timer.stop } := by
  simp [rtThreadSuspend, h]

lemma rtThreadSuspend_queue (h : (k.tcb t).stat = .ready) :
    (k.rtThreadSuspend t).1.queue = unlink k.queue t := by
  simp [rtThreadSuspend, h]

lemma rtThreadSuspend_of_ne (h : (k.tcb t).stat ≠ .ready) : (k.rtThreadSuspend t).1 = k := by
  simp [rtThreadSuspend, h]

variable [DecidableEq O]

lemma rtThreadResume_tcb (h : (k.tcb t).stat = .suspend) :
    (k.rtThreadResume t).1.tcb = update k.tcb t
      { k.tcb t with stat := .ready, timer := (k.tcb t).timer.stop } := by
  simp [rtThreadResume, h]

lemma rtThreadResume_queue (h : (k.tcb t).stat = .suspend) : (k.rtThreadResume t).1.queue =
      update (unlink k.queue t) (.ready (k.tcb t).currentPriority)
        (unlink k.queue t (.ready (k.tcb t).currentPriority) ++ [t]) := by
  simp [rtThreadResume, h]

lemma rtThreadResume_of_ne (h : (k.tcb t).stat ≠ .suspend) : (k.rtThreadResume t).1 = k := by
  simp [rtThreadResume, h]

lemma rtThreadTimeout_eq_some (h : k.rtThreadTimeout t = some k') : (k.tcb t).stat = .suspend ∧
      k' = ((k.setTcb t (k.tcb t).expired).rtThreadResume t).1 := by
  unfold rtThreadTimeout at h
  split at h
  · rename_i hs
    refine ⟨hs, ?_⟩
    have hstat : ((k.setTcb t (k.tcb t).expired).tcb t).stat = .suspend := by
      simp [Tcb.expired, hs]
    -- the timer is stopped already
    have hstop : ((k.setTcb t (k.tcb t).expired).rtListRemove t).rtTimerStop t =
        (k.setTcb t (k.tcb t).expired).rtListRemove t := by
      simp [rtTimerStop, rtListRemove, setQueue, setTcb, Tcb.expired, Timer.stop]
    rw [← Option.some.inj h, rtThreadResume, if_neg (not_not.mpr hstat), hstop]
  simp at h

lemma rtThreadControl_tcb (k : Kernel T O) (t : T) (p : Nat) :
    (k.rtThreadControl t p).tcb = update k.tcb t
      { k.tcb t with currentPriority := p, numberMask := 1#32 <<< p } := by
  unfold rtThreadControl
  split
  · rename_i h
    simp [h]
  simp

lemma rtThreadControl_queue (h : (k.tcb t).stat = .ready) (p : Nat) :
    (k.rtThreadControl t p).queue =
      update (unlink k.queue t) (.ready p) (unlink k.queue t (.ready p) ++ [t]) := by
  simp [rtThreadControl, h]

lemma rtThreadControl_of_ne (h : (k.tcb t).stat ≠ .ready) (p : Nat) :
    k.rtThreadControl t p = k.setTcb t
      { k.tcb t with currentPriority := p, numberMask := 1#32 <<< p } := by
  simp [rtThreadControl, h]

end

end Kernel

end NbIot
