import NbIot.Ipc.Mailbox
import NbIot.Ipc.MessageQueue
import NbIot.Ipc.Mutex
import NbIot.Ipc.Semaphore

/-! # Semaphores, mutexes, mailboxes and message queues on one kernel

The systems of the four objects, each of which has a kernel with the wait lists of its own objects
only, put together: any number of objects of each kind on one kernel. A function of an object works
on the common kernel with the other wait lists left out (`Kernel.part`), and what it leaves is put
back (`Kernel.withPart`).

* A thread is inside one call at a time, of whatever object.
* `rt_thread_control(RT_THREAD_CTRL_CHANGE_PRIORITY)` may be called on any thread at any time.
* `arrival` is the number of the step in which each thread was suspended last.
-/

namespace NbIot

/-! ## Parts of a kernel -/

variable {T O O' : Type}

/-- The wait lists `O'` of an object among the wait lists `O` of all objects. -/
structure Own (O' O : Type) where
  list : O' → O
  find : O → Option O'
  find_eq_some : ∀ {o o'}, find o = some o' ↔ list o' = o

def Kernel.part (k : Kernel T O) (w : Own O' O) : Kernel T O' where
  tcb := k.tcb
  queue
    | .ready p => k.queue (.ready p)
    | .defunct => k.queue .defunct
    | .wait o => k.queue (.wait (w.list o))
  readyPriorityGroup := k.readyPriorityGroup
  currentThread := k.currentThread
  schedulerLockNest := k.schedulerLockNest

def Kernel.withPart (k : Kernel T O) (w : Own O' O) (k' : Kernel T O') : Kernel T O where
  tcb := k'.tcb
  queue
    | .ready p => k'.queue (.ready p)
    | .defunct => k'.queue .defunct
    | .wait o =>
      match w.find o with
      | some o' => k'.queue (.wait o')
      | none => k.queue (.wait o)
  readyPriorityGroup := k'.readyPriorityGroup
  currentThread := k'.currentThread
  schedulerLockNest := k'.schedulerLockNest

/-! ## The state of the system -/

namespace Ipc

open Mailboxes (Mailbox Side)
open MessageQueues (Mq)
open Mutexes (Mutex)
open Semaphores (Sem)

/-- The wait lists of semaphores `S`, mutexes `M`, mailboxes `B` and message queues `Q`. -/
inductive WaitList (S M B Q : Type) where
  | sem (o : S)
  | mutex (m : M)
  | mail (b : B) (side : Side)
  | mq (q : Q)
  deriving DecidableEq

variable {I S M B Q : Type}

def ownSem : Own S (WaitList S M B Q) where
  list := .sem
  find
    | .sem o => some o
    | _ => none
  find_eq_some {o o'} := by cases o <;> simp [eq_comm]

def ownMutex : Own M (WaitList S M B Q) where
  list := .mutex
  find
    | .mutex m => some m
    | _ => none
  find_eq_some {o o'} := by cases o <;> simp [eq_comm]

def ownMail [DecidableEq B] (b : B) : Own Side (WaitList S M B Q) where
  list := .mail b
  find
    | .mail b' side => if b' = b then some side else none
    | _ => none
  find_eq_some {o o'} := by cases o <;> simp [eq_comm]

def ownMq [DecidableEq Q] (q : Q) : Own Unit (WaitList S M B Q) where
  list := fun _ => .mq q
  find
    | .mq q' => if q' = q then some () else none
    | _ => none
  find_eq_some {o o'} := by cases o <;> simp [eq_comm]

/-- Where a caller is inside a call: a call of a semaphore, of a mutex or of a mailbox waits. -/
inductive Frame (S M B Q : Type) where
  | sem (o : S)
  | mutex (m : M)
  | mail (b : B) (f : Mailboxes.Frame)
  | mq (q : Q) (f : MessageQueues.Frame)

/-- The kernel, the objects, the tick counter, the calls of the threads `T` and of the interrupt
handlers `I`; the number of steps, and the step in which each thread was suspended last. -/
structure State (T I S M B Q : Type) where
  kernel : Kernel T (WaitList S M B Q)
  sem : S → Sem
  mutex : M → Mutex T
  mb : B → Mailbox
  mq : Q → Mq
  tick : BitVec 32
  call : T ⊕ I → Option (Frame S M B Q)
  clock : Nat
  arrival : T → Nat

def State.flag (s : State T I S M B Q) : WaitList S M B Q → IpcFlag
  | .sem o => (s.sem o).flag
  | .mutex m => (s.mutex m).flag
  | .mail b _ => (s.mb b).flag
  | .mq q => (s.mq q).flag

/-- The calls of one kind, given by `get`, go on as in `new`; the others are as they were. -/
def putCall {C F : Type} (call : C → Option (Frame S M B Q)) (get : Frame S M B Q → Option F)
    (put : F → Frame S M B Q) (new : C → Option F) : C → Option (Frame S M B Q) := fun c =>
  match new c with
  | some f => some (put f)
  | none => if ((call c).bind get).isSome then none else call c

def putThreads (call : T ⊕ I → Option (Frame S M B Q)) (new : T → Option (Frame S M B Q)) :
    T ⊕ I → Option (Frame S M B Q)
  | .inl t => new t
  | .inr i => call (.inr i)

def getSem : Frame S M B Q → Option S
  | .sem o => some o
  | _ => none

def State.semaphores (s : State T I S M B Q) : Semaphores.State T S where
  kernel := s.kernel.part ownSem
  sem := s.sem
  pend t := (s.call (.inl t)).bind getSem
  log := []

def State.putSemaphores (s : State T I S M B Q) (s' : Semaphores.State T S) :
    State T I S M B Q :=
  { s with
    kernel := s.kernel.withPart ownSem s'.kernel
    sem := s'.sem
    call := putThreads s.call (putCall (fun t => s.call (.inl t)) getSem .sem s'.pend) }

def getMutex : Frame S M B Q → Option M
  | .mutex m => some m
  | _ => none

def State.mutexes (s : State T I S M B Q) : Mutexes.State T M where
  kernel := s.kernel.part ownMutex
  mutex := s.mutex
  pend t := (s.call (.inl t)).bind getMutex
  log := []

def State.putMutexes (s : State T I S M B Q) (s' : Mutexes.State T M) : State T I S M B Q :=
  { s with
    kernel := s.kernel.withPart ownMutex s'.kernel
    mutex := s'.mutex
    call := putThreads s.call (putCall (fun t => s.call (.inl t)) getMutex .mutex s'.pend) }

section

variable [DecidableEq B] [DecidableEq Q]

def getMail (b : B) : Frame S M B Q → Option Mailboxes.Frame
  | .mail b' f => if b' = b then some f else none
  | _ => none

def State.mailbox (s : State T I S M B Q) (b : B) : Mailboxes.State T where
  kernel := s.kernel.part (ownMail b)
  mb := s.mb b
  tick := s.tick
  call t := (s.call (.inl t)).bind (getMail b)
  log := []

def State.putMailbox (s : State T I S M B Q) (b : B) (s' : Mailboxes.State T) :
    State T I S M B Q :=
  { s with
    kernel := s.kernel.withPart (ownMail b) s'.kernel
    mb := Function.update s.mb b s'.mb
    call := putThreads s.call
      (putCall (fun t => s.call (.inl t)) (getMail b) (.mail b) s'.call) }

def getMq (q : Q) : Frame S M B Q → Option MessageQueues.Frame
  | .mq q' f => if q' = q then some f else none
  | _ => none

def State.queue (s : State T I S M B Q) (q : Q) : MessageQueues.State T I where
  kernel := s.kernel.part (ownMq q)
  mq := s.mq q
  tick := s.tick
  call c := (s.call c).bind (getMq q)
  log := []

def State.putQueue (s : State T I S M B Q) (q : Q) (s' : MessageQueues.State T I) :
    State T I S M B Q :=
  { s with
    kernel := s.kernel.withPart (ownMq q) s'.kernel
    mq := Function.update s.mq q s'.mq
    call := putCall s.call (getMq q) (.mq q) s'.call }

end

/-! ## Its steps -/

/-- A step of one of the objects; a change of a priority, the expiry of a thread timer, a tick. -/
inductive Action (T I S M B Q : Type) where
  | sem (a : Semaphores.Action T S)
  | mutex (a : Mutexes.Action T M)
  | mail (b : B) (a : Mailboxes.Action T)
  | mq (q : Q) (a : MessageQueues.Action T I)
  | control (t : T) (priority : Nat)
  | timeout (t : T)
  | tick

def State.Outside (s : State T I S M B Q) (c : T ⊕ I) : Prop := (s.call c).isNone = true
  deriving Decidable

/-- The steps that an object makes here: a call begins outside all calls, and timers and ticks are
not those of an object. -/
def State.Allowed (s : State T I S M B Q) : Action T I S M B Q → Prop
  | .sem (.take t _ _) => s.Outside (.inl t)
  | .sem (.timeout _) => False
  | .mutex (.take t _ _) => s.Outside (.inl t)
  | .mutex (.release t _) => s.Outside (.inl t)
  | .mutex (.timeout _) => False
  | .mail _ (.sendWait t _ _) => s.Outside (.inl t)
  | .mail _ (.send t _) => s.Outside (.inl t)
  | .mail _ (.recv t _) => s.Outside (.inl t)
  | .mail _ .tick => False
  | .mail _ (.timeout _) => False
  | .mq _ (.send c _) => s.Outside c
  | .mq _ (.urgent c _) => s.Outside c
  | .mq _ (.recv c _ _) => s.Outside c
  | .mq _ (.control c) => s.Outside c
  | .mq _ .tick => False
  | .mq _ (.timeout _) => False
  | _ => True

instance (s : State T I S M B Q) (a : Action T I S M B Q) : Decidable (s.Allowed a) := by
  unfold State.Allowed
  split <;> infer_instance

section

variable [DecidableEq T] [DecidableEq I] [DecidableEq S] [DecidableEq M] [DecidableEq B]
  [DecidableEq Q]

def act (s : State T I S M B Q) : Action T I S M B Q → Option (State T I S M B Q)
  | .sem a => (Semaphores.step s.semaphores a).map s.putSemaphores
  | .mutex a => (Mutexes.step s.mutexes a).map s.putMutexes
  | .mail b a => (Mailboxes.step (s.mailbox b) a).map (s.putMailbox b)
  | .mq q a => (MessageQueues.step (s.queue q) a).map (s.putQueue q)
  | .control t priority => some { s with kernel := s.kernel.rtThreadControl t priority }
  | .timeout t =>
    if (s.kernel.tcb t).timer.linked then
      (s.kernel.rtThreadTimeout t).map fun k => { s with kernel := k }
    else none
  | .tick => some { s with tick := s.tick + 1 }

/-- The step after `s` is counted, and the threads that it has suspended have arrived in it. -/
def State.stamp (s s' : State T I S M B Q) : State T I S M B Q :=
  { s' with
    clock := s.clock + 1
    arrival := fun t =>
      if (s'.kernel.tcb t).stat = .suspend ∧ (s.kernel.tcb t).stat ≠ .suspend then s.clock
      else s.arrival t }

def step (s : State T I S M B Q) (a : Action T I S M B Q) : Option (State T I S M B Q) :=
  if s.Allowed a then (act s a).map s.stamp else none

end

structure Start (s : State T I S M B Q) : Prop where
  wait : ∀ o, s.kernel.queue (.wait o) = []
  call : ∀ c, s.call c = none

end Ipc

end NbIot
