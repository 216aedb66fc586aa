import NbIot.Ipc.Event
import NbIot.Ipc.System
import NbIot.Kernel.ThreadTimer
import NbIot.Mempool.Waiters

/-! # The objects threads wait for, as services of one kernel

A `Service` is an object with wait lists: its data, the pieces of its code that run with interrupts
disabled, and the thread that may begin to wait in such a piece. It carries the proof that its code
is calm: it starts no thread timer but that of a thread that begins to wait, and keeps timers in
order.
-/

namespace NbIot.ThreadTimers

open Kernel Option

variable {T I : Type}

structure Service (T : Type) where
  Lists : Type
  decLists : DecidableEq Lists
  Data : Type
  Act : Type
  /-- One stay in the code, at a tick. -/
  run : Kernel T Lists → BitVec 32 → Data → Act → Option (Kernel T Lists × Data)
  /-- The thread that makes a step of a call that may wait, whether or not it has to. -/
  caller : Act → Option T
  calm : ∀ {k tick d a k' d'}, run k tick d a = some (k', d') → Calm (caller a) k.tcb k'.tcb

attribute [instance] Service.decLists

/-! ## Semaphores -/

variable [DecidableEq T] [DecidableEq I]

inductive SemAct (T : Type) where
  | take (t : T) (time : Int)
  | release

open Semaphores in
def semRun (k : Kernel T Unit) (sm : Sem) : SemAct T → Option (Kernel T Unit × Sem)
  | .take t time => (rtSemTake k sm () t time).map fun r => (r.1, r.2.1)
  | .release => some (rtSemRelease k sm ())

def SemAct.caller : SemAct T → Option T
  | take t _ => some t
  | release => none

open Semaphores in
lemma calm_semRun {k k' : Kernel T Unit} {sm sm' : Sem} {a : SemAct T}
    (h : semRun k sm a = some (k', sm')) : Calm a.caller k.tcb k'.tcb := by
  cases a with
  | take t time =>
    obtain ⟨r, htake, hr⟩ := map_eq_some_iff.mp h
    obtain rfl : r.1 = k' := congrArg Prod.fst hr
    unfold rtSemTake at htake
    split at htake
    · cases htake
      exact .refl _
    split at htake
    · cases htake
      exact .refl _
    obtain ⟨k₁, hwait, rfl⟩ := map_eq_some_iff.mp htake
    exact (k.calm_setError t _).trans (calm_wait hwait)
  | release =>
    obtain rfl : (rtSemRelease k sm ()).1 = k' := congrArg Prod.fst (Option.some.inj h)
    unfold rtSemRelease
    split
    · exact k.calm_resume _
    exact .refl _

def semaphore : Service T where
  Lists := Unit
  decLists := inferInstance
  Data := Semaphores.Sem
  Act := SemAct T
  run k _ := semRun k
  caller := SemAct.caller
  calm := calm_semRun

/-! ## Mutexes -/

inductive MutexAct (T : Type) where
  | take (t : T) (time : Int)
  | release (t : T)

open Mutexes in
def mutexRun (k : Kernel T Unit) (mx : Mutex T) : MutexAct T → Option (Kernel T Unit × Mutex T)
  | .take t time => (rtMutexTake k mx () t time).map fun r => (r.1, r.2.1)
  | .release t => some ((rtMutexRelease k mx () t).1, (rtMutexRelease k mx () t).2.1)

def MutexAct.caller : MutexAct T → Option T
  | take t _ => some t
  | release _ => none

open Mutexes in
lemma calm_boost {caller : Option T} (k : Kernel T Unit) (w t : T) :
    Calm caller k.tcb (boost k w t).tcb := by
  unfold boost
  split
  · exact k.calm_control w _
  exact .refl _

open Mutexes in
lemma calm_restore {caller : Option T} (k : Kernel T Unit) (mx : Mutex T) (t : T) :
    Calm caller k.tcb (restore k mx t).tcb := by
  unfold restore
  split
  · exact k.calm_control t _
  exact .refl _

open Mutexes in
lemma calm_mutexRun {k k' : Kernel T Unit} {mx mx' : Mutex T} {a : MutexAct T}
    (h : mutexRun k mx a = some (k', mx')) : Calm a.caller k.tcb k'.tcb := by
  cases a with
  | take t time =>
    obtain ⟨r, htake, hr⟩ := map_eq_some_iff.mp h
    obtain rfl : r.1 = k' := congrArg Prod.fst hr
    have hset : Calm (some t) k.tcb (k.setError t rtEok).tcb := k.calm_setError t rtEok
    unfold rtMutexTake at htake
    split at htake
    · cases htake
      exact hset
    split at htake
    · cases htake
      exact hset
    split at htake
    · cases htake
      exact hset.trans (calm_setError _ t _)
    split at htake
    · cases htake
    obtain ⟨k₁, hwait, rfl⟩ := map_eq_some_iff.mp htake
    exact hset.trans ((calm_boost _ _ t).trans (calm_wait hwait))
  | release t =>
    obtain rfl : (rtMutexRelease k mx () t).1 = k' := congrArg Prod.fst (Option.some.inj h)
    unfold rtMutexRelease
    split
    · exact k.calm_setError t _
    split
    · split
      · exact calm_restore k mx t
      exact (calm_restore k mx t).trans (calm_resume _ _)
    exact .refl _

def mutex : Service T where
  Lists := Unit
  decLists := inferInstance
  Data := Mutexes.Mutex T
  Act := MutexAct T
  run k _ := mutexRun k
  caller := MutexAct.caller
  calm := calm_mutexRun

/-! ## Mailboxes -/

inductive MailAct (T : Type) where
  | sendWait (t : T) (value : Mailboxes.Mail) (timeout : BitVec 32)
  /-- Also of an interrupt handler, while `t` is the current thread. -/
  | send (t : T) (value : Mailboxes.Mail)
  | recv (t : T) (timeout : BitVec 32)
  /-- `rt_schedule` has returned to a call that waits. -/
  | back (t : T)

structure MailData (T : Type) where
  mb : Mailboxes.Mailbox
  call : T → Option Mailboxes.Frame

open Mailboxes in
/-- What a stay of `t` in the code leaves. -/
def MailData.after (d : MailData T) (t : T) (r : Kernel T Side × Mailbox × Outcome T) :
    Kernel T Side × MailData T :=
  match r.2.2 with
  | .returned _ => (r.1, { mb := r.2.1, call := Function.update d.call t none })
  | .waiting f => (r.1, { mb := r.2.1, call := Function.update d.call t (some f) })

open Mailboxes in
def mailRun (k : Kernel T Side) (now : BitVec 32) (d : MailData T) :
    MailAct T → Option (Kernel T Side × MailData T)
  | .sendWait t value timeout => (rtMbSendWait k d.mb now t value timeout).map (d.after t)
  | .send t value => (rtMbSend k d.mb now t value).map fun r => (r.1, { d with mb := r.2.1 })
  | .recv t timeout => (rtMbRecv k d.mb now t timeout).map (d.after t)
  | .back t => (d.call t).bind fun f => (f.resume k d.mb now t).map (d.after t)

def MailAct.caller : MailAct T → Option T
  | sendWait t _ _ => some t
  | send t _ => some t
  | recv t _ => some t
  | back t => some t

lemma MailData.after_fst (d : MailData T) (t : T)
    (r : Kernel T Mailboxes.Side × Mailboxes.Mailbox × Mailboxes.Outcome T) :
    (d.after t r).1 = r.1 := by
  unfold MailData.after
  split <;> rfl

open Mailboxes in
lemma calm_mailRun {k k' : Kernel T Side} {now : BitVec 32} {d d' : MailData T} {a : MailAct T}
    (h : mailRun k now d a = some (k', d')) : Calm a.caller k.tcb k'.tcb := by
  cases a with
  | sendWait t value timeout | recv t timeout =>
    obtain ⟨r, hr, hafter⟩ := map_eq_some_iff.mp h
    obtain rfl : r.1 = k' := (d.after_fst t r).symm.trans (congrArg Prod.fst hafter)
    exact (stay_start hr).1.calm
  | send t value =>
    obtain ⟨r, hr, hafter⟩ := map_eq_some_iff.mp h
    obtain rfl : r.1 = k' := congrArg Prod.fst hafter
    exact (stay_start hr).1.calm
  | back t =>
    obtain ⟨f, -, h⟩ := bind_eq_some_iff.mp h
    obtain ⟨r, hr, hafter⟩ := map_eq_some_iff.mp h
    obtain rfl : r.1 = k' := (d.after_fst t r).symm.trans (congrArg Prod.fst hafter)
    exact (stay_resume hr).1.calm

def mailbox : Service T where
  Lists := Mailboxes.Side
  decLists := inferInstance
  Data := MailData T
  Act := MailAct T
  run := mailRun
  caller := MailAct.caller
  calm := calm_mailRun

/-! ## Message queues -/

inductive QueueAct (T I : Type) where
  | send (c : T ⊕ I) (buffer : MessageQueues.Msg)
  | urgent (c : T ⊕ I) (buffer : MessageQueues.Msg)
  | recv (c : T ⊕ I) (size : Nat) (timeout : BitVec 32)
  | control
  /-- The next stay in the code of a call that has not returned. -/
  | work (c : T ⊕ I)

open MessageQueues in
def queueAct (s : State T I) : QueueAct T I → Option (State T I)
  | .send c buffer => rtMqSend s c buffer
  | .urgent c buffer => rtMqUrgent s c buffer
  | .recv c size timeout => rtMqRecv s c size timeout
  | .control => rtMqControl s
  | .work c => (s.call c).bind (work s c)

open MessageQueues in
/-- The state of the queue has a copy of the kernel, which is replaced before its code runs. -/
def queueRun (k : Kernel T Unit) (now : BitVec 32) (d : State T I) (a : QueueAct T I) :
    Option (Kernel T Unit × State T I) :=
  (queueAct { d with kernel := k, tick := now } a).map fun s => (s.kernel, s)

/-- A step of a call in progress may be one of a receive that waits again. -/
def QueueAct.caller : QueueAct T I → Option T
  | recv c _ _ => c.getLeft?
  | work c => c.getLeft?
  | _ => none

section

open MessageQueues

lemma calm_queueAct {s s' : State T I} {a : QueueAct T I} (h : queueAct s a = some s') :
    Calm a.caller s.kernel.tcb s'.kernel.tcb := by
  cases a with
  | send c buffer | urgent c buffer => exact (stays_takeSlot h).1.calm
  | recv c size timeout => exact (stays_recv h).1.calm
  | control => exact (stays_control h).1.calm
  | work c =>
    obtain ⟨f, -, h⟩ := bind_eq_some_iff.mp h
    exact (stays_work h).1.calm

end

def messageQueue (I : Type) [DecidableEq I] : Service T where
  Lists := Unit
  decLists := inferInstance
  Data := MessageQueues.State T I
  Act := QueueAct T I
  run := queueRun
  caller := QueueAct.caller
  calm h := by
    obtain ⟨s, hs, hk⟩ := map_eq_some_iff.mp h
    obtain rfl : s.kernel = _ := congrArg Prod.fst hk
    exact calm_queueAct hs

/-! ## Events -/

inductive EventAct (T : Type) where
  | send (set : BitVec 32)
  | recv (t : T) (set : BitVec 32) (option : BitVec 8) (timeout : BitVec 32)
  | reset

open Events in
def eventAct (s : State T Unit) : EventAct T → Option (State T Unit)
  | .send set => some (rtEventSend s () set).1
  | .recv t set option timeout => (rtEventRecv s t () set option timeout).map Prod.fst
  | .reset => rtEventControl s ()

open Events in
def eventRun (k : Kernel T Unit) (d : State T Unit) (a : EventAct T) :
    Option (Kernel T Unit × State T Unit) :=
  (eventAct { d with kernel := k } a).map fun s => (s.kernel, s)

def EventAct.caller : EventAct T → Option T
  | recv t _ _ _ => some t
  | _ => none

section

open Events

lemma calm_scan {caller : Option T} (info : T → BitVec 8) (ts : List T) (sc : Scan T Unit) :
    Calm caller sc.kernel.tcb (scan info ts sc).kernel.tcb := by
  induction ts generalizing sc with
  | nil => exact .refl _
  | cons t ts ih =>
    rw [scan]
    split
    · exact (sc.kernel.calm_resume t).trans (ih (sc.wake info t))
    exact ih sc

lemma calm_eventAct {s s' : State T Unit} {a : EventAct T} (h : eventAct s a = some s') :
    Calm a.caller s.kernel.tcb s'.kernel.tcb := by
  cases a with
  | send set =>
    cases h
    unfold rtEventSend
    split
    · exact .refl _
    exact calm_scan s.eventInfo (s.kernel.queue (.wait ()))
      ⟨s.kernel, (s.event ()).set ||| set, s.eventSet⟩
  | recv t set option timeout =>
    obtain ⟨r, hr, rfl⟩ := map_eq_some_iff.mp h
    have hset : Calm (some t) s.kernel.tcb (s.kernel.setError t rtEok).tcb :=
      s.kernel.calm_setError t rtEok
    unfold rtEventRecv at hr
    split at hr
    · cases hr
      exact .refl _
    split at hr
    · cases hr
    split at hr
    · cases hr
      exact hset
    split at hr
    · cases hr
      exact hset.trans (calm_setError _ t _)
    obtain ⟨k, hwait, rfl⟩ := map_eq_some_iff.mp hr
    exact hset.trans (calm_wait hwait)
  | reset =>
    obtain ⟨k, hk, rfl⟩ := map_eq_some_iff.mp h
    exact calm_resumeAll hk

end

def event : Service T where
  Lists := Unit
  decLists := inferInstance
  Data := Events.State T Unit
  Act := EventAct T
  run k _ := eventRun k
  caller := EventAct.caller
  calm h := by
    obtain ⟨s, hs, hk⟩ := map_eq_some_iff.mp h
    obtain rfl : s.kernel = _ := congrArg Prod.fst hk
    exact calm_eventAct hs

/-! ## Memory pools -/

inductive PoolAct (T : Type) where
  | alloc (t : T) (time : BitVec 32)
  /-- `rt_schedule` has returned to a call that waits, and then: the loop goes on. -/
  | back (t : T)
  | again (t : T)
  | free (block : Nat)
  /-- The test and the body of the loop of `rt_mp_detach`. -/
  | test (t : T)
  | body (t : T)

open Mempools in
def poolAct (s : State T) : PoolAct T → Option (State T)
  | .alloc t time => rtMpAlloc s t time 0
  | .back t =>
    match s.call t with
    | some (.asleep time beforeSleep) => some (rtMpAllocBack s t time beforeSleep)
    | _ => none
  | .again t =>
    match s.call t with
    | some (.awake time beforeSleep) => rtMpAlloc s t time beforeSleep
    | _ => none
  | .free block => rtMpFree s block
  | .test t => some (rtMpDetachTest s t)
  | .body t => rtMpDetachBody s t

open Mempools in
def poolRun (k : Kernel T Unit) (now : BitVec 32) (d : State T) (a : PoolAct T) :
    Option (Kernel T Unit × State T) :=
  (poolAct { d with kernel := k, tick := now } a).map fun s => (s.kernel, s)

def PoolAct.caller : PoolAct T → Option T
  | alloc t _ => some t
  | again t => some t
  | _ => none

section

open Mempools

variable {s s' : State T}

lemma calm_mpWait {k k' : Kernel T Unit} {t : T} {time : Int} (h : rtMpWait k t time = some k') :
    Calm (some t) k.tcb k'.tcb := by
  unfold rtMpWait at h
  split at h
  · refine calm_start ?_ h
    rfl
  cases h
  exact k.calm_suspend t

lemma calm_mpAlloc {t : T} {time beforeSleep : BitVec 32}
    (h : rtMpAlloc s t time beforeSleep = some s') : Calm (some t) s.kernel.tcb s'.kernel.tcb := by
  unfold rtMpAlloc at h
  split at h
  · split at h
    · cases h
      exact s.kernel.calm_setError t _
    obtain ⟨k, hwait, rfl⟩ := map_eq_some_iff.mp h
    exact (s.kernel.calm_setError t _).trans (calm_mpWait hwait)
  obtain ⟨s1, htake, rfl⟩ := map_eq_some_iff.mp h
  unfold takeBlock at htake
  split at htake
  · cases htake
  cases htake
  exact .refl _

lemma calm_mpFree {caller : Option T} {block : Nat} (h : rtMpFree s block = some s') :
    Calm caller s.kernel.tcb s'.kernel.tcb := by
  unfold rtMpFree at h
  split at h
  · simp at h
  split at h
  · split at h
    · simp at h
    rename_i t _ _
    cases h
    exact (s.kernel.calm_setError t rtEok).trans (calm_resume _ t)
  cases h
  rw [putBlock_kernel]
  exact .refl _

lemma calm_poolAct {a : PoolAct T} (h : poolAct s a = some s') :
    Calm a.caller s.kernel.tcb s'.kernel.tcb := by
  cases a with
  | alloc t time => exact calm_mpAlloc h
  | back t =>
    simp only [poolAct] at h
    split at h
    · cases h
      unfold rtMpAllocBack
      split <;> exact .refl _
    cases h
  | again t =>
    simp only [poolAct] at h
    split at h
    · exact calm_mpAlloc h
    cases h
  | free block => exact calm_mpFree h
  | test t =>
    cases h
    unfold rtMpDetachTest
    split <;> exact .refl _
  | body t =>
    simp only [poolAct, rtMpDetachBody] at h
    split at h
    · cases h
    cases h
    exact s.kernel.calm_abort _

end

def pool : Service T where
  Lists := Unit
  decLists := inferInstance
  Data := Mempools.State T
  Act := PoolAct T
  run := poolRun
  caller := PoolAct.caller
  calm h := by
    obtain ⟨s, hs, hk⟩ := map_eq_some_iff.mp h
    obtain rfl : s.kernel = _ := congrArg Prod.fst hk
    exact calm_poolAct hs

/-! ## All of them -/

inductive Kind where
  | sem | mutex | mailbox | mq | event | pool
  deriving DecidableEq

def Kind.service (T I : Type) [DecidableEq T] [DecidableEq I] : Kind → Service T
  | sem => semaphore
  | mutex => ThreadTimers.mutex
  | mailbox => ThreadTimers.mailbox
  | mq => messageQueue I
  | event => ThreadTimers.event
  | pool => ThreadTimers.pool

end NbIot.ThreadTimers
