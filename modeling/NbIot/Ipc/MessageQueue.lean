import NbIot.Basic.Chain
import NbIot.Basic.Custody
import NbIot.Heap.Mem
import NbIot.Ipc.WaitQueue

/-! # Message queues

`rt_mq_send`, `rt_mq_urgent`, `rt_mq_recv` and `rt_mq_control` of `ipc.c` on one message queue, for
any number of threads and interrupt handlers. A message is copied to and from a slot of the pool
with interrupts enabled, and meanwhile any other call may run.

* A slot is its number in the pool, `none` being `RT_NULL`; `next` and `data` are what is stored in
  the slots.
* A step is one stay in the code with interrupts disabled, or, with interrupts enabled, one write of
  `msg->next` or one byte of a copy.
* `none` is a failed assertion or an access through `RT_NULL`.
-/

namespace NbIot.MessageQueues

open Queues Kernel Function Option

/-! ## The queue in memory -/

abbrev Slot := Nat

abbrev Msg := List UInt8

/-- `struct rt_messagequeue` and the slots of its pool; the sizes and the counter are 16-bit
numbers. -/
structure Mq where
  flag : IpcFlag
  msgSize : Nat
  maxMsgs : Nat
  entry : Nat
  head : Option Slot
  tail : Option Slot
  free : Option Slot
  next : Slot → Option Slot
  data : Slot → Nat → UInt8

/-- `sizeof(struct rt_mq_message)`. -/
def sizeofMessage : Nat := 4

/-- The loop that makes the free list: the links after `n` turns, and the head of the list. -/
def linkFree (next : Slot → Option Slot) : Nat → (Slot → Option Slot) × Option Slot
  | 0 => (next, none)
  | n + 1 => (update (linkFree next n).1 n (linkFree next n).2, some n)

def newQueue (next : Slot → Option Slot) (data : Slot → Nat → UInt8) (msgSize maxMsgs : Nat)
    (flag : IpcFlag) : Mq where
  flag := flag
  msgSize := msgSize
  maxMsgs := maxMsgs
  entry := 0
  head := none
  tail := none
  free := (linkFree next maxMsgs).2
  next := (linkFree next maxMsgs).1
  data := data

/-- `RT_ALIGN(msg_size, RT_ALIGN_SIZE)` as an `rt_uint16_t`. -/
def alignedSize (msgSize : Nat) : Nat := SmallMem.rtAlign msgSize SmallMem.alignSize % 2 ^ 16

def rtMqInit (next : Slot → Option Slot) (data : Slot → Nat → UInt8) (msgSize poolSize : Nat)
    (flag : IpcFlag) : Mq :=
  newQueue next data (alignedSize msgSize)
    (poolSize / (alignedSize msgSize + sizeofMessage) % 2 ^ 16) flag

/-- `rt_mq_create` once it has its memory. -/
def rtMqCreate (next : Slot → Option Slot) (data : Slot → Nat → UInt8) (msgSize maxMsgs : Nat)
    (flag : IpcFlag) : Mq :=
  newQueue next data (alignedSize msgSize) (maxMsgs % 2 ^ 16) flag

namespace Mq

def copyByte (q : Mq) (msg : Slot) (i : Nat) (b : UInt8) : Mq :=
  { q with data := update q.data msg (update (q.data msg) i b) }

/-- `msg->next = next`. -/
def setNext (q : Mq) (msg : Slot) (next : Option Slot) : Mq :=
  { q with next := update q.next msg next }

/-- What `rt_mq_send` does to link a slot into the queue. -/
def append (q : Mq) (msg : Slot) : Mq :=
  { q with
    next := match q.tail with
      | some tail => update q.next tail (some msg)
      | none => q.next
    tail := some msg
    head := if q.head = none then some msg else q.head
    entry := (q.entry + 1) % 2 ^ 16 }

/-- What `rt_mq_urgent` does to link a slot into the queue. -/
def prepend (q : Mq) (msg : Slot) : Mq :=
  { q with
    next := update q.next msg q.head
    head := some msg
    tail := if q.tail = none then some msg else q.tail
    entry := (q.entry + 1) % 2 ^ 16 }

def unlinkFirst (q : Mq) : Option (Slot × Mq) :=
  q.head.map fun msg =>
    (msg, { q with head := q.next msg, tail := if q.tail = some msg then none else q.tail })

/-- `mq->entry --`. -/
def countDown (q : Mq) : Mq := { q with entry := if q.entry = 0 then 2 ^ 16 - 1 else q.entry - 1 }

def release (q : Mq) (msg : Slot) : Mq :=
  { q with next := update q.next msg q.free, free := some msg }

/-- The loop of `rt_mq_control`, which ends when the queue is empty. -/
def releaseAll : Nat → Mq → Option Mq
  | 0, _ => none
  | fuel + 1, q =>
    match q.unlinkFirst with
    | none => some q
    | some (msg, q') => releaseAll fuel (q'.release msg)

end Mq

/-! ## Calls in progress -/

/-- Where a caller is in its call: `rt_mq_send` has taken a slot; a sender has copied the first
`done` bytes of its buffer to its slot; a receiver waits for a message, or has copied `buffer`, out
of `size` bytes, from its slot. -/
inductive Frame where
  | send (msg : Slot) (buffer : Msg)
  | fill (msg : Slot) (urgent : Bool) (buffer : Msg) (done : Nat)
  | wait (size : Nat) (timeout tickDelta : BitVec 32)
  | drain (msg : Slot) (size : Nat) (buffer : Msg)
  deriving DecidableEq

/-- What the calls have done: a message has been linked, the first one has been unlinked for a
receive with the argument `size`, the bytes that a receive returns, all messages have been dropped,
a call has returned an error. -/
inductive Event (C : Type) where
  | sent (c : C) (msg : Msg)
  | urgent (c : C) (msg : Msg)
  | taken (c : C) (size : Nat)
  | received (c : C) (buffer : Msg)
  | reset
  | failed (c : C) (err : Int)
  deriving DecidableEq

/-- The kernel, with the wait list of the queue as its only object, the queue, the tick counter, the
calls that have not returned, of the threads `T` and of the interrupt handlers `I`, and what the
calls have done. -/
structure State (T I : Type) where
  kernel : Kernel T Unit
  mq : Mq
  tick : BitVec 32
  call : T ⊕ I → Option Frame
  log : List (Event (T ⊕ I))

variable {T I : Type}

def State.Running (s : State T I) : T ⊕ I → Prop
  | .inl t => (s.kernel.tcb t).stat = .ready
  | .inr _ => True

instance (s : State T I) (c : T ⊕ I) : Decidable (s.Running c) := by
  cases c <;> unfold State.Running <;> infer_instance

section

variable [DecidableEq T] [DecidableEq I]

/-- The call of `c` goes on at `f`, or has returned. -/
def State.setCall (s : State T I) (c : T ⊕ I) (f : Option Frame) : State T I :=
  { s with call := update s.call c f }

def State.note (s : State T I) (e : Event (T ⊕ I)) : State T I := { s with log := s.log ++ [e] }

/-! ## The functions of `ipc.c` -/

/-- `rt_mq_send` and `rt_mq_urgent` until they have a slot; `f` is where the call goes on. -/
def takeSlot (s : State T I) (c : T ⊕ I) (buffer : Msg) (f : Slot → Frame) : Option (State T I) :=
  if buffer = [] then none
  else if s.mq.msgSize < buffer.length then some (s.note (.failed c (-rtError)))
  else
    match s.mq.free with
    | none => some (s.note (.failed c (-rtEfull)))
    | some msg =>
      some { s.setCall c (some (f msg)) with mq := { s.mq with free := s.mq.next msg } }

def rtMqSend (s : State T I) (c : T ⊕ I) (buffer : Msg) : Option (State T I) :=
  takeSlot s c buffer fun msg => .send msg buffer

def rtMqUrgent (s : State T I) (c : T ⊕ I) (buffer : Msg) : Option (State T I) :=
  takeSlot s c buffer fun msg => .fill msg true buffer 0

/-- `rt_mq_recv` on a queue that is not empty. -/
def takeMessage (s : State T I) (c : T ⊕ I) (size : Nat) : Option (State T I) :=
  s.mq.unlinkFirst.map fun (msg, q) =>
    { (s.setCall c (some (.drain msg (if s.mq.msgSize < size then s.mq.msgSize else size)
        []))).note (.taken c size) with mq := q.countDown }

/-- `rt_mq_recv` from the test of the loop condition on; an interrupt handler must not wait. -/
def recvLoop (s : State T I) (c : T ⊕ I) (size : Nat) (timeout tickDelta : BitVec 32) :
    Option (State T I) :=
  if s.mq.entry = 0 then
    match c with
    | .inr _ => none
    | .inl t =>
      if timeout = 0 then
        some { (s.setCall (.inl t) none).note (.failed (.inl t) (-rtEtimeout)) with
          kernel := s.kernel.setError t (-rtEtimeout) }
      else
        ((s.kernel.setError t rtEok).rtIpcWait () t s.mq.flag timeout.toInt).map fun k =>
          { s.setCall (.inl t) (some (.wait size timeout
              (if 0 < timeout.toInt then s.tick else tickDelta))) with kernel := k }
  else takeMessage s c size

def rtMqRecv (s : State T I) (c : T ⊕ I) (size : Nat) (timeout : BitVec 32) :
    Option (State T I) :=
  if size = 0 then none
  else if s.mq.entry = 0 ∧ timeout = 0 then some (s.note (.failed c (-rtEtimeout)))
  else recvLoop s c size timeout 0

/-- `rt_mq_recv` after `rt_schedule` has returned. -/
def recvBack (s : State T I) (t : T) (size : Nat) (timeout tickDelta : BitVec 32) :
    Option (State T I) :=
  if (s.kernel.tcb t).error ≠ rtEok then
    some ((s.setCall (.inl t) none).note (.failed (.inl t) (s.kernel.tcb t).error))
  else
    recvLoop s (.inl t) size (remaining timeout tickDelta s.tick)
      (if 0 < timeout.toInt then s.tick - tickDelta else tickDelta)

/-- `rt_mq_control` with `RT_IPC_CMD_RESET`. A queue that is not empty after as many turns as there
are slots has a cycle. -/
def rtMqControl (s : State T I) : Option (State T I) :=
  (s.kernel.rtIpcListResumeAll ()).bind fun k =>
    (s.mq.releaseAll (s.mq.maxMsgs + 1)).map fun q =>
      { s.note .reset with kernel := k, mq := { q with entry := 0 } }

/-- The end of `rt_mq_send` and `rt_mq_urgent`. -/
def linkSlot (s : State T I) (c : T ⊕ I) (msg : Slot) (urgent : Bool) (buffer : Msg) :
    State T I :=
  { (s.setCall c none).note (if urgent then .urgent c buffer else .sent c buffer) with
    mq := if urgent then s.mq.prepend msg else s.mq.append msg
    kernel := s.kernel.resumeFirst () }

def work (s : State T I) (c : T ⊕ I) : Frame → Option (State T I)
  | .send msg buffer =>
    some { s.setCall c (some (.fill msg false buffer 0)) with mq := s.mq.setNext msg none }
  | .fill msg urgent buffer done =>
    match buffer[done]? with
    | some b =>
      some { s.setCall c (some (.fill msg urgent buffer (done + 1))) with
        mq := s.mq.copyByte msg done b }
    | none => some (linkSlot s c msg urgent buffer)
  | .wait size timeout tickDelta =>
    match c with
    | .inl t => recvBack s t size timeout tickDelta
    | .inr _ => none
  | .drain msg size buffer =>
    if buffer.length < size then
      some (s.setCall c (some (.drain msg size (buffer ++ [s.mq.data msg buffer.length]))))
    else some { (s.setCall c none).note (.received c buffer) with mq := s.mq.release msg }

/-! ## What they do to the kernel -/

variable {s s' : State T I} {c : T ⊕ I} {caller : Option T} {size : Nat}

def Stays (s s' : State T I) (caller : Option T) : Prop :=
  Stay s.mq.flag caller s.kernel s'.kernel ∧ s'.mq.flag = s.mq.flag

lemma stays_takeSlot {buffer : Msg} {f : Slot → Frame} (h : takeSlot s c buffer f = some s') :
    Stays s s' caller := by
  unfold takeSlot at h
  split at h
  · simp at h
  split at h
  · cases h
    exact ⟨.quiet rfl, rfl⟩
  split at h
  · cases h
    exact ⟨.quiet rfl, rfl⟩
  cases h
  exact ⟨.quiet rfl, rfl⟩

lemma stays_recvLoop {timeout tickDelta : BitVec 32}
    (h : recvLoop s c size timeout tickDelta = some s') : Stays s s' c.getLeft? := by
  unfold recvLoop at h
  split at h
  · cases c with
    | inr i => simp at h
    | inl t =>
      simp only at h
      split at h
      · cases h
        exact ⟨.error t _ rfl, rfl⟩
      obtain ⟨k, hk, rfl⟩ := map_eq_some_iff.mp h
      exact ⟨.wait t () _ rfl hk, rfl⟩
  obtain ⟨⟨msg, q⟩, hu, rfl⟩ := map_eq_some_iff.mp h
  obtain ⟨m, hm, hq⟩ := map_eq_some_iff.mp hu
  cases hq
  exact ⟨.quiet rfl, rfl⟩

lemma stays_recv {timeout : BitVec 32} (h : rtMqRecv s c size timeout = some s') :
    Stays s s' c.getLeft? := by
  unfold rtMqRecv at h
  split at h
  · simp at h
  split at h
  · cases h
    exact ⟨.quiet rfl, rfl⟩
  exact stays_recvLoop h

lemma unlinkFirst_same {q q' : Mq} {msg : Slot} (h : q.unlinkFirst = some (msg, q')) :
    q'.flag = q.flag ∧ q'.msgSize = q.msgSize := by
  obtain ⟨m, hm, hq⟩ := map_eq_some_iff.mp h
  cases hq
  exact ⟨rfl, rfl⟩

lemma releaseAll_same {n : Nat} {q q' : Mq} (h : q.releaseAll n = some q') :
    q'.flag = q.flag ∧ q'.msgSize = q.msgSize := by
  induction n generalizing q with
  | zero => exact absurd h (by simp [Mq.releaseAll])
  | succ n ih =>
    rw [Mq.releaseAll] at h
    split at h
    · cases h
      exact ⟨rfl, rfl⟩
    rename_i msg q1 hu
    obtain ⟨hflag, hsize⟩ := unlinkFirst_same hu
    obtain ⟨hflag', hsize'⟩ := ih h
    exact ⟨hflag'.trans hflag, hsize'.trans hsize⟩

omit [DecidableEq I] in
lemma stays_control (h : rtMqControl s = some s') : Stays s s' caller := by
  obtain ⟨k, hk, h⟩ := bind_eq_some_iff.mp h
  obtain ⟨q, hq, rfl⟩ := map_eq_some_iff.mp h
  exact ⟨.reset () hk, (releaseAll_same hq).1⟩

lemma stays_work {f : Frame} (h : work s c f = some s') : Stays s s' c.getLeft? := by
  cases f with
  | send msg buffer =>
    cases h
    exact ⟨.quiet rfl, rfl⟩
  | fill msg urgent buffer done =>
    simp only [work] at h
    split at h
    · cases h
      exact ⟨.quiet rfl, rfl⟩
    cases h
    exact ⟨.resume () rfl, by cases urgent <;> rfl⟩
  | wait size timeout tickDelta =>
    cases c with
    | inr i => exact absurd h (by simp [work])
    | inl t =>
      simp only [work, recvBack] at h
      split at h
      · cases h
        exact ⟨.quiet rfl, rfl⟩
      exact stays_recvLoop h
  | drain msg size buffer =>
    simp only [work] at h
    split at h
    · cases h
      exact ⟨.quiet rfl, rfl⟩
    cases h
    exact ⟨.quiet rfl, rfl⟩

end

/-! ## Steps -/

inductive Action (T I : Type) where
  | send (c : T ⊕ I) (buffer : Msg)
  | urgent (c : T ⊕ I) (buffer : Msg)
  | recv (c : T ⊕ I) (size : Nat) (timeout : BitVec 32)
  | control (c : T ⊕ I)
  | work (c : T ⊕ I)
  | tick
  | timeout (t : T)

def State.Idle (s : State T I) (c : T ⊕ I) : Prop := s.Running c ∧ s.call c = none
  deriving Decidable

def step [DecidableEq T] [DecidableEq I] (s : State T I) : Action T I → Option (State T I)
  | .send c buffer => if s.Idle c then rtMqSend s c buffer else none
  | .urgent c buffer => if s.Idle c then rtMqUrgent s c buffer else none
  | .recv c size timeout => if s.Idle c then rtMqRecv s c size timeout else none
  | .control c => if s.Idle c then rtMqControl s else none
  | .work c =>
    match s.call c with
    | some f => if s.Running c then work s c f else none
    | none => none
  | .tick => some { s with tick := s.tick + 1 }
  | .timeout t =>
    if (s.kernel.tcb t).timer.linked then
      (s.kernel.rtThreadTimeout t).map fun k => { s with kernel := k }
    else none

/-- A queue that `rt_mq_init` or `rt_mq_create` has made; nobody waits or is inside a call, and no
thread timer runs. -/
structure Start (s : State T I) : Prop where
  mq : ∃ next data msgSize n flag,
    s.mq = rtMqInit next data msgSize n flag ∨ s.mq = rtMqCreate next data msgSize n flag
  wait : s.kernel.queue (.wait ()) = []
  timer : ∀ t, (s.kernel.tcb t).timer.linked = false
  call : ∀ c, s.call c = none
  log : s.log = []

/-! ## What it is for -/

/-- The messages in the queue, and those that receivers have been given, with the number of bytes
that are to be returned. -/
structure Spec (C : Type) where
  queue : List Msg
  taken : C → Option (Nat × Msg)

def Spec.empty {C : Type} : Spec C := ⟨[], fun _ => none⟩

/-- A send appends, an urgent send prepends, a receiver is given the first message, and it returns
as many bytes as it has asked for, or as the slots have; they are those of that message, up to the
length of the shorter one. -/
def Spec.step {C : Type} [DecidableEq C] (msgSize : Nat) (sp : Spec C) : Event C → Option (Spec C)
  | .sent _ msg => some { sp with queue := sp.queue ++ [msg] }
  | .urgent _ msg => some { sp with queue := msg :: sp.queue }
  | .taken c size =>
    match sp.queue with
    | [] => none
    | msg :: rest =>
      some { queue := rest, taken := update sp.taken c (some (min size msgSize, msg)) }
  | .received c buffer =>
    match sp.taken c with
    | none => none
    | some (n, msg) =>
      if buffer.length = n ∧ (buffer <+: msg ∨ msg <+: buffer) then
        some { sp with taken := update sp.taken c none }
      else none
  | .reset => some { sp with queue := [] }
  | .failed _ _ => some sp

def Frame.slot : Frame → Option Slot
  | .send msg _ => some msg
  | .fill msg _ _ _ => some msg
  | .wait _ _ _ => none
  | .drain msg _ _ => some msg

inductive Place (C : Type) where
  | free
  | queued
  | filling (c : C)
  | draining (c : C)

/-- Whether the slot `msg` is at a place, the two lists being `free` and `queued`. -/
def State.At (s : State T I) (free queued : List Slot) (msg : Slot) : Place (T ⊕ I) → Prop
  | .free => msg ∈ free
  | .queued => msg ∈ queued
  | .filling c => (∃ buffer, s.call c = some (.send msg buffer)) ∨
      ∃ urgent buffer done, s.call c = some (.fill msg urgent buffer done)
  | .draining c => ∃ size buffer, s.call c = some (.drain msg size buffer)

structure Links (q : Mq) (free queued : List Slot) : Prop where
  freeChain : Chain q.next q.free free
  queueChain : Chain q.next q.head queued
  tail : q.tail = queued.getLast?

structure Lists (q : Mq) (free queued : List Slot) : Prop extends Links q free queued where
  entry : q.entry = queued.length

end NbIot.MessageQueues
