import NbIot.Heap.Mem
import NbIot.Ipc.WaitQueue

/-! # Memory pools and the threads that wait for a block

`rt_mp_init`, `rt_mp_alloc`, `rt_mp_free` and `rt_mp_detach` of `mempool.c` on one pool, for any
number of threads. In front of each block is one word: in a free block it points to the next free
block, in an allocated one to the pool.

* Pointers are addresses, `0` being `RT_NULL`; their arithmetic wraps at `2 ^ 32`.
* `none` is a failed assertion or an access through something that is not a pointer to what the
  code takes it for.
* A step is one stay in the code with interrupts disabled. After `rt_schedule` has returned,
  `rt_mp_alloc` computes what is left of its time before it tests the counter again, and
  `rt_mp_detach` tests the list before it disables interrupts.
-/

namespace NbIot.Mempools

open Queues Kernel SmallMem Function Run

/-! ## Pools -/

variable {T : Type}

/-- `sizeof(rt_uint8_t *)`. -/
def ptrSize : Nat := 4

/-- `struct rt_mempool`; the list `suspend_thread` is one of the kernel's wait lists. -/
structure Pool where
  startAddress : Nat
  size : Nat
  blockSize : Nat
  blockList : Nat
  blockTotalCount : Nat
  blockFreeCount : Nat
  suspendThreadCount : Nat

/-- `block_ptr + i * (block_size + sizeof(rt_uint8_t *))`. -/
def blockAddr (start stride i : Nat) : Nat := (start + i * stride) % wordSize

/-- The first `n` turns of the loop that links the blocks. -/
def linkBlocks (m : Mem) (start stride : Nat) : Nat → Mem
  | 0 => m
  | n + 1 =>
    (linkBlocks m start stride n).store (blockAddr start stride n) ptrSize
      (blockAddr start stride (n + 1))

/-- The free list of a pool with `total` blocks; the last one ends it. -/
def formatBlocks (m : Mem) (start stride total : Nat) : Mem :=
  (linkBlocks m start stride total).store (blockAddr start stride (total - 1)) ptrSize 0

def newPool (start size blockSize total : Nat) : Pool where
  startAddress := start
  size := size
  blockSize := blockSize
  blockList := start
  blockTotalCount := total
  blockFreeCount := total
  suspendThreadCount := 0

/-- `rt_mp_init`. A block size that wraps to zero with its header is divided by, and without any
block the word in front of the pool is written to. -/
def rtMpInit (m : Mem) (start size blockSize : Nat) : Option (Pool × Mem) :=
  let size := rtAlignDown size alignSize
  let blockSize := rtAlign blockSize alignSize
  let stride := add32 blockSize ptrSize
  if stride = 0 ∨ size / stride = 0 then none
  else
    some (newPool start size blockSize (size / stride), formatBlocks m start stride (size / stride))

/-- Where a thread is inside a call: asleep in `rt_mp_alloc`, or about to test the counter again;
before the test or before the body of the loop of `rt_mp_detach`. -/
inductive Frame where
  | asleep (time beforeSleep : BitVec 32)
  | awake (time beforeSleep : BitVec 32)
  | testing
  | waking
  deriving DecidableEq

/-- The kernel, with the wait list of the pool as its only object; the pool and its address; the
memory, the tick counter, the calls that have not returned, and the blocks that the application
holds. -/
structure State (T : Type) where
  kernel : Kernel T Unit
  pool : Pool
  self : Nat
  mem : Mem
  tick : BitVec 32
  call : T → Option Frame
  live : List Nat

/-- `rt_mp_alloc` when a block is free. -/
def takeBlock (s : State T) : Option (State T) :=
  if s.pool.blockList = 0 then none
  else
    some { s with
      pool := { s.pool with
        blockFreeCount := s.pool.blockFreeCount - 1
        blockList := s.mem.load s.pool.blockList ptrSize }
      mem := s.mem.store s.pool.blockList ptrSize s.self
      live := add32 s.pool.blockList ptrSize :: s.live }

/-- The pool after the block at `blockPtr` has been linked in front of the free list. -/
def putBlock (s : State T) (blockPtr block : Nat) : State T :=
  { s with
    pool := { s.pool with
      blockFreeCount := add32 s.pool.blockFreeCount 1
      blockList := blockPtr }
    mem := s.mem.store blockPtr ptrSize s.pool.blockList
    live := s.live.erase block }

@[simp] lemma putBlock_kernel (s : State T) (blockPtr block : Nat) :
    (putBlock s blockPtr block).kernel = s.kernel := rfl

@[simp] lemma putBlock_call (s : State T) (blockPtr block : Nat) :
    (putBlock s blockPtr block).call = s.call := rfl

@[simp] lemma putBlock_pool (s : State T) (blockPtr block : Nat) :
    (putBlock s blockPtr block).pool = { s.pool with
      blockFreeCount := add32 s.pool.blockFreeCount 1
      blockList := blockPtr } := rfl

@[simp] lemma putBlock_self (s : State T) (blockPtr block : Nat) :
    (putBlock s blockPtr block).self = s.self := rfl

@[simp] lemma putBlock_mem (s : State T) (blockPtr block : Nat) :
    (putBlock s blockPtr block).mem = s.mem.store blockPtr ptrSize s.pool.blockList := rfl

@[simp] lemma putBlock_live (s : State T) (blockPtr block : Nat) :
    (putBlock s blockPtr block).live = s.live.erase block := rfl

lemma putBlock_suspendThreadCount (s : State T) (blockPtr block : Nat) :
    (putBlock s blockPtr block).pool.suspendThreadCount = s.pool.suspendThreadCount := rfl

/-! ## The functions of `mempool.c` -/

section

variable [DecidableEq T]

/-- The thread `t` is suspended and becomes the first of the wait list. -/
def rtMpWait (k : Kernel T Unit) (t : T) (time : Int) : Option (Kernel T Unit) :=
  if 0 < time then
    ((k.rtThreadSuspend t).1.rtListInsertAfter (.wait ()) t).rtTimerStart t time.toNat
  else some ((k.rtThreadSuspend t).1.rtListInsertAfter (.wait ()) t)

/-- `rt_mp_alloc` of the thread `t` from the test of the counter on, up to its return or to
`rt_schedule`. -/
def rtMpAlloc (s : State T) (t : T) (time beforeSleep : BitVec 32) : Option (State T) :=
  if s.pool.blockFreeCount = 0 then
    if time = 0 then
      some { s with
        kernel := s.kernel.setError t (-rtEtimeout)
        call := update s.call t none }
    else
      (rtMpWait (s.kernel.setError t rtEok) t time.toInt).map fun k =>
        { s with
          kernel := k
          pool := { s.pool with suspendThreadCount := add32 s.pool.suspendThreadCount 1 }
          call := update s.call t
            (some (.asleep time (if 0 < time.toInt then s.tick else beforeSleep))) }
  else (takeBlock s).map fun s' => { s' with call := update s.call t none }

/-- `rt_mp_alloc` from the return of `rt_schedule` to the end of the loop's body. -/
def rtMpAllocBack (s : State T) (t : T) (time beforeSleep : BitVec 32) : State T :=
  if (s.kernel.tcb t).error ≠ rtEok then { s with call := update s.call t none }
  else
    { s with
      call := update s.call t
        (some (.awake (remaining time beforeSleep s.tick) beforeSleep)) }

def rtMpFree (s : State T) (block : Nat) : Option (State T) :=
  if s.mem.load (sub32 block ptrSize) ptrSize ≠ s.self then none
  else if 0 < s.pool.suspendThreadCount then
    match s.kernel.queue (.wait ()) with
    | [] => none
    | t :: _ =>
      let s' := putBlock s (sub32 block ptrSize) block
      some { s' with
        kernel := (s.kernel.setError t rtEok).rtIpcListResume t
        pool := { s'.pool with suspendThreadCount := s.pool.suspendThreadCount - 1 } }
  else some (putBlock s (sub32 block ptrSize) block)

/-- The test of the loop of `rt_mp_detach`. -/
def rtMpDetachTest (s : State T) (t : T) : State T :=
  if s.kernel.queue (.wait ()) = [] then { s with call := update s.call t none }
  else { s with call := update s.call t (some .waking) }

/-- The body of the loop of `rt_mp_detach`. -/
def rtMpDetachBody (s : State T) (t : T) : Option (State T) :=
  match s.kernel.queue (.wait ()) with
  | [] => none
  | w :: _ =>
    some { s with
      kernel := s.kernel.rtIpcListAbort w
      pool := { s.pool with suspendThreadCount := sub32 s.pool.suspendThreadCount 1 }
      call := update s.call t (some .testing) }

/-- `poll` is a call of `rt_mp_alloc` without waiting time by an interrupt handler; `free` comes
from any thread or interrupt handler. `store` is a write of the application to one byte. -/
inductive Action (T : Type) where
  | alloc (t : T) (time : BitVec 32)
  | poll
  | back (t : T)
  | again (t : T)
  | free (block : Nat)
  | detach (t : T)
  | test (t : T)
  | body (t : T)
  | tick
  | timeout (t : T)
  | store (a v : Nat)

def Action.isTimeout : Action T → Bool
  | .timeout _ => true
  | _ => false

def step (s : State T) : Action T → Option (State T)
  | .alloc t time =>
    if (s.kernel.tcb t).stat = .ready ∧ s.call t = none then rtMpAlloc s t time 0 else none
  | .poll => if s.pool.blockFreeCount = 0 then some s else takeBlock s
  | .back t =>
    match s.call t with
    | some (.asleep time beforeSleep) =>
      if (s.kernel.tcb t).stat = .ready then some (rtMpAllocBack s t time beforeSleep) else none
    | _ => none
  | .again t =>
    match s.call t with
    | some (.awake time beforeSleep) =>
      if (s.kernel.tcb t).stat = .ready then rtMpAlloc s t time beforeSleep else none
    | _ => none
  | .free block => rtMpFree s block
  | .detach t =>
    if (s.kernel.tcb t).stat = .ready ∧ s.call t = none then
      some { s with call := update s.call t (some .testing) }
    else none
  | .test t =>
    match s.call t with
    | some .testing => some (rtMpDetachTest s t)
    | _ => none
  | .body t =>
    match s.call t with
    | some .waking => rtMpDetachBody s t
    | _ => none
  | .tick => some { s with tick := s.tick + 1 }
  | .timeout t =>
    if (s.kernel.tcb t).timer.linked then
      (s.kernel.rtThreadTimeout t).map fun k => { s with kernel := k }
    else none
  | .store a v => some { s with mem := s.mem.store a 1 v }

end

structure Start (s : State T) : Prop where
  count : s.pool.suspendThreadCount = 0
  wait : s.kernel.queue (.wait ()) = []
  timer : ∀ t, (s.kernel.tcb t).timer.linked = false
  call : ∀ t, s.call t = none
  live : s.live = []

/-! ## Waiting threads -/

def Frame.list : Option Frame → Option Unit
  | some (.asleep _ _) => some ()
  | _ => none

/-- The wait list of a thread; one that `rt_mp_detach` has resumed waits no more. -/
def State.pend (s : State T) (t : T) : Option Unit :=
  if (s.kernel.tcb t).error = -rtError then none else Frame.list (s.call t)

/-! ## What a step does -/

variable {s s' : State T} {a : Action T}

section

variable [DecidableEq T]

inductive Move (s : State T) (a : Action T) : State T → Prop where
  /-- Nothing but where some thread is in its call, or the tick. -/
  | code (call tick) (hc : ∀ u, Frame.list (call u) = Frame.list (s.call u)) :
      Move s a { s with call := call, tick := tick }
  | refuse {t : T} (hl : Frame.list (s.call t) = none) (hz : s.pool.blockFreeCount = 0) :
      Move s a { s with
        kernel := s.kernel.setError t (-rtEtimeout)
        call := update s.call t none }
  | wait {t : T} {time beforeSleep} {time' : Int} {k}
      (hs : (s.kernel.tcb t).stat = .ready) (hl : Frame.list (s.call t) = none)
      (hz : s.pool.blockFreeCount = 0)
      (hk : rtMpWait (s.kernel.setError t rtEok) t time' = some k) :
      Move s a { s with
        kernel := k
        pool := { s.pool with suspendThreadCount := add32 s.pool.suspendThreadCount 1 }
        call := update s.call t (some (.asleep time beforeSleep)) }
  | take {s₁ : State T} (call) (hn : s.pool.blockFreeCount ≠ 0) (ht : takeBlock s = some s₁)
      (hc : ∀ u, Frame.list (call u) = Frame.list (s.call u)) :
      Move s a { s₁ with call := call }
  | back {t : T} {f} (hs : (s.kernel.tcb t).stat = .ready) (hf : Frame.list f = none) :
      Move s a { s with call := update s.call t f }
  | put {block : Nat} (ha : a = .free block)
      (hb : s.mem.load (sub32 block ptrSize) ptrSize = s.self)
      (hz : s.pool.suspendThreadCount = 0) : Move s a (putBlock s (sub32 block ptrSize) block)
  | hand {block : Nat} {t : T} {l} (ha : a = .free block)
      (hb : s.mem.load (sub32 block ptrSize) ptrSize = s.self)
      (hz : 0 < s.pool.suspendThreadCount) (hq : s.kernel.queue (.wait ()) = t :: l) :
      Move s a { putBlock s (sub32 block ptrSize) block with
        kernel := (s.kernel.setError t rtEok).rtIpcListResume t
        pool := { (putBlock s (sub32 block ptrSize) block).pool with
          suspendThreadCount := s.pool.suspendThreadCount - 1 } }
  | abort {t w : T} {l} (hl : s.call t = some .waking) (hq : s.kernel.queue (.wait ()) = w :: l) :
      Move s a { s with
        kernel := s.kernel.rtIpcListAbort w
        pool := { s.pool with suspendThreadCount := sub32 s.pool.suspendThreadCount 1 }
        call := update s.call t (some .testing) }
  | store {x v : Nat} (ha : a = .store x v) : Move s a { s with mem := s.mem.store x 1 v }

/-- The expiry of the timer of `t`. -/
def Expiry (s s' : State T) (t : T) : Prop :=
  (s.kernel.tcb t).timer.linked = true ∧
    ∃ k, s.kernel.rtThreadTimeout t = some k ∧ s' = { s with kernel := k }

lemma list_update {t : T} {f : Option Frame} (hf : Frame.list f = Frame.list (s.call t)) (u : T) :
    Frame.list (update s.call t f u) = Frame.list (s.call u) := by
  by_cases hu : u = t
  · simp [hu, hf]
  simp [hu]

lemma move_alloc {t : T} {time beforeSleep : BitVec 32} (hs : (s.kernel.tcb t).stat = .ready)
    (hl : Frame.list (s.call t) = none) (h : rtMpAlloc s t time beforeSleep = some s') :
    Move s a s' := by
  unfold rtMpAlloc at h
  split at h
  · rename_i hz
    split at h
    · cases h
      exact .refuse hl hz
    obtain ⟨k, hk, rfl⟩ := Option.map_eq_some_iff.mp h
    exact .wait hs hl hz hk
  rename_i hn
  obtain ⟨s1, ht, rfl⟩ := Option.map_eq_some_iff.mp h
  exact .take _ hn ht (list_update hl.symm)

lemma move_free {block : Nat} (h : rtMpFree s block = some s') : Move s (.free block) s' := by
  unfold rtMpFree at h
  split at h
  · simp at h
  rename_i hb
  split at h
  · rename_i hz
    split at h
    · simp at h
    rename_i t l hq
    cases h
    exact .hand rfl (not_not.mp hb) hz hq
  cases h
  exact .put rfl (not_not.mp hb) (by omega)

lemma move_of_step (h : step s a = some s') :
    (Move s a s' ∧ a.isTimeout = false) ∨ ∃ t, a = .timeout t ∧ Expiry s s' t := by
  cases a with
  | timeout t =>
    right
    simp only [step] at h
    split at h
    · rename_i hl
      obtain ⟨k, hk, rfl⟩ := Option.map_eq_some_iff.mp h
      exact ⟨t, rfl, hl, k, hk, rfl⟩
    simp at h
  | alloc t time =>
    refine .inl ⟨?_, rfl⟩
    simp only [step] at h
    split at h
    · rename_i hidle
      exact move_alloc hidle.1 (by rw [hidle.2]; rfl) h
    simp at h
  | poll =>
    refine .inl ⟨?_, rfl⟩
    simp only [step] at h
    split at h
    · cases h
      exact .code s.call s.tick fun _ => rfl
    rename_i hn
    have hc : s'.call = s.call := by
      unfold takeBlock at h
      split at h
      · simp at h
      rw [← Option.some.inj h]
    have hm := Move.take (a := .poll) s.call hn h fun _ => rfl
    rwa [← hc] at hm
  | back t =>
    refine .inl ⟨?_, rfl⟩
    simp only [step] at h
    split at h
    · split at h
      · rename_i hs
        cases h
        unfold rtMpAllocBack
        split
        · exact .back hs rfl
        exact .back hs rfl
      simp at h
    simp at h
  | again t =>
    refine .inl ⟨?_, rfl⟩
    simp only [step] at h
    split at h
    · rename_i hf
      split at h
      · rename_i hs
        exact move_alloc hs (by rw [hf]; rfl) h
      simp at h
    simp at h
  | free block => exact .inl ⟨move_free h, rfl⟩
  | detach t =>
    refine .inl ⟨?_, rfl⟩
    simp only [step] at h
    split at h
    · rename_i hidle
      cases h
      exact .code _ s.tick (list_update (by rw [hidle.2]; rfl))
    simp at h
  | test t =>
    refine .inl ⟨?_, rfl⟩
    simp only [step] at h
    split at h
    · rename_i hf
      cases h
      unfold rtMpDetachTest
      split
      · exact .code _ s.tick (list_update (by rw [hf]; rfl))
      exact .code _ s.tick (list_update (by rw [hf]; rfl))
    simp at h
  | body t =>
    refine .inl ⟨?_, rfl⟩
    simp only [step] at h
    split at h
    · rename_i hf
      unfold rtMpDetachBody at h
      split at h
      · simp at h
      rename_i w l hq
      cases h
      exact .abort hf hq
    simp at h
  | tick =>
    cases h
    exact .inl ⟨.code s.call _ fun _ => rfl, rfl⟩
  | store a v =>
    cases h
    exact .inl ⟨.store rfl, rfl⟩

end

/-! ## The invariant -/

def Inv (s : State T) : Prop := Blocked s.kernel s.pend

/-- No timer expires. A timer that runs is that of a thread that waits for the pool. -/
def NoExpiry (_ : State T) (a : Action T) : Prop := a.isTimeout = false
  deriving Decidable

def WaitersCounted (s : State T) : Prop :=
  s.pool.suspendThreadCount = (s.kernel.queue (.wait ())).length

lemma inv_start {s : State T} (h : Start s) : Inv s :=
  .of_empty (fun _ => h.wait) h.timer fun t => by simp [State.pend, h.call, Frame.list]

section

variable {t : T}

lemma pend_eq_none (hl : Frame.list (s.call t) = none) : s.pend t = none := by
  simp [State.pend, hl]

lemma pend_congr (herr : ∀ u, (s'.kernel.tcb u).error = (s.kernel.tcb u).error)
    (hl : ∀ u, Frame.list (s'.call u) = Frame.list (s.call u)) : s'.pend = s.pend := by
  funext u
  rw [State.pend, State.pend, herr, hl]

lemma Inv.of_pend {p : T → Option Unit} (hp : s'.pend = p) (hb : Blocked s'.kernel p) : Inv s' := by
  rw [Inv, hp]
  exact hb

lemma Inv.of_kernel (h : Inv s) (hk : s'.kernel = s.kernel)
    (hl : ∀ u, Frame.list (s'.call u) = Frame.list (s.call u)) : Inv s' := by
  refine Inv.of_pend (pend_congr (fun u => by rw [hk]) hl) ?_
  rw [hk]
  exact h

variable [DecidableEq T]

lemma Inv.parked (h : Inv s) {time : Int} {k : Kernel T Unit}
    (hs : (s.kernel.tcb t).stat = .ready) (hl : Frame.list (s.call t) = none)
    (hk : rtMpWait (s.kernel.setError t rtEok) t time = some k) :
    Blocked.Parked (s.kernel.setError t rtEok) k s.pend () t ∧
      k.queue (.wait ()) = t :: s.kernel.queue (.wait ()) := by
  have hp := pend_eq_none hl
  have hb := Blocked.setError h hp rtEok
  have hs' : ((s.kernel.setError t rtEok).tcb t).stat = .ready := by simpa using hs
  have hq : ((s.kernel.setError t rtEok).rtThreadSuspend t).1.queue (.wait ()) =
      s.kernel.queue (.wait ()) := by
    rw [rtThreadSuspend_queue hs']
    exact unlink_apply_of_notMem (hb.notMem_of_ready hs' ())
  obtain ⟨hpark, hwait⟩ := hb.park_spec
    hs' hp (by simp) (by rw [hq]; exact List.Perm.refl _) hk
  refine ⟨hpark, ?_⟩
  rw [hwait, if_pos rfl, hq]

lemma Inv.setError_eq (h : Inv s) (hm : t ∈ s.kernel.queue (.wait ())) :
    s.kernel.setError t rtEok = s.kernel := by
  have he : (s.kernel.tcb t).error = rtEok := (Blocked.queued h hm).2.2
  have htcb : update s.kernel.tcb t { s.kernel.tcb t with error := rtEok } = s.kernel.tcb := by
    rw [← he]
    exact update_eq_self t s.kernel.tcb
  rw [Kernel.setError, Kernel.setTcb, htcb]

lemma inv_move (h : Inv s) (hm : Move s a s') : Inv s' := by
  cases hm with
  | code call tick hc => exact h.of_kernel rfl hc
  | @refuse t hl hz =>
    have hp := pend_eq_none hl
    refine Inv.of_pend (funext fun u => ?_) (Blocked.setError h hp _)
    by_cases hu : u = t
    · subst hu
      rw [hp]
      simp [State.pend, Frame.list]
    simp [State.pend, hu]
  | @wait t time beforeSleep time' k hs hl hz hk =>
    obtain ⟨hpark, hq⟩ := h.parked hs hl hk
    have herr := (hpark.blocked.queued (o := ()) (t := t) (by simp [hq])).2.2
    refine Inv.of_pend (funext fun u => ?_) hpark.blocked
    by_cases hu : u = t
    · simp [State.pend, hu, herr, Frame.list, rtEok, rtError]
    simp [State.pend, hu, hpark.other u hu]
  | take call hn ht hc =>
    unfold takeBlock at ht
    split at ht
    · simp at ht
    cases ht
    exact h.of_kernel rfl hc
  | @back t f hs hf =>
    refine Inv.of_pend (funext fun u => ?_) (Blocked.finish h hs)
    by_cases hu : u = t
    · simp [State.pend, hu, hf]
    simp [State.pend, hu]
  | put ha hb hz => exact h.of_kernel (putBlock_kernel s _ _) fun u => by rw [putBlock_call]
  | @hand block t l ha hb hz hq =>
    rw [h.setError_eq (by simp [hq])]
    have htcb := Blocked.resume_tcb h hq
    refine Inv.of_pend (pend_congr (s := s) (fun u => ?_) fun _ => rfl) (Blocked.resume h hq)
    rw [htcb]
    by_cases hu : u = t
    · rw [hu, update_self]
    rw [update_of_ne hu]
  | @abort t w l hl hq =>
    obtain ⟨hb, -, -, htcb⟩ := Blocked.abort h hq
    refine Inv.of_pend (funext fun u => ?_) hb
    have hlist : Frame.list (update s.call t (some .testing) u) =
        Frame.list (s.call u) := list_update (by rw [hl]; rfl) u
    by_cases hu : u = w
    · simp [State.pend, hu, htcb]
    simp [State.pend, hlist, hu, htcb]
  | store ha => exact h

lemma inv_expiry (h : Inv s) (hx : Expiry s s' t) : Inv s' ∧ t ∈ s.kernel.queue (.wait ()) ∧
      s'.kernel.queue (.wait ()) = unlink s.kernel.queue t (.wait ()) := by
  obtain ⟨hl, k, hk, rfl⟩ := hx
  obtain ⟨-, o, hm⟩ := Blocked.timed h hl
  obtain ⟨-, htcb⟩ := Blocked.timeout_tcb hk
  have herr := (Blocked.queued h hm).2.2
  refine ⟨Inv.of_pend (funext fun u => ?_) (Blocked.timeout h hk), hm, Blocked.timeout_wait hk ()⟩
  by_cases hu : u = t
  · simp [State.pend, hu, htcb, herr, Tcb.expired, rtEok, rtError, rtEtimeout]
  simp [State.pend, hu, htcb]

lemma inv_step (h : Inv s) (hstep : step s a = some s') : Inv s' := by
  rcases move_of_step hstep with ⟨hm, -⟩ | ⟨t, -, hx⟩
  · exact inv_move h hm
  exact (inv_expiry h hx).1

end

/-! ## The count -/

section

lemma Inv.length_lt [Fintype T] (h : Inv s) {t : T} (ht : t ∉ s.kernel.queue (.wait ())) :
    (s.kernel.queue (.wait ())).length < Fintype.card T := by
  have hnd : (t :: s.kernel.queue (.wait ())).Nodup := List.nodup_cons.mpr ⟨ht, Blocked.nodup h ()⟩
  have := hnd.length_le_card
  exact this

variable [DecidableEq T]

lemma not_counted_expiry (h : Inv s) (hc : WaitersCounted s) {t : T} (hx : Expiry s s' t) :
    ¬ WaitersCounted s' := by
  obtain ⟨-, hm, hq⟩ := inv_expiry h hx
  obtain ⟨-, k, -, rfl⟩ := hx
  unfold WaitersCounted at *
  rw [hq, hc]
  have hlt : (unlink s.kernel.queue t (.wait ())).length < (s.kernel.queue (.wait ())).length :=
    List.length_filter_lt_length_iff_exists.mpr ⟨t, hm, by simp⟩
  omega

lemma WaitersCounted.rtMpFree_isSome {s : State T} (h : WaitersCounted s) {block : Nat}
    (hb : s.mem.load (sub32 block ptrSize) ptrSize = s.self) : (rtMpFree s block).isSome := by
  unfold rtMpFree
  rw [if_neg (not_not.mpr hb)]
  split
  · rename_i hpos
    cases hq : s.kernel.queue (.wait ()) with
    | nil =>
      rw [h, hq] at hpos
      simp at hpos
    | cons t l => rfl
  rfl

variable [Fintype T]

lemma counted_move {a : Action T} (hcard : Fintype.card T < wordSize) (h : Inv s)
    (hc : WaitersCounted s) (hm : Move s a s') : WaitersCounted s' := by
  unfold WaitersCounted at *
  cases hm with
  | code _ _ _ => exact hc
  | refuse _ _ => exact hc
  | @wait t time beforeSleep time' k hs hl hz hk =>
    have hlt := h.length_lt (Blocked.notMem_of_ready h hs ())
    rw [(h.parked hs hl hk).2, hc, add32_of_lt (by omega), List.length_cons]
  | take _ hn ht _ =>
    unfold takeBlock at ht
    split at ht
    · simp at ht
    cases ht
    exact hc
  | back _ _ => exact hc
  | put _ _ _ => rwa [putBlock_suspendThreadCount]
  | @hand block t l ha hb hz hq =>
    rw [h.setError_eq (by simp [hq])]
    rw [Blocked.resume_wait_self h hq, hc, hq, List.length_cons, Nat.add_sub_cancel]
  | @abort t w l hl hq =>
    have hlt := (Blocked.nodup h ()).length_le_card
    rw [(Blocked.abort h hq).2.1, hc, sub32_of_le (by simp [hq]) (by omega), hq]
    simp
  | store _ => exact hc

/-- **The waiter count.** In a run on a pool for which nobody waits at the start, the counter is
the length of the wait list in every state, and every free of a block of the pool finds a thread
when it looks for one, if and only if no timer of a waiting thread expires. -/
theorem waitersCounted_iff (hcard : Fintype.card T < wordSize) {s₀ s : State T}
    {as : List (Action T)} (hs : Start s₀) (h : exec step s₀ as = some s) :
    (∀ t, Reached step s₀ as t → WaitersCounted t ∧
        ∀ block, t.mem.load (sub32 block ptrSize) ptrSize = t.self → (rtMpFree t block).isSome) ↔
      Meets step NoExpiry s₀ as := by
  have hstart : WaitersCounted s₀ := by rw [WaitersCounted, hs.count, hs.wait, List.length_nil]
  have hiff : (∀ t, Reached step s₀ as t → WaitersCounted t) ↔ Meets step NoExpiry s₀ as := by
    refine always_iff_meets
      (fun u a u' hi _ hstep => inv_step hi hstep) (fun u a u' hi _ hc hstep => ?_)
      (inv_start hs) hstart (meets_of_forall (fun _ _ => trivial) s₀ as) h
    rcases move_of_step hstep with ⟨hm, ha⟩ | ⟨t, rfl, hx⟩
    · exact ⟨fun _ => ha, fun _ => counted_move hcard hi hc hm⟩
    exact ⟨fun hc' => absurd hc' (not_counted_expiry hi hc hx),
      fun hno => absurd hno (by simp [NoExpiry, Action.isTimeout])⟩
  rw [← hiff]
  exact ⟨fun hall t ht => (hall t ht).1,
    fun hall t ht => ⟨hall t ht, fun _ hb => (hall t ht).rtMpFree_isSome hb⟩⟩

end

/-- Two ready threads and a pool of one block of four bytes, as `rt_mp_init` makes it. -/
def oneBlock : State (Fin 2) where
  kernel := Kernel.ready ![20, 10]
  pool := newPool 8192 8 4 1
  self := 4096
  mem := formatBlocks (fun _ => 0xff) 8192 8 1
  tick := 0
  call := fun _ => none
  live := []

lemma start_oneBlock : Start oneBlock := ⟨rfl, rfl, fun _ => rfl, fun _ => rfl, rfl⟩

lemma rtMpInit_oneBlock :
    rtMpInit (fun _ => 0xff) 8192 8 4 = some (oneBlock.pool, oneBlock.mem) := by
  have hsize : rtAlignDown 8 alignSize = 8 := by decide
  have hblock : rtAlign 4 alignSize = 4 := by decide +kernel
  have hstride : add32 4 ptrSize = 8 := by decide +kernel
  simp [rtMpInit, hsize, hblock, hstride, oneBlock]

/-- The first thread has the block when the second one wants it; it is resumed by the free and
takes the block. -/
def handOver : List (Action (Fin 2)) := [.alloc 0 0, .alloc 1 5, .free 8196, .back 1, .again 1]

theorem waitersCounted_iff_handOver : ∃ s, exec step oneBlock handOver = some s ∧ s.live = [8196] ∧
      ∀ t, Reached step oneBlock handOver t → WaitersCounted t ∧
        ∀ block, t.mem.load (sub32 block ptrSize) ptrSize = t.self → (rtMpFree t block).isSome := by
  obtain ⟨s, hs, hlive⟩ : ∃ s, exec step oneBlock handOver = some s ∧ s.live = [8196] := by
    decide +kernel
  have hno : Meets step NoExpiry oneBlock handOver := by decide +kernel
  exact ⟨s, hs, hlive, (waitersCounted_iff (by decide) start_oneBlock hs).mpr hno⟩

/-- The time of the second thread is up: the counter says that one thread waits, but the list is
empty, and the free of the block takes the head of the list for a thread. -/
theorem expiry_leaves_count :
    rtMpInit (fun _ => 0xff) 8192 8 4 = some (oneBlock.pool, oneBlock.mem) ∧ Start oneBlock ∧
      ∃ s, exec step oneBlock [.alloc 0 0, .alloc 1 5, .timeout 1] = some s ∧
        ¬ WaitersCounted s ∧ s.pool.suspendThreadCount = 1 ∧ s.kernel.queue (.wait ()) = [] ∧
        s.live = [8196] ∧ step s (.free 8196) = none := by
  obtain ⟨s, hs, hcount, hq, hlive, hfree⟩ : ∃ s,
      exec step oneBlock [.alloc 0 0, .alloc 1 5, .timeout 1] = some s ∧
        s.pool.suspendThreadCount = 1 ∧ s.kernel.queue (.wait ()) = [] ∧ s.live = [8196] ∧
        (step s (.free 8196)).isNone := by decide +kernel
  refine ⟨rtMpInit_oneBlock, start_oneBlock, s, hs, ?_, hcount, hq, hlive,
    Option.isNone_iff_eq_none.mp hfree⟩
  rw [WaitersCounted, hcount, hq]
  simp

end NbIot.Mempools
