import NbIot.Driver.PutForce
import NbIot.Ipc.WaitQueue

/-! # Pipes

`rt_pipe_read` and `rt_pipe_write` of `pipe.c` on one pipe, for any number of threads. A blocking
read takes what is there, up to its size, and resumes the first suspended writer; it waits only on
an empty pipe. A blocking write is the same with free space in the place of data.

A step is one stay in the code with interrupts disabled: from the call, or from the return of
`rt_schedule` in the loop, to the next `rt_schedule` in the loop or to the end of the call.
-/

namespace NbIot.Pipes

open Queues Kernel Ringbuffers Function Option Run

/-! ## The functions of `pipe.c` -/

variable {T : Type}

/-- `suspended_read_list` and `suspended_write_list`. -/
inductive Side where
  | readers
  | writers
  deriving DecidableEq

def Side.other : Side → Side
  | .readers => .writers
  | .writers => .readers

/-- `struct rt_pipe_device`, with the bits of its flag. -/
structure Pipe where
  ringbuffer : Ringbuffer
  blockRd : Bool
  blockWr : Bool
  forceWr : Bool

/-- `rt_pipe_init`; what registers the device is left out. -/
def rtPipeInit (blockRd blockWr forceWr : Bool) (buf : Nat → UInt8) (size : Nat) : Option Pipe :=
  (rtRingbufferInit buf size).map fun rb => ⟨rb, blockRd, blockWr, forceWr⟩

/-- The pipe after its ring buffer has become `rb`. -/
def Pipe.withRing (p : Pipe) (rb : Ringbuffer) : Pipe := { p with ringbuffer := rb }

def Pipe.blocks (p : Pipe) : Side → Bool
  | .readers => p.blockRd
  | .writers => p.blockWr

/-- How a stay in the code ends: the function returns the number of bytes, and a read has written
them to its buffer; or it waits. -/
inductive Outcome where
  | returned (nbytes : Nat) (bytes : List UInt8)
  | waiting
  deriving DecidableEq

section

variable [DecidableEq T]

/-- `_rt_pipe_resume_writer` and `_rt_pipe_resume_reader`, up to `rt_schedule`: the first thread of
the list is resumed, if there is one. -/
def resumeSide (k : Kernel T Side) (p : Pipe) (o : Side) : Option (Kernel T Side) :=
  match k.queue (.wait o) with
  | [] => some k
  | t :: _ => if p.blocks o then some (k.rtThreadResume t).1 else none

def suspendOn (k : Kernel T Side) (o : Side) (t : T) : Kernel T Side :=
  (k.rtThreadSuspend t).1.rtListInsertBefore (.wait o) t

/-- The turn of the two loops in which `nbytes` bytes have been transferred. -/
def turn (k : Kernel T Side) (p : Pipe) (o : Side) (t : T) (nbytes : Nat) (bytes : List UInt8) :
    Option (Kernel T Side × Pipe × Outcome) :=
  if nbytes = 0 then some (suspendOn k o t, p, .waiting)
  else (resumeSide k p o.other).map fun k' => (k', p, .returned nbytes bytes)

/-- `rt_pipe_read` of the thread `t`, or its loop from the return of `rt_schedule`. The length that
`rt_ringbuffer_get` takes is an `rt_uint16_t`. -/
def rtPipeRead (k : Kernel T Side) (p : Pipe) (t : T) (size : Nat) :
    Option (Kernel T Side × Pipe × Outcome) :=
  let got := rtRingbufferGet p.ringbuffer (size % 2 ^ 16)
  let p' := p.withRing got.1
  if p.blockRd then turn k p' .readers t got.2.2 got.2.1
  else if got.2.2 = 0 then some (k, p', .returned 0 [])
  else (resumeSide k p' .writers).map fun k' => (k', p', .returned got.2.2 got.2.1)

/-- `rt_pipe_write` of the thread `t`, or its loop from the return of `rt_schedule`. -/
def rtPipeWrite (k : Kernel T Side) (p : Pipe) (t : T) (buffer : Nat → UInt8) (size : Nat) :
    Option (Kernel T Side × Pipe × Outcome) :=
  if p.forceWr then
    let forced := rtRingbufferPutForce p.ringbuffer buffer (size % 2 ^ 16)
    let p' := p.withRing forced.rb
    (resumeSide k p' .readers).map fun k' => (k', p', .returned forced.ret [])
  else
    let put := rtRingbufferPut p.ringbuffer buffer (size % 2 ^ 16)
    let p' := p.withRing put.1
    if p.blockWr then turn k p' .writers t put.2 []
    else (resumeSide k p' .readers).map fun k' => (k', p', .returned put.2 [])

end

/-! ## Runs -/

inductive Op where
  | read (size : Nat)
  | write (buffer : Nat → UInt8) (size : Nat)

def Op.size : Op → Nat
  | .read size => size
  | .write _ size => size

def Op.side : Op → Side
  | .read _ => .readers
  | .write _ _ => .writers

/-- The transfer sizes that an `rt_uint16_t` holds, zero excepted. -/
def Op.Sized (op : Op) : Prop := 1 ≤ op.size ∧ op.size ≤ 65535
  deriving Decidable

structure State (T : Type) where
  kernel : Kernel T Side
  pipe : Pipe
  call : T → Option Op

/-- A thread calls one of the two functions, or goes on after it has been resumed. -/
inductive Action (T : Type) where
  | call (t : T) (op : Op)
  | back (t : T)

def Action.thread : Action T → T
  | .call t _ => t
  | .back t => t

def Action.Sized : Action T → Prop
  | .call _ op => op.Sized
  | .back _ => True

instance : (a : Action T) → Decidable a.Sized
  | .call _ op => inferInstanceAs (Decidable op.Sized)
  | .back _ => isTrue trivial

section

variable [DecidableEq T]

def Op.run (op : Op) (k : Kernel T Side) (p : Pipe) (t : T) :
    Option (Kernel T Side × Pipe × Outcome) :=
  match op with
  | .read size => rtPipeRead k p t size
  | .write buffer size => rtPipeWrite k p t buffer size

/-- The state after a stay of `t` in the code of its call `op`. -/
def State.after (s : State T) (t : T) (op : Op) : Kernel T Side × Pipe × Outcome → State T
  | (k, p, .returned _ _) => ⟨k, p, update s.call t none⟩
  | (k, p, .waiting) => ⟨k, p, update s.call t (some op)⟩

/-- The call with which `a` goes on: that of a thread that runs and is not inside a call, or one
whose thread has been resumed. -/
def State.goesOn (s : State T) : Action T → Option Op
  | .call t op => if (s.kernel.tcb t).stat = .ready ∧ s.call t = none then some op else none
  | .back t => if (s.kernel.tcb t).stat = .ready then s.call t else none

def step (s : State T) (a : Action T) : Option (State T) :=
  (s.goesOn a).bind fun op => (op.run s.kernel s.pipe a.thread).map (s.after a.thread op)

end

/-- A blocking pipe that `rt_pipe_init` has made; nobody is inside a call. -/
structure Start (size : Nat) (s : State T) : Prop where
  pipe : ∃ buf, rtPipeInit true true false buf size = some s.pipe
  wait : ∀ o, s.kernel.queue (.wait o) = []
  call : ∀ t, s.call t = none

/-! ## The law -/

def Side.available (rb : Ringbuffer) : Side → Nat
  | .readers => dataLen rb
  | .writers => spaceLen rb

def State.Resumed (s : State T) (t : T) : Prop :=
  (s.call t).isSome ∧ (s.kernel.tcb t).stat = .ready
  deriving Decidable

/-- No lost wake-up: where a side has what it waits for and threads of it are suspended, some
thread has been resumed and has not run yet. -/
def Attended (s : State T) : Prop :=
  ∀ o : Side, 0 < o.available s.pipe.ringbuffer → s.kernel.queue (.wait o) ≠ [] → ∃ t, s.Resumed t

/-- The transfer of the step leaves something behind for its own side, of which threads are
suspended, and finds nobody of the other side to resume: then another thread has been resumed. -/
def Handed (s : State T) (a : Action T) : Prop :=
  ∀ op ∈ s.goesOn a, op.size < op.side.available s.pipe.ringbuffer →
    s.kernel.queue (.wait op.side) ≠ [] → s.kernel.queue (.wait op.side.other) = [] →
      ∃ u, u ≠ a.thread ∧ s.Resumed u

instance [Fintype T] [DecidableEq T] (s : State T) (a : Action T) : Decidable (Handed s a) :=
  inferInstanceAs (Decidable (∀ op ∈ s.goesOn a, _ → _ → _ → _))

/-! ## What a turn does -/

/-- The transfer of `op`: its side has `op.size` bytes less to wait for, or none. -/
structure Moved (rb rb' : Ringbuffer) (op : Op) : Prop where
  holds : ∃ k, Holds rb' k
  own : op.side.available rb' = op.side.available rb - op.size
  other : 0 < op.side.other.available rb'

variable {size : Nat} {s : State T} {t : T} {op : Op} {a : Action T}

section

variable {rb : Ringbuffer} {k : Nat}

lemma get_of_empty (h : dataLen rb = 0) (len : Nat) : rtRingbufferGet rb len = (rb, [], 0) := by
  simp [rtRingbufferGet, h]

lemma put_of_full (h : spaceLen rb = 0) (ptr : Nat → UInt8) (len : Nat) :
    rtRingbufferPut rb ptr len = (rb, 0) := by
  simp [rtRingbufferPut, h]

lemma get_moved (h : Holds rb k) (hsize : (Op.read size).Sized) (hdata : 0 < dataLen rb) :
    (rtRingbufferGet rb (size % 2 ^ 16)).2.2 ≠ 0 ∧
      Moved rb (rtRingbufferGet rb (size % 2 ^ 16)).1 (.read size) := by
  have hle := h.le_size
  have hsize1 : 1 ≤ size := hsize.1
  have hsize2 : size ≤ 65535 := hsize.2
  rw [Nat.mod_eq_of_lt (by omega)]
  obtain ⟨hafter, hgot⟩ := get_spec h size
  have hlen : ((contents rb).drop size).length = k - size := by
    rw [List.length_drop, h.length_contents]
  have hdata' := hafter.holds.dataLen_eq
  have hspace' := hafter.holds.spaceLen_eq
  rw [h.dataLen_eq] at hdata
  rw [hlen] at hdata' hspace'
  refine ⟨?_, ⟨_, hafter.holds⟩, ?_, ?_⟩
  · rw [hgot, List.length_take, h.length_contents]
    omega
  · show dataLen _ = dataLen rb - size
    rw [hdata', h.dataLen_eq]
  show 0 < spaceLen _
  rw [hspace', hafter.size]
  omega

lemma put_moved (h : Holds rb k) {buffer : Nat → UInt8}
    (hsize : (Op.write buffer size).Sized) (hspace : 0 < spaceLen rb) :
    (rtRingbufferPut rb buffer (size % 2 ^ 16)).2 ≠ 0 ∧
      Moved rb (rtRingbufferPut rb buffer (size % 2 ^ 16)).1 (.write buffer size) := by
  have hsize1 : 1 ≤ size := hsize.1
  have hsize2 : size ≤ 65535 := hsize.2
  rw [Nat.mod_eq_of_lt (by omega)]
  obtain ⟨hafter, hput⟩ := put_spec h buffer size
  have hlen : (contents rb ++ block buffer (min size (rb.bufferSize - k))).length =
      k + min size (rb.bufferSize - k) := by
    rw [List.length_append, h.length_contents, length_block]
  have hdata' := hafter.holds.dataLen_eq
  have hspace' := hafter.holds.spaceLen_eq
  rw [h.spaceLen_eq] at hspace
  refine ⟨?_, ⟨_, hafter.holds⟩, ?_, ?_⟩
  · omega
  · show spaceLen _ = spaceLen rb - size
    rw [hspace', h.spaceLen_eq, hafter.size]
    omega
  show 0 < dataLen _
  omega

end

structure Blocking (p : Pipe) : Prop where
  read : p.blockRd = true
  write : p.blockWr = true
  force : p.forceWr = false

section

variable [DecidableEq T] {p : Pipe} {r : Kernel T Side × Pipe × Outcome}

lemma resumeSide_of_blocking (hp : Blocking p) (k : Kernel T Side) (o : Side) :
    resumeSide k p o = some (k.resumeFirst o) := by
  have hb : p.blocks o = true := by
    cases o with
    | readers => exact hp.read
    | writers => exact hp.write
  unfold resumeSide resumeFirst
  split
  · rename_i hq
    rw [hq]
  rename_i u l hq
  rw [hq, if_pos hb]
  rfl

/-- The two ways through one stay in the code of a blocking call: there is nothing for it and it
waits, or it makes its transfer. -/
inductive Turn (s : State T) (t : T) (op : Op) : State T → Prop where
  | wait (hnone : op.side.available s.pipe.ringbuffer = 0) :
      Turn s t op ⟨suspendOn s.kernel op.side t, s.pipe, update s.call t (some op)⟩
  | transfer (p : Pipe) (hsome : 0 < op.side.available s.pipe.ringbuffer) (hp : Blocking p)
      (hmoved : Moved s.pipe.ringbuffer p.ringbuffer op) :
      Turn s t op ⟨s.kernel.resumeFirst op.side.other, p, update s.call t none⟩

lemma after_of_none (hp : Blocking s.pipe) (hnone : op.side.available s.pipe.ringbuffer = 0)
    (hr : op.run s.kernel s.pipe t = some r) :
    s.after t op r = ⟨suspendOn s.kernel op.side t, s.pipe, update s.call t (some op)⟩ := by
  cases op with
  | read size =>
    have hz : dataLen s.pipe.ringbuffer = 0 := hnone
    rw [Op.run, rtPipeRead, if_pos hp.read, get_of_empty hz] at hr
    cases hr
    rfl
  | write buffer size =>
    have hz : spaceLen s.pipe.ringbuffer = 0 := hnone
    rw [Op.run, rtPipeWrite, hp.force, if_pos hp.write, put_of_full hz] at hr
    cases hr
    rfl

lemma turn_of_moved (hp : Blocking s.pipe) {rb : Ringbuffer}
    (hmoved : Moved s.pipe.ringbuffer rb op) (hsome : 0 < op.side.available s.pipe.ringbuffer)
    {nbytes : Nat} (hne : nbytes ≠ 0) {bytes : List UInt8}
    (hr : turn s.kernel (s.pipe.withRing rb) op.side t nbytes bytes = some r) :
    Turn s t op (s.after t op r) := by
  have hp' : Blocking (s.pipe.withRing rb) := ⟨hp.read, hp.write, hp.force⟩
  rw [turn, if_neg hne, resumeSide_of_blocking hp'] at hr
  cases hr
  exact .transfer _ hsome hp' hmoved

lemma turn_of_run (hp : Blocking s.pipe) {k : Nat} (h : Holds s.pipe.ringbuffer k)
    (hsize : op.Sized) (hr : op.run s.kernel s.pipe t = some r) : Turn s t op (s.after t op r) := by
  rcases Nat.eq_zero_or_pos (op.side.available s.pipe.ringbuffer) with hnone | hsome
  · rw [after_of_none hp hnone hr]
    exact .wait hnone
  cases op with
  | read size =>
    rw [Op.run, rtPipeRead, if_pos hp.read] at hr
    obtain ⟨hne, hmoved⟩ := get_moved h hsize hsome
    exact turn_of_moved hp hmoved hsome hne hr
  | write buffer size =>
    rw [Op.run, rtPipeWrite, hp.force, if_pos hp.write] at hr
    obtain ⟨hne, hmoved⟩ := put_moved h hsize hsome
    exact turn_of_moved hp hmoved hsome hne hr

end

/-! ## The invariant -/

def State.waits (s : State T) (t : T) : Option Side := (s.call t).map Op.side

/-- A thread of the side `o` has been resumed and has not run since. -/
def State.Coming (s : State T) (o : Side) : Prop :=
  ∃ t, s.waits t = some o ∧ (s.kernel.tcb t).stat = .ready

lemma State.Coming.resumed {s : State T} {o : Side} (h : s.Coming o) : ∃ t, s.Resumed t := by
  obtain ⟨t, hw, hs⟩ := h
  refine ⟨t, ?_, hs⟩
  cases hc : s.call t with
  | none => simp [State.waits, hc] at hw
  | some op => rfl

lemma Side.other_ne (o : Side) : o.other ≠ o := by cases o <;> simp [Side.other]

lemma Side.eq_or (o o' : Side) : o' = o ∨ o' = o.other := by
  cases o <;> cases o' <;> simp [Side.other]

/-- The suspended threads are those in the lists. While a side has nothing to wait for, because the
other one has left nothing, a thread of the other side is on its way if any is suspended. -/
structure Inv (s : State T) : Prop where
  ring : ∃ k, Holds s.pipe.ringbuffer k
  blocking : Blocking s.pipe
  sized : ∀ t, ∀ op ∈ s.call t, op.Sized
  nodup : ∀ o, (s.kernel.queue (.wait o)).Nodup
  queued : ∀ {o t}, t ∈ s.kernel.queue (.wait o) →
    s.waits t = some o ∧ (s.kernel.tcb t).stat = .suspend
  coming : ∀ o : Side, o.available s.pipe.ringbuffer = 0 → s.kernel.queue (.wait o.other) ≠ [] →
    s.Coming o.other

section

lemma Inv.notMem (h : Inv s) (hs : (s.kernel.tcb t).stat = .ready) (o : Side) :
    t ∉ s.kernel.queue (.wait o) := by
  intro hm
  have := (h.queued hm).2
  simp [hs] at this

variable [DecidableEq T]

lemma Inv.suspendOn_queue (h : Inv s) (hs : (s.kernel.tcb t).stat = .ready) (o o' : Side) :
    (suspendOn s.kernel o t).queue (.wait o') =
      if o' = o then s.kernel.queue (.wait o) ++ [t] else s.kernel.queue (.wait o') := by
  have hun : ∀ x, unlink s.kernel.queue t (.wait x) = s.kernel.queue (.wait x) :=
    fun x => unlink_apply_of_notMem (h.notMem hs x)
  unfold suspendOn
  rw [rtListInsertBefore, setQueue_queue, rtThreadSuspend_queue hs]
  by_cases e : o' = o
  · subst e
    rw [if_pos rfl, update_self, hun]
  rw [if_neg e, update_of_ne (by simpa using e), hun]

lemma Inv.mem_suspendOn (h : Inv s) (hs : (s.kernel.tcb t).stat = .ready) {o o' : Side} {u : T} :
    u ∈ (suspendOn s.kernel o t).queue (.wait o') ↔
      u ∈ s.kernel.queue (.wait o') ∨ o' = o ∧ u = t := by
  rw [h.suspendOn_queue hs]
  by_cases e : o' = o
  · simp [e]
  simp [e]

lemma suspendOn_stat (hs : (s.kernel.tcb t).stat = .ready) (o : Side) (u : T) :
    ((suspendOn s.kernel o t).tcb u).stat = if u = t then .suspend else (s.kernel.tcb u).stat := by
  show ((s.kernel.rtThreadSuspend t).1.tcb u).stat = _
  rw [rtThreadSuspend_tcb hs]
  by_cases e : u = t
  · simp [e]
  simp [e]

lemma Inv.resumeFirst_cons (h : Inv s) {o : Side} {l : List T}
    (hq : s.kernel.queue (.wait o) = t :: l) :
    (∀ o', (s.kernel.resumeFirst o).queue (.wait o') = unlink s.kernel.queue t (.wait o')) ∧
      ∀ u, ((s.kernel.resumeFirst o).tcb u).stat =
        if u = t then .ready else (s.kernel.tcb u).stat := by
  obtain ⟨-, hs⟩ := h.queued (o := o) (t := t) (by simp [hq])
  have hk : s.kernel.resumeFirst o = (s.kernel.rtThreadResume t).1 := by
    rw [resumeFirst, hq]
    rfl
  rw [hk]
  refine ⟨Blocked.resume_wait hs, fun u => ?_⟩
  rw [rtThreadResume_tcb hs]
  by_cases e : u = t
  · simp [e]
  simp [e]

lemma resumeFirst_nil {o : Side} (hq : s.kernel.queue (.wait o) = []) :
    s.kernel.resumeFirst o = s.kernel := by
  rw [resumeFirst, hq]

end

lemma available_other {rb : Ringbuffer} (h : ∃ k, Holds rb k) {o : Side}
    (hz : o.available rb = 0) : o.other.available rb ≠ 0 := by
  obtain ⟨k, hk⟩ := h
  have hr := hk.read_lt
  have hd := hk.dataLen_eq
  have hs := hk.spaceLen_eq
  cases o with
  | readers =>
    have hz' : dataLen rb = 0 := hz
    show spaceLen rb ≠ 0
    omega
  | writers =>
    have hz' : spaceLen rb = 0 := hz
    show dataLen rb ≠ 0
    omega

/-! ## What a step preserves -/

section

variable [DecidableEq T] {s s' : State T}

lemma waits_update (s : State T) (k : Kernel T Side) (p : Pipe) (t : T) (c : Option Op) (u : T) :
    State.waits ⟨k, p, update s.call t c⟩ u = if u = t then c.map Op.side else s.waits u := by
  by_cases e : u = t
  · subst e
    simp [State.waits]
  simp [State.waits, e]

lemma sized_update (h : Inv s) {c : Option Op} (hc : ∀ op ∈ c, op.Sized) (u : T) :
    ∀ op ∈ update s.call t c u, op.Sized := by
  by_cases e : u = t
  · subst e
    simpa using hc
  simpa [e] using h.sized u

lemma inv_wait (h : Inv s) (hs : (s.kernel.tcb t).stat = .ready)
    (hop : ∀ op' ∈ s.call t, op'.side = op.side) (hsize : op.Sized)
    (hnone : op.side.available s.pipe.ringbuffer = 0) :
    Inv ⟨suspendOn s.kernel op.side t, s.pipe, update s.call t (some op)⟩ := by
  have hq := h.suspendOn_queue hs op.side
  have hstat := suspendOn_stat hs op.side
  refine ⟨h.ring, h.blocking, sized_update h (by simpa using hsize), ?_, ?_, ?_⟩
  · intro o
    rw [hq]
    split
    · exact (h.nodup _).append (List.nodup_singleton t)
        (List.disjoint_singleton.mpr (h.notMem hs _))
    exact h.nodup o
  · intro o u hu
    rw [waits_update, hstat]
    rcases (h.mem_suspendOn hs).mp hu with hu | ⟨rfl, rfl⟩
    · have hut : u ≠ t := fun e => h.notMem hs o (e ▸ hu)
      rw [if_neg hut, if_neg hut]
      exact h.queued hu
    rw [if_pos rfl, if_pos rfl]
    exact ⟨rfl, rfl⟩
  intro o hz hne
  rcases op.side.eq_or o with rfl | rfl
  · -- the thread that is on its way is of the other side, so it is not this one
    have hne' : (suspendOn s.kernel op.side t).queue (.wait op.side.other) ≠ [] := hne
    rw [hq, if_neg op.side.other_ne] at hne'
    obtain ⟨u, hw, hr⟩ := h.coming _ hnone hne'
    have hut : u ≠ t := by
      rintro rfl
      obtain ⟨op', hop', hside⟩ := map_eq_some_iff.mp hw
      exact op.side.other_ne ((hop op' hop').symm.trans hside).symm
    refine ⟨u, ?_, ?_⟩
    · rw [waits_update, if_neg hut]
      exact hw
    rw [hstat, if_neg hut]
    exact hr
  exact absurd hz (available_other h.ring hnone)

lemma inv_transfer (h : Inv s) (hs : (s.kernel.tcb t).stat = .ready) {p : Pipe}
    (hp : Blocking p) (hmoved : Moved s.pipe.ringbuffer p.ringbuffer op) :
    Inv ⟨s.kernel.resumeFirst op.side.other, p, update s.call t none⟩ := by
  cases hq : s.kernel.queue (.wait op.side.other) with
  | nil =>
    rw [resumeFirst_nil hq]
    refine ⟨hmoved.holds, hp, sized_update h (by simp), h.nodup, ?_, ?_⟩
    · intro o u hu
      have hut : u ≠ t := fun e => h.notMem hs o (e ▸ hu)
      rw [waits_update, if_neg hut]
      exact h.queued hu
    intro o hz hne
    rcases op.side.eq_or o with rfl | rfl
    · exact absurd hq hne
    exact absurd hz (Nat.ne_of_gt hmoved.other)
  | cons w l =>
    obtain ⟨hqueue, hstat⟩ := h.resumeFirst_cons hq
    have hw := h.queued (o := op.side.other) (t := w) (by simp [hq])
    have hwt : w ≠ t := fun e => h.notMem hs op.side.other (by simp [hq, e])
    refine ⟨hmoved.holds, hp, sized_update h (by simp), ?_, ?_, ?_⟩
    · intro o
      rw [hqueue]
      exact (h.nodup o).filter _
    · intro o u hu
      have hmem : u ∈ (s.kernel.resumeFirst op.side.other).queue (.wait o) := hu
      rw [hqueue] at hmem
      obtain ⟨hu, huw⟩ := mem_unlink.mp hmem
      have hut : u ≠ t := fun e => h.notMem hs o (e ▸ hu)
      rw [waits_update, if_neg hut, hstat, if_neg huw]
      exact h.queued hu
    intro o hz _
    rcases op.side.eq_or o with rfl | rfl
    · -- the thread that has just been resumed is on its way
      refine ⟨w, ?_, ?_⟩
      · rw [waits_update, if_neg hwt]
        exact hw.1
      rw [hstat, if_pos rfl]
    exact absurd hz (Nat.ne_of_gt hmoved.other)

lemma resumed_update (k : Kernel T Side) (p : Pipe) (u : T) :
    State.Resumed ⟨k, p, update s.call t none⟩ u ↔
      u ≠ t ∧ (s.call u).isSome ∧ (k.tcb u).stat = .ready := by
  by_cases e : u = t
  · subst e
    simp [State.Resumed]
  simp [State.Resumed, e]

lemma attended_transfer (h : Inv s) (hs : (s.kernel.tcb t).stat = .ready) {p : Pipe}
    (hmoved : Moved s.pipe.ringbuffer p.ringbuffer op) :
    Attended ⟨s.kernel.resumeFirst op.side.other, p, update s.call t none⟩ ↔
      (op.size < op.side.available s.pipe.ringbuffer → s.kernel.queue (.wait op.side) ≠ [] →
        s.kernel.queue (.wait op.side.other) = [] → ∃ u, u ≠ t ∧ s.Resumed u) := by
  cases hq : s.kernel.queue (.wait op.side.other) with
  | nil =>
    rw [resumeFirst_nil hq]
    have hown := hmoved.own
    constructor
    · intro hatt hlt hne _
      obtain ⟨u, hu⟩ := hatt op.side (show 0 < op.side.available p.ringbuffer by omega) hne
      obtain ⟨hut, hcall, hstat⟩ := (resumed_update _ _ u).mp hu
      exact ⟨u, hut, hcall, hstat⟩
    intro hleft o hav hne
    rcases op.side.eq_or o with rfl | rfl
    · have hav' : 0 < op.side.available p.ringbuffer := hav
      obtain ⟨u, hut, hu⟩ := hleft (by omega) hne rfl
      exact ⟨u, (resumed_update _ _ u).mpr ⟨hut, hu⟩⟩
    exact absurd hq hne
  | cons w l =>
    obtain ⟨-, hstat⟩ := h.resumeFirst_cons hq
    have hw := h.queued (o := op.side.other) (t := w) (by simp [hq])
    have hwt : w ≠ t := fun e => h.notMem hs op.side.other (by simp [hq, e])
    have hcall : (s.call w).isSome := by
      obtain ⟨op', hop', -⟩ := map_eq_some_iff.mp hw.1
      rw [hop']
      rfl
    constructor
    · intro _ _ _ hnil
      simp at hnil
    intro _ o _ _
    refine ⟨w, (resumed_update _ _ w).mpr ⟨hwt, hcall, ?_⟩⟩
    rw [hstat, if_pos rfl]

omit [DecidableEq T] in
lemma goesOn_spec (h : Inv s) (hsize : a.Sized) (hop : s.goesOn a = some op) :
    (s.kernel.tcb a.thread).stat = .ready ∧ op.Sized ∧
      ∀ op' ∈ s.call a.thread, op'.side = op.side := by
  cases a with
  | call t op' =>
    simp only [State.goesOn] at hop
    split at hop
    · rename_i hi
      cases hop
      refine ⟨hi.1, hsize, ?_⟩
      simp [Action.thread, hi.2]
    simp at hop
  | back t =>
    simp only [State.goesOn] at hop
    split at hop
    · rename_i hs
      refine ⟨hs, h.sized t op hop, ?_⟩
      intro op' hop'
      rw [mem_def, Action.thread, hop] at hop'
      rw [Option.some.inj hop']
    simp at hop

lemma turn_of_step (h : Inv s) (hsize : a.Sized) (hstep : step s a = some s') :
    ∃ op, s.goesOn a = some op ∧ Turn s a.thread op s' := by
  obtain ⟨op, hop, hrun⟩ := bind_eq_some_iff.mp hstep
  obtain ⟨r, hr, rfl⟩ := map_eq_some_iff.mp hrun
  obtain ⟨k, hk⟩ := h.ring
  exact ⟨op, hop, turn_of_run h.blocking hk (goesOn_spec h hsize hop).2.1 hr⟩

lemma inv_step (h : Inv s) (hsize : a.Sized) (hstep : step s a = some s') : Inv s' := by
  obtain ⟨op, hop, hturn⟩ := turn_of_step h hsize hstep
  obtain ⟨hs, hsz, hside⟩ := goesOn_spec h hsize hop
  cases hturn with
  | wait hnone => exact inv_wait h hs hside hsz hnone
  | transfer p hsome hp hmoved => exact inv_transfer h hs hp hmoved

lemma attended_step (h : Inv s) (hsize : a.Sized)
    (hstep : step s a = some s') : Attended s' ↔ Handed s a := by
  obtain ⟨op, hop, hturn⟩ := turn_of_step h hsize hstep
  obtain ⟨hs, hsz, hside⟩ := goesOn_spec h hsize hop
  have hhanded : Handed s a ↔ (op.size < op.side.available s.pipe.ringbuffer →
      s.kernel.queue (.wait op.side) ≠ [] → s.kernel.queue (.wait op.side.other) = [] →
        ∃ u, u ≠ a.thread ∧ s.Resumed u) := by
    unfold Handed
    rw [hop]
    simp
  rw [hhanded]
  cases hturn with
  | wait hnone =>
    -- who waits leaves nothing to its own side, and the other side has somebody on the way
    have hinv := inv_wait h hs hside hsz hnone
    constructor
    · omega
    intro _ o hav hne
    rcases op.side.eq_or o with rfl | rfl
    · have hav' : 0 < op.side.available s.pipe.ringbuffer := hav
      omega
    exact (hinv.coming op.side hnone hne).resumed
  | transfer p hsome hp hmoved => exact attended_transfer h hs hmoved

end

/-! ## Whole runs -/

/-- A pipe over fewer than four bytes has no cell: its ring buffer rounds the size down. -/
structure NoCell (s : State T) : Prop where
  blocking : Blocking s.pipe
  none : ∀ o : Side, o.available s.pipe.ringbuffer = 0

section

variable [DecidableEq T] {s₀ s s' : State T} {as : List (Action T)}

lemma noCell_step (h : NoCell s) (hstep : step s a = some s') :
    NoCell s' ∧ Attended s' ∧ Handed s a := by
  obtain ⟨op, hop, hrun⟩ := bind_eq_some_iff.mp hstep
  obtain ⟨r, hr, rfl⟩ := map_eq_some_iff.mp hrun
  rw [after_of_none h.blocking (h.none _) hr]
  refine ⟨⟨h.blocking, h.none⟩, ?_, ?_⟩
  · intro o hav
    exact absurd (h.none o) (Nat.ne_of_gt hav)
  intro op' _ hlt
  rw [h.none] at hlt
  exact absurd hlt (Nat.not_lt_zero _)

omit [DecidableEq T] in
lemma inv_start (hpos : 1 ≤ size) (hsize : size ≤ 32767) (h : Start size s) : Inv s ∨ NoCell s := by
  obtain ⟨buf, hbuf⟩ := h.pipe
  obtain ⟨rb, hrb, hpipe⟩ := map_eq_some_iff.mp hbuf
  have hblock : Blocking s.pipe := hpipe ▸ ⟨rfl, rfl, rfl⟩
  have hring : s.pipe.ringbuffer = rb := by rw [← hpipe]
  by_cases hmin : 4 ≤ size
  · left
    obtain ⟨rb', hrb', hshows⟩ := init_shows buf hmin hsize
    obtain rfl : rb = rb' := Option.some.inj (hrb.symm.trans hrb')
    refine ⟨⟨_, hring ▸ hshows.holds⟩, hblock, ?_, ?_, ?_, ?_⟩
    · intro t op hop
      simp [h.call] at hop
    · intro o
      simp [h.wait]
    · intro o t ht
      simp [h.wait] at ht
    intro o _ hne
    exact absurd (h.wait _) hne
  right
  have hrb0 : rb = ⟨buf, false, 0, false, 0, 0⟩ := by
    rw [rtRingbufferInit, if_pos (by omega)] at hrb
    rw [← Option.some.inj hrb, show SmallMem.rtAlignDown size SmallMem.alignSize = 0 by
      unfold SmallMem.rtAlignDown SmallMem.alignSize
      omega]
  refine ⟨hblock, fun o => ?_⟩
  rw [hring, hrb0]
  cases o <;> rfl

omit [DecidableEq T] in
lemma attended_start (h : Start size s) : Attended s := fun o _ hne => absurd (h.wait o) hne

/-- **Wake-ups of a pipe.** In a run of blocking reads and writes of 1 to 65535 bytes, no wake-up is
lost in any state if and only if every step meets `Handed`: a transfer that leaves something behind
for suspended threads of its own side, with nobody suspended on the other side, is made while some
other thread has been resumed and has not run yet. -/
theorem pipe_attended_iff (hpos : 1 ≤ size) (hsize : size ≤ 32767) (hs : Start size s₀)
    (hsized : ∀ a ∈ as, a.Sized) (h : exec step s₀ as = some s) :
    (∀ u, Reached step s₀ as u → Attended u) ↔ Meets step Handed s₀ as := by
  refine always_iff_meets (I := fun u => Inv u ∨ NoCell u)
    ?_ ?_
    (inv_start hpos hsize hs) (attended_start hs) (meets_of_forall_mem hsized) h
  · rintro u a u' (hu | hu) ha hstep
    · exact .inl (inv_step hu ha hstep)
    exact .inr (noCell_step hu hstep).1
  rintro u a u' (hu | hu) ha - hstep
  · exact attended_step hu ha hstep
  obtain ⟨-, hatt, hhanded⟩ := noCell_step hu hstep
  exact ⟨fun _ => hhanded, fun _ => hatt⟩

end

def threeThreads : State (Fin 3) where
  kernel := Kernel.ready ![20, 20, 10]
  pipe := ⟨⟨fun _ => 0, false, 0, false, 0, 8⟩, true, true, false⟩
  call := fun _ => none

lemma start_threeThreads : Start 8 threeThreads := ⟨⟨fun _ => 0, rfl⟩, fun _ => rfl, fun _ => rfl⟩

def twoReaders : List (Action (Fin 3)) :=
  [.call 0 (.read 4), .call 1 (.read 4), .call 2 (.write (fun _ => 7) 8)]

theorem pipe_attended_iff_twoReaders : (exec step threeThreads twoReaders).map (fun s =>
        (dataLen s.pipe.ringbuffer, s.kernel.queue (.wait .readers))) = some (8, [1]) ∧
      ∀ u, Reached step threeThreads twoReaders u → Attended u := by
  have hsome : (exec step threeThreads twoReaders).isSome = true := by decide +kernel
  obtain ⟨s, hs⟩ := Option.isSome_iff_exists.mp hsome
  have hsized : ∀ a ∈ twoReaders, a.Sized := by decide
  have hmeets : Meets step Handed threeThreads twoReaders := by decide +kernel
  exact ⟨by decide +kernel,
    (pipe_attended_iff (by decide) (by decide) start_threeThreads hsized hs).mpr hmeets⟩

/-- The first of the two readers takes its four bytes: nobody is on the way to the other four, and
the second reader stays suspended. -/
theorem partial_read_loses_wakeup : Start 8 threeThreads ∧
      ∃ s, exec step threeThreads (twoReaders ++ [.back 0]) = some s ∧
        dataLen s.pipe.ringbuffer = 4 ∧ s.kernel.queue (.wait .readers) = [1] ∧
        (∀ t, ¬ s.Resumed t) ∧ ¬ Attended s := by
  obtain ⟨s, hs, hdata, hq, hnone⟩ : ∃ s, exec step threeThreads (twoReaders ++ [.back 0]) =
      some s ∧ dataLen s.pipe.ringbuffer = 4 ∧ s.kernel.queue (.wait .readers) = [1] ∧
        ∀ t, ¬ s.Resumed t := by decide +kernel
  refine ⟨start_threeThreads, s, hs, hdata, hq, hnone, ?_⟩
  intro hatt
  obtain ⟨t, ht⟩ := hatt .readers (show 0 < dataLen _ by omega) (by simp [hq])
  exact hnone t ht

end NbIot.Pipes
