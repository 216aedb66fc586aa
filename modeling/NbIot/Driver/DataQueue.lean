import NbIot.Basic.CounterRing
import NbIot.Ipc.WaitQueue

/-! # Data queues

`rt_data_queue_push` and `rt_data_queue_pop` of `dataqueue.c` on one queue, for any number of
threads and for interrupt handlers. They wait in a loop, with the whole timeout again each time.

`put_index` and `get_index` are 16-bit counters that run freely; an item is in the cell
`index % size`. The test for a full queue subtracts them as `int`s, so it never succeeds while
`put_index` has wrapped and `get_index` has not, and the cells jump at the wrap unless the size is a
power of two.
-/

namespace NbIot.DataQueues

open Queues Kernel CounterRing Function List Run

variable {T : Type} {size : Nat}

/-- `suspended_push_list` and `suspended_pop_list`. -/
inductive Side where
  | pushers
  | poppers
  deriving DecidableEq

structure DataItem where
  dataPtr : BitVec 32
  dataSize : BitVec 32
  deriving DecidableEq

/-- `struct rt_data_queue`; the four numbers are 16-bit ones. -/
structure DataQueue where
  size : Nat
  lwm : Nat
  getIndex : Nat
  putIndex : Nat
  queue : Nat → DataItem

/-- `rt_data_queue_init`, where the cells have been allocated and hold anything. -/
def rtDataQueueInit (queue : Nat → DataItem) (size lwm : Nat) : DataQueue where
  size := size % 2 ^ 16
  lwm := lwm % 2 ^ 16
  getIndex := 0
  putIndex := 0
  queue := queue

/-- `queue->put_index - queue->get_index == queue->size`, a subtraction of `int`s. -/
def DataQueue.Full (dq : DataQueue) : Prop := (dq.putIndex : Int) - dq.getIndex = dq.size
  deriving Decidable

/-- `queue->get_index == queue->put_index`. -/
def DataQueue.Empty (dq : DataQueue) : Prop := dq.getIndex = dq.putIndex
  deriving Decidable

/-- `(queue->put_index - queue->get_index) <= queue->lwm`. -/
def DataQueue.Low (dq : DataQueue) : Prop := (dq.putIndex : Int) - dq.getIndex ≤ dq.lwm
  deriving Decidable

def DataQueue.putCell (dq : DataQueue) : Nat := dq.putIndex % dq.size

def DataQueue.getCell (dq : DataQueue) : Nat := dq.getIndex % dq.size

def DataQueue.store (dq : DataQueue) (item : DataItem) : DataQueue :=
  { dq with
    queue := update dq.queue dq.putCell item
    putIndex := (dq.putIndex + 1) % 2 ^ 16 }

def DataQueue.fetch (dq : DataQueue) : DataQueue :=
  { dq with getIndex := (dq.getIndex + 1) % 2 ^ 16 }

/-! ## The two calls

The two functions are one loop; what they do not have in common is the operation `Op`. -/

inductive Op where
  | push (item : DataItem)
  | pop
  deriving DecidableEq

def Op.Stuck : Op → DataQueue → Prop
  | .push _, dq => dq.Full
  | .pop, dq => dq.Empty

instance (op : Op) (dq : DataQueue) : Decidable (op.Stuck dq) := by
  cases op <;> unfold Op.Stuck <;> infer_instance

def Op.waitsIn : Op → Side
  | .push _ => .pushers
  | .pop => .poppers

def Op.transfer : Op → DataQueue → DataQueue
  | .push item, dq => dq.store item
  | .pop, dq => dq.fetch

/-- A call that has returned `err`, of a thread or of an interrupt handler: the item of a push and
the cell it was stored in, the item that a pop has written to its caller. -/
inductive Call (T : Type) where
  | pushed (t : Option T) (item : DataItem) (cell : Option Nat) (err : Int)
  | popped (t : Option T) (item : Option DataItem) (err : Int)
  deriving DecidableEq

/-- The call returns `RT_EOK`. -/
def Op.done (op : Op) (dq : DataQueue) (t : Option T) : Call T :=
  match op with
  | .push item => .pushed t item (some dq.putCell) rtEok
  | .pop => .popped t (some (dq.queue dq.getCell)) rtEok

/-- The call returns the error `err`. -/
def Op.failed (op : Op) (t : Option T) (err : Int) : Call T :=
  match op with
  | .push item => .pushed t item none err
  | .pop => .popped t none err

/-- The arguments of a call that waits; `timeout` is an `rt_int32_t`. -/
structure Frame where
  op : Op
  timeout : BitVec 32
  deriving DecidableEq

inductive Outcome (T : Type) where
  | returned (c : Call T)
  | waiting (f : Frame)

section

variable [DecidableEq T]

/-- Whom a call resumes that has left the queue `dq` behind: a push the first thread that wants to
pop, and a pop the first one that wants to push, if not more than `lwm` items are left. -/
def Op.wake (op : Op) (k : Kernel T Side) (dq : DataQueue) : Kernel T Side :=
  match op with
  | .push _ => k.resumeFirst .poppers
  | .pop => if dq.Low then k.resumeFirst .pushers else k

def Op.finish (op : Op) (k : Kernel T Side) (dq : DataQueue) (t : Option T) :
    Kernel T Side × DataQueue × Outcome T :=
  (op.wake k (op.transfer dq), op.transfer dq, .returned (op.done dq t))

/-- One turn of the loop, or the rest of the function: with interrupts disabled from the test of
the loop condition on. -/
def Frame.loop (f : Frame) (k : Kernel T Side) (dq : DataQueue) (t : T) :
    Option (Kernel T Side × DataQueue × Outcome T) :=
  if f.op.Stuck dq then
    if f.timeout = 0 then some (k, dq, .returned (f.op.failed (some t) (-rtEtimeout)))
    else
      ((k.setError t rtEok).rtIpcWait f.op.waitsIn t .fifo f.timeout.toInt).map fun k' =>
        (k', dq, .waiting f)
  else some (f.op.finish k dq (some t))

/-- From the return of `rt_schedule` to the next one. -/
def Frame.resume (f : Frame) (k : Kernel T Side) (dq : DataQueue) (t : T) :
    Option (Kernel T Side × DataQueue × Outcome T) :=
  if (k.tcb t).error ≠ rtEok then
    some (k, dq, .returned (f.op.failed (some t) (k.tcb t).error))
  else f.loop k dq t

/-- A call in an interrupt handler: the debug check before the wait stops the program. -/
def Frame.interrupt (f : Frame) (k : Kernel T Side) (dq : DataQueue) :
    Option (Kernel T Side × DataQueue × Outcome T) :=
  if f.op.Stuck dq then
    if f.timeout = 0 then some (k, dq, .returned (f.op.failed none (-rtEtimeout))) else none
  else some (f.op.finish k dq none)

/-- `rt_data_queue_push` of the thread `t`, up to `rt_schedule`. -/
def rtDataQueuePush (k : Kernel T Side) (dq : DataQueue) (t : T) (item : DataItem)
    (timeout : BitVec 32) : Option (Kernel T Side × DataQueue × Outcome T) :=
  Frame.loop { op := .push item, timeout := timeout } k dq t

/-- `rt_data_queue_pop` of the thread `t`, up to `rt_schedule`. -/
def rtDataQueuePop (k : Kernel T Side) (dq : DataQueue) (t : T) (timeout : BitVec 32) :
    Option (Kernel T Side × DataQueue × Outcome T) :=
  Frame.loop { op := .pop, timeout := timeout } k dq t

end

/-! ## Runs -/

/-- The kernel, the queue, the calls that wait, and the calls that have stored or fetched an item
or failed, in this order. -/
structure State (T : Type) where
  kernel : Kernel T Side
  dq : DataQueue
  call : T → Option Frame
  log : List (Call T)

inductive Action (T : Type) where
  | push (t : T) (item : DataItem) (timeout : BitVec 32)
  | pop (t : T) (timeout : BitVec 32)
  | interrupt (f : Frame)
  | back (t : T)
  | timeout (t : T)

def State.Idle (s : State T) (t : T) : Prop :=
  (s.kernel.tcb t).stat = .ready ∧ s.call t = none
  deriving Decidable

section

variable [DecidableEq T]

/-- The state after a stay in the code, of a thread if `t` is one. -/
def State.after (s : State T) (t : Option T) :
    Kernel T Side × DataQueue × Outcome T → State T
  | (k, dq, .returned c) =>
    { s with
      kernel := k
      dq := dq
      call := t.elim s.call fun t => update s.call t none
      log := s.log ++ [c] }
  | (k, dq, .waiting f) =>
    { s with
      kernel := k
      dq := dq
      call := t.elim s.call fun t => update s.call t (some f) }

def step (s : State T) : Action T → Option (State T)
  | .push t item timeout =>
    if s.Idle t then
      (rtDataQueuePush s.kernel s.dq t item timeout).map (s.after (some t))
    else none
  | .pop t timeout =>
    if s.Idle t then (rtDataQueuePop s.kernel s.dq t timeout).map (s.after (some t)) else none
  | .interrupt f => (f.interrupt s.kernel s.dq).map (s.after none)
  | .back t =>
    match s.call t with
    | some f =>
      if (s.kernel.tcb t).stat = .ready then
        (f.resume s.kernel s.dq t).map (s.after (some t))
      else none
    | none => none
  | .timeout t =>
    if (s.kernel.tcb t).timer.linked then
      (s.kernel.rtThreadTimeout t).map fun k => { s with kernel := k }
    else none

end

/-- A queue of `size` cells that `rt_data_queue_init` has made. -/
structure Start (size : Nat) (s : State T) : Prop where
  dq : ∃ queue lwm, s.dq = rtDataQueueInit queue size lwm
  call : ∀ t, s.call t = none
  log : s.log = []

/-! ## The law -/

def Call.stored : Call T → Option (Nat × DataItem)
  | .pushed _ item cell err => if err = rtEok then cell.map fun c => (c, item) else none
  | .popped _ _ _ => none

def Call.fetched : Call T → Option DataItem
  | .pushed _ _ _ _ => none
  | .popped _ item err => if err = rtEok then item else none

def pushed (s : State T) : List (Nat × DataItem) := s.log.filterMap Call.stored

def popped (s : State T) : List DataItem := s.log.filterMap Call.fetched

def unread (s : State T) : List (Nat × DataItem) := (pushed s).drop (popped s).length

/-- Order and capacity: the items popped are the first of those pushed, not more than `size` items
are unread, and no unread item has been overwritten, be it with its own value. -/
structure InOrder (s : State T) : Prop where
  before : popped s <+: (pushed s).map Prod.snd
  fits : (unread s).length ≤ s.dq.size
  apart : ((unread s).map Prod.fst).Nodup
  intact : ∀ p ∈ unread s, s.dq.queue p.1 = p.2

def State.Pushes (s : State T) : Action T → Prop
  | .push _ _ _ => True
  | .pop _ _ => False
  | .interrupt f => f.op ≠ .pop
  | .back t => (∀ f ∈ s.call t, f.op ≠ .pop) ∧ (s.kernel.tcb t).error = rtEok
  | .timeout _ => False

instance (s : State T) (a : Action T) : Decidable (s.Pushes a) := by
  cases a <;> unfold State.Pushes <;> infer_instance

/-! ## What a step does -/

/-- What a step does to the queue and to the histories: nothing, and then no push has found a free
cell, or it stores an item, or it fetches one. -/
inductive Effect (s : State T) (a : Action T) (s' : State T) : Prop where
  | idle (hfull : s.Pushes a → s.dq.Full) (hdq : s'.dq = s.dq) (hpushed : pushed s' = pushed s)
      (hpopped : popped s' = popped s)
  | store (item : DataItem) (ha : s.Pushes a) (hfree : ¬ s.dq.Full)
      (hdq : s'.dq = s.dq.store item) (hpushed : pushed s' = pushed s ++ [(s.dq.putCell, item)])
      (hpopped : popped s' = popped s)
  | fetch (ha : ¬ s.Pushes a) (hitem : ¬ s.dq.Empty) (hdq : s'.dq = s.dq.fetch)
      (hpushed : pushed s' = pushed s)
      (hpopped : popped s' = popped s ++ [s.dq.queue s.dq.getCell])

variable {s s' : State T} {a : Action T} {dq : DataQueue} {size : Nat}

section

variable [DecidableEq T] {k : Kernel T Side} {f : Frame}

lemma pushed_after (s : State T) (t : Option T) (k : Kernel T Side) (dq : DataQueue)
    (c : Call T) : pushed (s.after t (k, dq, .returned c)) = pushed s ++ c.stored.toList := by
  simp only [pushed, State.after]
  cases h : c.stored <;> simp [h]

lemma popped_after (s : State T) (t : Option T) (k : Kernel T Side) (dq : DataQueue)
    (c : Call T) : popped (s.after t (k, dq, .returned c)) = popped s ++ c.fetched.toList := by
  simp only [popped, State.after]
  cases h : c.fetched <;> simp [h]

lemma effect_failed (hfull : s.Pushes a → s.dq.Full) (t t' : Option T) (op : Op)
    (err : Int) : Effect s a (s.after t (k, s.dq, .returned (op.failed t' err))) := by
  have hstored : (op.failed t' err).stored = none := by
    cases op <;> simp [Op.failed, Call.stored]
  have hfetched : (op.failed t' err).fetched = none := by
    cases op <;> simp [Op.failed, Call.fetched]
  refine .idle hfull rfl ?_ ?_
  · rw [pushed_after, hstored]
    exact append_nil _
  rw [popped_after, hfetched]
  exact append_nil _

lemma effect_finish {op : Op} (ha : s.Pushes a ↔ op ≠ .pop) (hfree : ¬ op.Stuck s.dq)
    (t t' : Option T) : Effect s a (s.after t (op.finish k s.dq t')) := by
  cases op with
  | push item =>
    refine .store item (ha.mpr (by simp)) hfree rfl ?_ ?_
    · exact (pushed_after s t _ _ _).trans (by simp [Op.done, Call.stored])
    exact (popped_after s t _ _ _).trans (by simp [Op.done, Call.fetched])
  | pop =>
    refine .fetch (fun h => ha.mp h rfl) hfree rfl ?_ ?_
    · exact (pushed_after s t _ _ _).trans (by simp [Op.done, Call.stored])
    exact (popped_after s t _ _ _).trans (by simp [Op.done, Call.fetched])

omit [DecidableEq T] in
lemma full_of_stuck {op : Op} (ha : s.Pushes a ↔ op ≠ .pop) (hstuck : op.Stuck s.dq) :
    s.Pushes a → s.dq.Full := by
  intro h
  cases op with
  | push item => exact hstuck
  | pop => exact absurd rfl (ha.mp h)

lemma effect_loop (ha : s.Pushes a ↔ f.op ≠ .pop) {t : T}
    (h : (f.loop s.kernel s.dq t).map (s.after (some t)) = some s') : Effect s a s' := by
  obtain ⟨r, hr, rfl⟩ := Option.map_eq_some_iff.mp h
  unfold Frame.loop at hr
  split at hr
  · rename_i hstuck
    split at hr
    · cases hr
      exact effect_failed (full_of_stuck ha hstuck) _ _ _ _
    obtain ⟨k', -, rfl⟩ := Option.map_eq_some_iff.mp hr
    exact .idle (full_of_stuck ha hstuck) rfl rfl rfl
  rename_i hfree
  cases hr
  exact effect_finish ha hfree _ _

lemma effect_interrupt (ha : s.Pushes a ↔ f.op ≠ .pop)
    (h : (f.interrupt s.kernel s.dq).map (s.after none) = some s') : Effect s a s' := by
  obtain ⟨r, hr, rfl⟩ := Option.map_eq_some_iff.mp h
  unfold Frame.interrupt at hr
  split at hr
  · rename_i hstuck
    split at hr
    · cases hr
      exact effect_failed (full_of_stuck ha hstuck) _ _ _ _
    simp at hr
  rename_i hfree
  cases hr
  exact effect_finish ha hfree _ _

lemma effect_of_step (h : step s a = some s') : Effect s a s' := by
  cases a with
  | push t item timeout | pop t timeout =>
    simp only [step] at h
    split at h
    · exact effect_loop (by simp [State.Pushes]) h
    simp at h
  | interrupt f => exact effect_interrupt Iff.rfl h
  | back t =>
    simp only [step] at h
    split at h
    · rename_i f hf
      split at h
      · by_cases herr : (s.kernel.tcb t).error = rtEok
        · rw [Frame.resume, if_neg (not_not.mpr herr)] at h
          exact effect_loop (by simp [State.Pushes, hf, herr]) h
        rw [Frame.resume, if_pos herr] at h
        cases h
        have hfull : s.Pushes (.back t) → s.dq.Full := fun hp => absurd hp.2 herr
        exact effect_failed hfull _ _ _ _
      simp at h
    simp at h
  | timeout t =>
    simp only [step] at h
    split at h
    · obtain ⟨k, -, rfl⟩ := Option.map_eq_some_iff.mp h
      exact .idle False.elim rfl rfl rfl
    simp at h

end

/-! ## Counters and cells -/

structure Counted (size : Nat) (s : State T) : Prop where
  size_eq : s.dq.size = size
  put : s.dq.putIndex = (pushed s).length % 2 ^ 16
  get : s.dq.getIndex = (popped s).length % 2 ^ 16
  cells : ∀ (i : Nat) (hi : i < (pushed s).length), (pushed s)[i].1 = cell (2 ^ 16) size i

lemma counted_start {s : State T} (hsize : size < 2 ^ 16) (h : Start size s) :
    Counted size s := by
  obtain ⟨queue, lwm, hdq⟩ := h.dq
  have hpushed : pushed s = [] := by simp [pushed, h.log]
  have hpopped : popped s = [] := by simp [popped, h.log]
  refine ⟨?_, ?_, ?_, ?_⟩
  · rw [hdq]
    exact Nat.mod_eq_of_lt hsize
  · rw [hdq, hpushed]
    rfl
  · rw [hdq, hpopped]
    rfl
  intro i hi
  simp [hpushed] at hi

lemma counted_effect {s s' : State T} {a : Action T} (h : Counted size s)
    (he : Effect s a s') : Counted size s' := by
  cases he with
  | idle hfull hdq hpushed hpopped =>
    refine ⟨?_, ?_, ?_, ?_⟩
    · rw [hdq, h.size_eq]
    · rw [hdq, hpushed, h.put]
    · rw [hdq, hpopped, h.get]
    simpa only [hpushed] using h.cells
  | store item ha hfree hdq hpushed hpopped =>
    refine ⟨?_, ?_, ?_, ?_⟩
    · rw [hdq]
      exact h.size_eq
    · rw [hdq, hpushed, length_append, ← Nat.mod_add_mod, ← h.put]
      rfl
    · rw [hdq, hpopped]
      exact h.get
    intro i hi
    simp only [hpushed] at hi ⊢
    rcases Nat.lt_or_ge i (pushed s).length with hlt | hge
    · rw [getElem_append_left hlt]
      exact h.cells i hlt
    have hlast : i = (pushed s).length := by
      simp only [length_append, length_singleton] at hi
      omega
    subst hlast
    rw [getElem_concat_length rfl, DataQueue.putCell, h.put, h.size_eq]
    rfl
  | fetch ha hitem hdq hpushed hpopped =>
    refine ⟨?_, ?_, ?_, ?_⟩
    · rw [hdq]
      exact h.size_eq
    · rw [hdq, hpushed]
      exact h.put
    · rw [hdq, hpopped, length_append, ← Nat.mod_add_mod, ← h.get]
      rfl
    simpa only [hpushed] using h.cells

lemma unread_cells (h : Counted size s) : (unread s).map Prod.fst =
      (List.range' (popped s).length ((pushed s).length - (popped s).length)).map
        (cell (2 ^ 16) size) := by
  refine ext_getElem (by simp [unread]) ?_
  intro i hi hi'
  simp only [unread, getElem_map, getElem_drop, getElem_range', one_mul]
  exact h.cells _ _

lemma nodup_cells_iff {g p : Nat} :
    ((List.range' g (p - g)).map (cell (2 ^ 16) size)).Nodup ↔ Apart (2 ^ 16) size g p := by
  rw [List.Nodup, pairwise_map, pairwise_iff_getElem]
  constructor
  · intro h i j hi hij hj
    have := h (i - g) (j - g) (by simp; omega) (by simp; omega) (by omega)
    simpa [Nat.add_sub_cancel' hi, Nat.add_sub_cancel' (show g ≤ j by omega)] using this
  intro h i j hi hj hij
  simp only [length_range'] at hi hj
  simp only [getElem_range', one_mul]
  exact h (g + i) (g + j) (by omega) (by omega) (by omega)

lemma inOrder_iff_holds (h : Counted size s) :
    InOrder s ↔ Holds (2 ^ 16) size s.dq.queue ((pushed s).map Prod.snd) (popped s) := by
  constructor
  · intro hin
    have hle := hin.before.length_le
    have hfits := hin.fits
    rw [unread, length_drop, h.size_eq] at hfits
    refine ⟨hin.before, ?_, ?_, ?_⟩
    · rw [length_map]
      omega
    · rw [length_map, ← nodup_cells_iff, ← unread_cells h]
      exact hin.apart
    intro i hi hri
    rw [length_map] at hi
    have hmem : (pushed s)[i] ∈ unread s :=
      mem_drop_iff_getElem.mpr ⟨i - (popped s).length, by omega, by
        simp [Nat.add_sub_cancel' hri]⟩
    rw [getElem_map, ← h.cells i hi]
    exact hin.intact _ hmem
  intro hh
  have hle := hh.length_le
  have hfits := hh.le
  rw [length_map] at hle hfits
  refine ⟨hh.before, ?_, ?_, ?_⟩
  · rw [unread, length_drop, h.size_eq]
    omega
  · rw [unread_cells h, nodup_cells_iff]
    simpa using hh.apart
  intro q hq
  obtain ⟨i, hi, rfl⟩ := mem_drop_iff_getElem.mp hq
  have hcell := hh.cells (i + (popped s).length) (by simpa using hi) (by omega)
  have hnum := h.cells (i + (popped s).length) hi
  rw [getElem_map, ← hnum] at hcell
  simpa only [add_comm i] using hcell

/-- There is room for a push: if `put_index` has wrapped and `get_index` has not, the unread items
are fewer than the cells from the jump on. -/
def DataQueue.HasRoom (dq : DataQueue) : Prop :=
  dq.putIndex < dq.getIndex → 2 ^ 16 + dq.putIndex - dq.getIndex < room (2 ^ 16) dq.size
  deriving Decidable

lemma hasRoom_of_full (h : dq.Full) : dq.HasRoom := by
  intro hlt
  have : (dq.putIndex : Int) - dq.getIndex = dq.size := h
  omega

lemma free_iff_hasRoom (hle : between (2 ^ 16) dq.getIndex dq.putIndex ≤ dq.size)
    (hfree : ¬ dq.Full) : Free (2 ^ 16) dq.size dq.getIndex dq.putIndex ↔ dq.HasRoom := by
  have hne : (dq.putIndex : Int) - dq.getIndex ≠ dq.size := hfree
  unfold Free DataQueue.HasRoom
  unfold between at hle ⊢
  by_cases hlap : dq.getIndex ≤ dq.putIndex
  · rw [if_pos hlap] at hle
    rw [if_pos hlap, if_pos hlap]
    exact ⟨fun _ hlt => by omega, fun _ => by omega⟩
  rw [if_neg hlap, if_neg hlap]
  exact ⟨fun h _ => h, fun h => h (by omega)⟩

/-- **One step.** Order and capacity survive exactly the steps in which no push is made without
room. -/
theorem inOrder_effect (hpos : 0 < size) (hsize : size < 2 ^ 16) (hc : Counted size s)
    (hin : InOrder s) (he : Effect s a s') : InOrder s' ↔ (s.Pushes a → s.dq.HasRoom) := by
  have hc' := counted_effect hc he
  have hh := (inOrder_iff_holds hc).mp hin
  have hle := hh.length_le
  have hfits := hh.le
  rw [length_map] at hle hfits
  rw [inOrder_iff_holds hc']
  cases he with
  | idle hfull hdq hpushed hpopped =>
    rw [hdq, hpushed, hpopped]
    exact ⟨fun _ ha => hasRoom_of_full (hfull ha), fun _ => hh⟩
  | store item ha hfree hdq hpushed hpopped =>
    have hbetween : between (2 ^ 16) s.dq.getIndex s.dq.putIndex ≤ s.dq.size := by
      rw [hc.put, hc.get, between_mod hle (by omega), hc.size_eq]
      omega
    have hcell : s.dq.putCell = cell (2 ^ 16) size ((pushed s).map Prod.snd).length := by
      rw [length_map, DataQueue.putCell, hc.put, hc.size_eq, cell]
    rw [hdq, hpushed, hpopped, map_append]
    show Holds _ _ (update s.dq.queue s.dq.putCell item) (_ ++ [item]) _ ↔ _
    rw [hcell, hh.push_iff hpos hsize, length_map, ← hc.put, ← hc.get, ← hc.size_eq,
      free_iff_hasRoom hbetween hfree]
    exact ⟨fun h _ => h, fun h => h ha⟩
  | fetch ha hitem hdq hpushed hpopped =>
    have hlt : (popped s).length < ((pushed s).map Prod.snd).length := by
      rw [length_map]
      refine Nat.lt_of_le_of_ne hle fun hlen => hitem ?_
      show s.dq.getIndex = s.dq.putIndex
      rw [hc.put, hc.get, hlen]
    have hcell : s.dq.getCell = cell (2 ^ 16) size (popped s).length := by
      rw [DataQueue.getCell, hc.get, hc.size_eq, cell]
    rw [hdq, hpushed, hpopped, hcell]
    exact ⟨fun _ h => absurd h ha, fun _ => hh.pop hlt⟩

lemma inOrder_start {s : State T} (h : Start size s) : InOrder s := by
  have hpushed : pushed s = [] := by simp [pushed, h.log]
  have hpopped : popped s = [] := by simp [popped, h.log]
  refine ⟨?_, ?_, ?_, ?_⟩ <;> simp [unread, hpushed, hpopped]

section

variable [DecidableEq T] {s₀ s : State T} {as : List (Action T)}

/-- **Order and capacity.** In a run on a queue of 1 to 65535 cells, in every state the items
popped are the first of those pushed, not more than `size` items are unread and none of them is
overwritten, if and only if no push is made without room: while `put_index` has wrapped and
`get_index` has not, there are fewer than `65536 % size` unread items, or fewer than `size` if the
size divides 65536. -/
theorem dataQueue_inOrder_iff (hpos : 1 ≤ size) (hsize : size ≤ 65535) (hs : Start size s₀)
    (h : exec step s₀ as = some s) :
    (∀ u, Reached step s₀ as u → InOrder u) ↔
      Meets step (fun u a => u.Pushes a → u.dq.HasRoom) s₀ as := by
  have hlt : size < 2 ^ 16 := by omega
  refine always_iff_meets ?_ ?_
    (counted_start hlt hs) (inOrder_start hs) (meets_of_forall (fun _ _ => trivial) _ _) h
  · intro u a u' hu _ hstep
    exact counted_effect hu (effect_of_step hstep)
  intro u a u' hu _ hin hstep
  exact inOrder_effect hpos hlt hu hin (effect_of_step hstep)

end

def threeThreads : State (Fin 3) where
  kernel := Kernel.ready ![20, 20, 10]
  dq := rtDataQueueInit (fun _ => ⟨0, 0⟩) 1 0
  call := fun _ => none
  log := []

/-- The second push finds the queue full and waits, is resumed by a pop, finds it full once more
because an interrupt handler has been faster, and succeeds in the third turn. -/
def overtaken : List (Action (Fin 3)) :=
  [.push 0 ⟨1, 1⟩ 0, .push 1 ⟨2, 2⟩ 5, .pop 2 0, .interrupt ⟨.push ⟨3, 3⟩, 0⟩, .back 1, .pop 2 0,
    .back 1]

theorem dataQueue_inOrder_iff_overtaken : Start 1 threeThreads ∧
    (exec step threeThreads overtaken).map (fun s => ((pushed s).map Prod.snd, popped s)) =
      some ([⟨1, 1⟩, ⟨3, 3⟩, ⟨2, 2⟩], [⟨1, 1⟩, ⟨3, 3⟩]) ∧
    ∀ u, Reached step threeThreads overtaken u → InOrder u := by
  have hstart : Start 1 threeThreads := ⟨⟨_, _, rfl⟩, fun _ => rfl, rfl⟩
  have hsome : (exec step threeThreads overtaken).isSome = true := by decide +kernel
  obtain ⟨s, hs⟩ := Option.isSome_iff_exists.mp hsome
  have hroom : Meets step (fun u a => u.Pushes a → u.dq.HasRoom) threeThreads overtaken := by
    decide +kernel
  exact ⟨hstart, by decide +kernel,
    (dataQueue_inOrder_iff (by decide) (by decide) hstart hs).mpr hroom⟩

/-! ## Up to the wrap -/

section

variable {s : State T} {t : T}

structure Quiet (t : T) (s : State T) : Prop where
  idle : s.Idle t
  wait : ∀ o, s.kernel.queue (.wait o) = []

/-- The state after `t` has pushed an item, with nobody waiting. -/
def State.withPush (s : State T) (t : T) (item : DataItem) : State T :=
  { s with
    dq := s.dq.store item
    log := s.log ++ [.pushed (some t) item (some s.dq.putCell) rtEok] }

/-- The state after `t` has popped an item, with nobody waiting. -/
def State.withPop (s : State T) (t : T) : State T :=
  { s with
    dq := s.dq.fetch
    log := s.log ++ [.popped (some t) (some (s.dq.queue s.dq.getCell)) rtEok] }

structure Drained (t : T) (s : State T) : Prop extends Quiet t s where
  empty : s.dq.Empty
  even : (pushed s).length = (popped s).length

lemma pushed_withPush (s : State T) (t : T) (item : DataItem) :
    pushed (s.withPush t item) = pushed s ++ [(s.dq.putCell, item)] := filterMap_append

lemma popped_withPush (s : State T) (t : T) (item : DataItem) :
    popped (s.withPush t item) = popped s := by
  simp [popped, State.withPush, Call.fetched]

lemma pushed_withPop (s : State T) (t : T) : pushed (s.withPop t) = pushed s := by
  simp [pushed, State.withPop, Call.stored]

lemma popped_withPop (s : State T) (t : T) :
    popped (s.withPop t) = popped s ++ [s.dq.queue s.dq.getCell] := filterMap_append

variable [DecidableEq T]

lemma Quiet.call (hq : Quiet t s) : update s.call t none = s.call := by
  rw [← hq.idle.2, update_eq_self]

lemma step_push_of_free (hq : Quiet t s) (hfree : ¬ s.dq.Full) (item : DataItem)
    (timeout : BitVec 32) : step s (.push t item timeout) = some (s.withPush t item) := by
  have hloop : rtDataQueuePush s.kernel s.dq t item timeout =
      some (s.kernel.resumeFirst .poppers, s.dq.store item,
        .returned (.pushed (some t) item (some s.dq.putCell) rtEok)) := if_neg hfree
  rw [step, if_pos hq.idle, hloop, resumeFirst, hq.wait]
  simp [State.after, hq.call, State.withPush]

lemma step_pop_of_item (hq : Quiet t s) (hitem : ¬ s.dq.Empty) (timeout : BitVec 32) :
    step s (.pop t timeout) = some (s.withPop t) := by
  have hwake : Op.pop.wake s.kernel s.dq.fetch = s.kernel := by
    simp only [Op.wake, resumeFirst, hq.wait, ite_self]
  have hloop : rtDataQueuePop s.kernel s.dq t timeout =
      some (Op.pop.wake s.kernel s.dq.fetch, s.dq.fetch,
        .returned (.popped (some t) (some (s.dq.queue s.dq.getCell)) rtEok)) := if_neg hitem
  rw [step, if_pos hq.idle, hloop, hwake]
  simp [State.after, hq.call, State.withPop]

/-- `n` times an item is pushed and popped. -/
def rounds (t : T) (item : DataItem) (n : Nat) : List (Action T) :=
  (List.replicate n [.push t item 0, .pop t 0]).flatten

lemma exec_round (item : DataItem) (hd : Drained t s) (hsize : s.dq.size ≠ 0) :
    ∃ s', exec step s [.push t item 0, .pop t 0] = some s' ∧ Drained t s' ∧
      s'.dq.size = s.dq.size ∧ s'.dq.putIndex = (s.dq.putIndex + 1) % 2 ^ 16 := by
  have hget : s.dq.getIndex = s.dq.putIndex := hd.empty
  have hfree : ¬ s.dq.Full := by
    show ¬ (s.dq.putIndex : Int) - s.dq.getIndex = s.dq.size
    omega
  have hitem : ¬ (s.withPush t item).dq.Empty := by
    show ¬ s.dq.getIndex = (s.dq.putIndex + 1) % 2 ^ 16
    omega
  have hpush := step_push_of_free hd.toQuiet hfree item 0
  have hpop := step_pop_of_item (s := s.withPush t item) ⟨hd.idle, hd.wait⟩ hitem 0
  refine ⟨(s.withPush t item).withPop t, ?_, ⟨⟨hd.idle, hd.wait⟩, ?_, ?_⟩, rfl, rfl⟩
  · exact exec_cons_eq_some.mpr ⟨_, hpush, exec_cons_eq_some.mpr ⟨_, hpop, rfl⟩⟩
  · show (s.dq.getIndex + 1) % 2 ^ 16 = (s.dq.putIndex + 1) % 2 ^ 16
    rw [hget]
  rw [pushed_withPop, popped_withPop, pushed_withPush, popped_withPush, length_append,
    length_append, hd.even]
  rfl

lemma exec_rounds (item : DataItem) (n : Nat) (hd : Drained t s) (hsize : s.dq.size ≠ 0)
    (hlt : s.dq.putIndex < 2 ^ 16) :
    ∃ s', exec step s (rounds t item n) = some s' ∧ Drained t s' ∧
      s'.dq.size = s.dq.size ∧ s'.dq.putIndex = (s.dq.putIndex + n) % 2 ^ 16 := by
  induction n generalizing s with
  | zero => exact ⟨s, rfl, hd, rfl, (Nat.mod_eq_of_lt hlt).symm⟩
  | succ n ih =>
    obtain ⟨u, hu, hdu, hsu, hpu⟩ := exec_round item hd hsize
    have hltu : u.dq.putIndex < 2 ^ 16 := by
      rw [hpu]
      exact Nat.mod_lt _ (by decide)
    obtain ⟨s', hs', hd', hsize', hput'⟩ := ih hdu (hsu ▸ hsize) hltu
    refine ⟨s', ?_, hd', hsize'.trans hsu, ?_⟩
    · rw [rounds, replicate_succ, flatten_cons, exec_append, hu]
      exact hs'
    rw [hput', hpu, Nat.mod_add_mod, add_assoc, add_comm 1 n]

lemma exec_wrap (hd : Drained t s) (hsize : s.dq.size = 3) (hput : s.dq.putIndex = 65535)
    (x y : DataItem) :
    ∃ s', exec step s [.push t x 0, .push t y 0] = some s' ∧ unread s' = [(0, x), (0, y)] := by
  have hget : s.dq.getIndex = s.dq.putIndex := hd.empty
  have hfree : ¬ s.dq.Full := by
    show ¬ (s.dq.putIndex : Int) - s.dq.getIndex = s.dq.size
    omega
  -- `put_index` is 0 now and `get_index` is 65535
  have hfree' : ¬ (s.withPush t x).dq.Full := by
    show ¬ (((s.dq.putIndex + 1) % 2 ^ 16 : Nat) : Int) - s.dq.getIndex = s.dq.size
    omega
  have hcell : s.dq.putCell = 0 := by rw [DataQueue.putCell, hput, hsize]
  have hcell' : (s.withPush t x).dq.putCell = 0 := by
    show (s.dq.putIndex + 1) % 2 ^ 16 % s.dq.size = 0
    rw [hput]
    exact Nat.zero_mod _
  have hpush := step_push_of_free hd.toQuiet hfree x 0
  have hpush' := step_push_of_free (s := s.withPush t x) ⟨hd.idle, hd.wait⟩ hfree' y 0
  refine ⟨(s.withPush t x).withPush t y, ?_, ?_⟩
  · exact exec_cons_eq_some.mpr ⟨_, hpush, exec_cons_eq_some.mpr ⟨_, hpush', rfl⟩⟩
  rw [unread, pushed_withPush, popped_withPush, pushed_withPush, popped_withPush, hcell, hcell',
    append_assoc, ← hd.even, drop_left]
  rfl

end

def oneThread : State (Fin 1) where
  kernel := Kernel.ready ![20]
  dq := rtDataQueueInit (fun _ => ⟨0, 0⟩) 3 0
  call := fun _ => none
  log := []

/-- After 65535 items have been pushed and popped, two more pushes on the empty queue of three
cells succeed and store into the cell 0: the first item is lost before it is read. -/
theorem push_overwrites_at_wrap : Start 3 oneThread ∧ ∃ s, exec step oneThread
        (rounds 0 ⟨7, 7⟩ 65535 ++ [.push 0 ⟨1, 1⟩ 0, .push 0 ⟨2, 2⟩ 0]) = some s ∧
      unread s = [(0, ⟨1, 1⟩), (0, ⟨2, 2⟩)] ∧ ¬ InOrder s := by
  have hstart : Start 3 oneThread := ⟨⟨_, _, rfl⟩, fun _ => rfl, rfl⟩
  have hdrained : Drained 0 oneThread := ⟨⟨⟨rfl, rfl⟩, fun _ => rfl⟩, rfl, rfl⟩
  obtain ⟨u, hu, hdu, hsize, hput⟩ := exec_rounds ⟨7, 7⟩ 65535 hdrained (by decide) (by decide)
  obtain ⟨s, hs, hunread⟩ := exec_wrap hdu hsize hput ⟨1, 1⟩ ⟨2, 2⟩
  refine ⟨hstart, s, ?_, hunread, ?_⟩
  · rw [exec_append, hu]
    exact hs
  intro hin
  have hapart := hin.apart
  rw [hunread] at hapart
  exact absurd hapart (by decide)

end NbIot.DataQueues
