import NbIot.Basic.CountRing
import NbIot.Ipc.WaitQueue

/-! # Mailboxes

`rt_mb_send_wait`, `rt_mb_send` and `rt_mb_recv` of `ipc.c` on one mailbox, for any number of
threads. A resumed thread may find that another one has taken the free cell or the mail, and then it
waits again, for what is left of its time.

A step is one stay in the code with interrupts disabled: from the call, or from the return of
`rt_schedule`, to the return of the function or to the next `rt_schedule`. A call is logged in the
step that stores or fetches its mail.
-/

namespace NbIot.Mailboxes

open Queues Kernel Function Option Run

variable {T : Type}

/-- `suspend_thread` and `suspend_sender_thread`. -/
inductive Side where
  | receivers
  | senders
  deriving DecidableEq

/-- A mail is an `rt_uint32_t`. -/
abbrev Mail := BitVec 32

/-- `struct rt_mailbox`; the counter and the offsets are 16-bit numbers. -/
structure Mailbox where
  msgPool : Nat → Mail
  size : Nat
  entry : Nat
  inOffset : Nat
  outOffset : Nat
  flag : IpcFlag

/-- `rt_mb_init` with a pool that holds anything. -/
def rtMbInit (msgPool : Nat → Mail) (size : Nat) (flag : IpcFlag) : Mailbox where
  msgPool := msgPool
  size := size % 2 ^ 16
  entry := 0
  inOffset := 0
  outOffset := 0
  flag := flag

/-- `++ offset; if (offset >= mb->size) offset = 0;`. -/
def Mailbox.advance (mb : Mailbox) (offset : Nat) : Nat :=
  if mb.size ≤ (offset + 1) % 2 ^ 16 then 0 else (offset + 1) % 2 ^ 16

/-- What `rt_mb_send_wait` does to a mailbox that is not full. -/
def Mailbox.store (mb : Mailbox) (value : Mail) : Mailbox :=
  { mb with msgPool := update mb.msgPool mb.inOffset value
            inOffset := mb.advance mb.inOffset
            entry := (mb.entry + 1) % 2 ^ 16 }

/-- What `rt_mb_recv` does to a mailbox that is not empty; `mb->entry --` would wrap at zero. -/
def Mailbox.fetch (mb : Mailbox) : Mailbox :=
  { mb with outOffset := mb.advance mb.outOffset
            entry := if mb.entry = 0 then 2 ^ 16 - 1 else mb.entry - 1 }

/-! ## The two calls

The two functions are one loop; what they do not have in common is the operation `Op`. -/

inductive Op where
  | send (value : Mail)
  | recv
  deriving DecidableEq

def Op.Stuck : Op → Mailbox → Prop
  | .send _, mb => mb.entry = mb.size
  | .recv, mb => mb.entry = 0

instance (op : Op) (mb : Mailbox) : Decidable (op.Stuck mb) := by
  cases op <;> unfold Op.Stuck <;> infer_instance

def Op.waitsIn : Op → Side
  | .send _ => .senders
  | .recv => .receivers

def Op.wakes : Op → Side
  | .send _ => .receivers
  | .recv => .senders

def Op.refusal : Op → Int
  | .send _ => -rtEfull
  | .recv => -rtEtimeout

/-- `thread->error` after the loop has run out of time: the receive writes it once more. -/
def Op.refusalError : Op → Int
  | .send _ => rtEok
  | .recv => -rtEtimeout

def Op.transfer : Op → Mailbox → Mailbox
  | .send value, mb => mb.store value
  | .recv, mb => mb.fetch

/-- A call that has returned `err`; a receive that fails has written no mail. -/
inductive Call (T : Type) where
  | sent (t : T) (value : Mail) (err : Int)
  | received (t : T) (value : Option Mail) (err : Int)
  deriving DecidableEq

def Call.err : Call T → Int
  | .sent _ _ err => err
  | .received _ _ err => err

/-- The call `op` of `t` on `mb` returns `RT_EOK`. -/
def Op.done (op : Op) (mb : Mailbox) (t : T) : Call T :=
  match op with
  | .send value => .sent t value rtEok
  | .recv => .received t (some (mb.msgPool mb.outOffset)) rtEok

/-- The call `op` of `t` returns the error `err`. -/
def Op.failed (op : Op) (t : T) (err : Int) : Call T :=
  match op with
  | .send value => .sent t value err
  | .recv => .received t none err

/-- The local variables of a call; `timeout` is an `rt_int32_t`. -/
structure Frame where
  op : Op
  timeout : BitVec 32
  tickDelta : BitVec 32
  deriving DecidableEq

def Frame.elapsed (f : Frame) (now : BitVec 32) : BitVec 32 :=
  if 0 < f.timeout.toInt then now - f.tickDelta else f.tickDelta

/-- What is left of the time. The subtraction is one of unsigned numbers, its result is read as a
signed one. -/
def Frame.remaining (f : Frame) (now : BitVec 32) : BitVec 32 :=
  if 0 < f.timeout.toInt then
    if (f.timeout - f.elapsed now).toInt < 0 then 0 else f.timeout - f.elapsed now
  else f.timeout

/-- How a stay in the code ends: the function returns, or it waits with these variables. -/
inductive Outcome (T : Type) where
  | returned (c : Call T)
  | waiting (f : Frame)

section

variable [DecidableEq T]

/-- One turn of the loop, or the rest of the function: with interrupts disabled from the test of
the loop condition on. -/
def Frame.loop (f : Frame) (k : Kernel T Side) (mb : Mailbox) (now : BitVec 32) (t : T) :
    Option (Kernel T Side × Mailbox × Outcome T) :=
  if f.op.Stuck mb then
    if f.timeout = 0 then
      some (k.setError t f.op.refusalError, mb, .returned (f.op.failed t f.op.refusal))
    else
      ((k.setError t rtEok).rtIpcWait f.op.waitsIn t mb.flag f.timeout.toInt).map fun k' =>
        (k', mb, .waiting
          { f with tickDelta := if 0 < f.timeout.toInt then now else f.tickDelta })
  else some (k.resumeFirst f.op.wakes, f.op.transfer mb, .returned (f.op.done mb t))

/-- From the call to the first `rt_schedule`; a call that must not wait returns at once. -/
def Op.start (op : Op) (k : Kernel T Side) (mb : Mailbox) (now : BitVec 32) (t : T)
    (timeout : BitVec 32) : Option (Kernel T Side × Mailbox × Outcome T) :=
  if op.Stuck mb ∧ timeout = 0 then some (k, mb, .returned (op.failed t op.refusal))
  else Frame.loop { op := op, timeout := timeout, tickDelta := 0 } k mb now t

/-- From the return of `rt_schedule` to the next one. -/
def Frame.resume (f : Frame) (k : Kernel T Side) (mb : Mailbox) (now : BitVec 32) (t : T) :
    Option (Kernel T Side × Mailbox × Outcome T) :=
  if (k.tcb t).error ≠ rtEok then
    some (k, mb, .returned (f.op.failed t (k.tcb t).error))
  else
    Frame.loop { f with timeout := f.remaining now, tickDelta := f.elapsed now } k mb now t

/-- `rt_mb_send_wait` of the thread `t`, up to `rt_schedule`. -/
def rtMbSendWait (k : Kernel T Side) (mb : Mailbox) (now : BitVec 32) (t : T) (value : Mail)
    (timeout : BitVec 32) : Option (Kernel T Side × Mailbox × Outcome T) :=
  Op.start (.send value) k mb now t timeout

def rtMbSend (k : Kernel T Side) (mb : Mailbox) (now : BitVec 32) (t : T) (value : Mail) :
    Option (Kernel T Side × Mailbox × Outcome T) :=
  rtMbSendWait k mb now t value 0

/-- `rt_mb_recv` of the thread `t`, up to `rt_schedule`. -/
def rtMbRecv (k : Kernel T Side) (mb : Mailbox) (now : BitVec 32) (t : T)
    (timeout : BitVec 32) : Option (Kernel T Side × Mailbox × Outcome T) :=
  Op.start .recv k mb now t timeout

end

/-! ## Runs -/

/-- The kernel, the mailbox, the tick counter, the calls that wait, and the calls that have
stored or fetched a mail or failed, in this order. -/
structure State (T : Type) where
  kernel : Kernel T Side
  mb : Mailbox
  tick : BitVec 32
  call : T → Option Frame
  log : List (Call T)

/-- `interrupt` is a call of `rt_mb_send` by an interrupt handler while the thread `t` is the
current one. -/
inductive Action (T : Type) where
  | sendWait (t : T) (value : Mail) (timeout : BitVec 32)
  | send (t : T) (value : Mail)
  | recv (t : T) (timeout : BitVec 32)
  | interrupt (t : T) (value : Mail)
  | back (t : T)
  | tick
  | timeout (t : T)

def State.Idle (s : State T) (t : T) : Prop :=
  (s.kernel.tcb t).stat = .ready ∧ s.call t = none

instance (s : State T) (t : T) : Decidable (s.Idle t) := inferInstanceAs (Decidable (_ ∧ _))

section

variable [DecidableEq T]

/-- The state after a stay of `t` in the code; `f` is the call of `t` that goes on when this one
has returned, of which there is one under an interrupt only. -/
def State.after (s : State T) (t : T) (f : Option Frame) :
    Kernel T Side × Mailbox × Outcome T → State T
  | (k, mb, .returned c) =>
    { s with kernel := k, mb := mb, call := update s.call t f, log := s.log ++ [c] }
  | (k, mb, .waiting f') =>
    { s with kernel := k, mb := mb, call := update s.call t (some f') }

def step (s : State T) : Action T → Option (State T)
  | .sendWait t value timeout =>
    if s.Idle t then
      (rtMbSendWait s.kernel s.mb s.tick t value timeout).map (s.after t none)
    else none
  | .send t value =>
    if s.Idle t then (rtMbSend s.kernel s.mb s.tick t value).map (s.after t none) else none
  | .recv t timeout =>
    if s.Idle t then (rtMbRecv s.kernel s.mb s.tick t timeout).map (s.after t none) else none
  | .interrupt t value => (rtMbSend s.kernel s.mb s.tick t value).map (s.after t (s.call t))
  | .back t =>
    match s.call t with
    | some f =>
      if (s.kernel.tcb t).stat = .ready then
        (f.resume s.kernel s.mb s.tick t).map (s.after t none)
      else none
    | none => none
  | .tick => some { s with tick := s.tick + 1 }
  | .timeout t =>
    if (s.kernel.tcb t).timer.linked then
      (s.kernel.rtThreadTimeout t).map fun k => { s with kernel := k }
    else none

end

/-- A mailbox of `size` cells that `rt_mb_init` has made; nobody waits and no thread timer
runs. -/
structure Start (size : Nat) (s : State T) : Prop where
  mb : ∃ msgPool flag, s.mb = rtMbInit msgPool size flag
  wait : ∀ o, s.kernel.queue (.wait o) = []
  timer : ∀ t, (s.kernel.tcb t).timer.linked = false
  call : ∀ t, s.call t = none
  log : s.log = []

/-! ## What a step does -/

variable {s s' : State T} {mb : Mailbox}

section

variable [DecidableEq T]

inductive Turn (op : Op) (k : Kernel T Side) (mb : Mailbox) (t : T) :
    Kernel T Side × Mailbox × Outcome T → Prop where
  | giveUp (hstuck : op.Stuck mb) :
      Turn op k mb t (k.setError t op.refusalError, mb, .returned (op.failed t op.refusal))
  | wait {f : Frame} {k' time} (hop : f.op = op) (hstuck : op.Stuck mb)
      (hk : (k.setError t rtEok).rtIpcWait op.waitsIn t mb.flag time = some k') :
      Turn op k mb t (k', mb, .waiting f)
  | transfer (hfree : ¬ op.Stuck mb) :
      Turn op k mb t (k.resumeFirst op.wakes, op.transfer mb, .returned (op.done mb t))

lemma turn_of_loop {f : Frame} {k : Kernel T Side} {mb : Mailbox} {now : BitVec 32} {t : T}
    {r : Kernel T Side × Mailbox × Outcome T} (h : f.loop k mb now t = some r) :
    Turn f.op k mb t r := by
  unfold Frame.loop at h
  split at h
  · rename_i hstuck
    split at h
    · cases h
      exact .giveUp hstuck
    obtain ⟨k', hk, rfl⟩ := map_eq_some_iff.mp h
    exact .wait rfl hstuck hk
  rename_i hfree
  cases h
  exact .transfer hfree

section

variable {op : Op} {k : Kernel T Side} {now timeout : BitVec 32} {t : T}
  {r : Kernel T Side × Mailbox × Outcome T}

lemma stay_turn (h : Turn op k mb t r) : Stay mb.flag (some t) k r.1 ∧ r.2.1.flag = mb.flag := by
  cases h with
  | giveUp hstuck => exact ⟨.error t _ rfl, rfl⟩
  | wait hop hstuck hk => exact ⟨.wait t _ _ rfl hk, rfl⟩
  | transfer hfree => exact ⟨.resume _ rfl, by cases op <;> rfl⟩

lemma stay_start (h : op.start k mb now t timeout = some r) :
    Stay mb.flag (some t) k r.1 ∧ r.2.1.flag = mb.flag := by
  unfold Op.start at h
  split at h
  · cases h
    exact ⟨.quiet rfl, rfl⟩
  exact stay_turn (turn_of_loop h)

lemma stay_resume {f : Frame} (h : f.resume k mb now t = some r) :
    Stay mb.flag (some t) k r.1 ∧ r.2.1.flag = mb.flag := by
  unfold Frame.resume at h
  split at h
  · cases h
    exact ⟨.quiet rfl, rfl⟩
  exact stay_turn (turn_of_loop h)

end

/-- The steps. A call that fails at once and a call that an interrupt handler makes leave the
other calls as they are. -/
inductive Move (s : State T) : State T → Prop where
  | refuse {t : T} {op : Op} :
      Move s (s.after t (s.call t) (s.kernel, s.mb, .returned (op.failed t op.refusal)))
  | turn {t : T} {op : Op} {r} (hop : ∀ f ∈ s.call t, f.op = op)
      (hs : (s.kernel.tcb t).stat = .ready) (hr : Turn op s.kernel s.mb t r) :
      Move s (s.after t none r)
  | post {t : T} {op : Op} (hfree : ¬ op.Stuck s.mb) :
      Move s (s.after t (s.call t) (s.kernel.resumeFirst op.wakes, op.transfer s.mb,
        .returned (op.done s.mb t)))
  | expired {t : T} {f : Frame} (hf : s.call t = some f) (hs : (s.kernel.tcb t).stat = .ready)
      (he : (s.kernel.tcb t).error ≠ rtEok) :
      Move s (s.after t none
        (s.kernel, s.mb, .returned (f.op.failed t (s.kernel.tcb t).error)))
  | tick : Move s { s with tick := s.tick + 1 }
  | expire {t : T} {k} (hk : s.kernel.rtThreadTimeout t = some k) : Move s { s with kernel := k }

lemma move_start {t : T} {op : Op} {timeout : BitVec 32} (hi : s.Idle t)
    (h : (op.start s.kernel s.mb s.tick t timeout).map (s.after t none) = some s') : Move s s' := by
  obtain ⟨r, hr, rfl⟩ := map_eq_some_iff.mp h
  unfold Op.start at hr
  split at hr
  · cases hr
    rw [← hi.2]
    exact .refuse
  exact .turn (by simp [hi.2]) hi.1 (turn_of_loop hr)

lemma move_interrupt {t : T} {value : Mail}
    (h : (rtMbSend s.kernel s.mb s.tick t value).map (s.after t (s.call t)) = some s') :
    Move s s' := by
  obtain ⟨r, hr, rfl⟩ := map_eq_some_iff.mp h
  simp only [rtMbSend, rtMbSendWait, Op.start, and_true] at hr
  split at hr
  · cases hr
    exact .refuse
  rename_i hfree
  rw [Frame.loop, if_neg hfree] at hr
  cases hr
  exact .post hfree

lemma move_of_step {a : Action T} (h : step s a = some s') : Move s s' := by
  cases a with
  | sendWait t value timeout | send t value | recv t timeout =>
    simp only [step] at h
    split at h
    · rename_i hi
      exact move_start hi h
    simp at h
  | interrupt t value => exact move_interrupt h
  | back t =>
    simp only [step] at h
    split at h
    · rename_i f hf
      split at h
      · rename_i hs
        obtain ⟨r, hr, rfl⟩ := map_eq_some_iff.mp h
        unfold Frame.resume at hr
        split at hr
        · rename_i he
          cases hr
          exact .expired hf hs he
        exact .turn (by simp [hf]) hs (turn_of_loop hr)
      simp at h
    simp at h
  | tick =>
    cases h
    exact .tick
  | timeout t =>
    simp only [step] at h
    split at h
    · obtain ⟨k, hk, rfl⟩ := map_eq_some_iff.mp h
      exact .expire hk
    simp at h

end

/-! ## The invariant -/

def pend (call : T → Option Frame) (t : T) : Option Side := (call t).map fun f => f.op.waitsIn

def Call.Code : Call T → Prop
  | .sent _ _ err => err = rtEok ∨ err = -rtEfull ∨ err = -rtEtimeout
  | .received _ _ err => err = rtEok ∨ err = -rtEtimeout

/-- The threads in the two wait lists are those whose calls wait there, and what has been returned
is one of the codes. -/
structure Inv (s : State T) : Prop where
  blocked : Blocked s.kernel (pend s.call)
  code : ∀ c ∈ s.log, c.Code

lemma inv_start {size : Nat} {s : State T} (h : Start size s) : Inv s := by
  have hpend : ∀ t, pend s.call t = none := fun t => by simp [pend, h.call]
  exact ⟨.of_empty h.wait h.timer hpend, by simp [h.log]⟩

lemma code_done (op : Op) (mb : Mailbox) (t : T) : (op.done mb t).Code := by
  cases op <;> exact .inl rfl

lemma code_refused (op : Op) (t : T) : (op.failed t op.refusal).Code := by
  cases op with
  | send value => exact .inr (.inl rfl)
  | recv => exact .inr rfl

lemma code_expired (op : Op) (t : T) : (op.failed t (-rtEtimeout)).Code := by
  cases op with
  | send value => exact .inr (.inr rfl)
  | recv => exact .inr rfl

section

variable [DecidableEq T]

lemma pend_update (call : T → Option Frame) (t : T) (f : Option Frame) : pend (update call t f) =
      update (pend call) t (f.map fun f => f.op.waitsIn) := by
  funext u
  by_cases e : u = t
  · subst e
    simp [pend]
  simp [pend, e]

lemma inv_returned {t : T} {f : Option Frame} {k : Kernel T Side} {mb : Mailbox} {c : Call T}
    (h : Inv s) (hb : Blocked k (pend (update s.call t f))) (hc : c.Code) :
    Inv (s.after t f (k, mb, .returned c)) := by
  refine ⟨hb, ?_⟩
  intro c' hm
  rcases List.mem_append.mp hm with hm | hm
  · exact h.code c' hm
  rw [List.mem_singleton.mp hm]
  exact hc

lemma Inv.awake (h : Inv s) {t : T} (hs : (s.kernel.tcb t).stat = .ready) :
    Blocked s.kernel (pend (update s.call t none)) := by
  rw [pend_update]
  exact h.blocked.finish hs

lemma inv_turn (h : Inv s) {t : T} {op : Op} {r : Kernel T Side × Mailbox × Outcome T}
    (hs : (s.kernel.tcb t).stat = .ready) (hr : Turn op s.kernel s.mb t r) :
    Inv (s.after t none r) := by
  have hawake := h.awake hs
  have hnone : pend (update s.call t none) t = none := by simp [pend]
  cases hr with
  | giveUp hstuck =>
    exact inv_returned h (hawake.setError hnone _) (code_refused op t)
  | @wait f k' time hop hstuck hk =>
    -- the thread stops waiting and begins to wait: its place in the list is a new one
    have hpark := (hawake.setError hnone rtEok).wait_spec (by simpa using hs) hnone
      (by simp) hk
    refine ⟨?_, h.code⟩
    have hb := hpark.blocked
    rw [pend_update, update_idem, ← hop] at hb
    show Blocked k' (pend (update s.call t (some f)))
    rw [pend_update]
    exact hb
  | transfer hfree =>
    exact inv_returned h (hawake.resumeFirst _) (code_done op s.mb t)

lemma inv_move (h : Inv s) (hm : Move s s') : Inv s' := by
  cases hm with
  | @refuse t op =>
    refine inv_returned h ?_ (code_refused op t)
    rw [update_eq_self]
    exact h.blocked
  | turn hop hs hr => exact inv_turn h hs hr
  | @post t op hfree =>
    refine inv_returned h ?_ (code_done op s.mb t)
    rw [update_eq_self]
    exact h.blocked.resumeFirst _
  | @expired t f hf hs he =>
    -- a thread that runs is in no wait list, so its error number is that of the timer
    have hp : pend s.call t = some f.op.waitsIn := by simp [pend, hf]
    have herr : (s.kernel.tcb t).error = -rtEtimeout := by
      rcases h.blocked.pending hp with hq | ⟨-, hok | herr⟩
      · exact absurd hq (h.blocked.notMem_of_ready hs _)
      · exact absurd hok he
      exact herr
    rw [herr]
    exact inv_returned h (h.awake hs) (code_expired f.op t)
  | tick => exact ⟨h.blocked, h.code⟩
  | expire hk => exact ⟨h.blocked.timeout hk, h.code⟩

/-- **The codes.** In every run a send returns `RT_EOK`, `-RT_EFULL` or `-RT_ETIMEOUT` and a
receive `RT_EOK` or `-RT_ETIMEOUT`, and a thread is in a wait list exactly as long as it is
suspended by the call that waits there. -/
theorem inv_run {size : Nat} {s0 s : State T} {as : List (Action T)} (hs : Start size s0)
    (h : exec step s0 as = some s) : Inv s :=
  inv_of_exec (fun _ _ _ hu hstep => inv_move hu (move_of_step hstep)) (inv_start hs) h

end

/-! ## The order of the mails -/

def Call.storedMail : Call T → Option Mail
  | .sent _ value err => if err = rtEok then some value else none
  | .received _ _ _ => none

def Call.receivedMail : Call T → Option Mail
  | .sent _ _ _ => none
  | .received _ value err => if err = rtEok then value else none

def stored (s : State T) : List Mail := s.log.filterMap Call.storedMail

def received (s : State T) : List Mail := s.log.filterMap Call.receivedMail

def Mailbox.ring (mb : Mailbox) : CountRing.Ring Mail where
  cells := mb.msgPool
  size := mb.size
  entry := mb.entry
  inOffset := mb.inOffset
  outOffset := mb.outOffset

lemma advance_eq_next {mb : Mailbox} (hsize : mb.size < 2 ^ 16) {offset : Nat}
    (h : offset < mb.size) : mb.advance offset = LapRing.next mb.size offset := by
  unfold Mailbox.advance LapRing.next
  rw [Nat.mod_eq_of_lt (by omega)]

section

variable {st rc : List Mail}

lemma store_ring (hsize : mb.size < 2 ^ 16) (hin : mb.inOffset < mb.size)
    (hfree : mb.entry < mb.size) (value : Mail) : (mb.store value).ring = mb.ring.push value := by
  have hadv := advance_eq_next hsize hin
  have hent : (mb.entry + 1) % 2 ^ 16 = mb.entry + 1 := Nat.mod_eq_of_lt (by omega)
  simp only [Mailbox.ring, Mailbox.store, CountRing.Ring.push]
  rw [hadv, hent]

lemma fetch_ring (hsize : mb.size < 2 ^ 16) (hout : mb.outOffset < mb.size)
    (hitem : mb.entry ≠ 0) : mb.fetch.ring = mb.ring.pop := by
  have hadv := advance_eq_next hsize hout
  simp only [Mailbox.ring, Mailbox.fetch, CountRing.Ring.pop]
  rw [hadv, if_neg hitem]

lemma holds_store (hsize : mb.size < 2 ^ 16) (h : CountRing.Holds mb.ring st rc)
    (hfree : mb.entry ≠ mb.size) (value : Mail) :
    CountRing.Holds (mb.store value).ring (st ++ [value]) rc := by
  have hlt : mb.entry < mb.size := Nat.lt_of_le_of_ne h.le hfree
  rw [store_ring hsize h.inOffset_lt hlt]
  exact h.push hlt value

lemma holds_fetch (hsize : mb.size < 2 ^ 16) (h : CountRing.Holds mb.ring st rc)
    (hitem : mb.entry ≠ 0) :
    CountRing.Holds mb.fetch.ring st (rc ++ [mb.msgPool mb.outOffset]) := by
  rw [fetch_ring hsize h.outOffset_lt hitem]
  exact h.pop (pos_of_ne_zero hitem)

lemma holds_transfer (hsize : mb.size < 2 ^ 16) (h : CountRing.Holds mb.ring st rc) {op : Op}
    (hfree : ¬ op.Stuck mb) (t : T) :
    CountRing.Holds (op.transfer mb).ring (st ++ (op.done mb t).storedMail.toList)
      (rc ++ (op.done mb t).receivedMail.toList) := by
  cases op with
  | send value =>
    simpa [Op.done, Op.transfer, Call.storedMail, Call.receivedMail] using
      holds_store hsize h hfree value
  | recv =>
    simpa [Op.done, Op.transfer, Call.storedMail, Call.receivedMail] using holds_fetch hsize h hfree

end

lemma transfer_size (op : Op) (mb : Mailbox) : (op.transfer mb).size = mb.size := by
  cases op <;> rfl

lemma refusal_ne (op : Op) : op.refusal ≠ rtEok := by
  cases op <;> simp [Op.refusal, rtEfull, rtEtimeout, rtEok]

lemma stored_failed (op : Op) (t : T) {err : Int} (he : err ≠ rtEok) :
    (op.failed t err).storedMail = none := by
  cases op <;> simp [Op.failed, Call.storedMail, he]

lemma received_failed (op : Op) (t : T) (err : Int) : (op.failed t err).receivedMail = none := by
  cases op <;> simp [Op.failed, Call.receivedMail]

lemma err_done (op : Op) (mb : Mailbox) (t : T) : (op.done mb t).err = rtEok := by
  cases op <;> rfl

structure Fifo (size : Nat) (s : State T) : Prop where
  size_eq : s.mb.size = size
  holds : CountRing.Holds s.mb.ring (stored s) (received s)

lemma fifo_start {size : Nat} {s : State T} (hpos : 0 < size) (hsize : size < 2 ^ 16)
    (h : Start size s) : Fifo size s := by
  obtain ⟨msgPool, flag, hmb⟩ := h.mb
  have hsize_eq : s.mb.size = size := by
    rw [hmb]
    exact Nat.mod_eq_of_lt hsize
  refine ⟨hsize_eq, ?_⟩
  rw [stored, received, h.log]
  refine CountRing.holds_nil ?_ ?_ ?_ ?_
  · show 0 < s.mb.size
    omega
  all_goals simp [Mailbox.ring, hmb, rtMbInit]

section

variable [DecidableEq T] {size : Nat}

lemma stored_after (s : State T) (t : T) (f : Option Frame) (k : Kernel T Side) (mb : Mailbox)
    (c : Call T) : stored (s.after t f (k, mb, .returned c)) = stored s ++ c.storedMail.toList := by
  simp only [stored, State.after]
  cases h : c.storedMail <;> simp [h]

lemma received_after (s : State T) (t : T) (f : Option Frame) (k : Kernel T Side)
    (mb : Mailbox) (c : Call T) :
    received (s.after t f (k, mb, .returned c)) = received s ++ c.receivedMail.toList := by
  simp only [received, State.after]
  cases h : c.receivedMail <;> simp [h]

lemma Fifo.failed (h : Fifo size s) (t : T) (f : Option Frame) (k : Kernel T Side) (op : Op)
    {err : Int} (he : err ≠ rtEok) :
    Fifo size (s.after t f (k, s.mb, .returned (op.failed t err))) := by
  refine ⟨h.size_eq, ?_⟩
  rw [stored_after, received_after, stored_failed op t he, received_failed op t]
  simpa [State.after] using h.holds

lemma Fifo.transfer (h : Fifo size s) (hsize : size < 2 ^ 16) (t : T) (f : Option Frame)
    (k : Kernel T Side) {op : Op} (hfree : ¬ op.Stuck s.mb) :
    Fifo size (s.after t f (k, op.transfer s.mb, .returned (op.done s.mb t))) := by
  refine ⟨(transfer_size op s.mb).trans h.size_eq, ?_⟩
  rw [stored_after, received_after]
  exact holds_transfer (h.size_eq ▸ hsize) h.holds hfree t

lemma fifo_move (hsize : size < 2 ^ 16) (h : Fifo size s) (hm : Move s s') : Fifo size s' := by
  cases hm with
  | @refuse t op => exact h.failed t _ _ op (refusal_ne op)
  | @turn t op r hop hs hr =>
    cases hr with
    | giveUp hstuck => exact h.failed t none _ op (refusal_ne op)
    | wait hop hstuck hk => exact ⟨h.size_eq, h.holds⟩
    | transfer hfree => exact h.transfer hsize t none _ hfree
  | @post t op hfree => exact h.transfer hsize t _ _ hfree
  | @expired t f hf hs he => exact h.failed t none _ f.op he
  | tick | expire hk => exact ⟨h.size_eq, h.holds⟩

lemma mb_of_no_success (hm : Move s s') (hlog : ∀ c, s'.log = s.log ++ [c] → c.err ≠ rtEok) :
    s'.mb = s.mb := by
  cases hm with
  | refuse => rfl
  | @turn t op r hop hs hr =>
    cases hr with
    | giveUp hstuck => rfl
    | wait hop hstuck hk => rfl
    | transfer hfree => exact absurd (err_done op s.mb t) (hlog _ rfl)
  | @post t op hfree => exact absurd (err_done op s.mb t) (hlog _ rfl)
  | expired hf hs he => rfl
  | tick => rfl
  | expire hk => rfl

/-- **First in, first out.** In every state of every run on a mailbox of 1 to 65535 cells, the
mails returned by successful receives are the first of the mails stored by successful sends, the
counter is the number of those that are not received, it does not exceed the size, and the two
offsets differ by it modulo the size. A step that ends no call with `RT_EOK` (a call is refused,
waits, waits again, or returns an error) leaves the mailbox as it is. -/
theorem mailbox_fifo {size : Nat} {s₀ s : State T} {as : List (Action T)} (hpos : 1 ≤ size)
    (hsize : size ≤ 65535) (hs : Start size s₀) (h : exec step s₀ as = some s) :
    received s <+: stored s ∧
    s.mb.entry = (stored s).length - (received s).length ∧
    s.mb.entry ≤ s.mb.size ∧ s.mb.size = size ∧
    s.mb.inOffset = (s.mb.outOffset + s.mb.entry) % s.mb.size ∧
    (∀ a s', step s a = some s' → (∀ c, s'.log = s.log ++ [c] → c.err ≠ rtEok) → s'.mb = s.mb) := by
  have hlt : size < 2 ^ 16 := by omega
  have hfifo : Fifo size s := by
    refine inv_of_exec ?_ (fifo_start hpos hlt hs) h
    intro u a u' hu hstep
    exact fifo_move hlt hu (move_of_step hstep)
  have hcount : (received s).length + s.mb.entry = (stored s).length := hfifo.holds.count
  refine ⟨hfifo.holds.before, by omega, hfifo.holds.le, hfifo.size_eq, hfifo.holds.inOffset_eq, ?_⟩
  intro a s' hstep hlog
  exact mb_of_no_success (move_of_step hstep) hlog

end

def threeThreads : State (Fin 3) where
  kernel := Kernel.ready ![20, 20, 10]
  mb := rtMbInit (fun _ => 0) 1 .fifo
  tick := 0xffffffff
  call := fun _ => none
  log := []

/-- The mailbox is full when the second thread wants to send 8. It is resumed when the first mail
is fetched, but before it runs an interrupt has stored a 9. It waits again and its time is
up. -/
def overtaken : List (Action (Fin 3)) :=
  [.send 0 7, .sendWait 1 8 5, .tick, .recv 2 0xffffffff, .interrupt 0 9, .back 1, .timeout 1,
    .back 1]

theorem inv_run_overtaken : ∃ s, exec step threeThreads overtaken = some s ∧ Inv s := by
  have hsome : (exec step threeThreads overtaken).isSome = true := by decide +kernel
  obtain ⟨s, hs⟩ := Option.isSome_iff_exists.mp hsome
  have hstart : Start 1 threeThreads := ⟨⟨_, _, rfl⟩, fun _ => rfl, fun _ => rfl, fun _ => rfl, rfl⟩
  exact ⟨s, hs, inv_run hstart hs⟩

theorem mailbox_fifo_overtaken :
    Start 1 threeThreads ∧ ∃ s, exec step threeThreads overtaken = some s ∧
      stored s = [7, 9] ∧ received s = [7] ∧ s.mb.entry = 1 ∧
      s.log.getLast? = some (.sent 1 8 (-rtEtimeout)) := by
  obtain ⟨s, hs, hst, hrc, hlast⟩ : ∃ s, exec step threeThreads overtaken = some s ∧
      stored s = [7, 9] ∧ received s = [7] ∧
      s.log.getLast? = some (.sent 1 8 (-rtEtimeout)) := by decide +kernel
  have hstart : Start 1 threeThreads := ⟨⟨_, _, rfl⟩, fun _ => rfl, fun _ => rfl, fun _ => rfl, rfl⟩
  have hentry := (mailbox_fifo (by decide) (by decide) hstart hs).2.1
  rw [hst, hrc] at hentry
  exact ⟨hstart, s, hs, hst, hrc, hentry, hlast⟩

end NbIot.Mailboxes
