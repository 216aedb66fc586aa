import NbIot.Basic.Run
import NbIot.Basic.SkipList
import NbIot.Basic.WrapClock

/-! # The system timers

`rt_timer_start`, `rt_timer_stop`, `rt_timer_detach`, `rt_timer_control` and `rt_timer_check` of
`timer.c`, and the tick counter of `clock.c`. The running timers are linked in `rt_timer_list`, a
skip list with `RT_TIMER_SKIP_LIST_LEVEL` rows. The timers of `RT_USING_TIMER_SOFT` are not
configured.

* Tick counts are 32-bit words, and so is `random_nr`, which decides in how many rows a timer is
  linked. `none` is a failed assertion.
* `rt_timer_check` is several steps: it takes the first timer out of the list and runs its timeout
  function, which may make calls on any timer, and goes on with the timer when the function has
  returned. The counter stands still until then.

The state also has the numbers of the latest starts and the set of timers that have been detached
and not started since.
-/

namespace NbIot.Timers

open WrapClock Function Option

/-! ## Timers -/

variable {τ : Type}

/-- `RT_TIMER_SKIP_LIST_LEVEL - 1` and `RT_TIMER_SKIP_LIST_MASK`. -/
structure Config where
  last : Nat
  mask : BitVec 32

/-- `struct rt_timer`, with two bits of `parent.flag`. -/
structure Timer where
  initTick : BitVec 32
  timeoutTick : BitVec 32
  periodic : Bool
  activated : Bool
  deriving DecidableEq

/-- Where the kernel is: outside the calls below, in `rt_tick_increase` before `rt_timer_check`, in
the loop of `rt_timer_check`, or in the timeout function that this loop has called for a timer. -/
inductive Phase (τ : Type) where
  | idle
  | ticked
  | checking (currentTick : BitVec 32)
  | firing (t : τ)
  deriving DecidableEq

structure State (τ : Type) where
  tick : BitVec 32
  timer : τ → Timer
  row : Nat → List τ
  randomNr : BitVec 32
  phase : Phase τ
  starts : Nat
  started : τ → Nat
  detached : τ → Bool

/-- After `rt_system_timer_init` and `rt_timer_init`: no timer has been started. -/
structure Start (s : State τ) : Prop where
  row : ∀ i, s.row i = []
  activated : ∀ t, (s.timer t).activated = false
  phase : s.phase = .idle
  detached : ∀ t, s.detached t = false

/-- `rt_timer_list_next_timeout`; `RT_TICK_MAX` if no timer is running. -/
def rtTimerNextTimeoutTick (c : Config) (s : State τ) : BitVec 32 :=
  match s.row c.last with
  | [] => 0xffffffff
  | t :: _ => (s.timer t).timeoutTick

/-! ## The functions of `timer.c` -/

section

variable [DecidableEq τ] {s s' : State τ} {c : Config}

def rtTimerRemove (s : State τ) (t : τ) : State τ := { s with row := SkipList.remove t s.row }

/-- The timer `t` is written to. -/
def State.write (s : State τ) (t : τ) (x : Timer) : State τ :=
  { s with timer := update s.timer t x }

/-- `RT_TIMER_FLAG_ACTIVATED` is set or cleared. -/
def State.setActivated (s : State τ) (t : τ) (b : Bool) : State τ :=
  s.write t { s.timer t with activated := b }

/-- The test of the loop in `rt_timer_start` on the next timer `u` of a row: those that are due
before the new timer, or with it, are passed. -/
def passes (timer : τ → Timer) (timeout : BitVec 32) (u : τ) : Bool :=
  (timer u).timeoutTick - timeout = 0 ∨ ¬ (timer u).timeoutTick - timeout < half

/-- The last loop of `rt_timer_start`: from row `i` upwards, the row in which it stops. -/
def topRow (mask : BitVec 32) : BitVec 32 → Nat → Nat
  | _, 0 => 0
  | tstNr, i + 1 =>
    if tstNr &&& mask = 0 then topRow mask (tstNr >>> ((mask + 1) >>> 1).toNat) i else i + 1

def State.link (c : Config) (s : State τ) (t : τ) : State τ :=
  let randomNr := s.randomNr + 1
  { s with
    row := SkipList.insert (passes s.timer (s.timer t).timeoutTick) t s.row
      (topRow c.mask randomNr c.last)
    randomNr := randomNr
    starts := s.starts + 1
    started := update s.started t s.starts }

def rtTimerStart (c : Config) (s : State τ) (t : τ) : Option (State τ) :=
  let s := (rtTimerRemove s t).setActivated t false
  if (s.timer t).initTick < half then
    let s := s.write t { s.timer t with timeoutTick := s.tick + (s.timer t).initTick }
    some ((s.link c t).setActivated t true)
  else none

/-- `RT_EOK` and `-RT_ERROR`. -/
inductive Err where
  | ok
  | error
  deriving DecidableEq

def rtTimerStop (s : State τ) (t : τ) : Err × State τ :=
  if (s.timer t).activated then (.ok, (rtTimerRemove s t).setActivated t false)
  else (.error, s)

def rtTimerDetach (s : State τ) (t : τ) : State τ := rtTimerRemove s t

/-- The commands of `rt_timer_control`. -/
inductive Cmd where
  | getTime
  | setTime (time : BitVec 32)
  | setOneshot
  | setPeriodic
  deriving DecidableEq

/-- `rt_timer_control`, with the value that it stores for the caller. -/
def rtTimerControl (s : State τ) (t : τ) : Cmd → Option (BitVec 32) × State τ
  | .getTime => (some (s.timer t).initTick, s)
  | .setTime time => (none, s.write t { s.timer t with initTick := time })
  | .setOneshot => (none, s.write t { s.timer t with periodic := false })
  | .setPeriodic => (none, s.write t { s.timer t with periodic := true })

/-! ## Ticks and timeouts -/

def dueTimer (c : Config) (s : State τ) (currentTick : BitVec 32) : Option τ :=
  match s.row c.last with
  | [] => none
  | t :: _ => if currentTick - (s.timer t).timeoutTick < half then some t else none

/-- `rt_timer_check` after the timeout function of `t` has returned. -/
def afterTimeout (c : Config) (s : State τ) (t : τ) : Option (State τ) :=
  let s := { s with phase := .checking s.tick }
  if (s.timer t).periodic ∧ (s.timer t).activated then
    rtTimerStart c (s.setActivated t false) t
  else some (s.setActivated t false)

/-- A call of the application, or a part of `rt_tick_increase`: the counter is advanced,
`rt_timer_check` is entered, calls the timeout function of `t`, gets control back from it, or
returns. -/
inductive Action (τ : Type) where
  | start (t : τ)
  | stop (t : τ)
  | detach (t : τ)
  | control (t : τ) (cmd : Cmd)
  | tick
  | check
  | timeout (t : τ)
  | back
  | leave
  deriving DecidableEq

/-- Calls can be made here: also by an interrupt before `rt_timer_check`, and by a timeout
function. -/
def Phase.open : Phase τ → Bool
  | .checking _ => false
  | _ => true

def step (c : Config) (s : State τ) : Action τ → Option (State τ)
  | .start t =>
    if s.phase.open then
      (rtTimerStart c s t).map fun s => { s with detached := update s.detached t false }
    else none
  | .stop t => if s.phase.open then some (rtTimerStop s t).2 else none
  | .detach t =>
    if s.phase.open then
      some { rtTimerDetach s t with detached := update s.detached t true }
    else none
  | .control t cmd => if s.phase.open then some (rtTimerControl s t cmd).2 else none
  | .tick =>
    if s.phase = .idle then some { s with tick := s.tick + 1, phase := .ticked } else none
  | .check =>
    if s.phase = .idle ∨ s.phase = .ticked then some { s with phase := .checking s.tick }
    else none
  | .timeout t =>
    match s.phase with
    | .checking currentTick =>
      if dueTimer c s currentTick = some t then
        some { rtTimerRemove s t with phase := .firing t }
      else none
    | _ => none
  | .back =>
    match s.phase with
    | .firing t => afterTimeout c s t
    | _ => none
  | .leave =>
    match s.phase with
    | .checking currentTick =>
      if dueTimer c s currentTick = none then some { s with phase := .idle } else none
    | _ => none

lemma topRow_le (mask tstNr : BitVec 32) (i : Nat) : topRow mask tstNr i ≤ i := by
  induction i generalizing tstNr with
  | zero => exact le_refl 0
  | succ i ih =>
    rw [topRow]
    split
    · exact (ih _).trans (Nat.le_succ i)
    exact le_rfl

/-! ## Steps -/

/-- The state after `rt_timer_start`. -/
structure Started (c : Config) (s : State τ) (t : τ) (s' : State τ) : Prop where
  init : (s.timer t).initTick < half
  timer : s'.timer = update s.timer t
    { s.timer t with timeoutTick := s.tick + (s.timer t).initTick, activated := true }
  row : ∃ m ≤ c.last, s'.row = SkipList.insert (passes s'.timer (s'.timer t).timeoutTick) t
    (SkipList.remove t s.row) m
  starts : s'.starts = s.starts + 1
  started : s'.started = update s.started t s.starts
  tick : s'.tick = s.tick
  phase : s'.phase = s.phase
  detached : s'.detached = s.detached

lemma started_of_rtTimerStart {t : τ} (h : rtTimerStart c s t = some s') : Started c s t s' := by
  simp only [rtTimerStart] at h
  split at h
  · rename_i hinit
    cases h
    refine ⟨?_, ?_, ⟨_, topRow_le c.mask (s.randomNr + 1) c.last, ?_⟩, rfl, rfl, rfl, rfl, rfl⟩
    · simpa [State.setActivated, State.write, rtTimerRemove] using hinit
    · simp [State.setActivated, State.write, rtTimerRemove, State.link]
    -- the walk reads only `timeout_tick`, which is not written to any more
    simp only [State.setActivated, State.write, State.link]
    congr 1
    funext u
    by_cases hu : u = t
    · subst hu
      simp [passes]
    simp [passes, update_of_ne hu]
  simp at h

inductive Move (c : Config) (s : State τ) : Action τ → State τ → Prop
  | start (t : τ) (s₁ : State τ) (ho : s.phase.open = true) (h : Started c s t s₁) :
      Move c s (.start t) { s₁ with detached := update s₁.detached t false }
  | stop (t : τ) (ho : s.phase.open = true) (ha : (s.timer t).activated = true) :
      Move c s (.stop t) ((rtTimerRemove s t).setActivated t false)
  | stopError (t : τ) (ho : s.phase.open = true) (ha : (s.timer t).activated = false) :
      Move c s (.stop t) s
  | detach (t : τ) (ho : s.phase.open = true) : Move c s (.detach t)
        { rtTimerRemove s t with detached := update s.detached t true }
  | control (t : τ) (cmd : Cmd) (ho : s.phase.open = true) :
      Move c s (.control t cmd) (rtTimerControl s t cmd).2
  | tick (hp : s.phase = .idle) : Move c s .tick { s with tick := s.tick + 1, phase := .ticked }
  | check (hp : s.phase = .idle ∨ s.phase = .ticked) :
      Move c s .check { s with phase := .checking s.tick }
  | timeout (t : τ) (x : BitVec 32) (hp : s.phase = .checking x) (hd : dueTimer c s x = some t) :
      Move c s (.timeout t) { rtTimerRemove s t with phase := .firing t }
  | restart (t : τ) (s₁ : State τ) (hp : s.phase = .firing t)
      (hper : (s.timer t).periodic = true) (ha : (s.timer t).activated = true)
      (h : Started c ({ s with phase := .checking s.tick }.setActivated t false) t s₁) :
      Move c s .back s₁
  | finish (t : τ) (hp : s.phase = .firing t)
      (hno : ¬ ((s.timer t).periodic = true ∧ (s.timer t).activated = true)) :
      Move c s .back ({ s with phase := .checking s.tick }.setActivated t false)
  | leave (x : BitVec 32) (hp : s.phase = .checking x) (hd : dueTimer c s x = none) :
      Move c s .leave { s with phase := .idle }

lemma move_of_step {a : Action τ} (h : step c s a = some s') :
    Move c s a s' := by
  cases a with
  | start t =>
    simp only [step, ite_none_right_eq_some, map_eq_some_iff] at h
    obtain ⟨ho, s1, hs1, rfl⟩ := h
    exact .start t s1 ho (started_of_rtTimerStart hs1)
  | stop t =>
    simp only [step, ite_none_right_eq_some, Option.some.injEq] at h
    obtain ⟨ho, rfl⟩ := h
    unfold rtTimerStop
    split
    · exact .stop t ho ‹_›
    exact .stopError t ho (Bool.eq_false_iff.mpr ‹_›)
  | detach t =>
    simp only [step, ite_none_right_eq_some, Option.some.injEq] at h
    obtain ⟨ho, rfl⟩ := h
    exact .detach t ho
  | control t cmd =>
    simp only [step, ite_none_right_eq_some, Option.some.injEq] at h
    obtain ⟨ho, rfl⟩ := h
    exact .control t cmd ho
  | tick =>
    simp only [step, ite_none_right_eq_some, Option.some.injEq] at h
    obtain ⟨hp, rfl⟩ := h
    exact .tick hp
  | check =>
    simp only [step, ite_none_right_eq_some, Option.some.injEq] at h
    obtain ⟨hp, rfl⟩ := h
    exact .check hp
  | timeout t =>
    simp only [step] at h
    split at h
    · rename_i x hp
      simp only [ite_none_right_eq_some, Option.some.injEq] at h
      obtain ⟨hd, rfl⟩ := h
      exact .timeout t x hp hd
    simp at h
  | back =>
    simp only [step] at h
    split at h
    · rename_i t hp
      simp only [afterTimeout] at h
      split at h
      · rename_i hcond
        exact .restart t s' hp hcond.1 hcond.2 (started_of_rtTimerStart h)
      rename_i hcond
      cases h
      exact .finish t hp hcond
    simp at h
  | leave =>
    simp only [step] at h
    split at h
    · rename_i x hp
      simp only [ite_none_right_eq_some, Option.some.injEq] at h
      obtain ⟨hd, rfl⟩ := h
      exact .leave x hp hd
    simp at h

end

end NbIot.Timers
