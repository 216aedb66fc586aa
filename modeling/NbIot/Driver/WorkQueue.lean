import NbIot.Kernel.Thread

/-! # Work queues

`_workqueue_thread_entry`, `rt_workqueue_dowork` and `rt_workqueue_cancel_work` of `workqueue.c`:
one worker, and any number of threads that put work into its list or take it out again.

* What is done between `rt_enter_critical` and `rt_exit_critical` is one step. Everything else can
  be preempted: the worker between its test of the list, its suspension and its taking of a work,
  and a call of `rt_workqueue_dowork` between its section and the three of `rt_thread_resume`.
* `call c` is how far the call of the thread `c` is behind its section.
* In an empty list `rt_list_entry` makes a work of the list head. Such a work is `none` in `taken`.
* A call that is late would insert the worker into a ready list which it is in already. That breaks
  the ring of the list, which a list of threads does not show, so careful runs have no late call.
-/

namespace NbIot.WorkQueues

open Kernel Run Function

/-! ## The worker and the callers -/

variable {T O C W : Type}

/-- Where the worker is: before its test of the list; behind it, with an empty list; behind
`rt_thread_suspend`; before the critical section; in the work function. -/
inductive Pc where
  | test
  | suspending
  | asleep
  | take
  | working
  deriving DecidableEq

/-- How far a call of `rt_workqueue_dowork` is: there is none; before `rt_thread_resume`; behind its
test of `stat`; behind its removal of the thread from the list it waits in. -/
inductive Call where
  | idle
  | called
  | tested
  | unlinked
  deriving DecidableEq

/-- The kernel, the worker, `work_list`, the calls, and the works that the worker has taken. -/
structure State (T O C W : Type) where
  kernel : Kernel T O
  pc : Pc
  list : List W
  call : C → Call
  taken : List (Option W)

inductive Action (C W : Type) where
  | worker
  | put (c : C) (work : W)
  | resume (c : C)
  | cancel (work : W)

section

variable [DecidableEq T] [DecidableEq O] [DecidableEq C] [DecidableEq W]

/-- `rt_list_remove(&(work->list))`. -/
def remove (list : List W) (work : W) : List W := list.filter (· ≠ work)

def workerStep (w : T) (s : State T O C W) : State T O C W :=
  match s.pc with
  | .test => { s with pc := if s.list = [] then .suspending else .take }
  | .suspending => { s with pc := .asleep, kernel := (s.kernel.rtThreadSuspend w).1 }
  | .asleep => { s with pc := .take }
  | .take => { s with pc := .working, list := s.list.tail, taken := s.taken ++ [s.list.head?] }
  | .working => { s with pc := .test }

/-- A step of `rt_thread_resume(queue->work_thread)` in the call of `c`. -/
def resumeStep (w : T) (s : State T O C W) (c : C) : Option (State T O C W) :=
  match s.call c with
  | .idle => none
  | .called =>
    if (s.kernel.tcb w).stat ≠ .suspend then
      some { s with call := update s.call c .idle }
    else some { s with call := update s.call c .tested }
  | .tested =>
    some { s with
      kernel := (s.kernel.rtListRemove w).rtTimerStop w
      call := update s.call c .unlinked }
  | .unlinked =>
    -- faithful for a worker in no list; one that another call has inserted keeps its old links in
    -- the source, and `Careful` rules that out
    some { s with
      kernel := s.kernel.rtScheduleInsertThread w, call := update s.call c .idle }

def step (w : T) (s : State T O C W) : Action C W → Option (State T O C W)
  | .worker => if (s.kernel.tcb w).stat = .ready then some (workerStep w s) else none
  | .put c work =>
    if s.call c = .idle then
      some { s with
        list := remove s.list work ++ [work]
        call := update s.call c
          (if (s.kernel.tcb w).stat ≠ .ready then .called else .idle) }
    else none
  | .resume c => resumeStep w s c
  | .cancel work => some { s with list := remove s.list work }

end

/-! ## The law -/

structure Start (w : T) (s : State T O C W) : Prop where
  ready : (s.kernel.tcb w).stat = .ready
  pc : s.pc = .test
  call : ∀ c, s.call c = .idle
  taken : s.taken = []

def Attended (w : T) (s : State T O C W) : Prop :=
  (s.kernel.tcb w).stat = .suspend → s.list ≠ [] → ∃ c, s.call c ≠ .idle

/-- What the callers would have to see to: no work is put into the list while the worker has found
it empty and has not suspended itself; none is cancelled as the last one while the worker sleeps or
is about to take it; `rt_thread_resume` finds the worker suspended as long as it is at work on it,
and makes it ready only while there is work. -/
def Careful [DecidableEq W] (w : T) (s : State T O C W) : Action C W → Prop
  | .worker => True
  | .put _ _ => s.pc ≠ .suspending
  | .resume c => (s.call c = .tested ∨ s.call c = .unlinked → (s.kernel.tcb w).stat = .suspend) ∧
      (s.call c = .unlinked → s.list ≠ [])
  | .cancel work => s.pc = .asleep ∨ s.pc = .take → s.list ≠ [] → remove s.list work ≠ []

instance [DecidableEq W] (w : T) (s : State T O C W) (a : Action C W) :
    Decidable (Careful w s a) := by
  cases a <;> unfold Careful <;> infer_instance

/-! ## The invariant -/

structure Inv (w : T) (s : State T O C W) : Prop where
  stat : (s.kernel.tcb w).stat = .ready ∨ (s.kernel.tcb w).stat = .suspend ∧ s.pc = .asleep
  suspending : s.pc = .suspending → s.list = []
  woken : s.pc = .asleep → (s.kernel.tcb w).stat = .ready → s.list ≠ []
  take : s.pc = .take → s.list ≠ []
  attended : Attended w s
  taken : none ∉ s.taken

lemma inv_start {w : T} {s : State T O C W} (h : Start w s) : Inv w s where
  stat := .inl h.ready
  suspending := fun hpc => by simp [h.pc] at hpc
  woken := fun hpc => by simp [h.pc] at hpc
  take := fun hpc => by simp [h.pc] at hpc
  attended := fun hs => absurd (hs.symm.trans h.ready) (by simp)
  taken := by simp [h.taken]

section

variable {w : T} {s s' : State T O C W}

lemma inv_worker [DecidableEq T] (h : Inv w s) (hs : (s.kernel.tcb w).stat = .ready) :
    Inv w (workerStep w s) := by
  have hawake : ∀ {k : Kernel T O}, k = s.kernel → (k.tcb w).stat ≠ .suspend := by
    simp [hs]
  unfold workerStep
  cases hpc : s.pc with
  | test =>
    by_cases hlist : s.list = []
    · simp only [if_pos hlist]
      exact ⟨.inl hs, fun _ => hlist, by simp, by simp, fun hsus => absurd hsus (hawake rfl),
        h.taken⟩
    simp only [if_neg hlist]
    exact ⟨.inl hs, by simp, by simp, fun _ => hlist, fun hsus => absurd hsus (hawake rfl), h.taken⟩
  | suspending =>
    have hlist := h.suspending hpc
    have htcb : (((s.kernel.rtThreadSuspend w).1).tcb w).stat = .suspend := by
      simp [rtThreadSuspend_tcb hs]
    refine ⟨.inr ⟨htcb, rfl⟩, by simp, fun _ hready => ?_, by simp,
      fun _ hne => absurd hlist hne, h.taken⟩
    exact absurd (htcb.symm.trans hready) (by simp)
  | asleep =>
    exact ⟨.inl hs, by simp, by simp, fun _ => h.woken hpc hs,
      fun hsus => absurd hsus (hawake rfl), h.taken⟩
  | take =>
    refine ⟨.inl hs, by simp, by simp, by simp, fun hsus => absurd hsus (hawake rfl), ?_⟩
    -- there is a first work to take
    obtain ⟨x, l, hlist⟩ := List.exists_cons_of_ne_nil (h.take hpc)
    simp [hlist, h.taken]
  | working =>
    exact ⟨.inl hs, by simp, by simp, by simp, fun hsus => absurd hsus (hawake rfl), h.taken⟩

lemma inv_cancel [DecidableEq W] (h : Inv w s) {work : W}
    (hcancel : s.pc = .asleep ∨ s.pc = .take → s.list ≠ [] → remove s.list work ≠ []) :
    Inv w { s with list := remove s.list work } := by
  have hless : ∀ {list : List W}, list = [] → remove list work = [] := by
    rintro list rfl
    rfl
  refine ⟨h.stat, fun hpc => hless (h.suspending hpc), ?_, ?_, ?_, h.taken⟩
  · exact fun hpc hs => hcancel (.inl hpc) (h.woken hpc hs)
  · exact fun hpc => hcancel (.inr hpc) (h.take hpc)
  exact fun hsus hne => h.attended hsus fun hnil => hne (hless hnil)

variable [DecidableEq C] {k : Kernel T O}

lemma inv_put [DecidableEq W] (h : Inv w s) (hpc : s.pc ≠ .suspending) (c : C) (work : W) :
    Inv w { s with
      list := remove s.list work ++ [work]
      call := update s.call c
        (if (s.kernel.tcb w).stat ≠ .ready then .called else .idle) } := by
  have hlist : remove s.list work ++ [work] ≠ [] := by simp
  refine ⟨h.stat, fun hsus => absurd hsus hpc, fun _ _ => hlist, fun _ => hlist, ?_, h.taken⟩
  intro hsus _
  refine ⟨c, ?_⟩
  have hne : (s.kernel.tcb w).stat ≠ .ready := by
    rw [show (s.kernel.tcb w).stat = .suspend from hsus]
    simp
  simp [hne]

lemma inv_call (h : Inv w s) (hk : (k.tcb w).stat = (s.kernel.tcb w).stat) (c : C)
    {next : Call} (hnext : next ≠ .idle) :
    Inv w { s with kernel := k, call := update s.call c next } := by
  refine ⟨?_, h.suspending, fun hpc hs => h.woken hpc (hk ▸ hs), h.take, fun _ _ => ⟨c, ?_⟩,
    h.taken⟩
  · rw [hk]
    exact h.stat
  simpa using hnext

lemma inv_ready (h : Inv w s) (hk : (k.tcb w).stat = .ready)
    (hlist : (s.kernel.tcb w).stat = .suspend → s.list ≠ []) (c : C) :
    Inv w { s with kernel := k, call := update s.call c .idle } := by
  refine ⟨.inl hk, h.suspending, fun hpc _ => ?_, h.take, fun hsus => ?_, h.taken⟩
  · rcases h.stat with hs | ⟨hs, -⟩
    · exact h.woken hpc hs
    exact hlist hs
  exact absurd (hk.symm.trans hsus) (by simp)

variable [DecidableEq T] [DecidableEq O] [DecidableEq W]

lemma inv_resume (h : Inv w s) {c : C} (hC : Careful w s (.resume c))
    (hstep : resumeStep w s c = some s') : Inv w s' := by
  unfold resumeStep at hstep
  split at hstep
  · cases hstep
  · split at hstep
    · rename_i hs
      cases hstep
      have hready := h.stat.resolve_right fun hsus => hs hsus.1
      exact inv_ready h hready (fun hsus => absurd hsus hs) c
    cases hstep
    exact inv_call h rfl c (by simp)
  · cases hstep
    exact inv_call h (by simp) c (by simp)
  rename_i hcall
  cases hstep
  exact inv_ready h (by simp) (fun _ => hC.2 hcall) c

lemma inv_step {a : Action C W} (h : Inv w s) (hC : Careful w s a) (hstep : step w s a = some s') :
    Inv w s' := by
  cases a with
  | worker =>
    simp only [step] at hstep
    split at hstep
    · rename_i hs
      cases hstep
      exact inv_worker h hs
    cases hstep
  | put c work =>
    simp only [step] at hstep
    split at hstep
    · cases hstep
      exact inv_put h hC c work
    cases hstep
  | resume c => exact inv_resume h hC hstep
  | cancel work =>
    cases hstep
    exact inv_cancel h hC

/-- **The work queue.** In every run of the worker with any number of threads whose calls are
careful, no state is reached in which the worker is suspended with work in its list and no call of
`rt_workqueue_dowork` in progress, and the worker has not taken a work from an empty list. -/
theorem workqueue_attended (w : T) (s s' : State T O C W) (hstart : Start w s)
    (as : List (Action C W)) (h : exec (step w) s as = some s')
    (hcareful : Meets (step w) (Careful w) s as) : Attended w s' ∧ none ∉ s'.taken := by
  have hinv : Inv w s' := inv_of_meets (fun u a u' hu hC hu' => inv_step hu hC hu')
    (inv_start hstart) hcareful h
  exact ⟨hinv.attended, hinv.taken⟩

end

def started : State (Fin 1) Unit Unit Nat :=
  ⟨Kernel.ready fun _ => 10, .test, [], fun _ => .idle, []⟩

lemma start_started : Start 0 started := ⟨rfl, rfl, fun _ => rfl, rfl⟩

def oneWork : List (Action Unit Nat) :=
  [.worker, .worker, .put () 7, .resume (), .resume (), .resume (), .worker, .worker]

theorem workqueue_attended_one :
    ∃ s, exec (step 0) started oneWork = some s ∧ s.taken = [some 7] ∧ Attended 0 s := by
  obtain ⟨s, hs, htaken⟩ : ∃ s, exec (step 0) started oneWork = some s ∧ s.taken = [some 7] :=
    ⟨_, rfl, by decide⟩
  exact ⟨s, hs, htaken, (workqueue_attended 0 started s start_started oneWork hs (by decide)).1⟩

/-- A work that is put into the list between the test and the suspension is not seen; and when a
work is cancelled before the worker that was woken for it runs, the worker takes the list head. -/
theorem worker_sleeps_on_work : (∃ s, exec (step 0) started [.worker, .put () 7, .worker] = some s ∧
      (s.kernel.tcb 0).stat = .suspend ∧ s.list = [7] ∧ s.call () = .idle) ∧
    ∃ s, exec (step 0) started [.worker, .worker, .put () 7, .resume (), .resume (), .resume (),
        .cancel 7, .worker, .worker] = some s ∧ s.taken = [none] :=
  ⟨⟨_, rfl, by decide, by decide, by decide⟩, ⟨_, rfl, by decide⟩⟩

end NbIot.WorkQueues
