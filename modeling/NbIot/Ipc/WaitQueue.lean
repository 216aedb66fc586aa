import NbIot.Kernel.Thread

/-! # Threads that wait for an object

A blocking call suspends its thread into the wait list of the object, starts the thread timer if it
has a time limit, and calls `rt_schedule`; the thread runs on when another one has resumed it, or
when its timer has expired, and tells the two apart by `thread->error`.

`pend t` is the wait list on which the thread `t` has been suspended by a call that has not looked
at `thread->error` yet. `Blocked k pend` relates it to the kernel. The scheduler is left open in all
of this: after a step of one thread any ready thread may take the next one.
-/

namespace NbIot

open Queues Function

/-! ## The functions of `ipc.c` -/

/-- `RT_IPC_FLAG_FIFO` and `RT_IPC_FLAG_PRIO`. -/
inductive IpcFlag where
  | fifo
  | prio
  deriving DecidableEq

/-- What is left at `now` of the time of a call that began to wait at `since`: an `rt_int32_t` from
which an unsigned number is subtracted. A call without a time limit keeps it. -/
def remaining (time since now : BitVec 32) : BitVec 32 :=
  if 0 < time.toInt then
    if (time - (now - since)).toInt < 0 then 0 else time - (now - since)
  else time

namespace Kernel

variable {T O : Type} [DecidableEq T] [DecidableEq O]

/-- The place of `t` in a wait list: at the end, or before the first thread with a numerically
larger priority. -/
def insertWaiter (k : Kernel T O) (flag : IpcFlag) (t : T) (l : List T) : List T :=
  match flag with
  | .fifo => l ++ [t]
  | .prio => l.orderedInsert (fun u v => (k.tcb u).currentPriority < (k.tcb v).currentPriority) t

/-- The thread is suspended and put into the wait list of `o`, which becomes `l`. -/
def suspendInto (k : Kernel T O) (o : O) (t : T) (l : List T) : Kernel T O :=
  (k.rtThreadSuspend t).1.setQueue (update (k.rtThreadSuspend t).1.queue (.wait o) l)

/-- `rt_ipc_list_suspend`; what `rt_thread_suspend` returns is not looked at. -/
def rtIpcListSuspend (k : Kernel T O) (o : O) (t : T) (flag : IpcFlag) : Kernel T O :=
  (k.rtThreadSuspend t).1.setQueue (update (k.rtThreadSuspend t).1.queue (.wait o)
    ((k.rtThreadSuspend t).1.insertWaiter flag t ((k.rtThreadSuspend t).1.queue (.wait o))))

/-- How a call starts to wait: the thread is suspended on `o`, and its timer is started if the
call has a time limit. -/
def rtIpcWait (k : Kernel T O) (o : O) (t : T) (flag : IpcFlag) (time : Int) :
    Option (Kernel T O) :=
  if 0 < time then (k.rtIpcListSuspend o t flag).rtTimerStart t time.toNat
  else some (k.rtIpcListSuspend o t flag)

/-- `rt_ipc_list_resume` on a list whose first thread is `t`. -/
def rtIpcListResume (k : Kernel T O) (t : T) : Kernel T O := (k.rtThreadResume t).1

/-- `if (!rt_list_isempty(list)) rt_ipc_list_resume(list)` for the wait list of `o`. -/
def resumeFirst (k : Kernel T O) (o : O) : Kernel T O :=
  match k.queue (.wait o) with
  | t :: _ => k.rtIpcListResume t
  | [] => k

/-- `thread->error = e`. -/
def setError (k : Kernel T O) (t : T) (e : Int) : Kernel T O :=
  k.setTcb t { k.tcb t with error := e }

/-- One turn of the loop of `rt_ipc_list_resume_all`: the first thread gets an error number and is
resumed. -/
def rtIpcListAbort (k : Kernel T O) (t : T) : Kernel T O :=
  (k.setError t (-rtError)).rtIpcListResume t

/-- The loop of `rt_ipc_list_resume_all`, which ends when the list is empty. -/
def resumeAllLoop (k : Kernel T O) (o : O) : Nat → Option (Kernel T O)
  | 0 => none
  | fuel + 1 =>
    match k.queue (.wait o) with
    | [] => some k
    | t :: _ => resumeAllLoop (k.rtIpcListAbort t) o fuel

/-- `rt_ipc_list_resume_all` on the wait list of `o`. A turn that does not shorten the list is
repeated for ever. -/
def rtIpcListResumeAll (k : Kernel T O) (o : O) : Option (Kernel T O) :=
  k.resumeAllLoop o ((k.queue (.wait o)).length + 1)

/-! ## What they may do -/

omit [DecidableEq O] in
@[simp] lemma setError_queue (k : Kernel T O) (t : T) (e : Int) :
    (k.setError t e).queue = k.queue := rfl

omit [DecidableEq O] in
@[simp] lemma setError_tcb (k : Kernel T O) (t : T) (e : Int) :
    (k.setError t e).tcb = update k.tcb t { k.tcb t with error := e } := rfl

omit [DecidableEq T] [DecidableEq O] in
lemma insertWaiter_perm (k : Kernel T O) (flag : IpcFlag) (t : T) (l : List T) :
    (k.insertWaiter flag t l).Perm (t :: l) := by
  cases flag with
  | fifo => exact List.perm_append_singleton t l
  | prio => exact List.perm_orderedInsert _ t l

/-- What one stay in the code of an object can do to the kernel: nothing, a thread gets an `error`,
the thread `caller` begins to wait, the first thread of a list is resumed, or all of them are. -/
inductive Stay (flag : IpcFlag) (caller : Option T) (k k' : Kernel T O) : Prop where
  | quiet (h : k' = k)
  | error (t : T) (e : Int) (h : k' = k.setError t e)
  | wait (t : T) (o : O) (time : Int) (hc : caller = some t)
      (h : (k.setError t rtEok).rtIpcWait o t flag time = some k')
  | resume (o : O) (h : k' = k.resumeFirst o)
  | reset (o : O) (h : k.rtIpcListResumeAll o = some k')

end Kernel

/-! ## Threads and the lists they wait in -/

structure Blocked {T O : Type} (k : Kernel T O) (pend : T → Option O) : Prop where
  nodup : ∀ o, (k.queue (.wait o)).Nodup
  queued : ∀ {o t}, t ∈ k.queue (.wait o) →
    pend t = some o ∧ (k.tcb t).stat = .suspend ∧ (k.tcb t).error = rtEok
  pending : ∀ {t o}, pend t = some o → t ∈ k.queue (.wait o) ∨
    ((k.tcb t).stat = .ready ∧ ((k.tcb t).error = rtEok ∨ (k.tcb t).error = -rtEtimeout))
  timed : ∀ {t}, (k.tcb t).timer.linked = true →
    (k.tcb t).timer.activated = true ∧ ∃ o, t ∈ k.queue (.wait o)

namespace Blocked

open Kernel

variable {T O : Type} {k k' : Kernel T O} {pend : T → Option O} {t : T} {o : O}

lemma of_empty (hwait : ∀ o, k.queue (.wait o) = []) (htimer : ∀ t, (k.tcb t).timer.linked = false)
    (hpend : ∀ t, pend t = none) : Blocked k pend := by
  refine ⟨?_, ?_, ?_, ?_⟩
  · simp [hwait]
  · intro o t hm
    simp [hwait] at hm
  · intro t o hp
    simp [hpend] at hp
  intro t hl
  simp [htimer] at hl

lemma notMem_of_ready (h : Blocked k pend) (hs : (k.tcb t).stat = .ready) (o : O) :
    t ∉ k.queue (.wait o) := by
  intro hm
  have := (h.queued hm).2.1
  simp [hs] at this

lemma notMem_of_pend (h : Blocked k pend) (hp : pend t = none) (o : O) : t ∉ k.queue (.wait o) := by
  intro hm
  have := (h.queued hm).1
  simp [hp] at this

lemma eq_of_mem (h : Blocked k pend) {o' : O} (hm : t ∈ k.queue (.wait o))
    (hm' : t ∈ k.queue (.wait o')) : o' = o := by
  have e := (h.queued hm).1
  rw [(h.queued hm').1] at e
  exact Option.some.inj e

lemma stop_linked (h : Blocked k pend) : (k.tcb t).timer.stop.linked = false := by
  unfold Timer.stop
  split
  · rfl
  rename_i ha
  cases hl : (k.tcb t).timer.linked with
  | false => rfl
  | true => exact absurd (h.timed hl).1 ha

/-- What the other threads see when a step changes `t` only: the same control block, the same
places in the wait lists. -/
structure Same (k k' : Kernel T O) (t : T) : Prop where
  tcb : ∀ u, u ≠ t → k'.tcb u = k.tcb u
  mem : ∀ u, u ≠ t → ∀ o, u ∈ k'.queue (.wait o) ↔ u ∈ k.queue (.wait o)

lemma of_same {pend' : T → Option O} (h : Blocked k pend) (hsame : Same k k' t)
    (hpend : ∀ u, u ≠ t → pend' u = pend u) (hnd : ∀ o, (k'.queue (.wait o)).Nodup)
    (hq : ∀ o, t ∈ k'.queue (.wait o) →
      pend' t = some o ∧ (k'.tcb t).stat = .suspend ∧ (k'.tcb t).error = rtEok)
    (hp : ∀ o, pend' t = some o → t ∈ k'.queue (.wait o) ∨ ((k'.tcb t).stat = .ready ∧
      ((k'.tcb t).error = rtEok ∨ (k'.tcb t).error = -rtEtimeout)))
    (ht : (k'.tcb t).timer.linked = true →
      (k'.tcb t).timer.activated = true ∧ ∃ o, t ∈ k'.queue (.wait o)) : Blocked k' pend' := by
  refine ⟨hnd, ?_, ?_, ?_⟩
  · intro o u hm
    by_cases e : u = t
    · subst e
      exact hq o hm
    rw [hsame.mem u e] at hm
    rw [hsame.tcb u e, hpend u e]
    exact h.queued hm
  · intro u o hu
    by_cases e : u = t
    · subst e
      exact hp o hu
    rw [hpend u e] at hu
    rw [hsame.tcb u e, hsame.mem u e]
    exact h.pending hu
  intro u hl
  by_cases e : u = t
  · subst e
    exact ht hl
  rw [hsame.tcb u e] at hl
  rw [hsame.tcb u e]
  obtain ⟨ha, o, hm⟩ := h.timed hl
  exact ⟨ha, o, (hsame.mem u e o).mpr hm⟩

/-! ## A thread waits -/

section

variable [DecidableEq T]

lemma same_setTcb (k : Kernel T O) (t : T) (c : Tcb) : Same k (k.setTcb t c) t :=
  ⟨fun u hu => by simp [hu], fun _ _ _ => Iff.rfl⟩

variable (h : Blocked k pend)

include h

lemma setError (hp : pend t = none) (e : Int) : Blocked (k.setError t e) pend := by
  have hnot := h.notMem_of_pend hp
  apply h.of_same (same_setTcb k t _) (fun _ _ => rfl) h.nodup
  · intro o hm
    exact absurd hm (hnot o)
  · intro o hpo
    simp [hp] at hpo
  intro hl
  simp only [setTcb_tcb, update_self] at hl
  obtain ⟨_, o, hm⟩ := h.timed hl
  exact absurd hm (hnot o)

lemma finish (hs : (k.tcb t).stat = .ready) : Blocked k (update pend t none) := by
  have hnot := h.notMem_of_ready hs
  apply h.of_same (t := t) ⟨fun _ _ => rfl, fun _ _ _ => Iff.rfl⟩
    (fun u hu => by simp [hu]) h.nodup
  · intro o hm
    exact absurd hm (hnot o)
  · simp
  exact h.timed

lemma startTimer (hm : t ∈ k.queue (.wait o)) {n : Nat}
    (hk : k.rtTimerStart t n = some k') : Blocked k' pend := by
  unfold rtTimerStart at hk
  split at hk
  · cases hk
    apply h.of_same (same_setTcb k t _) (fun _ _ => rfl) h.nodup
    · intro o' hm'
      simpa using h.queued hm'
    · intro o' hp
      simpa using h.pending hp
    intro _
    exact ⟨by simp, o, hm⟩
  simp at hk

variable [DecidableEq O] {l : List T} {time : Int}

lemma suspendInto_wait (hs : (k.tcb t).stat = .ready) (o o' : O) (l : List T) :
    (k.suspendInto o t l).queue (.wait o') = if o' = o then l else k.queue (.wait o') := by
  unfold suspendInto
  rw [setQueue_queue]
  by_cases e : o' = o
  · rw [if_pos e, e, update_self]
  rw [if_neg e, update_of_ne (by simpa using e), rtThreadSuspend_queue hs]
  exact unlink_apply_of_notMem (h.notMem_of_ready hs o')

omit h in
lemma suspendInto_tcb (hs : (k.tcb t).stat = .ready) (o : O) (l : List T) :
    (k.suspendInto o t l).tcb = update k.tcb t
      { k.tcb t with stat := .suspend, timer := (k.tcb t).timer.stop } :=
  rtThreadSuspend_tcb hs

lemma mem_suspendInto (hs : (k.tcb t).stat = .ready)
    (hl : l.Perm (t :: k.queue (.wait o))) (o' : O) (u : T) :
    u ∈ (k.suspendInto o t l).queue (.wait o') ↔ u ∈ k.queue (.wait o') ∨ (o' = o ∧ u = t) := by
  rw [h.suspendInto_wait hs]
  by_cases e : o' = o
  · subst e
    rw [if_pos rfl, hl.mem_iff]
    simp [or_comm]
  simp [e]

lemma suspend (hs : (k.tcb t).stat = .ready) (hp : pend t = none)
    (he : (k.tcb t).error = rtEok) (hl : l.Perm (t :: k.queue (.wait o))) :
    Blocked (k.suspendInto o t l) (update pend t (some o)) := by
  have hnot := h.notMem_of_pend hp
  have hmem := h.mem_suspendInto hs hl
  have htcb := suspendInto_tcb hs o l
  apply h.of_same (t := t) ⟨fun u hu => by simp [htcb, hu], fun u hu o' => by simp [hmem, hu]⟩
    (fun u hu => by simp [hu])
  · intro o'
    rw [h.suspendInto_wait hs]
    split
    · exact hl.nodup_iff.mpr (List.nodup_cons.mpr ⟨hnot o, h.nodup o⟩)
    exact h.nodup o'
  · intro o' hm
    rcases (hmem o' t).mp hm with hm | ⟨rfl, -⟩
    · exact absurd hm (hnot o')
    simp [htcb, he]
  · intro o' hpo
    left
    have e : o = o' := by simpa using hpo
    exact (hmem o' t).mpr (.inr ⟨e.symm, rfl⟩)
  intro hl
  simp [htcb, h.stop_linked] at hl

structure Parked (k k' : Kernel T O) (pend : T → Option O) (o : O) (t : T) : Prop where
  blocked : Blocked k' (update pend t (some o))
  stat : (k'.tcb t).stat = .suspend
  priority : ∀ u, (k'.tcb u).currentPriority = (k.tcb u).currentPriority ∧
    (k'.tcb u).initPriority = (k.tcb u).initPriority
  other : ∀ u, u ≠ t → k'.tcb u = k.tcb u
  mem : ∀ o' u, u ∈ k'.queue (.wait o') ↔ u ∈ k.queue (.wait o') ∨ (o' = o ∧ u = t)

lemma park_spec (hs : (k.tcb t).stat = .ready) (hp : pend t = none) (he : (k.tcb t).error = rtEok)
    (hl : l.Perm (t :: k.queue (.wait o)))
    (hk : (if 0 < time then (k.suspendInto o t l).rtTimerStart t time.toNat
      else some (k.suspendInto o t l)) = some k') :
    Parked k k' pend o t ∧
      ∀ o', k'.queue (.wait o') = if o' = o then l else k.queue (.wait o') := by
  have hsusp : Parked k (k.suspendInto o t l) pend o t := by
    have htcb := suspendInto_tcb hs o l
    refine ⟨h.suspend hs hp he hl, by simp [htcb], fun u => ?_, fun u hu => by simp [htcb, hu],
      h.mem_suspendInto hs hl⟩
    rw [htcb]
    exact ⟨update_keeps _ u, update_keeps _ u⟩
  have hwait := fun o' => h.suspendInto_wait hs o o' l
  split at hk
  · -- starting the timer is the last thing before `rt_schedule`
    have hmem := (hsusp.mem o t).mpr (.inr ⟨rfl, rfl⟩)
    have hb := hsusp.blocked.startTimer hmem hk
    unfold rtTimerStart at hk
    split at hk
    · cases hk
      refine ⟨⟨hb, by simpa using hsusp.stat, fun u => ?_, fun u hu => ?_, hsusp.mem⟩, hwait⟩
      · obtain ⟨h1, h2⟩ := hsusp.priority u
        exact ⟨(update_keeps _ u).trans h1, (update_keeps _ u).trans h2⟩
      simpa [hu] using hsusp.other u hu
    simp at hk
  cases hk
  exact ⟨hsusp, hwait⟩

lemma wait_spec {flag : IpcFlag}
    (hs : (k.tcb t).stat = .ready) (hp : pend t = none) (he : (k.tcb t).error = rtEok)
    (hk : k.rtIpcWait o t flag time = some k') : Parked k k' pend o t := by
  refine (h.park_spec (l := (k.rtThreadSuspend t).1.insertWaiter flag t
    ((k.rtThreadSuspend t).1.queue (.wait o))) hs hp he ?_ hk).1
  have hq : (k.rtThreadSuspend t).1.queue (.wait o) = k.queue (.wait o) := by
    rw [rtThreadSuspend_queue hs]
    exact unlink_apply_of_notMem (h.notMem_of_ready hs o)
  rw [hq]
  exact insertWaiter_perm _ _ _ _

end

/-! ## A thread is resumed -/

section

variable [DecidableEq T] [DecidableEq O] {l : List T}

lemma resume_wait (hs : (k.tcb t).stat = .suspend) (o : O) :
    (k.rtThreadResume t).1.queue (.wait o) = unlink k.queue t (.wait o) := by
  rw [rtThreadResume_queue hs, update_of_ne (by simp)]

variable (h : Blocked k pend)

include h

omit [DecidableEq O] in
lemma leave {pend' : T → Option O} {c : Tcb}
    (hwait : ∀ o, k'.queue (.wait o) = unlink k.queue t (.wait o))
    (htcb : k'.tcb = update k.tcb t c) (hpend : ∀ u, u ≠ t → pend' u = pend u)
    (hp : ∀ o, pend' t = some o → c.stat = .ready ∧ (c.error = rtEok ∨ c.error = -rtEtimeout))
    (hl : c.timer.linked = false) : Blocked k' pend' := by
  apply h.of_same (t := t) ⟨fun u hu => by simp [htcb, hu], fun u hu o => by simp [hwait, hu]⟩ hpend
  · intro o
    rw [hwait]
    exact (h.nodup o).filter _
  · intro o hm
    rw [hwait] at hm
    exact absurd rfl (mem_unlink.mp hm).2
  · intro o ho
    right
    simpa [htcb] using hp o ho
  intro hl'
  simp [htcb, hl] at hl'

lemma resume_of_suspend (hs : (k.tcb t).stat = .suspend)
    (he : (k.tcb t).error = rtEok ∨ (k.tcb t).error = -rtEtimeout) :
    Blocked (k.rtThreadResume t).1 pend :=
  h.leave (resume_wait hs) (rtThreadResume_tcb hs) (fun _ _ => rfl) (fun _ _ => ⟨rfl, he⟩)
    h.stop_linked

lemma resume (hq : k.queue (.wait o) = t :: l) : Blocked (k.rtIpcListResume t) pend := by
  obtain ⟨-, hs, he⟩ := h.queued (o := o) (t := t) (by simp [hq])
  exact h.resume_of_suspend hs (.inl he)

lemma resumeFirst (o : O) : Blocked (k.resumeFirst o) pend := by
  unfold Kernel.resumeFirst
  split
  · rename_i t l hq
    exact h.resume hq
  exact h

lemma resume_wait_self (hq : k.queue (.wait o) = t :: l) :
    (k.rtIpcListResume t).queue (.wait o) = l := by
  obtain ⟨-, hs, -⟩ := h.queued (o := o) (t := t) (by simp [hq])
  exact (resume_wait hs o).trans (unlink_apply_of_cons hq (h.nodup o))

lemma resume_wait_of_ne (hq : k.queue (.wait o) = t :: l)
    {o' : O} (hne : o' ≠ o) : (k.rtIpcListResume t).queue (.wait o') = k.queue (.wait o') := by
  have hm : t ∈ k.queue (.wait o) := by simp [hq]
  exact (resume_wait (h.queued hm).2.1 o').trans
    (unlink_apply_of_notMem fun hm' => hne (h.eq_of_mem hm hm'))

lemma resume_tcb (hq : k.queue (.wait o) = t :: l) : (k.rtIpcListResume t).tcb = update k.tcb t
      { k.tcb t with stat := .ready, timer := (k.tcb t).timer.stop } :=
  rtThreadResume_tcb (h.queued (o := o) (by simp [hq])).2.1

lemma resumeFirst_error (o : O) (u : T) : ((k.resumeFirst o).tcb u).error = (k.tcb u).error := by
  simp only [Kernel.resumeFirst]
  split
  · rename_i t l hq
    rw [h.resume_tcb hq]
    exact update_keeps _ u
  rfl

/-- What `rt_ipc_list_resume_all` leaves: nobody waits for `o`, and those who did are ready, with
an error number that tells them so. -/
structure Aborted (k k' : Kernel T O) (pend : T → Option O) (o : O) : Prop where
  blocked : Blocked k' fun t => if t ∈ k.queue (.wait o) then none else pend t
  empty : k'.queue (.wait o) = []
  waits : ∀ o', o' ≠ o → k'.queue (.wait o') = k.queue (.wait o')
  aborted : ∀ t ∈ k.queue (.wait o), (k'.tcb t).stat = .ready ∧ (k'.tcb t).error = -rtError
  other : ∀ t, t ∉ k.queue (.wait o) → k'.tcb t = k.tcb t

lemma abort (hq : k.queue (.wait o) = t :: l) : Blocked (k.rtIpcListAbort t) (update pend t none) ∧
      (k.rtIpcListAbort t).queue (.wait o) = l ∧
      (∀ o', o' ≠ o → (k.rtIpcListAbort t).queue (.wait o') = k.queue (.wait o')) ∧
      (k.rtIpcListAbort t).tcb = update k.tcb t
        { k.tcb t with stat := .ready, error := -rtError, timer := (k.tcb t).timer.stop } := by
  have hm : t ∈ k.queue (.wait o) := by simp [hq]
  have hs : ((k.setError t (-rtError)).tcb t).stat = .suspend := by simpa using (h.queued hm).2.1
  have hwait : ∀ o', (k.rtIpcListAbort t).queue (.wait o') = unlink k.queue t (.wait o') :=
    resume_wait hs
  have htcb : (k.rtIpcListAbort t).tcb = update k.tcb t
      { k.tcb t with stat := .ready, error := -rtError, timer := (k.tcb t).timer.stop } := by
    rw [rtIpcListAbort, rtIpcListResume, rtThreadResume_tcb hs]
    simp
  refine ⟨?_, (hwait o).trans (unlink_apply_of_cons hq (h.nodup o)), fun o' hne => ?_, htcb⟩
  · exact h.leave hwait htcb (fun u hu => by simp [hu]) (by simp) h.stop_linked
  exact (hwait o').trans (unlink_apply_of_notMem fun hm' => hne (h.eq_of_mem hm hm'))

lemma resumeAllLoop_spec (o : O) {fuel : Nat} (hf : (k.queue (.wait o)).length < fuel) :
    ∃ k', k.resumeAllLoop o fuel = some k' ∧ Aborted k k' pend o := by
  induction fuel generalizing k pend with
  | zero => omega
  | succ fuel ih =>
    rw [resumeAllLoop]
    cases hq : k.queue (.wait o) with
    | nil =>
      refine ⟨k, rfl, ?_, hq, fun _ _ => rfl, ?_, fun _ _ => rfl⟩
      · simpa [hq] using h
      simp [hq]
    | cons t l =>
      obtain ⟨hb, hl, hw, htcb⟩ := h.abort hq
      have hnd : t ∉ l ∧ l.Nodup := List.nodup_cons.mp (hq ▸ h.nodup o)
      obtain ⟨k', hk', ha⟩ := ih hb (by rw [hl]; rw [hq] at hf; simpa using hf)
      refine ⟨k', hk', ?_, ha.empty, fun o' hne => (ha.waits o' hne).trans (hw o' hne), ?_, ?_⟩
      · have hpend : (fun u => if u ∈ k.queue (.wait o) then none else pend u) =
            fun u => if u ∈ (k.rtIpcListAbort t).queue (.wait o) then none
              else update pend t none u := by
          funext u
          rw [hq, hl]
          by_cases e : u = t
          · simp [e]
          simp [e]
        rw [hpend]
        exact ha.blocked
      · intro u hu
        rw [hq] at hu
        rcases List.mem_cons.mp hu with rfl | hu
        · rw [ha.other u (by rw [hl]; exact hnd.1), htcb]
          simp
        exact ha.aborted u (by rw [hl]; exact hu)
      intro u hu
      rw [hq, List.mem_cons, not_or] at hu
      rw [ha.other u (by rw [hl]; exact hu.2), htcb]
      simp [hu.1]

lemma resumeAll (o : O) : ∃ k', k.rtIpcListResumeAll o = some k' ∧ Aborted k k' pend o :=
  h.resumeAllLoop_spec o (Nat.lt_succ_self _)

omit h in
lemma timeout_tcb (hk : k.rtThreadTimeout t = some k') :
    (k.tcb t).stat = .suspend ∧ k'.tcb = update k.tcb t
      { (k.tcb t).expired with stat := .ready } := by
  obtain ⟨hs, rfl⟩ := rtThreadTimeout_eq_some hk
  refine ⟨hs, ?_⟩
  rw [rtThreadResume_tcb (by simpa [Tcb.expired] using hs)]
  simp [Tcb.expired, Timer.stop]

omit h in
lemma timeout_wait (hk : k.rtThreadTimeout t = some k') (o : O) :
    k'.queue (.wait o) = unlink k.queue t (.wait o) := by
  obtain ⟨hs, rfl⟩ := rtThreadTimeout_eq_some hk
  rw [resume_wait (by simpa [Tcb.expired] using hs)]
  rfl

lemma timeout (hk : k.rtThreadTimeout t = some k') : Blocked k' pend :=
  h.leave (timeout_wait hk) (timeout_tcb hk).2 (fun _ _ => rfl) (fun _ _ => ⟨rfl, Or.inr rfl⟩) rfl

omit h in
lemma control_list (p : Nat) (hnot : (k.tcb t).stat = .ready → t ∉ k.queue (.wait o)) :
    (k.rtThreadControl t p).queue (.wait o) = k.queue (.wait o) := by
  by_cases hs : (k.tcb t).stat = .ready
  · rw [rtThreadControl_queue hs, update_of_ne (by simp)]
    exact unlink_apply_of_notMem (hnot hs)
  rw [rtThreadControl_of_ne hs]
  rfl

lemma control_wait (t : T) (p : Nat) (o : O) :
    (k.rtThreadControl t p).queue (.wait o) = k.queue (.wait o) :=
  control_list p fun hs => h.notMem_of_ready hs o

lemma control (t : T) (p : Nat) : Blocked (k.rtThreadControl t p) pend := by
  have htcb := rtThreadControl_tcb k t p
  have hwait := h.control_wait t p
  apply h.of_same (t := t) ⟨fun u hu => by simp [htcb, hu], fun u _ o => by rw [hwait]⟩
    (fun _ _ => rfl)
  · intro o
    rw [hwait]
    exact h.nodup o
  · intro o hm
    rw [hwait] at hm
    simpa [htcb] using h.queued hm
  · intro o hp
    rw [hwait]
    simpa [htcb] using h.pending hp
  intro hl
  simp only [htcb, update_self] at hl
  simpa [htcb, hwait] using h.timed hl

end

/-! ## Threads that have been resumed -/

/-- `t` has been resumed from the wait list of `o` and has not run since. -/
def Woken (k : Kernel T O) (pend : T → Option O) (o : O) (t : T) : Prop :=
  pend t = some o ∧ (k.tcb t).stat = .ready ∧ (k.tcb t).error = rtEok

instance [DecidableEq O] (k : Kernel T O) (pend : T → Option O) (o : O) (t : T) :
    Decidable (Woken k pend o t) := inferInstanceAs (Decidable (_ ∧ _ ∧ _))

section

variable [Fintype T] [DecidableEq O]

def woken (k : Kernel T O) (pend : T → Option O) (o : O) : Finset T :=
  Finset.univ.filter (Woken k pend o)

@[simp] lemma mem_woken : t ∈ woken k pend o ↔ Woken k pend o t := by
  simp [woken]

lemma woken_congr {pend' : T → Option O} (h : ∀ u, Woken k' pend' o u ↔ Woken k pend o u) :
    woken k' pend' o = woken k pend o := by
  ext u
  rw [mem_woken, mem_woken, h]

variable [DecidableEq T]

lemma woken_timeout (hk : k.rtThreadTimeout t = some k') (o : O) :
    woken k' pend o = woken k pend o := by
  obtain ⟨hs, htcb⟩ := timeout_tcb hk
  refine woken_congr fun u => ?_
  by_cases e : u = t
  · subst e
    simp [Woken, htcb, hs, Tcb.expired, rtEtimeout, rtEok]
  simp [Woken, htcb, e]

lemma woken_finish (k : Kernel T O) (pend : T → Option O) (t : T) (o : O) :
    woken k (update pend t none) o = (woken k pend o).erase t := by
  ext u
  by_cases e : u = t
  · subst e
    simp [Woken]
  simp [Woken, e]

lemma woken_setError (hp : pend t = none) (e : Int) (o : O) :
    woken (k.setError t e) pend o = woken k pend o := by
  refine woken_congr fun u => ?_
  by_cases hu : u = t
  · subst hu
    simp [Woken, hp]
  simp [Woken, hu]

lemma Parked.woken (hpark : Parked k k' pend o t) (hp : pend t = none) (o' : O) :
    woken k' (update pend t (some o)) o' = woken k pend o' := by
  refine woken_congr fun u => ?_
  by_cases e : u = t
  · subst e
    simp [Woken, hpark.stat, hp]
  simp [Woken, e, hpark.other u e]

lemma woken_resume (h : Blocked k pend) {l : List T} (hq : k.queue (.wait o) = t :: l) (o' : O) :
    (woken (k.rtIpcListResume t) pend o').card =
      (woken k pend o').card + if o' = o then 1 else 0 := by
  obtain ⟨hp, hs, he⟩ := h.queued (o := o) (t := t) (by simp [hq])
  have htcb := h.resume_tcb hq
  by_cases e : o' = o
  · subst e
    have hins : woken (k.rtIpcListResume t) pend o' = insert t (woken k pend o') := by
      ext u
      by_cases eu : u = t
      · subst eu
        simp [Woken, htcb, hp, he]
      simp [Woken, htcb, eu]
    have hnot : t ∉ woken k pend o' := by
      rw [mem_woken]
      intro hw
      exact absurd hw.2.1 (by simp [hs])
    rw [hins, Finset.card_insert_of_notMem hnot, if_pos rfl]
  rw [if_neg e]
  refine congrArg Finset.card (woken_congr fun u => ?_)
  by_cases eu : u = t
  · subst eu
    simp [Woken, hp, Ne.symm e]
  simp [Woken, htcb, eu]

end

end Blocked

end NbIot
