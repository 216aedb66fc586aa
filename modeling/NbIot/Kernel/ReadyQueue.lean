import NbIot.Kernel.Thread

/-! # The ready queue over whole runs

The scheduler finds the next thread through a bitmap of the priorities with a ready thread. The
bitmap is kept up to date with a mask that every thread carries, `number_mask`, so it is right
only as long as the masks are.
-/

namespace NbIot.ReadyQueue

open Queues Kernel Function List Option Run

/-! ## Runs -/

variable {T O : Type}

structure State (T O : Type) where
  kernel : Kernel T O
  live : T → Bool

inductive Op (T : Type) where
  | init (t : T) (junk : Tcb) (priority : Nat)
  | create (t : T) (junk : Tcb) (priority : Nat)
  | startup (t : T)
  | suspend (t : T)
  | resume (t : T)
  | yield
  | sleep (tick : Nat)
  | timeout (t : T)
  | control (t : T) (priority : Nat)
  | setCleanup (t : T) (b : Bool)
  | detach (t : T)
  | delete (t : T)
  | exit
  | idle

def State.keep (s : State T O) (k : Kernel T O) : State T O := ⟨k, s.live⟩

/-- `t` becomes a thread, or is none any more. -/
def State.mark [DecidableEq T] (s : State T O) (t : T) (b : Bool) (k : Kernel T O) : State T O :=
  ⟨k, update s.live t b⟩

/-- One call. The calls that end in `rt_schedule` make it here. -/
def step [DecidableEq T] [DecidableEq O] (s : State T O) : Op T → Option (State T O)
  | .init t junk priority => (s.kernel.rtThreadInit t junk priority).map (s.mark t true)
  | .create t junk priority => (s.kernel.rtThreadCreate t junk priority).map (s.mark t true)
  | .startup t =>
    (s.kernel.rtThreadStartup t).bind fun k =>
      if s.kernel.currentThread = none then some (s.keep k) else k.rtSchedule.map s.keep
  | .suspend t => some (s.keep (s.kernel.rtThreadSuspend t).1)
  | .resume t => some (s.keep (s.kernel.rtThreadResume t).1)
  | .yield =>
    s.kernel.currentThread.bind fun t =>
      if s.kernel.CanYield t then (s.kernel.rtThreadYield t).rtSchedule.map s.keep
      else some s
  | .sleep tick =>
    s.kernel.currentThread.bind fun t =>
      ((s.kernel.rtThreadSleep t tick).bind rtSchedule).map s.keep
  | .timeout t =>
    if (s.kernel.tcb t).timer.linked then
      ((s.kernel.rtThreadTimeout t).bind rtSchedule).map s.keep
    else none
  | .control t priority => some (s.keep (s.kernel.rtThreadControl t priority))
  | .setCleanup t b =>
    some (s.keep (s.kernel.setTcb t { s.kernel.tcb t with cleanup := b }))
  | .detach t => some (s.mark t false (s.kernel.rtThreadDetach t))
  | .delete t => some (s.keep (s.kernel.rtThreadDelete t))
  | .exit =>
    s.kernel.currentThread.bind fun t =>
      (s.kernel.rtThreadExit t).rtSchedule.map
        (if (s.kernel.tcb t).systemObject ∧ ¬ (s.kernel.tcb t).cleanup then s.mark t false
          else s.keep)
  | .idle =>
    match s.kernel.queue .defunct with
    | [] => some s
    | t :: _ => some (s.mark t false s.kernel.rtThreadIdleExcute)

def Runs (s : State T O) (t : T) : Prop :=
  s.live t = true ∧ ((s.kernel.tcb t).stat = .ready ∨ (s.kernel.tcb t).stat = .suspend)

/-- What the interface asks of a call: a control block is initialised when it is neither that of
a thread nor linked anywhere, the functions on threads get threads and the removing ones threads
that are not dead, priorities are below `RT_THREAD_PRIORITY_MAX`, and what a thread calls for
itself it calls while it runs. -/
def Admissible (s : State T O) : Op T → Prop
  | .init t _ _ | .create t _ _ => s.live t = false ∧ Unlinked s.kernel.queue t
  | .startup t | .suspend t | .resume t | .setCleanup t _ => s.live t = true
  | .control t priority => s.live t = true ∧ priority < rtThreadPriorityMax
  | .detach t | .delete t => s.live t = true ∧ (s.kernel.tcb t).stat ≠ .close
  | .yield | .sleep _ | .exit => ∀ t, s.kernel.currentThread = some t → Runs s t
  | .timeout _ | .idle => True

def boot (junk : T → Tcb) : State T O where
  kernel :=
    { tcb := fun t => { junk t with timer := { (junk t).timer with linked := false } }
      queue := fun _ => []
      readyPriorityGroup := 0
      currentThread := none
      schedulerLockNest := 0 }
  live := fun _ => false

/-! ## The law -/

def Bits (k : Kernel T O) : Prop :=
  ∀ p < rtThreadPriorityMax, (k.readyPriorityGroup.getLsbD p = true ↔ k.queue (.ready p) ≠ [])

/-- Bit `p` of `rt_thread_ready_priority_group` is set exactly when `rt_thread_priority_table[p]`
is not empty, and every thread whose `stat` is `RT_THREAD_READY` is in the list of its current
priority, once, and in no other list. -/
def ReadyQueueOk [DecidableEq T] (s : State T O) : Prop :=
  Bits s.kernel ∧
    ∀ t, s.live t = true → (s.kernel.tcb t).stat = .ready →
      (s.kernel.queue (.ready (s.kernel.tcb t).currentPriority)).count t = 1 ∧
        ∀ h, t ∈ s.kernel.queue h → h = .ready (s.kernel.tcb t).currentPriority

/-- The removal of a thread that was never started finds another thread in the ready list of its
priority, or a `number_mask` that happens to have no bit of the bitmap. -/
def MaskHarmless (s : State T O) : Op T → Prop
  | .detach t | .delete t =>
    (s.kernel.tcb t).stat = .init →
      s.kernel.queue (.ready (s.kernel.tcb t).currentPriority) ≠ [] ∨
        (s.kernel.tcb t).numberMask &&& s.kernel.readyPriorityGroup = 0
  | _ => True

/-! ## The invariant -/

/-- What holds of the control block of `u`, whether it is that of a thread or not. -/
structure Placed (k : Kernel T O) (live : T → Bool) (u : T) : Prop where
  of_mem : ∀ p, u ∈ k.queue (.ready p) →
    live u = true ∧ (k.tcb u).stat = .ready ∧ (k.tcb u).currentPriority = p
  mem : live u = true → (k.tcb u).stat = .ready → u ∈ k.queue (.ready (k.tcb u).currentPriority)
  priority : live u = true → (k.tcb u).currentPriority < rtThreadPriorityMax ∧
    (k.tcb u).initPriority < rtThreadPriorityMax
  mask : live u = true → (k.tcb u).stat = .ready ∨ (k.tcb u).stat = .suspend →
    (k.tcb u).numberMask = 1#32 <<< (k.tcb u).currentPriority
  fresh : live u = true → (k.tcb u).stat = .init → Unlinked k.queue u
  dead : u ∈ k.queue .defunct → (k.tcb u).stat = .close
  timed : (k.tcb u).timer.linked = true → live u = true ∧ (k.tcb u).stat ≠ .close

structure Inv (k : Kernel T O) (live : T → Bool) : Prop where
  separate : Separate k.queue
  placed : ∀ u, Placed k live u

variable {k k' : Kernel T O} {live live' : T → Bool} {t : T}

section

lemma Placed.congr {u : T} (h : Placed k live u) (htcb : k'.tcb u = k.tcb u)
    (hmem : ∀ x, u ∈ k'.queue x ↔ u ∈ k.queue x) (hlive : live' u = live u) :
    Placed k' live' u := by
  refine ⟨?_, ?_, ?_, ?_, ?_, ?_, ?_⟩
  · intro p
    rw [hmem, htcb, hlive]
    exact h.of_mem p
  · rw [hmem, htcb, hlive]
    exact h.mem
  · rw [htcb, hlive]
    exact h.priority
  · rw [htcb, hlive]
    exact h.mask
  · intro hl hs x hx
    rw [hlive] at hl
    rw [htcb] at hs
    exact h.fresh hl hs x ((hmem x).mp hx)
  · rw [hmem, htcb]
    exact h.dead
  rw [htcb, hlive]
  exact h.timed

lemma Placed.of_ready (hmem : ∀ y, t ∈ k.queue y ↔ y = .ready (k.tcb t).currentPriority)
    (hl : live t = true) (hs : (k.tcb t).stat = .ready)
    (hp : (k.tcb t).currentPriority < rtThreadPriorityMax ∧
      (k.tcb t).initPriority < rtThreadPriorityMax)
    (hm : (k.tcb t).numberMask = 1#32 <<< (k.tcb t).currentPriority) : Placed k live t := by
  refine ⟨?_, fun _ _ => (hmem _).mpr rfl, fun _ => hp, fun _ _ => hm, ?_, ?_, ?_⟩
  · intro p h
    have e : p = (k.tcb t).currentPriority := by simpa using (hmem _).mp h
    exact ⟨hl, hs, e.symm⟩
  · intro _ h
    simp [hs] at h
  · intro h
    exact absurd ((hmem _).mp h) (by simp)
  simp [hl, hs]

lemma Placed.of_idle (hmem : ∀ p, t ∉ k.queue (.ready p)) (hdead : t ∉ k.queue .defunct)
    (hl : live t = true) (hs : (k.tcb t).stat = .suspend)
    (hp : (k.tcb t).currentPriority < rtThreadPriorityMax ∧
      (k.tcb t).initPriority < rtThreadPriorityMax)
    (hm : (k.tcb t).numberMask = 1#32 <<< (k.tcb t).currentPriority) : Placed k live t := by
  refine ⟨fun p h => absurd h (hmem p), ?_, fun _ => hp, fun _ _ => hm, ?_,
    fun h => absurd h hdead, ?_⟩
  · intro _ h
    simp [hs] at h
  · intro _ h
    simp [hs] at h
  simp [hl, hs]

lemma Placed.of_close (hmem : ∀ p, t ∉ k.queue (.ready p)) (hs : (k.tcb t).stat = .close)
    (hp : live t = true → (k.tcb t).currentPriority < rtThreadPriorityMax ∧
      (k.tcb t).initPriority < rtThreadPriorityMax)
    (ht : (k.tcb t).timer.linked = false) : Placed k live t := by
  refine ⟨fun p h => absurd h (hmem p), ?_, hp, ?_, ?_, fun _ => hs, ?_⟩
  · intro _ h
    simp [hs] at h
  · intro _ h
    simp [hs] at h
  · intro _ h
    simp [hs] at h
  intro h
  simp [ht] at h

variable [DecidableEq T]

lemma Inv.setTcb {c : Tcb} (h : Inv k live) (ht : Placed (k.setTcb t c) live t) :
    Inv (k.setTcb t c) live := by
  refine ⟨h.separate, ?_⟩
  intro u
  by_cases e : u = t
  · exact e ▸ ht
  exact (h.placed u).congr (by simp [e]) (fun _ => Iff.rfl) rfl

lemma Inv.keep {c : Tcb} (h : Inv k live) (hs : c.stat = (k.tcb t).stat)
    (hp : c.currentPriority = (k.tcb t).currentPriority)
    (hp' : c.initPriority = (k.tcb t).initPriority) (hm : c.numberMask = (k.tcb t).numberMask)
    (ht : c.timer.linked = true → live t = true ∧ (k.tcb t).stat ≠ .close) :
    Inv (k.setTcb t c) live := by
  have h' := h.placed t
  apply h.setTcb
  refine ⟨?_, ?_, ?_, ?_, ?_, ?_, ?_⟩
  · simpa [hs, hp] using h'.of_mem
  · simpa [hs, hp] using h'.mem
  · simpa [hp, hp'] using h'.priority
  · simpa [hs, hm, hp] using h'.mask
  · simpa [hs] using h'.fresh
  · simpa [hs] using h'.dead
  simpa [hs] using ht

lemma Inv.out (h : Inv k live) (hq : k'.queue = unlink k.queue t)
    (htcb : ∀ u, u ≠ t → k'.tcb u = k.tcb u) (hlive : ∀ u, u ≠ t → live' u = live u)
    (ht : Unlinked k'.queue t → Placed k' live' t) : Inv k' live' := by
  refine ⟨hq ▸ h.separate.unlink t, ?_⟩
  intro u
  by_cases e : u = t
  · exact e ▸ ht (hq ▸ unlinked_unlink k.queue t)
  apply (h.placed u).congr (htcb u e) _ (hlive u e)
  intro x
  rw [hq, mem_unlink]
  exact and_iff_left e

variable [DecidableEq O]

lemma Inv.into {x : Head O} {l : List T} (h : Inv k live)
    (hq : k'.queue = update (unlink k.queue t) x l) (hl : l.Perm (t :: unlink k.queue t x))
    (htcb : ∀ u, u ≠ t → k'.tcb u = k.tcb u) (hlive : ∀ u, u ≠ t → live' u = live u)
    (ht : (∀ y, t ∈ k'.queue y ↔ y = x) → Placed k' live' t) : Inv k' live' := by
  have hnot := unlinked_unlink k.queue t
  refine ⟨hq ▸ (h.separate.unlink t).update hnot hl, ?_⟩
  intro u
  by_cases e : u = t
  · subst e
    apply ht
    intro y
    rw [hq, mem_update_perm hl]
    constructor
    · rintro (hy | hy)
      · exact absurd hy (hnot y)
      exact hy.1
    intro hy
    exact .inr ⟨hy, rfl⟩
  apply (h.placed u).congr (htcb u e) _ (hlive u e)
  intro y
  rw [hq, mem_update_perm hl, mem_unlink]
  constructor
  · rintro (hy | hy)
    · exact hy.1
    exact absurd hy.2 e
  intro hy
  exact .inl ⟨hy, e⟩

end

/-! ## What a call does to the lists -/

section

variable [DecidableEq T]

variable (h : Inv k live) (hl : live t = true)

include h hl

omit hl in
lemma Inv.initBlock {junk : Tcb} {b : Bool} {p : Nat}
    (hk : k.rtThreadInitBlock t junk b p = some k') : Inv k' (update live t true) := by
  unfold rtThreadInitBlock at hk
  split at hk
  · rename_i hp
    cases hk
    apply h.out (t := t) (by simp) (fun u hu => by simp [hu]) (fun u hu => by simp [hu])
    intro hun
    refine ⟨fun p' hm => absurd hm (hun _), ?_, ?_, ?_, fun _ _ => hun,
      fun hm => absurd hm (hun _), ?_⟩
    · simp
    · simp [hp]
    · simp
    simp
  simp at hk

lemma Inv.suspend : Inv (k.rtThreadSuspend t).1 live := by
  by_cases hs : (k.tcb t).stat = .ready
  · apply h.out (rtThreadSuspend_queue hs) (fun u hu => by simp [rtThreadSuspend_tcb hs, hu])
      (fun _ _ => rfl)
    intro hun
    apply Placed.of_idle (fun p => hun _) (hun _) hl
    · simp [rtThreadSuspend_tcb hs]
    · simpa [rtThreadSuspend_tcb hs] using (h.placed t).priority hl
    simpa [rtThreadSuspend_tcb hs] using (h.placed t).mask hl (.inl hs)
  rw [rtThreadSuspend_of_ne hs]
  exact h

lemma Inv.closeThread (hlive : ∀ u, u ≠ t → live' u = live u) : Inv (k.closeThread t) live' := by
  apply h.out (closeThread_queue k t) (fun u hu => by simp [hu]) hlive
  intro hun
  apply Placed.of_close (fun p => hun _)
  · simp
  · intro _
    simpa using (h.placed t).priority hl
  simp

omit hl in
lemma Inv.setCleanup (b : Bool) : Inv (k.setTcb t { k.tcb t with cleanup := b }) live :=
  h.keep rfl rfl rfl rfl (h.placed t).timed

omit hl in
lemma Inv.idle {l : List T} (hd : k.queue .defunct = t :: l) :
    Inv k.rtThreadIdleExcute (update live t false) := by
  have hq : k.rtThreadIdleExcute = k.rtListRemove t := by
    unfold rtThreadIdleExcute
    rw [hd]
  have hclose : (k.tcb t).stat = .close := (h.placed t).dead (hd ▸ mem_cons_self)
  rw [hq]
  apply h.out (rtListRemove_queue k t) (fun _ _ => rfl) (fun u hu => by simp [hu])
  intro hun
  apply Placed.of_close (fun p => hun _)
  · exact hclose
  · simp
  by_contra hlinked
  exact ((h.placed t).timed (by simpa using hlinked)).2 hclose

lemma Inv.sleep (hs : (k.tcb t).stat = .ready ∨ (k.tcb t).stat = .suspend) {tick : Nat}
    (hk : k.rtThreadSleep t tick = some k') : Inv k' live := by
  have hi := h.suspend hl
  have hs' : ((k.rtThreadSuspend t).1.tcb t).stat = .suspend := by
    rcases hs with hs | hs
    · simp [rtThreadSuspend_tcb hs]
    rw [rtThreadSuspend_of_ne (by simp [hs])]
    exact hs
  unfold rtThreadSleep rtTimerStart at hk
  split at hk
  · cases hk
    exact hi.keep rfl rfl rfl rfl fun _ => ⟨hl, by simp [hs']⟩
  simp at hk

lemma Inv.started (hs : (k.tcb t).stat = .init) : Inv (k.setTcb t (k.tcb t).started) live := by
  have hp := (h.placed t).priority hl
  have hun := (h.placed t).fresh hl hs
  apply h.setTcb
  apply Placed.of_idle (k := k.setTcb t _) (fun p => hun _) (hun _) hl
  · simp [Tcb.started]
  · simpa [Tcb.started] using hp.2
  simp [Tcb.started]

lemma Inv.expired (hs : (k.tcb t).stat = .suspend) : Inv (k.setTcb t (k.tcb t).expired) live :=
  h.keep rfl rfl rfl rfl fun _ => ⟨hl, by simp [hs]⟩

variable [DecidableEq O]

lemma Inv.resume : Inv (k.rtThreadResume t).1 live := by
  by_cases hs : (k.tcb t).stat = .suspend
  · apply h.into (rtThreadResume_queue hs) (perm_append_singleton _ _)
      (fun u hu => by simp [rtThreadResume_tcb hs, hu]) (fun _ _ => rfl)
    intro hmem
    apply Placed.of_ready _ hl
    · simp [rtThreadResume_tcb hs]
    · simpa [rtThreadResume_tcb hs] using (h.placed t).priority hl
    · simpa [rtThreadResume_tcb hs] using (h.placed t).mask hl (.inr hs)
    simpa [rtThreadResume_tcb hs] using hmem
  rw [rtThreadResume_of_ne hs]
  exact h

lemma Inv.bury (hlive : ∀ u, u ≠ t → live' u = live u) :
    Inv ((k.closeThread t).rtListInsertAfter .defunct t) live' := by
  apply h.into (x := .defunct)
    (by simp [rtListInsertAfter]) (List.Perm.refl _) (fun u hu => by simp [rtListInsertAfter, hu])
    hlive
  intro hmem
  apply Placed.of_close
  · intro p hp
    exact absurd ((hmem _).mp hp) (by simp)
  · simp [rtListInsertAfter]
  · intro _
    simpa [rtListInsertAfter] using (h.placed t).priority hl
  simp [rtListInsertAfter]

lemma Inv.detach : Inv (k.rtThreadDetach t) (update live t false) := by
  have hlive : ∀ u, u ≠ t → update live t false u = live u := fun u hu => by simp [hu]
  unfold rtThreadDetach
  split
  · exact h.bury hl hlive
  exact h.closeThread hl hlive

lemma Inv.exit (hlive : ∀ u, u ≠ t → live' u = live u) : Inv (k.rtThreadExit t) live' := by
  unfold rtThreadExit
  split
  · exact h.closeThread hl hlive
  exact h.bury hl hlive

lemma Inv.control {p : Nat} (hp : p < rtThreadPriorityMax) : Inv (k.rtThreadControl t p) live := by
  have htcb := rtThreadControl_tcb k t p
  have ht := h.placed t
  have hpr := ht.priority hl
  by_cases hs : (k.tcb t).stat = .ready
  · apply h.into (rtThreadControl_queue hs p) (perm_append_singleton _ _)
      (fun u hu => by simp [htcb, hu]) (fun _ _ => rfl)
    intro hmem
    apply Placed.of_ready _ hl
    · simpa [htcb] using hs
    · simpa [htcb] using ⟨hp, hpr.2⟩
    · simp [htcb]
    simpa [htcb] using hmem
  rw [rtThreadControl_of_ne hs]
  apply h.setTcb
  refine ⟨?_, ?_, ?_, ?_, ?_, ?_, ?_⟩
  · intro p' hm
    exact absurd (ht.of_mem p' hm).2.1 hs
  · intro _ hs'
    exact absurd (by simpa using hs') hs
  · intro _
    simpa using ⟨hp, hpr.2⟩
  · simp
  · simpa using ht.fresh
  · simpa using ht.dead
  simpa using ht.timed

omit hl in
lemma Inv.yield (hc : k.CanYield t) : Inv (k.rtThreadYield t) live := by
  obtain ⟨hl, hs, -⟩ := (h.placed t).of_mem _ hc.2.1
  have hq : (k.rtThreadYield t).queue = update (unlink k.queue t)
      (.ready (k.tcb t).currentPriority)
      (unlink k.queue t (.ready (k.tcb t).currentPriority) ++ [t]) := rfl
  apply h.into hq (perm_append_singleton _ _) (fun _ _ => rfl) (fun _ _ => rfl)
  intro hmem
  exact Placed.of_ready hmem hl hs ((h.placed t).priority hl) ((h.placed t).mask hl (.inl hs))

end

/-! ## Bits -/

section

lemma getLsbD_priorityMask (p : Nat) {i : Nat} (hi : i < rtThreadPriorityMax) :
    (1#32 <<< p).getLsbD i = decide (i = p) := by
  have hi' : i < 32 := hi
  rw [← BitVec.twoPow_eq]
  by_cases h : i = p
  · simp [hi']
  simp [h, Ne.symm h]

lemma getLsbD_clear (g m : BitVec 32) {i : Nat} (hi : i < rtThreadPriorityMax) :
    (g &&& ~~~m).getLsbD i = (g.getLsbD i && !m.getLsbD i) := by
  have hi' : i < 32 := hi
  rw [BitVec.getLsbD_and, BitVec.getLsbD_not, decide_eq_true hi', Bool.true_and]

lemma clear_eq_self_iff (g m : BitVec 32) : g &&& ~~~m = g ↔ m &&& g = 0 := by
  constructor
  · intro h
    rw [← h, BitVec.and_comm, BitVec.and_assoc]
    simp
  intro h
  ext i hi
  have hbit : (m[i] && g[i]) = false := by
    rw [← BitVec.getElem_and, h]
    simp
  cases hg : g[i] <;> simp_all

lemma Bits.congr (h : Bits k) (hg : k'.readyPriorityGroup = k.readyPriorityGroup)
    (hq : ∀ p, k'.queue (.ready p) = k.queue (.ready p)) : Bits k' := by
  intro p hp
  rw [hg, hq, h p hp]

lemma bits_iff_group_eq (h : Bits k) (hq : k'.queue = k.queue) :
    Bits k' ↔ k'.readyPriorityGroup = k.readyPriorityGroup := by
  constructor
  · intro hb
    apply BitVec.eq_of_getLsbD_eq
    intro i hi
    have hbi := hb i hi
    rw [hq, ← h i hi] at hbi
    exact Bool.eq_iff_iff.mpr hbi
  intro hg
  exact h.congr hg (fun p => by rw [hq])

variable [DecidableEq T]

lemma removeThread_group (k : Kernel T O) (t : T) :
    (k.rtScheduleRemoveThread t).readyPriorityGroup =
      if unlink k.queue t (.ready (k.tcb t).currentPriority) = [] then
        k.readyPriorityGroup &&& ~~~(k.tcb t).numberMask
      else k.readyPriorityGroup := by
  unfold rtScheduleRemoveThread
  split <;> rename_i h <;> simp at h <;> simp [h]

lemma Bits.remove (h : Bits k) (hmask : (k.tcb t).numberMask = 1#32 <<< (k.tcb t).currentPriority)
    (hmem : ∀ p, t ∈ k.queue (.ready p) → p = (k.tcb t).currentPriority) :
    Bits (k.rtScheduleRemoveThread t) := by
  intro p hp
  rw [removeThread_group, rtScheduleRemoveThread_queue, hmask]
  by_cases e : p = (k.tcb t).currentPriority
  · subst e
    by_cases hnil : unlink k.queue t (.ready (k.tcb t).currentPriority) = []
    · simp [hnil]
    have hne : k.queue (.ready (k.tcb t).currentPriority) ≠ [] := by
      intro hq
      exact hnil (by rw [unlink, hq]; rfl)
    rw [if_neg hnil, h _ hp]
    simp [hnil, hne]
  have hsame : unlink k.queue t (.ready p) = k.queue (.ready p) :=
    unlink_apply_of_notMem fun hm => e (hmem p hm)
  rw [hsame, ← h p hp]
  split
  · rw [getLsbD_clear _ _ hp, getLsbD_priorityMask _ hp]
    simp [e]
  rfl

lemma bits_remove_iff (h : Bits k) (hun : Unlinked k.queue t) :
    Bits (k.rtScheduleRemoveThread t) ↔
      k.queue (.ready (k.tcb t).currentPriority) ≠ [] ∨
        (k.tcb t).numberMask &&& k.readyPriorityGroup = 0 := by
  have hq : (k.rtScheduleRemoveThread t).queue = k.queue := by
    rw [rtScheduleRemoveThread_queue, unlink_of_unlinked hun]
  rw [bits_iff_group_eq h hq, removeThread_group, unlink_of_unlinked hun]
  by_cases hnil : k.queue (.ready (k.tcb t).currentPriority) = []
  · rw [if_pos hnil, clear_eq_self_iff]
    simp [hnil]
  simp [hnil]

lemma Bits.insert [DecidableEq O] (h : Bits k)
    (hmask : (k.tcb t).numberMask = 1#32 <<< (k.tcb t).currentPriority) :
    Bits (k.rtScheduleInsertThread t) := by
  intro p hp
  have hg : (k.rtScheduleInsertThread t).readyPriorityGroup =
      k.readyPriorityGroup ||| (k.tcb t).numberMask := rfl
  rw [hg, rtScheduleInsertThread_queue, hmask, BitVec.getLsbD_or, getLsbD_priorityMask _ hp]
  by_cases e : p = (k.tcb t).currentPriority
  · subst e
    simp
  have hne : Head.ready (O := O) p ≠ .ready (k.tcb t).currentPriority := by simpa using e
  rw [update_of_ne hne, ← h p hp]
  simp [e]

end

/-! ## What a call does to the bitmap -/

section

variable {live : T → Bool}

lemma Inv.schedule (h : Inv k live) (hk : k.rtSchedule = some k') : Inv k' live := by
  obtain ⟨htcb, hq, -⟩ := rtSchedule_spec hk
  refine ⟨hq ▸ h.separate, fun u => ?_⟩
  apply (h.placed u).congr (by rw [htcb]) _ rfl
  intro x
  rw [hq]

lemma Bits.schedule (h : Bits k) (hk : k.rtSchedule = some k') : Bits k' := by
  obtain ⟨-, hq, hg⟩ := rtSchedule_spec hk
  exact h.congr hg fun p => by rw [hq]

lemma Inv.mem_ready (h : Inv k live) {p : Nat} (hm : t ∈ k.queue (.ready p)) :
    p = (k.tcb t).currentPriority :=
  ((h.placed t).of_mem p hm).2.2.symm

lemma Inv.notMem_ready (h : Inv k live) (hs : (k.tcb t).stat ≠ .ready) (p : Nat) :
    t ∉ k.queue (.ready p) :=
  fun hm => hs ((h.placed t).of_mem p hm).2.1

lemma bits_insertAfter_defunct [DecidableEq O] :
    Bits (k.rtListInsertAfter .defunct t) ↔ Bits k := by
  constructor
  · intro h
    exact h.congr rfl fun _ => rfl
  intro h
  exact h.congr rfl fun _ => rfl

variable [DecidableEq T]

lemma Bits.listRemove (h : Bits k) (hm : ∀ p, t ∉ k.queue (.ready p)) : Bits (k.rtListRemove t) :=
  h.congr rfl fun p => unlink_apply_of_notMem (hm p)

lemma Bits.setTcb (h : Bits k) (c : Tcb) : Bits (k.setTcb t c) :=
  h.congr rfl fun _ => rfl

lemma Bits.timerStop (h : Bits k) : Bits (k.rtTimerStop t) := h.setTcb _

lemma Bits.suspend (h : Bits k) (hi : Inv k live) (hl : live t = true) :
    Bits (k.rtThreadSuspend t).1 := by
  by_cases hs : (k.tcb t).stat = .ready
  · unfold rtThreadSuspend
    rw [if_neg (by simp [hs])]
    apply (h.setTcb _).remove
    · simpa using (hi.placed t).mask hl (.inl hs)
    intro p hm
    simpa using hi.mem_ready hm
  rw [rtThreadSuspend_of_ne hs]
  exact h

lemma Bits.initBlock (h : Bits k) (hun : Unlinked k.queue t) {junk : Tcb} {b : Bool} {p : Nat}
    (hk : k.rtThreadInitBlock t junk b p = some k') : Bits k' := by
  unfold rtThreadInitBlock at hk
  split at hk
  · cases hk
    exact (h.listRemove fun p => hun _).setTcb _
  simp at hk

lemma Bits.sleep (h : Bits k) (hi : Inv k live) (hl : live t = true) {tick : Nat}
    (hk : k.rtThreadSleep t tick = some k') : Bits k' := by
  unfold rtThreadSleep rtTimerStart at hk
  split at hk
  · cases hk
    exact (h.suspend hi hl).setTcb _
  simp at hk

lemma Bits.idle (h : Bits k) (hi : Inv k live) {l : List T} (hd : k.queue .defunct = t :: l) :
    Bits k.rtThreadIdleExcute := by
  have hclose : (k.tcb t).stat = .close := (hi.placed t).dead (hd ▸ mem_cons_self)
  unfold rtThreadIdleExcute
  rw [hd]
  exact h.listRemove fun p => hi.notMem_ready (by simp [hclose]) p

lemma bits_closeThread : Bits (k.closeThread t) ↔ Bits (k.rtScheduleRemoveThread t) := by
  constructor
  · intro h
    exact h.congr (closeThread_group k t).symm fun p => by simp
  intro h
  exact h.congr (closeThread_group k t) fun p => by simp

lemma bits_closeThread_iff (h : Bits k) (hi : Inv k live) (hl : live t = true)
    (hs : (k.tcb t).stat ≠ .close) :
    Bits (k.closeThread t) ↔ ((k.tcb t).stat = .init →
      k.queue (.ready (k.tcb t).currentPriority) ≠ [] ∨
        (k.tcb t).numberMask &&& k.readyPriorityGroup = 0) := by
  have hstarted : (k.tcb t).stat = .ready ∨ (k.tcb t).stat = .suspend →
      Bits (k.rtScheduleRemoveThread t) := fun hst =>
    h.remove ((hi.placed t).mask hl hst) fun p hm => hi.mem_ready hm
  rw [bits_closeThread]
  cases hst : (k.tcb t).stat with
  | init =>
    rw [bits_remove_iff h ((hi.placed t).fresh hl hst)]
    simp
  | ready => simpa using hstarted (.inl hst)
  | suspend => simpa using hstarted (.inr hst)
  | close => exact absurd hst hs

variable [DecidableEq O]

lemma Bits.resume (h : Bits k) (hi : Inv k live) (hl : live t = true) :
    Bits (k.rtThreadResume t).1 := by
  by_cases hs : (k.tcb t).stat = .suspend
  · have hr := h.listRemove fun p => hi.notMem_ready (t := t) (by simp [hs]) p
    unfold rtThreadResume
    rw [if_neg (by simp [hs])]
    apply hr.timerStop.insert
    simpa using (hi.placed t).mask hl (.inr hs)
  rw [rtThreadResume_of_ne hs]
  exact h

lemma Bits.control (h : Bits k) (hi : Inv k live) (hl : live t = true) (p : Nat) :
    Bits (k.rtThreadControl t p) := by
  by_cases hs : (k.tcb t).stat = .ready
  · have hr := h.remove ((hi.placed t).mask hl (.inl hs)) fun q hm => hi.mem_ready hm
    unfold rtThreadControl
    rw [if_pos hs]
    apply (hr.setTcb _).insert
    simp
  rw [rtThreadControl_of_ne hs]
  exact h.setTcb _

lemma Bits.yield (h : Bits k) (hi : Inv k live) (hc : k.CanYield t) :
    Bits (k.rtThreadYield t) := by
  intro p hp
  have hg : (k.rtThreadYield t).readyPriorityGroup = k.readyPriorityGroup := rfl
  have hq : (k.rtThreadYield t).queue = update (unlink k.queue t)
      (.ready (k.tcb t).currentPriority)
      (unlink k.queue t (.ready (k.tcb t).currentPriority) ++ [t]) := rfl
  rw [hg, h p hp, hq]
  by_cases e : p = (k.tcb t).currentPriority
  · have hne : k.queue (.ready (k.tcb t).currentPriority) ≠ [] := ne_nil_of_mem hc.2.1
    subst e
    simp [hne]
  have hx : Head.ready (O := O) p ≠ .ready (k.tcb t).currentPriority := by simpa using e
  rw [update_of_ne hx, unlink_apply_of_notMem fun hm => e (hi.mem_ready hm)]

lemma bits_detach_iff : Bits (k.rtThreadDetach t) ↔ Bits (k.closeThread t) := by
  unfold rtThreadDetach
  split
  · exact bits_insertAfter_defunct
  rfl

lemma bits_exit_iff : Bits (k.rtThreadExit t) ↔ Bits (k.closeThread t) := by
  unfold rtThreadExit
  split
  · rfl
  exact bits_insertAfter_defunct

lemma step_spec {s s' : State T O} {op : Op T} (hi : Inv s.kernel s.live)
    (ha : Admissible s op) (h : step s op = some s') :
    Inv s'.kernel s'.live ∧ (Bits s.kernel → (Bits s'.kernel ↔ MaskHarmless s op)) := by
  cases op with
  | init t junk p | create t junk p =>
    obtain ⟨k, hk, rfl⟩ := map_eq_some_iff.mp h
    exact ⟨hi.initBlock hk, fun hb => iff_of_true (hb.initBlock ha.2 hk) trivial⟩
  | startup t =>
    obtain ⟨k, hk, h⟩ := bind_eq_some_iff.mp h
    unfold rtThreadStartup at hk
    split at hk
    · rename_i hs
      cases hk
      -- what is written first makes the thread look like a suspended one, which is resumed
      have hi1 := hi.started ha hs
      have hi2 := hi1.resume ha
      have hb2 := fun hb : Bits s.kernel => (hb.setTcb (s.kernel.tcb t).started).resume hi1 ha
      split at h
      · cases h
        exact ⟨hi2, fun hb => iff_of_true (hb2 hb) trivial⟩
      obtain ⟨k', hk', rfl⟩ := map_eq_some_iff.mp h
      exact ⟨hi2.schedule hk', fun hb => iff_of_true ((hb2 hb).schedule hk') trivial⟩
    simp at hk
  | suspend t =>
    cases h
    exact ⟨hi.suspend ha, fun hb => iff_of_true (hb.suspend hi ha) trivial⟩
  | resume t =>
    cases h
    exact ⟨hi.resume ha, fun hb => iff_of_true (hb.resume hi ha) trivial⟩
  | yield =>
    obtain ⟨t, ht, h⟩ := bind_eq_some_iff.mp h
    split at h
    · rename_i hc
      obtain ⟨k, hk, rfl⟩ := map_eq_some_iff.mp h
      exact ⟨(hi.yield hc).schedule hk,
        fun hb => iff_of_true ((hb.yield hi hc).schedule hk) trivial⟩
    cases h
    exact ⟨hi, fun hb => iff_of_true hb trivial⟩
  | sleep tick =>
    obtain ⟨t, ht, h⟩ := bind_eq_some_iff.mp h
    obtain ⟨k', hk', rfl⟩ := map_eq_some_iff.mp h
    obtain ⟨k, hk, hk'⟩ := bind_eq_some_iff.mp hk'
    obtain ⟨hl, hs⟩ := ha t ht
    exact ⟨(hi.sleep hl hs hk).schedule hk',
      fun hb => iff_of_true ((hb.sleep hi hl hk).schedule hk') trivial⟩
  | timeout t =>
    simp only [step] at h
    split at h
    · rename_i hlinked
      obtain ⟨k', hk', rfl⟩ := map_eq_some_iff.mp h
      obtain ⟨k, hk, hk'⟩ := bind_eq_some_iff.mp hk'
      obtain ⟨hs, rfl⟩ := rtThreadTimeout_eq_some hk
      -- a timer in the timer list belongs to a thread that exists
      have hl := ((hi.placed t).timed hlinked).1
      have hi1 := hi.expired hl hs
      exact ⟨(hi1.resume hl).schedule hk',
        fun hb => iff_of_true (((hb.setTcb _).resume hi1 hl).schedule hk') trivial⟩
    simp at h
  | control t p =>
    cases h
    exact ⟨hi.control ha.1 ha.2, fun hb => iff_of_true (hb.control hi ha.1 p) trivial⟩
  | setCleanup t b =>
    cases h
    exact ⟨hi.setCleanup b, fun hb => iff_of_true (hb.setTcb _) trivial⟩
  | detach t =>
    cases h
    refine ⟨hi.detach ha.1, fun hb => ?_⟩
    exact bits_detach_iff.trans (bits_closeThread_iff hb hi ha.1 ha.2)
  | delete t =>
    cases h
    refine ⟨hi.bury ha.1 fun _ _ => rfl, fun hb => ?_⟩
    exact bits_insertAfter_defunct.trans (bits_closeThread_iff hb hi ha.1 ha.2)
  | exit =>
    obtain ⟨t, ht, h⟩ := bind_eq_some_iff.mp h
    obtain ⟨k, hk, rfl⟩ := map_eq_some_iff.mp h
    obtain ⟨hl, hs⟩ := ha t ht
    -- the thread that exits has been started, so its mask is its own
    have hb2 : Bits s.kernel → Bits k := fun hb =>
      (bits_exit_iff.mpr ((bits_closeThread_iff hb hi hl (by rcases hs with hs | hs <;>
        simp [hs])).mpr (by rcases hs with hs | hs <;> simp [hs]))).schedule hk
    split
    · exact ⟨(hi.exit hl fun u hu => update_of_ne hu _ _).schedule hk,
        fun hb => iff_of_true (hb2 hb) trivial⟩
    exact ⟨(hi.exit hl fun _ _ => rfl).schedule hk, fun hb => iff_of_true (hb2 hb) trivial⟩
  | idle =>
    simp only [step] at h
    split at h
    · cases h
      exact ⟨hi, fun hb => iff_of_true hb trivial⟩
    rename_i t l hd
    cases h
    exact ⟨hi.idle hd, fun hb => iff_of_true (hb.idle hi hd) trivial⟩

end

/-! ## Whole runs -/

lemma inv_boot (junk : T → Tcb) : Inv (boot (O := O) junk).kernel (boot (O := O) junk).live := by
  refine ⟨⟨fun _ => nodup_nil, fun h => absurd h not_mem_nil⟩, fun u => ?_⟩
  refine ⟨fun p h => absurd h not_mem_nil, ?_, ?_, ?_, ?_, fun h => absurd h not_mem_nil, ?_⟩
  all_goals
    intro h
    exact absurd h (by simp [boot])

lemma bits_boot (junk : T → Tcb) : Bits (boot (O := O) junk).kernel := by
  intro p _
  simp [boot]

variable [DecidableEq T]

lemma readyQueueOk_iff_bits {s : State T O} (hi : Inv s.kernel s.live) :
    ReadyQueueOk s ↔ Bits s.kernel := by
  constructor
  · intro h
    exact h.1
  intro hb
  refine ⟨hb, ?_⟩
  intro t hl hs
  have hmem := (hi.placed t).mem hl hs
  exact ⟨count_eq_one_of_mem (hi.separate.nodup _) hmem, fun h ht => hi.separate.eq_of_mem ht hmem⟩

variable [DecidableEq O]

/-- **The ready queue.** In a run of admissible calls, whatever the control blocks held before
they were initialised, the ready queue is right in every state exactly when no removal of a
thread that was never started clears a bit that is needed: `number_mask` is set by
`rt_thread_startup` and by a change of the priority, but not by `_rt_thread_init`. -/
theorem readyQueue_iff (junk : T → Tcb) {ops : List (Op T)} {s' : State T O}
    (hadm : Meets step Admissible (boot junk : State T O) ops)
    (h : exec step (boot junk) ops = some s') :
    (∀ s : State T O, Reached step (boot junk) ops s → ReadyQueueOk s) ↔
      Meets step MaskHarmless (boot junk : State T O) ops := by
  apply always_iff_meets (I := fun s : State T O => Inv s.kernel s.live) _ _ (inv_boot junk) _
    hadm h
  · intro s op t hi ha ht
    exact (step_spec hi ha ht).1
  · intro s op t hi ha hP ht
    obtain ⟨hi', hb⟩ := step_spec hi ha ht
    rw [readyQueueOk_iff_bits hi']
    exact hb hP.1
  exact (readyQueueOk_iff_bits (inv_boot junk)).mpr (bits_boot junk)

/-- A control block that was never used, but for the value of `number_mask`. -/
def blank (numberMask : BitVec 32) : Tcb where
  stat := .init
  error := rtEok
  initPriority := 0
  currentPriority := 0
  numberMask := numberMask
  cleanup := false
  systemObject := false
  timer := { linked := false, activated := false, initTick := 0 }

/-- The idle thread is started; a thread of priority 5 is created in memory where the word of
`number_mask` is `m`, and deleted again before it is started. -/
def createAndDelete (m : BitVec 32) : List (Op (Fin 2)) :=
  [.create 0 (blank 0) 31, .startup 0, .create 1 (blank m) 5, .delete 1]

def blankBoot : State (Fin 2) Empty := boot fun _ => blank 0

lemma createAndDelete_admissible (m : BitVec 32) :
    Meets step Admissible blankBoot (createAndDelete m) := by
  refine ⟨⟨rfl, fun h => by simp [blankBoot, boot]⟩, fun s hs => ?_⟩
  cases hs
  refine ⟨rfl, fun s hs => ?_⟩
  cases hs
  refine ⟨⟨rfl, fun h => ?_⟩, fun s hs => ?_⟩
  · by_cases e : h = .ready 31
    · subst e
      decide
    simp [State.keep, State.mark, rtThreadResume, Tcb.started, blankBoot, boot, e]
  cases hs
  refine ⟨⟨rfl, fun h => by cases h⟩, fun s hs => trivial⟩

lemma createAndDelete_harmless : Meets step MaskHarmless blankBoot (createAndDelete 0) := by
  refine ⟨trivial, fun s hs => ?_⟩
  cases hs
  refine ⟨trivial, fun s hs => ?_⟩
  cases hs
  refine ⟨trivial, fun s hs => ?_⟩
  cases hs
  exact ⟨fun _ => .inr (by decide), fun s hs => trivial⟩

theorem readyQueue_iff_createAndDelete :
    Meets step Admissible blankBoot (createAndDelete 0) ∧
      ∀ s, Reached step blankBoot (createAndDelete 0) s → ReadyQueueOk s := by
  have hsome : (exec step blankBoot (createAndDelete 0)).isSome = true := by decide
  obtain ⟨s', hs'⟩ := isSome_iff_exists.mp hsome
  have hadm := createAndDelete_admissible 0
  exact ⟨hadm, (readyQueue_iff (fun _ => blank 0) hadm hs').mpr createAndDelete_harmless⟩

/-- **The slip.** With the bit of the idle thread in the word of `number_mask`, deleting the
thread that was never started clears that bit: the idle thread is ready, and the bitmap is
empty. -/
theorem deleteUnstarted_clears_bit :
    Meets step Admissible blankBoot (createAndDelete (1#32 <<< 31)) ∧
      ∃ s, exec step blankBoot (createAndDelete (1#32 <<< 31)) = some s ∧
        s.kernel.queue (.ready 31) = [0] ∧ s.kernel.readyPriorityGroup = 0 ∧
        ¬ ReadyQueueOk s := by
  obtain ⟨s, hs, hq, hg⟩ : ∃ s, exec step blankBoot (createAndDelete (1#32 <<< 31)) = some s ∧
      s.kernel.queue (.ready 31) = [0] ∧ s.kernel.readyPriorityGroup = 0 := by decide
  refine ⟨createAndDelete_admissible _, s, hs, hq, hg, ?_⟩
  intro hok
  have hbit := (hok.1 31 (by decide)).mpr (by rw [hq]; simp)
  rw [hg] at hbit
  exact absurd hbit (by decide)

end NbIot.ReadyQueue
