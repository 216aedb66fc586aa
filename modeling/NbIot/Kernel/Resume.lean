import NbIot.Kernel.Links

/-! # Two resumes of one thread

`rt_thread_resume` has three critical sections: it reads `stat`, it takes the thread out of the list
it waits in, and it puts the thread into the ready list. Interrupts are enabled between them, and
an interrupt may call `rt_thread_resume` for the same thread. A run is any sequence of the sections
of the thread's call and of whole calls by interrupts.
-/

namespace NbIot.ResumeRace

open Run Queues Nodes

/-! ## `rt_thread_resume` in two pieces -/

variable {T O : Type}

inductive Pc where
  | called
  | tested
  | unlinked
  | returned
  deriving DecidableEq

structure State (T O : Type) where
  nodes : Nodes T O
  pc : Pc
  returns : List Int

inductive Act where
  /-- The next section of the running thread's call. -/
  | thread
  /-- A whole call by an interrupt. -/
  | irq
  deriving DecidableEq

/-- The running thread and the interrupts call `rt_thread_resume(t)`. -/
def step [DecidableEq T] [DecidableEq O] (t : T) (s : State T O) : Act → Option (State T O)
  | .thread =>
    match s.pc with
    | .called =>
      if (s.nodes.tcb t).stat ≠ .suspend then
        some { s with pc := .returned, returns := s.returns ++ [-rtError] }
      else some { s with pc := .tested }
    | .tested =>
      some { s with pc := .unlinked, nodes := (s.nodes.rtListRemove t).rtTimerStop t }
    | .unlinked =>
      some { nodes := s.nodes.rtScheduleInsertThread t, pc := .returned,
             returns := s.returns ++ [rtEok] }
    | .returned => none
  | .irq =>
    some { s with nodes := (s.nodes.rtThreadResume t).1,
                  returns := s.returns ++ [(s.nodes.rtThreadResume t).2] }

def start (nodes : Nodes T O) : State T O := ⟨nodes, .called, []⟩

/-! ## The window between them -/

def InWindow (s : State T O) : Prop := s.pc = .tested ∨ s.pc = .unlinked
  deriving Decidable

def Undisturbed (s : State T O) (a : Act) : Prop := a = .irq → ¬ InWindow s
  deriving Decidable

/-- How many calls have returned `RT_EOK`. -/
def State.oks (s : State T O) : Nat := s.returns.count rtEok

/-- All lists are well-formed rings without common members, and `t` is in the ready list of its
current priority. -/
def LinkedOnce (t : T) (nodes : Nodes T O) : Prop :=
  ∃ queue : Head O → List T, Separate queue ∧
    (∀ h, Ring nodes.links.next nodes.links.prev (.head h) ((queue h).map .thread)) ∧
    t ∈ queue (.ready (nodes.tcb t).currentPriority)

/-- The calls that have returned `RT_EOK`, and the one that is bound to. -/
def State.promised (s : State T O) : Nat := s.oks + if InWindow s then 1 else 0

lemma promised_inside {s : State T O} (hw : InWindow s) : s.promised = s.oks + 1 := by
  rw [State.promised, if_pos hw]

lemma promised_outside {s : State T O} (hw : ¬ InWindow s) : s.promised = s.oks := by
  rw [State.promised, if_neg hw, add_zero]

lemma oks_error (s : State T O) (pc : Pc) (n : Nodes T O) :
    State.oks (⟨n, pc, s.returns ++ [-rtError]⟩ : State T O) = s.oks := by
  simp [State.oks, rtError, rtEok]

lemma oks_eok (s : State T O) (pc : Pc) (n : Nodes T O) :
    State.oks (⟨n, pc, s.returns ++ [rtEok]⟩ : State T O) = s.oks + 1 := by
  simp [State.oks]

/-! ## What a step does -/

section

variable [DecidableEq T] [DecidableEq O] {t : T} {s s' : State T O} {a : Act}

inductive Move (t : T) (s : State T O) : Act → State T O → Prop
  | refused : s.pc = .called → (s.nodes.tcb t).stat ≠ .suspend →
      Move t s .thread { s with pc := .returned, returns := s.returns ++ [-rtError] }
  | test : s.pc = .called → (s.nodes.tcb t).stat = .suspend →
      Move t s .thread { s with pc := .tested }
  | unlink : s.pc = .tested →
      Move t s .thread
        { s with pc := .unlinked, nodes := (s.nodes.rtListRemove t).rtTimerStop t }
  | insert : s.pc = .unlinked →
      Move t s .thread { nodes := s.nodes.rtScheduleInsertThread t, pc := .returned,
                         returns := s.returns ++ [rtEok] }
  | irqRefused : (s.nodes.tcb t).stat ≠ .suspend →
      Move t s .irq { s with returns := s.returns ++ [-rtError] }
  | irq : (s.nodes.tcb t).stat = .suspend →
      Move t s .irq { s with nodes := (s.nodes.rtThreadResume t).1,
                             returns := s.returns ++ [rtEok] }

lemma move_of_step (h : step t s a = some s') : Move t s a s' := by
  cases a with
  | thread =>
    simp only [step] at h
    split at h
    · rename_i hpc
      split at h
      · cases h
        exact .refused hpc ‹_›
      cases h
      exact .test hpc (not_not.mp ‹_›)
    · cases h
      exact .unlink ‹_›
    · cases h
      exact .insert ‹_›
    simp at h
  | irq =>
    cases h
    by_cases hst : (s.nodes.tcb t).stat = .suspend
    · have hret : (s.nodes.rtThreadResume t).2 = rtEok := by simp [rtThreadResume, hst]
      rw [hret]
      exact .irq hst
    have hcall : s.nodes.rtThreadResume t = (s.nodes, -rtError) := if_pos hst
    rw [hcall]
    exact .irqRefused hst

lemma stat_rtThreadResume (hst : (s.nodes.tcb t).stat = .suspend) :
    ((s.nodes.rtThreadResume t).1.tcb t).stat = .ready := by
  simp [rtThreadResume, hst, rtScheduleInsertThread]

/-- Before the call of the running thread ends, the thread is suspended if no call has succeeded,
and only then unless the test was made before. After it, the thread is not suspended. -/
structure Tracks (t : T) (s : State T O) : Prop where
  suspended : s.pc ≠ .returned → s.oks = 0 → (s.nodes.tcb t).stat = .suspend
  resumed : s.pc = .called → s.oks ≠ 0 → (s.nodes.tcb t).stat ≠ .suspend
  returned : s.pc = .returned → (s.nodes.tcb t).stat ≠ .suspend

lemma tracks_step (hI : Tracks t s) (h : step t s a = some s') : Tracks t s' := by
  cases move_of_step h with
  | refused hpc hst =>
    exact ⟨fun hne => absurd rfl hne, fun hc => absurd hc (by simp), fun _ => hst⟩
  | test hpc hst =>
    exact ⟨fun _ _ => hst, fun hc => absurd hc (by simp), fun hc => absurd hc (by simp)⟩
  | unlink hpc =>
    refine ⟨fun _ h0 => ?_, fun hc => absurd hc (by simp), fun hc => absurd hc (by simp)⟩
    have hst := hI.suspended (by simp [hpc]) h0
    simpa [rtTimerStop, Nodes.rtListRemove] using hst
  | insert hpc =>
    refine ⟨fun hne => absurd rfl hne, fun hc => absurd hc (by simp), fun _ => ?_⟩
    simp [rtScheduleInsertThread]
  | irqRefused hst =>
    refine ⟨fun hne h0 => ?_, fun _ _ => hst, fun _ => hst⟩
    rw [oks_error] at h0
    exact hI.suspended hne h0
  | irq hst =>
    have hready := stat_rtThreadResume hst
    refine ⟨fun _ h0 => ?_, fun _ _ => ?_, fun _ => ?_⟩
    · rw [oks_eok] at h0
      exact absurd h0 (by omega)
    · rw [hready]; simp
    rw [hready]; simp

lemma promised_le_step (h : step t s a = some s') : s.promised ≤ s'.promised := by
  cases move_of_step h with
  | refused hpc hst =>
    rw [promised_outside (by simp [InWindow, hpc]), promised_outside (by simp [InWindow]),
      oks_error]
  | test hpc hst =>
    rw [promised_outside (by simp [InWindow, hpc])]
    exact Nat.le_succ s.oks
  | unlink hpc =>
    rw [promised_inside (.inl hpc)]
    exact le_rfl
  | insert hpc =>
    rw [promised_inside (.inr hpc), promised_outside (by simp [InWindow]), oks_eok]
  | irqRefused hst =>
    rw [State.promised, State.promised, oks_error]
    exact le_rfl
  | irq hst =>
    rw [State.promised, State.promised, oks_eok]
    exact Nat.add_le_add_right (Nat.le_succ s.oks) _

/-- **One step.** As long as one call at most is bound to succeed, a step keeps it so exactly when
it is not an interrupt in the window. -/
theorem promised_step_iff (hI : Tracks t s) (hP : s.promised ≤ 1) (h : step t s a = some s') :
    s'.promised ≤ 1 ↔ Undisturbed s a := by
  have hwindow : InWindow s → s.oks = 0 := by
    intro hw
    rw [promised_inside hw] at hP
    omega
  cases move_of_step h with
  | refused hpc hst =>
    refine iff_of_true ?_ (fun e => absurd e (by simp))
    rw [promised_outside (by simp [InWindow, hpc])] at hP
    rwa [promised_outside (by simp [InWindow]), oks_error]
  | test hpc hst =>
    refine iff_of_true ?_ (fun e => absurd e (by simp))
    have h0 : s.oks = 0 := by
      by_contra hne
      exact hI.resumed hpc hne hst
    exact (congrArg (· + 1) h0).le
  | unlink hpc =>
    refine iff_of_true ?_ (fun e => absurd e (by simp))
    exact (congrArg (· + 1) (hwindow (.inl hpc))).le
  | insert hpc =>
    refine iff_of_true ?_ (fun e => absurd e (by simp))
    rw [promised_outside (by simp [InWindow]), oks_eok, hwindow (.inr hpc)]
  | irqRefused hst =>
    -- in the window the thread is suspended, and the call is not refused
    have hnot : ¬ InWindow s := by
      intro hw
      have hpc : s.pc ≠ .returned := by rcases hw with hw | hw <;> simp [hw]
      exact hst (hI.suspended hpc (hwindow hw))
    refine iff_of_true ?_ fun _ => hnot
    rw [State.promised, oks_error]
    exact hP
  | irq hst =>
    have hsame : InWindow (⟨(s.nodes.rtThreadResume t).1, s.pc, s.returns ++ [rtEok]⟩ : State T O)
        ↔ InWindow s := Iff.rfl
    by_cases hw : InWindow s
    · refine iff_of_false ?_ (fun hu => hu rfl hw)
      rw [promised_inside (hsame.mpr hw), oks_eok]
      omega
    refine iff_of_true ?_ fun _ => hw
    have h0 : s.oks = 0 := by
      by_contra hne
      cases hpc : s.pc with
      | called => exact hI.resumed hpc hne hst
      | tested => exact hw (.inl hpc)
      | unlinked => exact hw (.inr hpc)
      | returned => exact hI.returned hpc hst
    rw [promised_outside (hsame.not.mpr hw), oks_eok, h0]

/-! ## One list at a time -/

/-- No call has succeeded, and the lists are in order; `t` has been taken out of its list if that
section has run. -/
def Pending (t : T) (s : State T O) : Prop :=
  s.oks = 0 ∧ (s.nodes.tcb t).stat = .suspend ∧
    ∃ k, s.nodes.Represents k ∧ (s.pc = .unlinked → Unlinked k.queue t)

def Settled (t : T) (s : State T O) : Prop :=
  s.oks = 1 ∧ (s.nodes.tcb t).stat = .ready ∧ LinkedOnce t s.nodes

def Orderly (t : T) (s : State T O) : Prop :=
  (s.pc ≠ .returned ∧ Pending t s) ∨ (¬ InWindow s ∧ Settled t s)

lemma linkedOnce_insert {n : Nodes T O} {k : Kernel T O} (hr : n.Represents k)
    (ht : Unlinked k.queue t) : LinkedOnce t (n.rtScheduleInsertThread t) := by
  have hr' := represents_rtScheduleInsertThread hr ht
  refine ⟨_, hr'.separate, hr'.ring, ?_⟩
  simp [rtScheduleInsertThread, hr.tcb]

lemma linkedOnce_resume {n : Nodes T O} {k : Kernel T O} (hr : n.Represents k)
    (hst : (n.tcb t).stat = .suspend) : LinkedOnce t (n.rtThreadResume t).1 := by
  have hcall : (n.rtThreadResume t).1
      = ((n.rtListRemove t).rtTimerStop t).rtScheduleInsertThread t := by
    simp [rtThreadResume, hst]
  rw [hcall]
  exact linkedOnce_insert (represents_rtTimerStop (represents_rtListRemove hr t) t)
    (unlinked_unlink k.queue t)

lemma orderly_step (hI : Orderly t s) (hC : Undisturbed s a) (h : step t s a = some s') :
    Orderly t s' := by
  cases move_of_step h with
  | refused hpc hst =>
    rcases hI with ⟨-, -, hsusp, -⟩ | ⟨-, h1, hready, hlink⟩
    · exact absurd hsusp hst
    exact .inr ⟨by simp [InWindow], by rw [oks_error]; exact h1, hready, hlink⟩
  | test hpc hst =>
    rcases hI with ⟨-, h0, hsusp, k, hr, -⟩ | ⟨-, -, hready, -⟩
    · exact .inl ⟨by simp, h0, hsusp, k, hr, fun hc => absurd hc (by simp)⟩
    exact absurd (hst.symm.trans hready) (by simp)
  | unlink hpc =>
    rcases hI with ⟨-, h0, hsusp, k, hr, -⟩ | ⟨hw, -⟩
    · refine .inl ⟨by simp, h0, ?_, _,
        represents_rtTimerStop (represents_rtListRemove hr t) t, fun _ => ?_⟩
      · simpa [rtTimerStop, Nodes.rtListRemove] using hsusp
      exact unlinked_unlink k.queue t
    exact absurd (.inl hpc) hw
  | insert hpc =>
    rcases hI with ⟨-, h0, hsusp, k, hr, hun⟩ | ⟨hw, -⟩
    · refine .inr ⟨by simp [InWindow], by rw [oks_eok, h0], ?_, linkedOnce_insert hr (hun hpc)⟩
      simp [rtScheduleInsertThread]
    exact absurd (.inr hpc) hw
  | irqRefused hst =>
    rcases hI with ⟨-, -, hsusp, -⟩ | ⟨hw, h1, hready, hlink⟩
    · exact absurd hsusp hst
    exact .inr ⟨hw, by rw [oks_error]; exact h1, hready, hlink⟩
  | irq hst =>
    rcases hI with ⟨-, h0, -, k, hr, -⟩ | ⟨-, -, hready, -⟩
    · exact .inr ⟨hC rfl, by rw [oks_eok, h0], stat_rtThreadResume hst, linkedOnce_resume hr hst⟩
    exact absurd (hst.symm.trans hready) (by simp)

/-- **Concurrent resume.** A thread is suspended, a running thread and any number of interrupts
resume it. When the running thread's call has returned, the thread is linked exactly once, in the
ready list of its current priority, all lists are well formed and exactly one call has returned
`RT_EOK`, if and only if no interrupt came between the test and the insertion. -/
theorem resume_race_iff (t : T) (nodes : Nodes T O) (k : Kernel T O) (hr : nodes.Represents k)
    (hst : (nodes.tcb t).stat = .suspend) (acts : List Act) (s : State T O)
    (hrun : exec (step t) (start nodes) acts = some s) (hdone : s.pc = .returned) :
    (LinkedOnce t s.nodes ∧ s.oks = 1) ↔ Meets (step t) Undisturbed (start nodes) acts := by
  have htracks : Tracks t (start nodes) :=
    ⟨fun _ _ => hst, fun _ h0 => absurd rfl h0, fun hc => absurd hc (by simp [start])⟩
  have hw : ¬ InWindow s := by simp [InWindow, hdone]
  constructor
  · rintro ⟨-, hone⟩
    -- the number of promised successes never falls, so it was one at most all the time
    have hP : ∀ u, Reached (step t) (start nodes) acts u → u.promised ≤ 1 := by
      rintro u ⟨pre, ⟨rest, rfl⟩, hu⟩
      have hrest : exec (step t) u rest = some s := by
        rwa [exec_append, hu] at hrun
      have hle : u.promised ≤ s.promised := inv_of_exec (I := fun v => u.promised ≤ v.promised)
          (fun v a v' hv hstep => hv.trans (promised_le_step hstep)) le_rfl hrest
      calc u.promised ≤ s.promised := hle
        _ = s.oks := promised_outside hw
        _ ≤ 1 := hone.le
    exact (always_iff_meets
      (fun u a u' hI _ hstep => tracks_step hI hstep)
      (fun u a u' hI _ hPu hstep => promised_step_iff hI hPu hstep) htracks
      (by rw [promised_outside (by simp [InWindow, start])]; exact Nat.zero_le 1)
      (meets_of_forall (fun _ _ => trivial) _ _) hrun).mp hP
  intro hM
  have hstart : Orderly t (start nodes) :=
    Or.inl ⟨by simp [start], rfl, hst, k, hr, fun hc => absurd hc (by simp [start])⟩
  rcases inv_of_meets (fun u a u' hI hC hstep => orderly_step hI hC hstep) hstart hM hrun with
    ⟨hpc, -⟩ | ⟨-, h1, -, hlink⟩
  · exact absurd hdone hpc
  exact ⟨hlink, h1⟩

end

/-! ## Two threads -/

/-- Thread `0` is ready, thread `1` has been suspended. -/
def twoNodes : Nodes (Fin 2) Empty where
  links :=
    { next := fun
        | .head (.ready 5) => .thread 0
        | .thread 0 => .head (.ready 5)
        | n => n
      prev := fun
        | .head (.ready 5) => .thread 0
        | .thread 0 => .head (.ready 5)
        | n => n }
  tcb := fun t => { Kernel.readyTcb 5 with stat := if t = 0 then .ready else .suspend }
  readyPriorityGroup := 1#32 <<< 5

def twoKernel : Kernel (Fin 2) Empty where
  tcb := twoNodes.tcb
  queue := fun h => if h = .ready 5 then [0] else []
  readyPriorityGroup := 1#32 <<< 5
  currentThread := some 0
  schedulerLockNest := 0

lemma twoNodes_represents : twoNodes.Represents twoKernel := by
  have hq : ∀ h, h ≠ .ready 5 → twoKernel.queue h = [] := fun h hh => if_neg hh
  refine ⟨rfl, rfl, ⟨fun h => ?_, ?_⟩, fun h => ?_, fun t ht => ?_⟩
  · by_cases hh : h = .ready 5
    · rw [hh]; exact List.nodup_singleton 0
    rw [hq h hh]; exact List.nodup_nil
  · intro h h' u hu hu'
    by_cases hh : h = .ready 5
    · by_cases hh' : h' = .ready 5
      · rw [hh, hh']
      rw [hq h' hh'] at hu'; exact absurd hu' List.not_mem_nil
    rw [hq h hh] at hu; exact absurd hu List.not_mem_nil
  · by_cases hh : h = .ready 5
    · subst hh
      exact ⟨by decide, rfl, rfl, rfl, rfl, trivial⟩
    rw [hq h hh]
    have hself : twoNodes.links.next (.head h) = .head h ∧
        twoNodes.links.prev (.head h) = .head h := by
      constructor
      · simp only [twoNodes]; split <;> simp_all
      simp only [twoNodes]; split <;> simp_all
    exact ⟨List.nodup_singleton _, hself.1, hself.2, trivial⟩
  have h1 : t = 1 := by
    have hne : t ≠ 0 := fun e => ht (.ready 5) (by rw [e]; exact List.mem_singleton_self 0)
    omega
  subst h1
  exact ⟨rfl, rfl⟩

theorem represents_rtThreadResume_two :
    (twoNodes.rtThreadResume 1).1.Represents (twoKernel.rtThreadResume 1).1 :=
  (Nodes.represents_rtThreadResume twoNodes_represents 1).1

theorem resume_race_iff_irqFirst :
    ∃ s, exec (step 1) (start twoNodes) [.irq, .thread] = some s ∧ s.pc = .returned ∧
      LinkedOnce 1 s.nodes ∧ s.oks = 1 := by
  obtain ⟨s, hs, hpc⟩ : ∃ s, exec (step 1) (start twoNodes) [.irq, .thread] = some s ∧
      s.pc = .returned := ⟨_, rfl, rfl⟩
  exact ⟨s, hs, hpc, (resume_race_iff 1 twoNodes twoKernel twoNodes_represents rfl _ s hs hpc).mpr
    (by decide +kernel)⟩

/-- The interrupt comes between the unlinking and the insertion: both calls return `RT_EOK`, and the
node of thread `1` is inserted behind itself, so that the ready list can no longer be walked
backwards. -/
theorem irq_inWindow_corrupts :
    (exec (step 1) (start twoNodes) [.thread, .thread, .irq, .thread]).map (fun s =>
        (s.returns, s.nodes.links.next (.thread 0), s.nodes.links.prev (.thread 1)))
      = some ([rtEok, rtEok], .thread 1, .thread 1) := by
  decide +kernel

end NbIot.ResumeRace
