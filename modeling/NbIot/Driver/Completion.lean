import NbIot.Ipc.WaitQueue

/-! # Completions

`rt_completion_wait` and `rt_completion_done` of `completion.c`: one thread waits, as often as it
likes and with any timeout, and any number of threads and interrupts signal.

* `rt_completion_done` looks at `flag` before it disables the interrupts, so it is two steps: the
  test, and the signal of a call that has passed it.
* `rt_completion_wait` reads `thread->error` when it runs again, and only then disables the
  interrupts to clear `flag`; these are two steps as well.
* The signals are numbered. `held` are those that `flag` stands for.
-/

namespace NbIot.Completions

open Queues Kernel Run Function List

/-! ## The functions of `completion.c` -/

variable {T C : Type}

section

variable [DecidableEq T]

/-- `rt_completion_wait` of the thread `w`, up to its return (`some e`) or to `rt_schedule`
(`none`); with the flag behind it. -/
def rtCompletionWait (k : Kernel T Unit) (flag : Bool) (w : T) (timeout : Int) :
    Option (Kernel T Unit × Bool × Option Int) :=
  if flag then some (k, false, some rtEok)
  else if k.queue (.wait ()) ≠ [] then none
  else if timeout = 0 then some (k, flag, some (-rtEtimeout))
  else ((k.setError w rtEok).rtIpcWait () w .fifo timeout).map fun k => (k, flag, none)

/-- `rt_completion_done` behind the test of `flag`. -/
def rtCompletionSignal (k : Kernel T Unit) : Kernel T Unit × Bool := (k.resumeFirst (), true)

end

/-! ## Runs and the law -/

/-- Where the waiting thread is: not in a call, suspended or made ready again in one, or past
`result = thread->error`. -/
inductive Pc where
  | outside
  | asleep
  | leaving (result : Int)
  deriving DecidableEq

structure Waited where
  result : Int
  took : List Nat
  deriving DecidableEq

/-- `passed` are the calls of `rt_completion_done` that have found `flag` clear and not signalled
yet. -/
structure State (T C : Type) where
  kernel : Kernel T Unit
  flag : Bool
  pc : Pc
  passed : C → Bool
  signals : Nat
  held : List Nat
  log : List Waited

inductive Action (C : Type) where
  | wait (timeout : Int)
  | back
  | clear
  | test (c : C)
  | signal (c : C)
  | expire

/-- A wait clears the flag and returns. A flag that is clear stands for no signals, so there is
nothing to take where the source leaves the flag alone. -/
def State.ret (s : State T C) (result : Int) : State T C :=
  { s with flag := false, pc := .outside, held := [], log := s.log ++ [⟨result, s.held⟩] }

section

variable [DecidableEq T] [DecidableEq C]

/-- A call of `rt_completion_done` that has passed the test signals. -/
def State.signalled (s : State T C) (c : C) : State T C where
  kernel := (rtCompletionSignal s.kernel).1
  flag := (rtCompletionSignal s.kernel).2
  pc := s.pc
  passed := update s.passed c false
  signals := s.signals + 1
  held := s.held ++ [s.signals]
  log := s.log

def step (w : T) (s : State T C) : Action C → Option (State T C)
  | .wait timeout =>
    if s.pc = .outside then
      (rtCompletionWait s.kernel s.flag w timeout).map fun
        | (k, flag, none) => { s with kernel := k, flag := flag, pc := .asleep }
        | (k, flag, some e) => { s.ret e with kernel := k, flag := flag }
    else none
  | .back =>
    if s.pc = .asleep ∧ (s.kernel.tcb w).stat = .ready then
      some { s with pc := .leaving (s.kernel.tcb w).error }
    else none
  | .clear =>
    match s.pc with
    | .leaving e => some (s.ret e)
    | _ => none
  | .test c =>
    if s.flag then some s else some { s with passed := update s.passed c true }
  | .signal c =>
    if s.passed c then some (s.signalled c) else none
  | .expire =>
    if (s.kernel.tcb w).timer.linked then
      (s.kernel.rtThreadTimeout w).map fun k => { s with kernel := k }
    else none

end

structure Start (w : T) (s : State T C) : Prop where
  wait : s.kernel.queue (.wait ()) = []
  timer : ∀ t, (s.kernel.tcb t).timer.linked = false
  ready : (s.kernel.tcb w).stat = .ready
  flag : s.flag = false
  pc : s.pc = .outside
  signals : s.signals = 0
  held : s.held = []
  log : s.log = []

/-- **The law.** Every signal has been taken by one wait, or the flag stands for it; a wait that
returns `RT_EOK` took signals, and any other took none. -/
structure Accounted (s : State T C) : Prop where
  once : (s.held ++ s.log.flatMap (·.took)).Perm (List.range s.signals)
  pending : s.held ≠ [] → s.flag = true
  took : ∀ r ∈ s.log, r.result = rtEok ∧ r.took ≠ [] ∨ r.result = -rtEtimeout ∧ r.took = []

def Served [DecidableEq T] [DecidableEq C] (w : T) (s : State T C) : Prop :=
  ∀ rest, (∀ a ∈ rest, a = .back ∨ a = .clear) → ∀ s', exec (step w) s rest = some s' → Accounted s'

/-- The timeout of a wait has expired, and the wait has not returned. -/
def Late (w : T) (s : State T C) : Prop :=
  (s.pc = .asleep ∧ (s.kernel.tcb w).stat = .ready ∧ (s.kernel.tcb w).error = -rtEtimeout) ∨
    s.pc = .leaving (-rtEtimeout)
  deriving Decidable

/-- No signal comes while a wait whose timeout has expired is on its way out. -/
def InTime (w : T) (s : State T C) : Action C → Prop
  | .signal _ => ¬ Late w s
  | _ => True

instance (w : T) (s : State T C) (a : Action C) : Decidable (InTime w s a) := by
  cases a <;> unfold InTime <;> infer_instance

/-! ## What a step does -/

section

variable [DecidableEq T] [DecidableEq C]

inductive Move (w : T) (s : State T C) : Action C → State T C → Prop where
  | take {timeout} (hpc : s.pc = .outside) (hflag : s.flag = true) :
      Move w s (.wait timeout) (s.ret rtEok)
  | refuse (hpc : s.pc = .outside) (hflag : s.flag = false) :
      Move w s (.wait 0) (s.ret (-rtEtimeout))
  | sleep {timeout k} (hpc : s.pc = .outside) (hflag : s.flag = false)
      (hk : (s.kernel.setError w rtEok).rtIpcWait () w .fifo timeout = some k) :
      Move w s (.wait timeout) { s with kernel := k, pc := .asleep }
  | back (hpc : s.pc = .asleep) (hs : (s.kernel.tcb w).stat = .ready) :
      Move w s .back { s with pc := .leaving (s.kernel.tcb w).error }
  | clear {e} (hpc : s.pc = .leaving e) : Move w s .clear (s.ret e)
  | leave {c} (hflag : s.flag = true) : Move w s (.test c) s
  | pass {c} (hflag : s.flag = false) :
      Move w s (.test c) { s with passed := update s.passed c true }
  | signal {c} (hc : s.passed c = true) : Move w s (.signal c) (s.signalled c)
  | expire {k} (hk : s.kernel.rtThreadTimeout w = some k) : Move w s .expire { s with kernel := k }

lemma move_of_step {w : T} {s s' : State T C} {a : Action C} (h : step w s a = some s') :
    Move w s a s' := by
  cases a with
  | wait timeout =>
    simp only [step] at h
    split at h
    · rename_i hpc
      obtain ⟨r, hr, rfl⟩ := Option.map_eq_some_iff.mp h
      unfold rtCompletionWait at hr
      split at hr
      · rename_i hflag
        cases hr
        exact .take hpc hflag
      rename_i hflag
      have hflag : s.flag = false := by simpa using hflag
      split at hr
      · cases hr
      split at hr
      · rename_i ht
        subst ht
        cases hr
        rw [hflag]
        exact .refuse hpc hflag
      obtain ⟨k, hk, rfl⟩ := Option.map_eq_some_iff.mp hr
      exact .sleep hpc hflag hk
    cases h
  | back =>
    simp only [step] at h
    split at h
    · rename_i hf
      cases h
      exact .back hf.1 hf.2
    cases h
  | clear =>
    simp only [step] at h
    split at h
    · rename_i e hpc
      cases h
      exact .clear hpc
    cases h
  | test c =>
    simp only [step] at h
    split at h
    · rename_i hflag
      cases h
      exact .leave hflag
    rename_i hflag
    cases h
    exact .pass (by simpa using hflag)
  | signal c =>
    simp only [step] at h
    split at h
    · rename_i hc
      cases h
      exact .signal hc
    cases h
  | expire =>
    simp only [step] at h
    split at h
    · obtain ⟨k, hk, rfl⟩ := Option.map_eq_some_iff.mp h
      exact .expire hk
    cases h

end

/-! ## The invariant -/

variable {w : T} {s s' : State T C}

section

variable [DecidableEq T]

def Pc.pend (w : T) (pc : Pc) : T → Option Unit :=
  update (fun _ => none) w (if pc = .asleep then some () else none)

structure Inv (w : T) (s : State T C) : Prop where
  blocked : Blocked s.kernel (s.pc.pend w)
  ready : s.pc ≠ .asleep → (s.kernel.tcb w).stat = .ready
  queued : w ∈ s.kernel.queue (.wait ()) → s.flag = false
  resumed : s.pc = .asleep → (s.kernel.tcb w).stat = .ready → (s.kernel.tcb w).error = rtEok →
    s.flag = true
  leaving : ∀ e, s.pc = .leaving e → e = rtEok ∧ s.flag = true ∨ e = -rtEtimeout
  held : s.flag = true ↔ s.held ≠ []
  once : (s.held ++ s.log.flatMap (·.took)).Perm (List.range s.signals)

lemma update_pend (w : T) (pc : Pc) (o : Option Unit) :
    update (pc.pend w) w o = update (fun _ => none) w o :=
  update_idem _ _ _

lemma pend_self (w : T) (pc : Pc) : pc.pend w w = if pc = .asleep then some () else none :=
  update_self _ _ _

lemma inv_start (h : Start w s) : Inv w s where
  blocked := by
    refine .of_empty (fun o => h.wait) h.timer fun t => ?_
    unfold Pc.pend
    rw [h.pc, if_neg (by simp), update_eq_self]
  ready := fun _ => h.ready
  queued := fun _ => h.flag
  resumed := fun hpc => by simp [h.pc] at hpc
  leaving := fun e hpc => by simp [h.pc] at hpc
  held := by simp [h.flag, h.held]
  once := by simp [h.held, h.log, h.signals]

lemma Inv.ret (h : Inv w s) (hready : (s.kernel.tcb w).stat = .ready) (e : Int) :
    Inv w (s.ret e) where
  blocked := by
    have hb := h.blocked.finish hready
    rw [update_pend] at hb
    exact hb
  ready := fun _ => hready
  queued := fun _ => rfl
  resumed := fun hpc => by cases hpc
  leaving := fun e hpc => by cases hpc
  held := by simp [State.ret]
  once := by
    refine List.Perm.trans ?_ h.once
    simp only [State.ret, nil_append, flatMap_append, flatMap_singleton]
    exact perm_append_comm

lemma Inv.queue_cases (h : Inv w s) :
    s.kernel.queue (.wait ()) = [] ∨ s.kernel.queue (.wait ()) = [w] := by
  have honly : ∀ t ∈ s.kernel.queue (.wait ()), t = w := by
    intro t ht
    by_contra hne
    have hp := (h.blocked.queued ht).1
    rw [Pc.pend, update_of_ne hne] at hp
    cases hp
  have hnodup := h.blocked.nodup ()
  match hq : s.kernel.queue (.wait ()) with
  | [] => exact .inl rfl
  | [t] => exact .inr (by rw [honly t (by simp [hq])])
  | t :: u :: l =>
    rw [hq] at hnodup
    have ht := honly t (by simp [hq])
    have hu := honly u (by simp [hq])
    simp [ht, hu] at hnodup

variable [DecidableEq C]

lemma inv_move {a : Action C} (h : Inv w s) (hm : Move w s a s') : Inv w s' := by
  cases hm with
  | take hpc hflag | refuse hpc hflag | clear hpc => exact h.ret (h.ready (by simp [hpc])) _
  | leave hflag => exact h
  | pass hflag => exact ⟨h.blocked, h.ready, h.queued, h.resumed, h.leaving, h.held, h.once⟩
  | @sleep timeout k hpc hflag hk =>
    have hp : s.pc.pend w w = none := by rw [pend_self, if_neg (by simp [hpc])]
    have hready := h.ready (by simp [hpc])
    have hpark := (h.blocked.setError hp rtEok).wait_spec (by simpa using hready) hp (by simp) hk
    refine ⟨?_, fun hne => absurd rfl hne, fun _ => hflag, fun _ hs => ?_, ?_, h.held, h.once⟩
    · have hb := hpark.blocked
      rw [update_pend] at hb
      exact hb
    · exact absurd (hpark.stat.symm.trans hs) (by simp)
    intro e he
    cases he
  | back hpc hs =>
    have hp : s.pc.pend w w = some () := by rw [pend_self, if_pos hpc]
    have hnot := h.blocked.notMem_of_ready hs ()
    refine ⟨?_, fun _ => hs, h.queued, fun he => Pc.noConfusion he, ?_, h.held, h.once⟩
    · have hb := h.blocked.finish hs
      rw [update_pend] at hb
      exact hb
    -- the thread has been resumed, or its timer has expired
    intro e he
    obtain rfl := Pc.leaving.inj he
    rcases h.blocked.pending hp with hmem | ⟨-, herr | herr⟩
    · exact absurd hmem hnot
    · exact .inl ⟨herr, h.resumed hpc hs herr⟩
    exact .inr herr
  | signal hc =>
    have honce : (s.held ++ [s.signals] ++ s.log.flatMap (·.took)).Perm
        (List.range (s.signals + 1)) := by
      rw [List.range_succ, append_assoc]
      refine (perm_append_comm.append_left _).trans ?_
      rw [← append_assoc]
      exact h.once.append_right _
    have hleaving : ∀ e, s.pc = .leaving e → e = rtEok ∧ true = true ∨ e = -rtEtimeout :=
      fun e he => (h.leaving e he).imp_left fun hok => ⟨hok.1, rfl⟩
    have hresumed := h.blocked.resumeFirst ()
    rcases h.queue_cases with hq | hq
    · have hk : s.kernel.resumeFirst () = s.kernel := by rw [resumeFirst, hq]
      unfold State.signalled rtCompletionSignal
      rw [hk] at hresumed ⊢
      refine ⟨hresumed, h.ready, ?_, fun _ _ _ => rfl, hleaving, by simp, honce⟩
      intro hmem
      simp [hq] at hmem
    have hk : s.kernel.resumeFirst () = s.kernel.rtIpcListResume w := by rw [resumeFirst, hq]
    unfold State.signalled rtCompletionSignal
    rw [hk] at hresumed ⊢
    refine ⟨hresumed, ?_, ?_, fun _ _ _ => rfl, hleaving, by simp, honce⟩
    · simp [h.blocked.resume_tcb hq]
    intro hmem
    have hempty := h.blocked.resume_wait_self hq
    simp [hempty] at hmem
  | @expire k hk =>
    obtain ⟨hs, htcb⟩ := Blocked.timeout_tcb hk
    have hwait := Blocked.timeout_wait hk ()
    refine ⟨h.blocked.timeout hk, ?_, ?_, ?_, h.leaving, h.held, h.once⟩
    · intro hne
      exact absurd (hs.symm.trans (h.ready hne)) (by simp)
    · intro hmem
      have hmem : w ∈ k.queue (.wait ()) := hmem
      rw [hwait] at hmem
      exact absurd rfl (mem_unlink.mp hmem).2
    intro _ _ herr
    have herr : (k.tcb w).error = rtEok := herr
    simp [htcb, Tcb.expired, rtEtimeout, rtEok] at herr

end

/-! ## Signals -/

section

def Waited.Fair (r : Waited) : Prop :=
  r.result = rtEok ∧ r.took ≠ [] ∨ r.result = -rtEtimeout ∧ r.took = []

/-- What the law comes to in a state of the system: the waits have returned as they should, and one
that is late has nothing to clear. -/
def Safe (w : T) (s : State T C) : Prop := (∀ r ∈ s.log, r.Fair) ∧ (Late w s → s.held = [])

lemma safe_ret {e : Int} (hP : Safe w s)
    (he : e = rtEok ∧ s.held ≠ [] ∨ e = -rtEtimeout ∧ s.held = []) : Safe w (s.ret e) := by
  refine ⟨fun r hr => ?_, fun _ => rfl⟩
  rcases mem_append.mp hr with hr | hr
  · exact hP.1 r hr
  obtain rfl := mem_singleton.mp hr
  exact he

variable [DecidableEq T]

lemma Inv.accounted_iff (h : Inv w s) : Accounted s ↔ ∀ r ∈ s.log, r.Fair :=
  ⟨fun hs => hs.took, fun hs => ⟨h.once, h.held.mpr, hs⟩⟩

lemma Inv.held_nil (h : Inv w s) (hflag : s.flag = false) : s.held = [] := by
  by_contra hne
  have := h.held.mpr hne
  simp [hflag] at this

lemma Inv.late_signal [DecidableEq C] (h : Inv w s) (c : C) :
    Late w (s.signalled c) ↔ Late w s := by
  have hkernel : (s.signalled c).kernel = s.kernel.resumeFirst () := rfl
  have hpc : (s.signalled c).pc = s.pc := rfl
  unfold Late
  rw [hpc, hkernel, h.blocked.resumeFirst_error]
  rcases h.queue_cases with hq | hq
  · rw [resumeFirst, hq]
  have hmem : w ∈ s.kernel.queue (.wait ()) := by simp [hq]
  have herr : (s.kernel.tcb w).error = rtEok := (h.blocked.queued hmem).2.2
  have hne : rtEok ≠ -rtEtimeout := by decide
  simp [herr, hne]

variable [DecidableEq C]

lemma safe_move {a : Action C} (h : Inv w s) (hP : Safe w s) (hm : Move w s a s') :
    Safe w s' ↔ InTime w s a := by
  cases hm with
  | take hpc hflag => exact iff_of_true (safe_ret hP (.inl ⟨rfl, h.held.mp hflag⟩)) trivial
  | refuse hpc hflag =>
    exact iff_of_true (safe_ret hP (.inr ⟨rfl, h.held_nil hflag⟩)) trivial
  | clear hpc =>
    refine iff_of_true (safe_ret hP ?_) trivial
    rcases h.leaving _ hpc with ⟨he, hflag⟩ | he
    · exact .inl ⟨he, h.held.mp hflag⟩
    exact .inr ⟨he, hP.2 (.inr (he ▸ hpc))⟩
  | sleep hpc hflag hk => exact iff_of_true ⟨hP.1, fun _ => h.held_nil hflag⟩ trivial
  | back hpc hs =>
    refine iff_of_true ⟨hP.1, fun hlate => hP.2 ?_⟩ trivial
    rcases hlate with ⟨he, -⟩ | he
    · cases he
    exact .inl ⟨hpc, hs, Pc.leaving.inj he⟩
  | leave hflag => exact iff_of_true hP trivial
  | pass hflag => exact iff_of_true hP trivial
  | signal hc =>
    have hlate := h.late_signal
    constructor
    · intro hsafe hl
      have hnil := hsafe.2 ((hlate _).mpr hl)
      simp [State.signalled] at hnil
    exact fun hin => ⟨hP.1, fun hl => absurd ((hlate _).mp hl) hin⟩
  | @expire k hk =>
    refine iff_of_true ⟨hP.1, fun _ => h.held_nil ?_⟩ trivial
    -- a thread that is suspended is in the list, and then the flag is clear
    obtain ⟨hs, -⟩ := Blocked.timeout_tcb hk
    have hpc : s.pc = .asleep := by
      by_contra hne
      exact absurd (hs.symm.trans (h.ready hne)) (by simp)
    have hp : s.pc.pend w w = some () := by rw [pend_self, if_pos hpc]
    rcases h.blocked.pending hp with hmem | ⟨hready, -⟩
    · exact h.queued hmem
    exact absurd (hs.symm.trans hready) (by simp)

lemma step_back (hpc : s.pc = .asleep) (hs : (s.kernel.tcb w).stat = .ready) :
    step w s .back = some { s with pc := .leaving (s.kernel.tcb w).error } :=
  if_pos ⟨hpc, hs⟩

lemma step_clear {e : Int} (hpc : s.pc = .leaving e) : step w s .clear = some (s.ret e) := by
  simp only [step, hpc]

lemma not_accounted_late (hpc : s.pc = .leaving (-rtEtimeout)) (hheld : s.held ≠ []) :
    ∃ s', step w s .clear = some s' ∧ ¬ Accounted s' := by
  refine ⟨_, step_clear hpc, fun hacc => ?_⟩
  rcases hacc.took ⟨-rtEtimeout, s.held⟩ (by simp [State.ret]) with ⟨he, -⟩ | ⟨-, hnil⟩
  · exact absurd he (by simp [rtEtimeout, rtEok])
  exact hheld hnil

lemma served_iff (h : Inv w s) : Served w s ↔ Safe w s := by
  constructor
  · intro hserved
    refine ⟨h.accounted_iff.mp (hserved [] (by simp) s rfl), fun hlate => ?_⟩
    by_contra hheld
    rcases hlate with ⟨hpc, hs, herr⟩ | hpc
    · obtain ⟨s', hs', hnot⟩ := not_accounted_late
        (s := { s with pc := .leaving (s.kernel.tcb w).error }) (by rw [herr]) hheld
      refine hnot (hserved [.back, .clear] (by simp) s' ?_)
      rw [exec_cons, step_back hpc hs]
      exact exec_cons_eq_some.mpr ⟨s', hs', rfl⟩
    obtain ⟨s', hs', hnot⟩ := not_accounted_late hpc hheld
    exact hnot (hserved [.clear] (by simp) s' (exec_cons_eq_some.mpr ⟨s', hs', rfl⟩))
  intro hsafe rest hrest s' hs'
  have hboth : Inv w s' ∧ Safe w s' := by
    refine inv_of_forall_mem (I := fun u => Inv w u ∧ Safe w u) ?_ ⟨h, hsafe⟩ hrest hs'
    intro u a u' hu ha hu'
    have hm := move_of_step hu'
    refine ⟨inv_move hu.1 hm, (safe_move hu.1 hu.2 hm).mpr ?_⟩
    rcases ha with rfl | rfl
    · trivial
    trivial
  exact hboth.1.accounted_iff.mpr hboth.2.1

/-- **Completions.** In every run of one waiting thread with any number of threads and interrupts
that signal: after every step, and however the waiting thread gets out of its call, every signal has
been taken by one wait that returned `RT_EOK` or the flag stands for it, exactly when no signal came
while a wait whose timeout had expired was on its way out. -/
theorem completion_served_iff (w : T) (s : State T C) (hstart : Start w s) (as : List (Action C))
    (s' : State T C) (h : exec (step w) s as = some s') :
    (∀ u, Reached (step w) s as u → Served w u) ↔ Meets (step w) (InTime w) s as := by
  have hsafe : Safe w s := by
    refine ⟨fun r hr => ?_, fun _ => hstart.held⟩
    simp [hstart.log] at hr
  have hinv := inv_start hstart
  have hiff : (∀ u, Reached (step w) s as u → Safe w u) ↔ Meets (step w) (InTime w) s as :=
    always_iff_meets
      (fun u a u' hu _ hu' => inv_move hu (move_of_step hu'))
      (fun u a u' hu _ hP hu' => safe_move hu hP (move_of_step hu'))
      hinv hsafe (meets_of_forall (fun _ _ => trivial) s as) h
  rw [← hiff]
  refine forall₂_congr fun u hu => served_iff ?_
  obtain ⟨as', -, has'⟩ := hu
  exact inv_of_exec (fun t a t' ht ht' => inv_move ht (move_of_step ht')) hinv has'

end

def idle : State (Fin 1) Unit :=
  ⟨Kernel.ready fun _ => 10, false, .outside, fun _ => false, 0, [], []⟩

lemma start_idle : Start 0 idle where
  wait := rfl
  timer := fun _ => rfl
  ready := rfl
  flag := rfl
  pc := rfl
  signals := rfl
  held := rfl
  log := rfl

def twoWaits : List (Action Unit) :=
  [.wait 5, .test (), .signal (), .back, .clear, .wait 5, .expire, .back, .clear]

theorem completion_served_twice :
    ∃ s, exec (step 0) idle twoWaits = some s ∧ s.log = [⟨rtEok, [0]⟩, ⟨-rtEtimeout, []⟩] ∧
      Served 0 s := by
  obtain ⟨s, hs, hlog⟩ : ∃ s, exec (step 0) idle twoWaits = some s ∧
      s.log = [⟨rtEok, [0]⟩, ⟨-rtEtimeout, []⟩] := ⟨_, rfl, by decide⟩
  exact ⟨s, hs, hlog, (completion_served_iff 0 idle start_idle twoWaits s hs).mpr (by decide) s
    (reached_last hs)⟩

/-- The timeout expires, an interrupt signals, and then the thread comes to clear the flag: the wait
returns `-RT_ETIMEOUT`, and there is no trace of the signal. -/
theorem late_signal_lost :
    ∃ s, exec (step 0) idle [.wait 5, .expire, .test (), .signal (), .back, .clear] = some s ∧
      s.log = [⟨-rtEtimeout, [0]⟩] ∧ s.flag = false ∧ s.signals = 1 ∧ ¬ Served 0 s := by
  refine ⟨_, rfl, by decide, by decide, by decide, fun h => ?_⟩
  have htook := (h [] (by simp) _ rfl).took ⟨-rtEtimeout, [0]⟩ (by decide)
  exact absurd htook (by decide)

end NbIot.Completions
