import NbIot.Ipc.WaitQueue

/-! # Mutexes

`rt_mutex_take` and `rt_mutex_release` of `ipc.c`, for any number of threads and mutexes. A take
that has to wait is two steps, one up to `rt_schedule` and one behind it; everything else is done
with interrupts disabled and is one step. The thread timers expire at any time while they run.
-/

namespace NbIot.Mutexes

open Queues Kernel Function

/-! ## The functions of `ipc.c` -/

variable {T M : Type}

/-- `struct rt_mutex`. -/
structure Mutex (T : Type) where
  value : Nat
  owner : Option T
  originalPriority : Nat
  hold : Nat
  flag : IpcFlag
  deriving DecidableEq

def rtMutexInit (flag : IpcFlag) : Mutex T where
  value := 1
  owner := none
  originalPriority := 0xff
  hold := 0
  flag := flag

/-- `mutex->hold ++` of the owner. -/
def Mutex.again (mx : Mutex T) : Mutex T := { mx with hold := (mx.hold + 1) % 2 ^ 8 }

/-- A free mutex is taken by `t`, whose priority is `p`. -/
def Mutex.grab (mx : Mutex T) (t : T) (p : Nat) : Mutex T :=
  { mx with value := mx.value - 1, owner := some t, originalPriority := p,
            hold := (mx.hold + 1) % 2 ^ 8 }

/-- `mutex->hold --`. -/
def Mutex.drop (mx : Mutex T) : Mutex T := { mx with hold := (mx.hold + (2 ^ 8 - 1)) % 2 ^ 8 }

/-- After the last `hold --` the mutex goes to the waiter `w`, whose priority is `p`. -/
def Mutex.hand (mx : Mutex T) (w : T) (p : Nat) : Mutex T :=
  { mx.drop with owner := some w, originalPriority := p, hold := (mx.drop.hold + 1) % 2 ^ 8 }

/-- After the last `hold --` the mutex becomes free. -/
def Mutex.free (mx : Mutex T) : Mutex T :=
  { mx.drop with value := (mx.value + 1) % 2 ^ 16, owner := none, originalPriority := 0xff }

section

variable [DecidableEq T] [DecidableEq M]

/-- The owner `w` of a mutex gets the priority of `t`, if that is numerically smaller. -/
def boost (k : Kernel T M) (w t : T) : Kernel T M :=
  if (k.tcb t).currentPriority < (k.tcb w).currentPriority then
    k.rtThreadControl w (k.tcb t).currentPriority
  else k

/-- The waiting part of `rt_mutex_take`, up to `rt_schedule`. -/
def waitFor (k : Kernel T M) (flag : IpcFlag) (m : M) (w t : T) (time : Int) :
    Option (Kernel T M) :=
  (boost k w t).rtIpcWait m t flag time

/-- `rt_mutex_take` of the thread `t`, up to its return (`some e`) or to `rt_schedule` (`none`).
With `value` zero and no owner it would read through a null pointer. -/
def rtMutexTake (k : Kernel T M) (mx : Mutex T) (m : M) (t : T) (time : Int) :
    Option (Kernel T M × Mutex T × Option Int) :=
  if mx.owner = some t then some (k.setError t rtEok, mx.again, some rtEok)
  else if 0 < mx.value then
    some (k.setError t rtEok, mx.grab t (k.tcb t).currentPriority, some rtEok)
  else if time = 0 then
    some ((k.setError t rtEok).setError t (-rtEtimeout), mx, some (-rtEtimeout))
  else
    match mx.owner with
    | none => none
    | some w => (waitFor (k.setError t rtEok) mx.flag m w t time).map fun k' => (k', mx, none)

/-- The owner gets back the priority it had when it took the mutex. -/
def restore (k : Kernel T M) (mx : Mutex T) (t : T) : Kernel T M :=
  if mx.originalPriority ≠ (k.tcb t).currentPriority then k.rtThreadControl t mx.originalPriority
  else k

/-- `rt_mutex_release` of the thread `t`. -/
def rtMutexRelease (k : Kernel T M) (mx : Mutex T) (m : M) (t : T) : Kernel T M × Mutex T × Int :=
  if mx.owner ≠ some t then (k.setError t (-rtError), mx, -rtError)
  else if mx.drop.hold = 0 then
    match (restore k mx t).queue (.wait m) with
    | [] => (restore k mx t, mx.free, rtEok)
    | w :: _ =>
      ((restore k mx t).rtIpcListResume w,
        mx.hand w ((restore k mx t).tcb w).currentPriority, rtEok)
  else (k, mx.drop, rtEok)

end

/-! ## Runs -/

inductive Call (T M : Type) where
  | took (t : T) (m : M) (err : Int)
  | released (t : T) (m : M) (err : Int)
  deriving DecidableEq

/-- The kernel, the mutexes, on which mutex each thread is in the waiting part of
`rt_mutex_take`, and the calls that have returned. -/
structure State (T M : Type) where
  kernel : Kernel T M
  mutex : M → Mutex T
  pend : T → Option M
  log : List (Call T M)

inductive Action (T M : Type) where
  | take (t : T) (m : M) (time : Int)
  | back (t : T)
  | release (t : T) (m : M)
  | timeout (t : T)

/-- `t` is ready and in none of the two functions. -/
def State.Free (s : State T M) (t : T) : Prop :=
  (s.kernel.tcb t).stat = .ready ∧ s.pend t = none
  deriving Decidable

section

variable [DecidableEq T] [DecidableEq M]

/-- A call on the mutex `m` returns. -/
def State.ret (s : State T M) (k : Kernel T M) (m : M) (mx : Mutex T) (c : Call T M) :
    State T M where
  kernel := k
  mutex := update s.mutex m mx
  pend := s.pend
  log := s.log ++ [c]

/-- A take of `t` has to wait for the mutex `m`. -/
def State.block (s : State T M) (k : Kernel T M) (t : T) (m : M) : State T M :=
  { s with kernel := k, pend := update s.pend t (some m) }

/-- The take for which `t` has waited returns `thread->error`, which is `RT_EOK` or not. -/
def State.resumed (s : State T M) (t : T) (m : M) : State T M :=
  { s with pend := update s.pend t none
           log := s.log ++ [.took t m (s.kernel.tcb t).error] }

def step (s : State T M) : Action T M → Option (State T M)
  | .take t m time =>
    if s.Free t then
      (rtMutexTake s.kernel (s.mutex m) m t time).map fun r =>
        match r.2.2 with
        | some e => s.ret r.1 m r.2.1 (.took t m e)
        | none => s.block r.1 t m
    else none
  | .back t =>
    match s.pend t with
    | some m => if (s.kernel.tcb t).stat = .ready then some (s.resumed t m) else none
    | none => none
  | .release t m =>
    if s.Free t then
      some (s.ret (rtMutexRelease s.kernel (s.mutex m) m t).1 m
        (rtMutexRelease s.kernel (s.mutex m) m t).2.1
        (.released t m (rtMutexRelease s.kernel (s.mutex m) m t).2.2))
    else none
  | .timeout t =>
    if (s.kernel.tcb t).timer.linked then
      (s.kernel.rtThreadTimeout t).map fun k => { s with kernel := k }
    else none

end

/-- At the start nobody waits, no thread timer runs, and the mutexes are as `rt_mutex_init`
leaves them. -/
structure Start (s : State T M) : Prop where
  wait : ∀ m, s.kernel.queue (.wait m) = []
  timer : ∀ t, (s.kernel.tcb t).timer.linked = false
  mutex : ∀ m, ∃ flag, s.mutex m = rtMutexInit flag
  pend : ∀ t, s.pend t = none
  log : s.log = []

def ready {n : Nat} (prio : Fin n → Nat) (flag : M → IpcFlag) : State (Fin n) M where
  kernel := Kernel.ready prio
  mutex := fun m => rtMutexInit (flag m)
  pend := fun _ => none
  log := []

lemma start_ready {n : Nat} (prio : Fin n → Nat) (flag : M → IpcFlag) : Start (ready prio flag) :=
  ⟨fun _ => rfl, fun _ => rfl, fun m => ⟨flag m, rfl⟩, fun _ => rfl, rfl⟩

/-! ## What a step does -/

variable {s s' : State T M}

section

variable [DecidableEq T] [DecidableEq M]

inductive Move (s : State T M) : Action T M → State T M → Prop where
  | again {t m time} (hf : s.Free t) (ho : (s.mutex m).owner = some t) : Move s (.take t m time)
        (s.ret (s.kernel.setError t rtEok) m (s.mutex m).again (.took t m rtEok))
  | grab {t m time} (hf : s.Free t) (ho : (s.mutex m).owner ≠ some t)
      (hv : 0 < (s.mutex m).value) :
      Move s (.take t m time)
        (s.ret (s.kernel.setError t rtEok) m
          ((s.mutex m).grab t (s.kernel.tcb t).currentPriority) (.took t m rtEok))
  | refuse {t m} (hf : s.Free t) (ho : (s.mutex m).owner ≠ some t) : Move s (.take t m 0)
        (s.ret ((s.kernel.setError t rtEok).setError t (-rtEtimeout)) m (s.mutex m)
          (.took t m (-rtEtimeout)))
  | wait {t m time w k} (hf : s.Free t) (ho : (s.mutex m).owner = some w) (hw : w ≠ t)
      (ht : time ≠ 0)
      (hk : waitFor (s.kernel.setError t rtEok) (s.mutex m).flag m w t time = some k) :
      Move s (.take t m time) (s.block k t m)
  | back {t m} (hp : s.pend t = some m) (hs : (s.kernel.tcb t).stat = .ready) :
      Move s (.back t) (s.resumed t m)
  | deny {t m} (hf : s.Free t) (ho : (s.mutex m).owner ≠ some t) : Move s (.release t m)
        (s.ret (s.kernel.setError t (-rtError)) m (s.mutex m) (.released t m (-rtError)))
  | drop {t m} (hf : s.Free t) (ho : (s.mutex m).owner = some t)
      (hh : (s.mutex m).drop.hold ≠ 0) :
      Move s (.release t m) (s.ret s.kernel m (s.mutex m).drop (.released t m rtEok))
  | free {t m} (hf : s.Free t) (ho : (s.mutex m).owner = some t)
      (hh : (s.mutex m).drop.hold = 0)
      (hq : (restore s.kernel (s.mutex m) t).queue (.wait m) = []) :
      Move s (.release t m)
        (s.ret (restore s.kernel (s.mutex m) t) m (s.mutex m).free (.released t m rtEok))
  | hand {t m w l} (hf : s.Free t) (ho : (s.mutex m).owner = some t)
      (hh : (s.mutex m).drop.hold = 0)
      (hq : (restore s.kernel (s.mutex m) t).queue (.wait m) = w :: l) :
      Move s (.release t m)
        (s.ret ((restore s.kernel (s.mutex m) t).rtIpcListResume w) m
          ((s.mutex m).hand w ((restore s.kernel (s.mutex m) t).tcb w).currentPriority)
          (.released t m rtEok))
  | expire {t k} (hl : (s.kernel.tcb t).timer.linked = true)
      (hk : s.kernel.rtThreadTimeout t = some k) :
      Move s (.timeout t) { s with kernel := k }

lemma move_take {t : T} {m : M} {time : Int}
    (h : step s (.take t m time) = some s') : Move s (.take t m time) s' := by
  simp only [step] at h
  split at h
  · rename_i hf
    obtain ⟨r, hr, rfl⟩ := Option.map_eq_some_iff.mp h
    unfold rtMutexTake at hr
    split at hr
    · rename_i ho
      cases hr
      exact .again hf ho
    rename_i ho
    split at hr
    · rename_i hv
      cases hr
      exact .grab hf ho hv
    split at hr
    · rename_i ht
      subst ht
      cases hr
      exact .refuse hf ho
    rename_i ht
    split at hr
    · simp at hr
    rename_i w hw
    obtain ⟨k, hk, rfl⟩ := Option.map_eq_some_iff.mp hr
    exact .wait hf hw (fun e => ho (e ▸ hw)) ht hk
  simp at h

lemma move_release {t : T} {m : M}
    (h : step s (.release t m) = some s') : Move s (.release t m) s' := by
  simp only [step] at h
  split at h
  · rename_i hf
    cases h
    unfold rtMutexRelease
    split
    · rename_i ho
      exact .deny hf ho
    rename_i ho
    have ho : (s.mutex m).owner = some t := not_not.mp ho
    split
    · rename_i hh
      split
      · rename_i hq
        exact .free hf ho hh hq
      rename_i w l hq
      exact .hand hf ho hh hq
    rename_i hh
    exact .drop hf ho hh
  simp at h

lemma move_of_step {a : Action T M} (h : step s a = some s') : Move s a s' := by
  cases a with
  | take t m time => exact move_take h
  | release t m => exact move_release h
  | back t =>
    simp only [step] at h
    split at h
    · rename_i m hp
      split at h
      · rename_i hs
        cases h
        exact .back hp hs
      simp at h
    simp at h
  | timeout t =>
    simp only [step] at h
    split at h
    · rename_i hl
      obtain ⟨k, hk, rfl⟩ := Option.map_eq_some_iff.mp h
      exact .expire hl hk
    simp at h

end

/-! ## Priorities -/

section

variable [DecidableEq T] [DecidableEq M] {k k' : Kernel T M} {pend : T → Option M}

inductive Tuned (k : Kernel T M) : Kernel T M → Prop where
  | same : Tuned k k
  | control (t : T) (p : Nat) : Tuned k (k.rtThreadControl t p)

lemma tuned_boost (k : Kernel T M) (w t : T) : Tuned k (boost k w t) := by
  unfold boost
  split
  · exact .control w _
  exact .same

lemma tuned_restore (k : Kernel T M) (mx : Mutex T) (t : T) : Tuned k (restore k mx t) := by
  unfold restore
  split
  · exact .control t _
  exact .same

lemma Tuned.blocked (ht : Tuned k k') (h : Blocked k pend) : Blocked k' pend := by
  cases ht with
  | same => exact h
  | control t p => exact h.control t p

lemma Tuned.wait (ht : Tuned k k') (h : Blocked k pend) (m : M) :
    k'.queue (.wait m) = k.queue (.wait m) := by
  cases ht with
  | same => rfl
  | control t p => exact h.control_wait t p m

lemma Tuned.kept (ht : Tuned k k') (u : T) : (k'.tcb u).stat = (k.tcb u).stat ∧
    (k'.tcb u).error = (k.tcb u).error ∧ (k'.tcb u).initPriority = (k.tcb u).initPriority := by
  cases ht with
  | same => exact ⟨rfl, rfl, rfl⟩
  | control t p =>
    rw [rtThreadControl_tcb]
    exact ⟨update_keeps _ u, update_keeps _ u, update_keeps _ u⟩

/-- What the waiting part of `rt_mutex_take` does besides raising the owner. -/
structure Waits (k k' : Kernel T M) (pend : T → Option M) (m : M) (w t : T) : Prop where
  blocked : Blocked k' (update pend t (some m))
  stat : (k'.tcb t).stat = .suspend
  priority : ∀ u, (k'.tcb u).currentPriority = ((boost k w t).tcb u).currentPriority ∧
    (k'.tcb u).initPriority = ((boost k w t).tcb u).initPriority
  other : ∀ u, u ≠ t → (k'.tcb u).stat = (k.tcb u).stat ∧ (k'.tcb u).error = (k.tcb u).error
  mem : ∀ m' u, u ∈ k'.queue (.wait m') ↔ u ∈ k.queue (.wait m') ∨ (m' = m ∧ u = t)

lemma waitFor_spec {flag : IpcFlag} {m : M} {w t : T} {time : Int} (h : Blocked k pend)
    (hs : (k.tcb t).stat = .ready) (hp : pend t = none)
    (hk : waitFor (k.setError t rtEok) flag m w t time = some k') :
    Waits (k.setError t rtEok) k' pend m w t := by
  have h1 := h.setError hp rtEok
  have ht := tuned_boost (k.setError t rtEok) w t
  have hpark := (ht.blocked h1).wait_spec ((ht.kept t).1.trans (by simpa using hs)) hp
    ((ht.kept t).2.1.trans (by simp)) hk
  refine ⟨hpark.blocked, hpark.stat, hpark.priority, ?_, ?_⟩
  · intro u hu
    rw [hpark.other u hu]
    exact ⟨(ht.kept u).1, (ht.kept u).2.1⟩
  intro m' u
  rw [hpark.mem, ht.wait h1]

end

/-! ## The invariant -/

/-- A mutex is free and nobody waits for it, or it has an owner; a thread in the waiting part of
a take owns the mutex exactly from the moment at which it was resumed by a release. -/
structure Inv (s : State T M) : Prop where
  blocked : Blocked s.kernel s.pend
  shape : ∀ m, ((s.mutex m).value = 1 ∧ (s.mutex m).owner = none ∧ (s.mutex m).hold = 0 ∧
      s.kernel.queue (.wait m) = []) ∨
    ((s.mutex m).value = 0 ∧ ∃ t, (s.mutex m).owner = some t)
  granted : ∀ {t m}, s.pend t = some m → ((s.mutex m).owner = some t ↔
    (s.kernel.tcb t).stat = .ready ∧ (s.kernel.tcb t).error = rtEok)

lemma inv_start {s : State T M} (h : Start s) : Inv s := by
  refine ⟨.of_empty h.wait h.timer h.pend, ?_, ?_⟩
  · intro m
    obtain ⟨flag, hm⟩ := h.mutex m
    simp [hm, rtMutexInit, h.wait]
  intro t m hp
  simp [h.pend] at hp

section

variable {k : Kernel T M} {m : M} {t : T}

variable (h : Inv s)

include h

lemma Inv.value_of_owner (ho : (s.mutex m).owner = some t) : (s.mutex m).value = 0 := by
  rcases h.shape m with ⟨_, hn, _⟩ | ⟨hv, _⟩
  · simp [ho] at hn
  exact hv

lemma Inv.free_of_value (hv : 0 < (s.mutex m).value) :
    (s.mutex m).value = 1 ∧ (s.mutex m).owner = none ∧ (s.mutex m).hold = 0 ∧
      s.kernel.queue (.wait m) = [] := by
  rcases h.shape m with hfree | ⟨hz, _⟩
  · exact hfree
  omega

lemma Inv.owner_notMem (ho : (s.mutex m).owner = some t) : t ∉ s.kernel.queue (.wait m) := by
  intro hm
  obtain ⟨hp, hs, _⟩ := h.blocked.queued hm
  have := ((h.granted hp).mp ho).1
  simp [hs] at this

lemma Inv.ret [DecidableEq M] {mx : Mutex T} (c : Call T M) (hb : Blocked k s.pend)
    (hq : ∀ m', k.queue (.wait m') = s.kernel.queue (.wait m'))
    (hg : ∀ u m', s.pend u = some m' →
      ((s.mutex m').owner = some u ↔ (k.tcb u).stat = .ready ∧ (k.tcb u).error = rtEok))
    (ho : mx.owner = (s.mutex m).owner) (hv : mx.value = (s.mutex m).value)
    (hh : mx.owner = none → mx.hold = (s.mutex m).hold) : Inv (s.ret k m mx c) := by
  have howner : ∀ m', ((s.ret k m mx c).mutex m').owner = (s.mutex m').owner :=
    fun m' => update_keeps _ m' ho
  refine ⟨hb, ?_, ?_⟩
  · intro m'
    rw [howner]
    by_cases e : m' = m
    · subst e
      rcases h.shape m' with ⟨h1, h2, h3, h4⟩ | h2
      · left
        have hh' := hh (ho.trans h2)
        simpa [State.ret, hq, hv, hh'] using ⟨h1, h2, h3, h4⟩
      right
      simpa [State.ret, hv] using h2
    simpa [State.ret, e, hq] using h.shape m'
  intro u m' hu
  rw [howner]
  exact hg u m' hu

variable [DecidableEq T]

lemma Inv.back (hs : (s.kernel.tcb t).stat = .ready) : Inv (s.resumed t m) := by
  refine ⟨h.blocked.finish hs, h.shape, ?_⟩
  intro u m' hu
  have hu' : s.pend u = some m' := by
    by_cases e : u = t
    · subst e
      simp [State.resumed] at hu
    simpa [State.resumed, e] using hu
  exact h.granted hu'

omit [DecidableEq T] h in
lemma ne_of_pend {u : T} (hp : s.pend t = none) (hu : s.pend u = some m) : t ≠ u := by
  rintro rfl
  simp [hp] at hu

lemma Inv.granted_setError (hp : s.pend t = none) (e : Int) {u : T}
    (hu : s.pend u = some m) : ((s.mutex m).owner = some u ↔
      ((s.kernel.setError t e).tcb u).stat = .ready ∧
        ((s.kernel.setError t e).tcb u).error = rtEok) := by
  have htcb : (s.kernel.setError t e).tcb u = s.kernel.tcb u := by simp [(ne_of_pend hp hu).symm]
  rw [htcb]
  exact h.granted hu

variable [DecidableEq M]

lemma Inv.grab (hf : s.Free t) (hv : 0 < (s.mutex m).value) (p : Nat) (c : Call T M) :
    Inv (s.ret (s.kernel.setError t rtEok) m ((s.mutex m).grab t p) c) := by
  obtain ⟨h1, h2, h3, h4⟩ := h.free_of_value hv
  refine ⟨h.blocked.setError hf.2 _, ?_, ?_⟩
  · intro m'
    by_cases e : m' = m
    · subst e
      simp [State.ret, Mutex.grab, h1]
    simpa [State.ret, e] using h.shape m'
  intro u m' hu
  have hg := h.granted_setError hf.2 rtEok hu
  by_cases e : m' = m
  · subst e
    -- nobody who waits owns the mutex, neither before nor after
    have hne := ne_of_pend hf.2 hu
    simp only [h2] at hg
    simpa [State.ret, Mutex.grab, hne] using hg
  simpa [State.ret, e] using hg

lemma Inv.wait {w : T} (hf : s.Free t) (ho : (s.mutex m).owner = some w) (hw : w ≠ t)
    (hk : Waits (s.kernel.setError t rtEok) k s.pend m w t) : Inv (s.block k t m) := by
  refine ⟨hk.blocked, ?_, ?_⟩
  · intro m'
    rcases h.shape m' with ⟨h1, h2, h3, h4⟩ | h2
    · left
      refine ⟨h1, h2, h3, List.eq_nil_iff_forall_not_mem.mpr ?_⟩
      intro u hu
      rcases (hk.mem m' u).mp hu with hu | ⟨rfl, _⟩
      · simp [h4] at hu
      simp [ho] at h2
    exact .inr h2
  intro u m' hu
  by_cases e : u = t
  · subst e
    have hm : m = m' := by simpa [State.block] using hu
    subst hm
    simp [State.block, ho, hw, hk.stat]
  have hu' : s.pend u = some m' := by simpa [State.block, e] using hu
  have hg := h.granted_setError hf.2 rtEok hu'
  obtain ⟨h1, h2⟩ := hk.other u e
  simpa [State.block, h1, h2] using hg

lemma Inv.free (hf : s.Free t) (ho : (s.mutex m).owner = some t)
    (hh : (s.mutex m).drop.hold = 0) (hq : s.kernel.queue (.wait m) = []) (c : Call T M) :
    Inv (s.ret (restore s.kernel (s.mutex m) t) m (s.mutex m).free c) := by
  have ht := tuned_restore s.kernel (s.mutex m) t
  have hwait := ht.wait h.blocked
  refine ⟨ht.blocked h.blocked, ?_, ?_⟩
  · intro m'
    by_cases e : m' = m
    · subst e
      have hv := h.value_of_owner ho
      simpa [State.ret, Mutex.free, hv, hwait, hq] using hh
    simpa [State.ret, e, hwait] using h.shape m'
  intro u m' hu
  have hg := h.granted hu
  obtain ⟨h1, h2, -⟩ := ht.kept u
  by_cases e : m' = m
  · subst e
    have hne := ne_of_pend hf.2 hu
    simp only [ho, Option.some.injEq, hne] at hg
    simpa [State.ret, Mutex.free, h1, h2] using hg
  simpa [State.ret, e, h1, h2] using hg

lemma Inv.hand {w : T} {l : List T} (hf : s.Free t) (ho : (s.mutex m).owner = some t)
    (hq : s.kernel.queue (.wait m) = w :: l) (p : Nat) (c : Call T M) :
    Inv (s.ret ((restore s.kernel (s.mutex m) t).rtIpcListResume w) m
      ((s.mutex m).hand w p) c) := by
  have ht := tuned_restore s.kernel (s.mutex m) t
  have hb := ht.blocked h.blocked
  have hwait := ht.wait h.blocked
  have hq' := (hwait m).trans hq
  have htcb := hb.resume_tcb hq'
  obtain ⟨hpw, -, hew⟩ := h.blocked.queued (o := m) (t := w) (by simp [hq])
  refine ⟨hb.resume hq', ?_, ?_⟩
  · intro m'
    by_cases e : m' = m
    · subst e
      simp [State.ret, Mutex.hand, Mutex.drop, h.value_of_owner ho]
    have := hb.resume_wait_of_ne hq' e
    simpa [State.ret, e, this, hwait] using h.shape m'
  intro u m' hu
  have hg := h.granted hu
  obtain ⟨h1, h2, -⟩ := ht.kept u
  by_cases eu : u = w
  · -- the new owner is the thread that is resumed
    subst eu
    have hm : m = m' := Option.some.inj (hpw.symm.trans hu)
    subst hm
    simpa [State.ret, Mutex.hand, htcb, h2] using hew
  by_cases e : m' = m
  · subst e
    have hne := ne_of_pend hf.2 hu
    simp only [ho, Option.some.injEq, hne] at hg
    simpa [State.ret, Mutex.hand, Ne.symm eu, htcb, eu, h1, h2] using hg
  simpa [State.ret, e, htcb, eu, h1, h2] using hg

lemma Inv.expire (hk : s.kernel.rtThreadTimeout t = some k) : Inv { s with kernel := k } := by
  obtain ⟨hs, htcb⟩ := Blocked.timeout_tcb hk
  have hwait := Blocked.timeout_wait hk
  refine ⟨h.blocked.timeout hk, ?_, ?_⟩
  · intro m
    rcases h.shape m with ⟨h1, h2, h3, h4⟩ | h2
    · left
      refine ⟨h1, h2, h3, ?_⟩
      rw [hwait, unlink, h4]
      rfl
    exact .inr h2
  intro u m hu
  have hg := h.granted hu
  by_cases e : u = t
  · subst e
    simp only [hs] at hg
    simpa [htcb, Tcb.expired, rtEtimeout, rtEok] using hg
  simpa [htcb, e] using hg

lemma inv_move {a : Action T M} (hm : Move s a s') : Inv s' := by
  cases hm with
  | again hf ho =>
    exact h.ret _ (h.blocked.setError hf.2 _) (fun _ => rfl)
      (fun u m' hu => h.granted_setError hf.2 _ hu) rfl rfl
      (fun hn => absurd (ho.symm.trans hn) (by simp))
  | grab hf ho hv => exact h.grab hf hv _ _
  | refuse hf ho =>
    have hb := h.blocked.setError hf.2 rtEok
    have h' : Inv { s with kernel := s.kernel.setError _ rtEok } :=
      ⟨hb, h.shape, fun hu => h.granted_setError hf.2 _ hu⟩
    exact h.ret _ (hb.setError hf.2 _) (fun _ => rfl)
      (fun u m' hu => h'.granted_setError hf.2 _ hu) rfl rfl (fun _ => rfl)
  | wait hf ho hw ht hk =>
    exact h.wait hf ho hw (waitFor_spec h.blocked hf.1 hf.2 hk)
  | back hp hs => exact h.back hs
  | deny hf ho =>
    exact h.ret _ (h.blocked.setError hf.2 _) (fun _ => rfl)
      (fun u m' hu => h.granted_setError hf.2 _ hu) rfl rfl (fun _ => rfl)
  | drop hf ho hh =>
    exact h.ret _ h.blocked (fun _ => rfl) (fun u m' hu => h.granted hu) rfl rfl
      (fun hn => absurd (ho.symm.trans hn) (by simp))
  | free hf ho hh hq =>
    exact h.free hf ho hh (((tuned_restore ..).wait h.blocked _).symm.trans hq) _
  | hand hf ho hh hq => exact h.hand hf ho (((tuned_restore ..).wait h.blocked _).symm.trans hq) _ _
  | expire hl hk => exact h.expire hk

end

end NbIot.Mutexes
