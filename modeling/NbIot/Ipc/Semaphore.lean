import NbIot.Ipc.WaitQueue

/-! # Semaphores

`rt_sem_take` and `rt_sem_release` of `ipc.c`, for any number of threads and semaphores. A release
that finds a waiter does not count up: it resumes the waiter, which has the token from then on,
although its take has not returned. A waiter whose timer expires leaves with an error.
-/

namespace NbIot.Semaphores

open Queues Kernel Function Run

/-! ## The functions of `ipc.c` -/

variable {T S : Type}

/-- `struct rt_semaphore`; `value` is a 16-bit number. -/
structure Sem where
  value : Nat
  flag : IpcFlag
  deriving DecidableEq

section

variable [DecidableEq T] [DecidableEq S]

/-- `rt_sem_take` of the thread `t`, up to its return (`some e`) or to `rt_schedule` (`none`). -/
def rtSemTake (k : Kernel T S) (sm : Sem) (o : S) (t : T) (time : Int) :
    Option (Kernel T S × Sem × Option Int) :=
  if 0 < sm.value then some (k, { sm with value := sm.value - 1 }, some rtEok)
  else if time = 0 then some (k, sm, some (-rtEtimeout))
  else ((k.setError t rtEok).rtIpcWait o t sm.flag time).map fun k' => (k', sm, none)

def rtSemRelease (k : Kernel T S) (sm : Sem) (o : S) : Kernel T S × Sem :=
  match k.queue (.wait o) with
  | w :: _ => (k.rtIpcListResume w, sm)
  | [] => (k, { sm with value := (sm.value + 1) % 2 ^ 16 })

end

/-! ## Runs -/

/-- A call that has returned; a release always returns `RT_EOK`. -/
inductive Call (T S : Type) where
  | took (t : T) (o : S) (err : Int)
  | released (o : S)
  deriving DecidableEq

/-- The kernel, the semaphores, on which semaphore each thread is in the waiting part of
`rt_sem_take`, and the calls that have returned. -/
structure State (T S : Type) where
  kernel : Kernel T S
  sem : S → Sem
  pend : T → Option S
  log : List (Call T S)

inductive Action (T S : Type) where
  | take (t : T) (o : S) (time : Int)
  | back (t : T)
  | release (o : S)
  | timeout (t : T)

section

variable [DecidableEq T] [DecidableEq S]

/-- A call on the semaphore `o` returns. -/
def State.ret (s : State T S) (k : Kernel T S) (o : S) (sm : Sem) (c : Call T S) : State T S where
  kernel := k
  sem := update s.sem o sm
  pend := s.pend
  log := s.log ++ [c]

/-- A take of `t` has to wait for the semaphore `o`. -/
def State.block (s : State T S) (k : Kernel T S) (t : T) (o : S) : State T S :=
  { s with kernel := k, pend := update s.pend t (some o) }

/-- The take for which `t` has waited returns `thread->error`, which is `RT_EOK` or not. -/
def State.back (s : State T S) (t : T) (o : S) : State T S :=
  { s with pend := update s.pend t none
           log := s.log ++ [.took t o (s.kernel.tcb t).error] }

def step (s : State T S) : Action T S → Option (State T S)
  | .take t o time =>
    if (s.kernel.tcb t).stat = .ready ∧ s.pend t = none then
      (rtSemTake s.kernel (s.sem o) o t time).map fun r =>
        match r.2.2 with
        | some e => s.ret r.1 o r.2.1 (.took t o e)
        | none => s.block r.1 t o
    else none
  | .back t =>
    match s.pend t with
    | some o => if (s.kernel.tcb t).stat = .ready then some (s.back t o) else none
    | none => none
  | .release o =>
    some (s.ret (rtSemRelease s.kernel (s.sem o) o).1 o (rtSemRelease s.kernel (s.sem o) o).2
      (.released o))
  | .timeout t =>
    if (s.kernel.tcb t).timer.linked then
      (s.kernel.rtThreadTimeout t).map fun k => { s with kernel := k }
    else none

end

structure Start (s : State T S) : Prop where
  wait : ∀ o, s.kernel.queue (.wait o) = []
  timer : ∀ t, (s.kernel.tcb t).timer.linked = false
  pend : ∀ t, s.pend t = none
  log : s.log = []

def BelowMax (s : State T S) : Action T S → Prop
  | .release o => (s.sem o).value < 65535
  | _ => True

instance (s : State T S) (a : Action T S) : Decidable (BelowMax s a) := by
  cases a <;> unfold BelowMax <;> infer_instance

/-! ## What a step does -/

variable {s s' : State T S}

section

variable [DecidableEq T] [DecidableEq S]

inductive Move (s : State T S) : Action T S → State T S → Prop where
  | grab {t o time} (hp : s.pend t = none) (hv : 0 < (s.sem o).value) : Move s (.take t o time)
        (s.ret s.kernel o { s.sem o with value := (s.sem o).value - 1 } (.took t o rtEok))
  | refuse {t o} (hp : s.pend t = none) :
      Move s (.take t o 0) (s.ret s.kernel o (s.sem o) (.took t o (-rtEtimeout)))
  | wait {t o time k} (hs : (s.kernel.tcb t).stat = .ready) (hp : s.pend t = none)
      (hv : (s.sem o).value = 0)
      (hk : (s.kernel.setError t rtEok).rtIpcWait o t (s.sem o).flag time = some k) :
      Move s (.take t o time) (s.block k t o)
  | back {t o} (hp : s.pend t = some o) (hs : (s.kernel.tcb t).stat = .ready) :
      Move s (.back t) (s.back t o)
  | wake {o w l} (hq : s.kernel.queue (.wait o) = w :: l) : Move s (.release o)
        (s.ret (s.kernel.rtIpcListResume w) o (s.sem o) (.released o))
  | count {o} (hq : s.kernel.queue (.wait o) = []) : Move s (.release o)
        (s.ret s.kernel o { s.sem o with value := ((s.sem o).value + 1) % 2 ^ 16 } (.released o))
  | expire {t k} (hk : s.kernel.rtThreadTimeout t = some k) :
      Move s (.timeout t) { s with kernel := k }

lemma move_take {t : T} {o : S} {time : Int}
    (h : step s (.take t o time) = some s') : Move s (.take t o time) s' := by
  simp only [step] at h
  split at h
  · rename_i hf
    obtain ⟨r, hr, rfl⟩ := Option.map_eq_some_iff.mp h
    unfold rtSemTake at hr
    split at hr
    · rename_i hv
      cases hr
      exact .grab hf.2 hv
    split at hr
    · rename_i ht
      subst ht
      cases hr
      exact .refuse hf.2
    obtain ⟨k, hk, rfl⟩ := Option.map_eq_some_iff.mp hr
    exact .wait hf.1 hf.2 (by omega) hk
  simp at h

lemma move_of_step {a : Action T S} (h : step s a = some s') : Move s a s' := by
  cases a with
  | take t o time => exact move_take h
  | back t =>
    simp only [step] at h
    split at h
    · rename_i o hp
      split at h
      · rename_i hs
        cases h
        exact .back hp hs
      simp at h
    simp at h
  | release o =>
    cases h
    unfold rtSemRelease
    split
    · rename_i w l hq
      exact .wake hq
    rename_i hq
    exact .count hq
  | timeout t =>
    simp only [step] at h
    split at h
    · obtain ⟨k, hk, rfl⟩ := Option.map_eq_some_iff.mp h
      exact .expire hk
    simp at h

end

/-! ## The invariant -/

structure Inv (s : State T S) : Prop where
  blocked : Blocked s.kernel s.pend
  idle : ∀ o, 0 < (s.sem o).value → s.kernel.queue (.wait o) = []

lemma inv_start {s : State T S} (h : Start s) : Inv s :=
  ⟨.of_empty h.wait h.timer h.pend, fun o _ => h.wait o⟩

section

variable [DecidableEq T] [DecidableEq S]

lemma inv_move {a : Action T S} (h : Inv s) (hm : Move s a s') : Inv s' := by
  cases hm with
  | @grab t o time hp hv =>
    refine ⟨h.blocked, ?_⟩
    intro o' hv'
    by_cases e : o' = o
    · subst e
      exact h.idle o' hv
    exact h.idle o' (by simpa [State.ret, e] using hv')
  | @refuse t o hp =>
    refine ⟨h.blocked, ?_⟩
    intro o' hv'
    exact h.idle o' (by simpa [State.ret] using hv')
  | @wait t o time k hs hp hv hk =>
    have hpark := (h.blocked.setError hp rtEok).wait_spec (by simpa using hs) hp (by simp) hk
    refine ⟨hpark.blocked, ?_⟩
    intro o' hv'
    apply List.eq_nil_iff_forall_not_mem.mpr
    intro u hu
    rcases (hpark.mem o' u).mp hu with hu | ⟨rfl, -⟩
    · simp [h.idle o' hv'] at hu
    have hv'' : 0 < (s.sem o').value := hv'
    omega
  | back hp hs => exact ⟨h.blocked.finish hs, h.idle⟩
  | @wake o w l hq =>
    refine ⟨h.blocked.resume hq, ?_⟩
    intro o' hv'
    have hv'' : 0 < (s.sem o').value := by simpa [State.ret] using hv'
    have hne : o' ≠ o := by
      rintro rfl
      simp [h.idle o' hv''] at hq
    exact (h.blocked.resume_wait_of_ne hq hne).trans (h.idle o' hv'')
  | @count o hq =>
    refine ⟨h.blocked, ?_⟩
    intro o' hv'
    by_cases e : o' = o
    · subst e
      exact hq
    exact h.idle o' (by simpa [State.ret, e] using hv')
  | @expire t k hk =>
    refine ⟨h.blocked.timeout hk, ?_⟩
    intro o hv
    rw [Blocked.timeout_wait hk, unlink, h.idle o hv]
    rfl

end

/-! ## Conservation -/

section

variable [DecidableEq T] [DecidableEq S]

/-- A take of `o` that has returned `RT_EOK`. -/
def Call.isTake (o : S) : Call T S → Bool
  | .took _ o' err => o' = o ∧ err = rtEok
  | .released _ => false

/-- The takes of `o` that have returned `RT_EOK`. -/
def takes (s : State T S) (o : S) : Nat := s.log.countP (Call.isTake o)

/-- The releases of `o`. -/
def releases (s : State T S) (o : S) : Nat := s.log.count (.released o)

/-- `t` has been resumed by a release of `o`, and its take has not returned yet. -/
def Resumed (s : State T S) (o : S) (t : T) : Prop :=
  s.pend t = some o ∧ (s.kernel.tcb t).stat = .ready ∧ (s.kernel.tcb t).error = rtEok

instance (s : State T S) (o : S) (t : T) : Decidable (Resumed s o t) :=
  inferInstanceAs (Decidable (_ ∧ _ ∧ _))

/-- The threads that have a token of `o` without knowing it. -/
def resumed [Fintype T] (s : State T S) (o : S) : Finset T := Finset.univ.filter (Resumed s o)

/-- What `o` was given is what it has, what has been taken, and what is on its way. -/
def Conserved [Fintype T] (initial : S → Nat) (s : State T S) : Prop :=
  ∀ o, initial o + releases s o = (s.sem o).value + takes s o + (resumed s o).card

omit [DecidableEq T] in
lemma takes_ret (s : State T S) (k : Kernel T S) (o : S) (sm : Sem) (c : Call T S) (o' : S) :
    takes (s.ret k o sm c) o' = takes s o' + if c.isTake o' then 1 else 0 := by
  simp [takes, State.ret, List.countP_append, List.countP_singleton]

lemma releases_ret (s : State T S) (k : Kernel T S) (o : S) (sm : Sem) (c : Call T S) (o' : S) :
    releases (s.ret k o sm c) o' = releases s o' + if c = .released o' then 1 else 0 := by
  simp [releases, State.ret, List.count_singleton]

section

variable [Fintype T] {k : Kernel T S} {o : S} {initial : S → Nat} {a : Action T S} {t : T}

omit [DecidableEq T] in
lemma resumed_eq_woken (s : State T S) (o : S) : resumed s o = Blocked.woken s.kernel s.pend o := by
  ext t
  simp [resumed, Resumed, Blocked.Woken]

omit [DecidableEq T] in
lemma resumed_ret (o : S) (sm : Sem) (c : Call T S) (o' : S) :
    resumed (s.ret s.kernel o sm c) o' = resumed s o' := by
  rw [resumed_eq_woken, resumed_eq_woken]
  rfl

lemma resumed_block (hp : s.pend t = none)
    (hk : Blocked.Parked (s.kernel.setError t rtEok) k s.pend o t) (o' : S) :
    resumed (s.block k t o) o' = resumed s o' := by
  exact (hk.woken hp o').trans (Blocked.woken_setError hp rtEok o')

lemma resumed_expire (hk : s.kernel.rtThreadTimeout t = some k)
    (o : S) : resumed { s with kernel := k } o = resumed s o := by
  exact Blocked.woken_timeout hk o

lemma card_resumed_wake (h : Inv s) {w : T} {l : List T} (c : Call T S)
    (hq : s.kernel.queue (.wait o) = w :: l) (o' : S) :
    (resumed (s.ret (s.kernel.rtIpcListResume w) o (s.sem o) c) o').card =
      (resumed s o').card + if o' = o then 1 else 0 := by
  exact h.blocked.woken_resume hq o'

lemma takes_back (hp : s.pend t = some o) (hs : (s.kernel.tcb t).stat = .ready) (o' : S) :
    takes (s.back t o) o' + (resumed (s.back t o) o').card = takes s o' + (resumed s o').card := by
  have htakes : takes (s.back t o) o' =
      takes s o' + if o = o' ∧ (s.kernel.tcb t).error = rtEok then 1 else 0 := by
    simp [takes, State.back, Call.isTake]
  have herase : resumed (s.back t o) o' = (resumed s o').erase t := by
    exact Blocked.woken_finish s.kernel s.pend t o'
  have hmem : t ∈ resumed s o' ↔ o = o' ∧ (s.kernel.tcb t).error = rtEok := by
    rw [resumed_eq_woken]
    simp [Blocked.Woken, hp, hs]
  rw [htakes, herase]
  by_cases hc : o = o' ∧ (s.kernel.tcb t).error = rtEok
  · have hcard := Finset.card_erase_add_one (hmem.mpr hc)
    rw [if_pos hc]
    omega
  rw [if_neg hc, Finset.erase_eq_of_notMem (fun hm => hc (hmem.mp hm))]
  omega

lemma Conserved.ret (h : Conserved initial s) {sm : Sem} {c : Call T S} {d : Nat}
    (hres : ∀ o', (resumed (s.ret k o sm c) o').card =
      (resumed s o').card + if o' = o then d else 0)
    (hself : (s.sem o).value + (if c = .released o then 1 else 0) =
      sm.value + (if c.isTake o then 1 else 0) + d)
    (hother : ∀ o', o' ≠ o → c ≠ .released o' ∧ c.isTake o' = false) :
    Conserved initial (s.ret k o sm c) := by
  intro o'
  have hbal := h o'
  rw [takes_ret, releases_ret, hres]
  by_cases e : o' = o
  · subst e
    simp only [State.ret, update_self, if_true]
    omega
  obtain ⟨hr, ht⟩ := hother o' e
  simpa [State.ret, e, hr, ht] using hbal

/-- A call that returns at once and resumes nobody. -/
lemma Conserved.ret_self (h : Conserved initial s) {sm : Sem} {c : Call T S}
    (hself : (s.sem o).value + (if c = .released o then 1 else 0) =
      sm.value + (if c.isTake o then 1 else 0))
    (hother : ∀ o', o' ≠ o → c ≠ .released o' ∧ c.isTake o' = false) :
    Conserved initial (s.ret s.kernel o sm c) :=
  h.ret (d := 0) (fun o' => by rw [resumed_ret, ite_self, add_zero]) hself hother

lemma conserved_move (hi : Inv s)
    (h : Conserved initial s) (hb : BelowMax s a) (hm : Move s a s') : Conserved initial s' := by
  cases hm with
  | @grab t o time hp hv =>
    refine h.ret_self ?_ (fun o' e => ?_)
    · simp [Call.isTake]
      omega
    simp [Call.isTake, Ne.symm e]
  | @refuse t o hp =>
    refine h.ret_self ?_ (fun o' e => ?_)
    · simp [Call.isTake, rtEtimeout, rtEok]
    simp [Call.isTake, Ne.symm e]
  | @wait t o time k hs hp hv hk =>
    have hpark := (hi.blocked.setError hp rtEok).wait_spec (by simpa using hs) hp (by simp) hk
    intro o'
    rw [resumed_block hp hpark]
    exact h o'
  | @back t o hp hs =>
    intro o'
    have hrel : releases (s.back t o) o' = releases s o' := by
      simp [releases, State.back]
    calc initial o' + releases (s.back t o) o'
        = (s.sem o').value + takes s o' + (resumed s o').card := by rw [hrel, h o']
      _ = (s.sem o').value + (takes s o' + (resumed s o').card) := add_assoc _ _ _
      _ = (s.sem o').value + (takes (s.back t o) o' + (resumed (s.back t o) o').card) := by
          rw [takes_back hp hs]
      _ = (s.sem o').value + takes (s.back t o) o' + (resumed (s.back t o) o').card :=
          (add_assoc _ _ _).symm
  | @wake o w l hq =>
    refine h.ret (card_resumed_wake hi _ hq) ?_ (fun o' e => ?_)
    · simp [Call.isTake]
    simp [Call.isTake, Ne.symm e]
  | @count o hq =>
    have hlt : (s.sem o).value < 65535 := hb
    have hmod : ((s.sem o).value + 1) % 2 ^ 16 = (s.sem o).value + 1 := Nat.mod_eq_of_lt (by omega)
    refine h.ret_self ?_ (fun o' e => ?_)
    · simp only [hmod, Call.isTake]
      simp
    simp [Call.isTake, Ne.symm e]
  | @expire t k hk =>
    intro o
    rw [resumed_expire hk]
    exact h o

lemma nothing_consumed (hi : Inv s) (hm : Move s a s')
    (ha : ∀ o, a ≠ .release o) (hlog : ∀ t o, s'.log ≠ s.log ++ [.took t o rtEok]) :
    s'.sem = s.sem ∧ ∀ o, resumed s' o = resumed s o := by
  cases hm with
  | @grab t o time hp hv => exact absurd rfl (hlog t o)
  | @refuse t o hp =>
    refine ⟨by simp [State.ret], fun o' => ?_⟩
    rfl
  | @wait t o time k hs hp hv hk =>
    have hpark := (hi.blocked.setError hp rtEok).wait_spec (by simpa using hs) hp (by simp) hk
    exact ⟨rfl, resumed_block hp hpark⟩
  | @back t o hp hs =>
    have he : (s.kernel.tcb t).error ≠ rtEok := fun he => hlog t o (by simp [State.back, he])
    refine ⟨rfl, fun o' => ?_⟩
    refine (Blocked.woken_finish s.kernel s.pend t o').trans (Finset.erase_eq_of_notMem ?_)
    rw [Blocked.mem_woken]
    exact fun hw => he hw.2.2
  | wake hq => exact absurd rfl (ha _)
  | count hq => exact absurd rfl (ha _)
  | expire hk => exact ⟨rfl, resumed_expire hk⟩

/-- **Conservation.** In every state of every run in which no value wraps, the initial value of a
semaphore and the releases are its value, the takes that returned `RT_EOK` and the threads that
a release has resumed and whose takes have not returned; a semaphore with a value above zero has
no waiters; and no step of a take that fails (it is refused, starts to wait, runs out of time, or
returns the error) changes a value or a resumed thread. -/
theorem sem_conservation {s₀ s : State T S} {as : List (Action T S)} (hs : Start s₀)
    (hb : Meets step BelowMax s₀ as) (h : exec step s₀ as = some s) :
    (∀ o, (s₀.sem o).value + releases s o = (s.sem o).value + takes s o + (resumed s o).card) ∧
    (∀ o, 0 < (s.sem o).value → s.kernel.queue (.wait o) = []) ∧
    (∀ a s', step s a = some s' → (∀ o, a ≠ .release o) →
      (∀ t o, s'.log ≠ s.log ++ [.took t o rtEok]) →
        s'.sem = s.sem ∧ ∀ o, resumed s' o = resumed s o) := by
  have hstart : Conserved (fun o => (s₀.sem o).value) s₀ := by
    intro o
    have hres : resumed s₀ o = ∅ := by
      apply Finset.filter_eq_empty_iff.mpr
      intro t _ hr
      simp [Resumed, hs.pend] at hr
    simp [releases, takes, hs.log, hres]
  have hinv : Inv s ∧ Conserved (fun o => (s₀.sem o).value) s := by
    apply inv_of_meets (I := fun u => Inv u ∧ Conserved (fun o => (s₀.sem o).value) u) _
      ⟨inv_start hs, hstart⟩ hb h
    intro u a u' hu hba hstep
    have hm := move_of_step hstep
    exact ⟨inv_move hu.1 hm, conserved_move hu.1 hu.2 hba hm⟩
  refine ⟨hinv.2, hinv.1.idle, ?_⟩
  intro a s' hstep ha hlog
  exact nothing_consumed hinv.1 (move_of_step hstep) ha hlog

end

end

def twoTakers : State (Fin 2) Unit where
  kernel := Kernel.ready ![20, 10]
  sem := fun _ => { value := 0, flag := .fifo }
  pend := fun _ => none
  log := []

/-- Both threads wait with a time limit; a release resumes the first one, the time of the second
one is up, and a release that finds nobody counts up. The first take has not returned yet. -/
def wakeAndExpire : List (Action (Fin 2) Unit) :=
  [.take 0 () 7, .take 1 () 5, .release (), .timeout 1, .release (), .back 1]

theorem sem_conservation_wakeAndExpire :
    Start twoTakers ∧ Meets step BelowMax twoTakers wakeAndExpire ∧
      ∃ s, exec step twoTakers wakeAndExpire = some s ∧ (s.sem ()).value = 1 ∧
        releases s () = 2 ∧ takes s () = 0 ∧ (resumed s ()).card = 1 := by
  have hstart : Start twoTakers := ⟨fun _ => rfl, fun _ => rfl, fun _ => rfl, rfl⟩
  have hb : Meets step BelowMax twoTakers wakeAndExpire := by decide +kernel
  obtain ⟨s, hs, hv, hr, ht⟩ : ∃ s, exec step twoTakers wakeAndExpire = some s ∧
      (s.sem ()).value = 1 ∧ releases s () = 2 ∧ takes s () = 0 := by decide +kernel
  have hbal := (sem_conservation hstart hb hs).1 ()
  have hzero : (twoTakers.sem ()).value = 0 := rfl
  exact ⟨hstart, hb, s, hs, hv, hr, ht, by omega⟩

end NbIot.Semaphores
