import NbIot.Ipc.Services

/-! # Thread timers run for suspended threads

Semaphores, mutexes, mailboxes, message queues, events and memory pools on one kernel, with
`rt_thread_sleep`, `rt_thread_suspend`, `rt_thread_resume`, `rt_thread_detach`, `rt_thread_delete`,
`rt_thread_exit` and the ticks. A step is one stay in the code with interrupts disabled; `C` are the
contexts that may be inside a call of a thread function while others run.

* `rt_thread_suspend` and `rt_thread_resume` test `stat` before they disable interrupts, and
  `rt_thread_resume` enables them between the stop of the timer and the insertion.
* `rt_thread_detach` and `rt_thread_delete` write `stat` outside their two sections.
* Any timer in the list may expire in any tick, and any thread may make a step at any time.
-/

namespace NbIot.ThreadTimers

open Run Kernel Function List Option

/-! ## Calls in pieces -/

variable {T I C X : Type} [DecidableEq T] [DecidableEq I] [DecidableEq C] [DecidableEq X]

/-- How far a call of `rt_thread_detach` or `rt_thread_delete` is. -/
inductive ClosePc where
  | unscheduled
  | untimed
  | closed
  deriving DecidableEq

/-- A call of a thread function on the thread `t` that has not returned; `unlinked` says that a
resume has taken `t` out of its list and stopped its timer. -/
inductive Call (T : Type) where
  | suspend (t : T)
  | resume (t : T) (unlinked : Bool)
  | close (t : T) (delete : Bool) (pc : ClosePc)
  deriving DecidableEq

def Call.thread : Call T → T
  | suspend t => t
  | resume t _ => t
  | close t _ _ => t

/-- The timer of the thread has been stopped, and its `stat` has yet to be written. -/
def Call.Stopped : Call T → Prop
  | resume _ unlinked => unlinked = true
  | close _ _ pc => pc = .untimed
  | suspend _ => False

inductive TimerEvent where
  | started
  | resumed
  | expired
  deriving DecidableEq

abbrev Lists (T I : Type) [DecidableEq T] [DecidableEq I] (kind : X → Kind) : Type :=
  Σ x, ((kind x).service T I).Lists

/-- The kernel, the data of the objects, the tick counter, the calls of thread functions that have
not returned, and what has happened to the timer of each thread. -/
structure State (T I C : Type) [DecidableEq T] [DecidableEq I] (kind : X → Kind) where
  kernel : Kernel T (Lists T I kind)
  data : ∀ x, ((kind x).service T I).Data
  tick : BitVec 32
  call : C → Option (Call T)
  history : T → List TimerEvent

inductive Action (T I C : Type) [DecidableEq T] [DecidableEq I] (kind : X → Kind) where
  | object (x : X) (a : ((kind x).service T I).Act)
  | sleep (t : T) (tick : Nat)
  | suspend (c : C) (t : T)
  | resume (c : C) (t : T)
  | detach (c : C) (t : T)
  | delete (c : C) (t : T)
  /-- The next section of a call. -/
  | go (c : C)
  | exit (t : T)
  | tick
  | expire (t : T)

variable {kind : X → Kind}

def own (T I : Type) [DecidableEq T] [DecidableEq I] (kind : X → Kind) (x : X) :
    Own ((kind x).service T I).Lists (Lists T I kind) where
  list o := ⟨x, o⟩
  find p := if h : p.1 = x then some (h ▸ p.2) else none
  find_eq_some {p o} := by
    obtain ⟨y, o'⟩ := p
    by_cases h : y = x
    · subst h
      simp [eq_comm]
    simp [h, Ne.symm h]

/-! ## Steps -/

/-- What is left of the section of `rt_thread_suspend` once `stat` has been tested. -/
def suspendBody {O : Type} (k : Kernel T O) (t : T) : Kernel T O :=
  ((k.setTcb t { k.tcb t with stat := .suspend }).rtScheduleRemoveThread t).rtTimerStop t

/-- `thread->stat = RT_THREAD_CLOSE`. -/
def setClosed {O : Type} (k : Kernel T O) (t : T) : Kernel T O :=
  k.setTcb t { k.tcb t with stat := .close }

def Call.next {O : Type} [DecidableEq O] (k : Kernel T O) : Call T → Kernel T O × Option (Call T)
  | suspend t => (suspendBody k t, none)
  | resume t false => ((k.rtListRemove t).rtTimerStop t, some (resume t true))
  | resume t true => (k.rtScheduleInsertThread t, none)
  | close t delete .unscheduled => (k.rtTimerDetach t, some (close t delete .untimed))
  | close t delete .untimed => (setClosed k t, some (close t delete .closed))
  | close t delete .closed =>
    if delete ∨ (k.tcb t).cleanup then (k.rtListInsertAfter .defunct t, none) else (k, none)

def act (s : State T I C kind) : Action T I C kind → Option (State T I C kind)
  | .object x a =>
    (((kind x).service T I).run (s.kernel.part (own T I kind x)) s.tick (s.data x) a).map fun r =>
      { s with
        kernel := s.kernel.withPart (own T I kind x) r.1
        data := update s.data x r.2 }
  | .sleep t tick => (s.kernel.rtThreadSleep t tick).map fun k => { s with kernel := k }
  | .suspend c t =>
    if s.call c ≠ none then none
    else if (s.kernel.tcb t).stat ≠ .ready then some s
    else some { s with call := update s.call c (some (.suspend t)) }
  | .resume c t =>
    if s.call c ≠ none then none
    else if (s.kernel.tcb t).stat ≠ .suspend then some s
    else some { s with call := update s.call c (some (.resume t false)) }
  | .detach c t =>
    if s.call c ≠ none then none
    else
      some { s with
        kernel := s.kernel.rtScheduleRemoveThread t
        call := update s.call c (some (.close t false .unscheduled)) }
  | .delete c t =>
    if s.call c ≠ none then none
    else
      some { s with
        kernel := s.kernel.rtScheduleRemoveThread t
        call := update s.call c (some (.close t true .unscheduled)) }
  | .go c =>
    (s.call c).map fun f =>
      { s with
        kernel := (f.next s.kernel).1
        call := update s.call c (f.next s.kernel).2 }
  | .exit t => some { s with kernel := s.kernel.rtThreadExit t }
  | .tick => some { s with tick := s.tick + 1 }
  | .expire t =>
    if (s.kernel.tcb t).timer.linked then
      (s.kernel.rtThreadTimeout t).map fun k => { s with kernel := k }
    else none

def Action.expires : Action T I C kind → Option T
  | .expire t => some t
  | _ => none

/-- What a step has done to the timer of `t`: a thread that is ready after it and was suspended
before has been resumed, or its timer has expired. -/
def events (a : Action T I C kind) (t : T) (c c' : Tcb) : List TimerEvent :=
  if a.expires = some t then [.expired]
  else
    (if c.stat = .suspend ∧ c'.stat = .ready then [.resumed] else []) ++
      if c'.timer.linked = true ∧ c.timer.linked = false then [.started] else []

def step (s : State T I C kind) (a : Action T I C kind) : Option (State T I C kind) :=
  (act s a).map fun s' =>
    { s' with history := fun t => s.history t ++ events a t (s.kernel.tcb t) (s'.kernel.tcb t) }

/-! ## Orderly runs -/

structure Start (s : State T I C kind) : Prop where
  timer : ∀ t, (s.kernel.tcb t).timer.linked = false
  call : ∀ c, s.call c = none
  history : ∀ t, s.history t = []

def Action.caller : Action T I C kind → Option T
  | .object x a => ((kind x).service T I).caller a
  | .sleep t _ => some t
  | _ => none

def Action.target : Action T I C kind → Option T
  | .suspend _ t => some t
  | .resume _ t => some t
  | .detach _ t => some t
  | .delete _ t => some t
  | _ => none

/-- No call of a thread function on `t` is in progress. -/
def State.Alone (s : State T I C kind) (t : T) : Prop :=
  ∀ c, (s.call c).map Call.thread ≠ some t

/-- A thread that has been closed makes no step of a call that may wait, whether or not it has to
wait. While a call of a thread function on a thread is in progress, the thread makes no such step
either, and no other call of a thread function on it begins. -/
def Orderly (s : State T I C kind) (a : Action T I C kind) : Prop :=
  (∀ t, a.caller = some t → (s.kernel.tcb t).Alive ∧ s.Alone t) ∧ ∀ t, a.target = some t → s.Alone t

/-! ## What a piece of a call does -/

def Call.write (c : Tcb) : Call T → Tcb
  | suspend _ => { c with stat := .suspend, timer := c.timer.stop }
  | resume _ false => { c with timer := c.timer.stop }
  | resume _ true => { c with stat := .ready }
  | close _ _ .unscheduled => { c with timer := { c.timer with linked := false } }
  | close _ _ .untimed => { c with stat := .close }
  | close _ _ .closed => c

lemma timerOk_of_unlinked {c : Tcb} (h : c.timer.linked = false) : c.TimerOk :=
  fun hl => absurd (h.symm.trans hl) Bool.false_ne_true

section

variable {O : Type} [DecidableEq O] {k : Kernel T O}

lemma next_tcb (k : Kernel T O) (f : Call T) :
    (f.next k).1.tcb = update k.tcb f.thread (f.write (k.tcb f.thread)) := by
  cases f with
  | suspend t => simp [Call.next, suspendBody, Call.thread, Call.write]
  | resume t unlinked => cases unlinked <;> rfl
  | close t delete pc =>
    cases pc with
    | unscheduled => rfl
    | untimed => rfl
    | closed =>
      have hself : update k.tcb t (k.tcb t) = k.tcb := update_eq_self t k.tcb
      simp only [Call.next]
      split <;> exact hself.symm

omit [DecidableEq T] in
lemma write_ok {c : Tcb} {f : Call T} (hok : c.TimerOk)
    (hstopped : f.Stopped → c.timer.linked = false) : (f.write c).TimerOk := by
  cases f with
  | suspend t => exact timerOk_of_unlinked hok.stop
  | resume t unlinked =>
    cases unlinked with
    | false => exact timerOk_of_unlinked hok.stop
    | true => exact timerOk_of_unlinked (hstopped rfl)
  | close t delete pc =>
    cases pc with
    | unscheduled => exact timerOk_of_unlinked rfl
    | untimed => exact timerOk_of_unlinked (hstopped rfl)
    | closed => exact hok

omit [DecidableEq T] in
lemma linked_of_write {c : Tcb} {f : Call T} (h : (f.write c).timer.linked = true) :
    c.timer.linked = true := by
  cases f with
  | suspend t => exact Timer.linked_of_stop h
  | resume t unlinked =>
    cases unlinked with
    | false => exact Timer.linked_of_stop h
    | true => exact h
  | close t delete pc =>
    cases pc with
    | unscheduled => cases h
    | untimed => exact h
    | closed => exact h

lemma next_stopped {f f' : Call T} (hok : (k.tcb f.thread).TimerOk) (h : (f.next k).2 = some f')
    (hf : f'.Stopped) : ((f.next k).1.tcb f'.thread).timer.linked = false := by
  rw [next_tcb]
  cases f with
  | suspend t => cases h
  | resume t unlinked =>
    cases unlinked with
    | false =>
      cases h
      rw [Call.thread, Call.thread, update_self]
      exact hok.stop
    | true => cases h
  | close t delete pc =>
    cases pc with
    | unscheduled =>
      cases h
      rw [Call.thread, Call.thread, update_self]
      rfl
    | untimed =>
      cases h
      cases hf
    | closed =>
      simp only [Call.next] at h
      split at h <;> cases h

lemma exit_tcb (k : Kernel T O) (t : T) : (k.rtThreadExit t).tcb = update k.tcb t
      { k.tcb t with stat := .close, timer := { (k.tcb t).timer with linked := false } } := by
  rw [← closeThread_tcb]
  unfold rtThreadExit
  split <;> rfl

end

/-! ## What a step does -/

section

variable {s s' : State T I C kind} {a : Action T I C kind}

omit [DecidableEq T] in
lemma call_begun {call : C → Option (Call T)} {c c' : C} {f new : Call T}
    (h : update call c' (some new) c = some f) (hnew : ¬ new.Stopped) (hf : f.Stopped) :
    call c = some f := by
  by_cases hc : c = c'
  · subst hc
    rw [update_self] at h
    cases h
    exact absurd hf hnew
  rwa [update_of_ne hc] at h

inductive Effect (s : State T I C kind) (a : Action T I C kind) (s' : State T I C kind) : Prop where
  /-- The code of an object, a sleep, a tick, the expiry of a timer, the begin of a call. -/
  | calm (h : Calm a.caller s.kernel.tcb s'.kernel.tcb)
      (hcall : ∀ {c f}, s'.call c = some f → f.Stopped → s.call c = some f)
  | go {c : C} {f : Call T} (hf : s.call c = some f) (hk : s'.kernel = (f.next s.kernel).1)
      (hcall : s'.call = update s.call c (f.next s.kernel).2)
  | exit (t : T) (h : s'.kernel = s.kernel.rtThreadExit t) (hcall : s'.call = s.call)

lemma effect_act (h : act s a = some s') : Effect s a s' := by
  cases a with
  | object x a =>
    obtain ⟨r, hr, rfl⟩ := map_eq_some_iff.mp h
    exact .calm (((kind x).service T I).calm hr) fun hf _ => hf
  | sleep t n =>
    obtain ⟨k, hk, rfl⟩ := map_eq_some_iff.mp h
    exact .calm (calm_sleep hk) fun hf _ => hf
  | suspend c t =>
    simp only [act, ite_none_left_eq_some] at h
    replace h := h.2
    split at h
    · cases h
      exact .calm (.refl _) fun hf _ => hf
    cases h
    exact .calm (.refl _) fun hf => call_begun hf id
  | resume c t =>
    simp only [act, ite_none_left_eq_some] at h
    replace h := h.2
    split at h
    · cases h
      exact .calm (.refl _) fun hf _ => hf
    cases h
    exact .calm (.refl _) fun hf => call_begun hf nofun
  | detach c t | delete c t =>
    simp only [act, ite_none_left_eq_some] at h
    cases h.2
    refine .calm ?_ fun hf => call_begun hf nofun
    rw [rtScheduleRemoveThread_tcb]
    exact .refl _
  | go c =>
    obtain ⟨f, hf, rfl⟩ := map_eq_some_iff.mp h
    exact .go hf rfl rfl
  | exit t =>
    cases h
    exact .exit t rfl rfl
  | tick =>
    cases h
    exact .calm (.refl _) fun hf _ => hf
  | expire t =>
    simp only [act, ite_none_right_eq_some, map_eq_some_iff] at h
    obtain ⟨-, k, hk, rfl⟩ := h
    exact .calm (calm_timeout hk) fun hf _ => hf

lemma starts_act (h : act s a = some s') {t : T} (hl : (s'.kernel.tcb t).timer.linked = true) :
    (s.kernel.tcb t).timer.linked = true ∨ a.caller = some t := by
  cases effect_act h with
  | calm hcalm _ => exact (hcalm t).starts hl
  | go hf hk _ =>
    left
    rw [hk, next_tcb, update_apply] at hl
    split at hl
    · rename_i ht
      rw [ht]
      exact linked_of_write hl
    exact hl
  | exit u hk _ =>
    left
    rw [hk, exit_tcb, update_apply] at hl
    split at hl
    · cases hl
    exact hl

/-! ## The invariant -/

/-- Every expiry in the history of a timer comes directly after a start: the thread has not been
resumed in between. -/
def Fresh (l : List TimerEvent) : Prop :=
  ∀ pre post, l = pre ++ .expired :: post → pre.getLast? = some .started

structure Inv (s : State T I C kind) : Prop where
  ok : ∀ t, (s.kernel.tcb t).TimerOk
  stopped : ∀ {c f}, s.call c = some f → f.Stopped → (s.kernel.tcb f.thread).timer.linked = false
  last : ∀ {t}, (s.kernel.tcb t).timer.linked = true → (s.history t).getLast? = some .started
  fresh : ∀ t, Fresh (s.history t)

lemma ok_act (hI : Inv s) (hC : Orderly s a) (h : act s a = some s') (t : T) :
    (s'.kernel.tcb t).TimerOk := by
  cases effect_act h with
  | calm hcalm _ => exact (hcalm t).ok (fun hown => (hC.1 t hown).1) (hI.ok t)
  | go hf hk _ =>
    rw [hk, next_tcb, update_apply]
    split
    · exact write_ok (hI.ok _) (hI.stopped hf)
    exact hI.ok t
  | exit u hk _ =>
    rw [hk, exit_tcb, update_apply]
    split
    · exact timerOk_of_unlinked rfl
    exact hI.ok t

lemma call_act (h : act s a = some s') {c : C} {f : Call T} (hf : s'.call c = some f)
    (hstopped : f.Stopped) :
    s.call c = some f ∨ ∃ g, s.call c = some g ∧ (g.next s.kernel).2 = some f ∧
      s'.kernel = (g.next s.kernel).1 := by
  cases effect_act h with
  | calm _ hcall => exact .inl (hcall hf hstopped)
  | go hg hk hcall =>
    rw [hcall, update_apply] at hf
    split at hf
    · rename_i hc
      exact .inr ⟨_, hc ▸ hg, hf, hk⟩
    exact .inl hf
  | exit t _ hcall => exact .inl (hcall ▸ hf)

lemma stopped_act (hI : Inv s) (hC : Orderly s a) (h : act s a = some s') {c : C} {f : Call T}
    (hf : s'.call c = some f) (hstopped : f.Stopped) :
    (s'.kernel.tcb f.thread).timer.linked = false := by
  rcases call_act h hf hstopped with hold | ⟨g, hg, hnext, hk⟩
  · -- The timer was stopped before, and the thread does not begin to wait now.
    by_contra hl
    rw [Bool.not_eq_false] at hl
    rcases starts_act h hl with hl' | hcaller
    · exact absurd ((hI.stopped hold hstopped).symm.trans hl') Bool.false_ne_true
    exact (hC.1 f.thread hcaller).2 c (by rw [hold]; rfl)
  rw [hk]
  exact next_stopped (hI.ok _) hnext hstopped

lemma fresh_nil : Fresh [] := fun pre post h => by simp at h

lemma fresh_concat {l : List TimerEvent} {e : TimerEvent} (h : Fresh l)
    (he : e = .expired → l.getLast? = some .started) : Fresh (l ++ [e]) := by
  intro pre post hl
  rcases eq_nil_or_concat post with rfl | ⟨post', e', rfl⟩
  · obtain ⟨rfl, hee⟩ := append_inj' hl rfl
    exact he (head_eq_of_cons_eq hee)
  rw [concat_eq_append, ← cons_append, ← append_assoc] at hl
  exact h pre post' (append_inj' hl rfl).1

lemma fresh_append {l es : List TimerEvent} (h : Fresh l) (hes : ∀ e ∈ es, e ≠ .expired) :
    Fresh (l ++ es) := by
  induction es generalizing l with
  | nil => rwa [append_nil]
  | cons e es ih =>
    have hl : Fresh (l ++ [e]) := fresh_concat h fun he => absurd he (hes e mem_cons_self)
    have := ih hl fun e' he' => hes e' (mem_cons_of_mem e he')
    rwa [append_assoc] at this

lemma expire_act {t : T} (ha : a.expires = some t) (h : act s a = some s') :
    (s.kernel.tcb t).timer.linked = true ∧ (s'.kernel.tcb t).timer.linked = false := by
  cases a with
  | expire u =>
    cases ha
    simp only [act, ite_none_right_eq_some, map_eq_some_iff] at h
    obtain ⟨hl, k, hk, rfl⟩ := h
    refine ⟨hl, ?_⟩
    rw [tcb_timeout hk, update_self]
    rfl
  | _ => cases ha

lemma last_act (hI : Inv s) (hC : Orderly s a) (h : act s a = some s') {t : T}
    (hl : (s'.kernel.tcb t).timer.linked = true) :
    (s.history t ++ events a t (s.kernel.tcb t) (s'.kernel.tcb t)).getLast? = some .started := by
  have hexpires : a.expires ≠ some t := by
    intro ha
    exact absurd ((expire_act ha h).2.symm.trans hl) Bool.false_ne_true
  have hstat : (s'.kernel.tcb t).stat = .suspend := (ok_act hI hC h t hl).2
  rw [events, if_neg hexpires, if_neg (by rw [hstat]; simp), nil_append]
  by_cases hbefore : (s.kernel.tcb t).timer.linked = true
  · rw [if_neg (by simp [hbefore]), append_nil]
    exact hI.last hbefore
  rw [if_pos ⟨hl, Bool.not_eq_true _ ▸ hbefore⟩, getLast?_concat]

lemma fresh_act (hI : Inv s) (h : act s a = some s') (t : T) :
    Fresh (s.history t ++ events a t (s.kernel.tcb t) (s'.kernel.tcb t)) := by
  by_cases ha : a.expires = some t
  · rw [events, if_pos ha]
    exact fresh_concat (hI.fresh t) fun _ => hI.last (expire_act ha h).1
  rw [events, if_neg ha]
  refine fresh_append (hI.fresh t) fun e he => ?_
  rcases mem_append.mp he with he | he
  · split at he
    · rw [mem_singleton.mp he]
      nofun
    cases he
  split at he
  · rw [mem_singleton.mp he]
    nofun
  cases he

lemma inv_step (hI : Inv s) (hC : Orderly s a) (h : step s a = some s') : Inv s' := by
  obtain ⟨s1, hact, rfl⟩ := map_eq_some_iff.mp h
  have hok : ∀ t, (s1.kernel.tcb t).TimerOk := ok_act hI hC hact
  have hstopped : ∀ {c f}, s1.call c = some f → f.Stopped →
      (s1.kernel.tcb f.thread).timer.linked = false := stopped_act hI hC hact
  exact ⟨hok, hstopped, last_act hI hC hact, fresh_act hI hact⟩

end

omit [DecidableEq C] [DecidableEq X] in
lemma inv_start {s : State T I C kind} (h : Start s) : Inv s := by
  refine ⟨fun t => timerOk_of_unlinked (h.timer t), ?_, ?_, ?_⟩
  · intro c f hf
    rw [h.call c] at hf
    cases hf
  · intro t hl
    exact absurd ((h.timer t).symm.trans hl) Bool.false_ne_true
  intro t
  rw [h.history t]
  exact fresh_nil

/-- **Timers run for suspended threads only.** In every state of an orderly run, a thread whose
timer is in the timer list is suspended. The assertion of `rt_thread_timeout` holds for it, and a
timer that expires has been started after the thread was resumed last. -/
theorem timers_only_for_suspended {s s' : State T I C kind} {as : List (Action T I C kind)}
    (hstart : Start s) (hC : Meets step Orderly s as) (h : Reached step s as s') :
    (∀ t, (s'.kernel.tcb t).timer.linked = true → (s'.kernel.tcb t).stat = .suspend) ∧
      (∀ t, (s'.kernel.tcb t).timer.linked = true → (s'.kernel.rtThreadTimeout t).isSome) ∧
      ∀ t, Fresh (s'.history t) := by
  obtain ⟨bs, hpre, hexec⟩ := h
  have hI : Inv s' :=
    inv_of_meets (fun _ _ _ => inv_step) (inv_start hstart) (hC.shorten hpre) hexec
  have hstat : ∀ t, (s'.kernel.tcb t).timer.linked = true → (s'.kernel.tcb t).stat = .suspend :=
    fun t hl => (hI.ok t hl).2
  refine ⟨hstat, fun t hl => ?_, hI.fresh⟩
  rw [rtThreadTimeout, if_pos (hstat t hl)]
  rfl

section

variable [Fintype T] [Fintype C]

instance (s : State T I C kind) (t : T) : Decidable (s.Alone t) := by
  unfold State.Alone
  infer_instance

instance (s : State T I C kind) (a : Action T I C kind) : Decidable (Orderly s a) := by
  unfold Orderly
  infer_instance

def oneSemaphore : State (Fin 2) Empty (Fin 2) (fun _ : Fin 1 => Kind.sem) where
  kernel := Kernel.ready ![5, 6]
  data := fun _ => (⟨0, .fifo⟩ : Semaphores.Sem)
  tick := 0
  call := fun _ => none
  history := fun _ => []

lemma start_oneSemaphore : Start oneSemaphore := ⟨by decide, fun _ => rfl, fun _ => rfl⟩

def expireAndResume : List (Action (Fin 2) Empty (Fin 2) (fun _ : Fin 1 => Kind.sem)) :=
  [.object 0 (SemAct.take 0 5), .sleep 1 3, .expire 0, .resume 0 1, .go 0, .go 0]

theorem timers_only_for_suspended_expireAndResume :
    ∃ s', exec step oneSemaphore expireAndResume = some s' ∧
      s'.history 0 = [.started, .expired] ∧ s'.history 1 = [.started, .resumed] ∧
      (∀ t, (s'.kernel.tcb t).timer.linked = true → (s'.kernel.tcb t).stat = .suspend) := by
  have hmeets : Meets step Orderly oneSemaphore expireAndResume := by decide
  obtain ⟨s', hexec, h0, h1⟩ : ∃ s', exec step oneSemaphore expireAndResume = some s' ∧
      s'.history 0 = [.started, .expired] ∧ s'.history 1 = [.started, .resumed] :=
    ⟨_, rfl, by decide, by decide⟩
  have hall := timers_only_for_suspended start_oneSemaphore hmeets (reached_last hexec)
  exact ⟨s', hexec, h0, h1, hall.1⟩

def resumedTwice : List (Action (Fin 2) Empty (Fin 2) (fun _ : Fin 1 => Kind.sem)) :=
  [.sleep 0 10, .resume 0 0, .go 0, .resume 1 0, .go 1, .go 1, .sleep 0 10, .go 0]

def deletedSelf : List (Action (Fin 2) Empty (Fin 2) (fun _ : Fin 1 => Kind.sem)) :=
  [.delete 0 0, .go 0, .go 0, .go 0, .sleep 0 10]

/-- In both runs the timer of the thread runs and its next expiry fails the assertion. -/
theorem timer_of_ready_or_closed :
    (∃ s', exec step oneSemaphore resumedTwice = some s' ∧ (s'.kernel.tcb 0).stat = .ready ∧
      (s'.kernel.tcb 0).timer.linked = true ∧ s'.kernel.rtThreadTimeout 0 = none) ∧
    ∃ s', exec step oneSemaphore deletedSelf = some s' ∧ (s'.kernel.tcb 0).stat = .close ∧
      (s'.kernel.tcb 0).timer.linked = true ∧ s'.kernel.rtThreadTimeout 0 = none :=
  ⟨⟨_, rfl, rfl, rfl, rfl⟩, _, rfl, rfl, rfl, rfl⟩

end

end NbIot.ThreadTimers
