import NbIot.Basic.Ranked
import NbIot.Ipc.WaitEffects

/-! # The order of the wait lists

`rt_ipc_list_suspend` inserts a thread into the wait list of an object with `RT_IPC_FLAG_PRIO`
before the first thread of larger `current_priority`. Nothing moves it afterwards, although its
priority may change while it waits: `rt_thread_control` writes to the control block of a thread that
is not ready and to nothing else.
-/

namespace NbIot

open Option Run

open Ranked (Before)

/-! ## Lists in order -/

section

variable {T O : Type} {flag : O → IpcFlag} {k k' : Kernel T O} {arrival arrival' : T → Nat}

/-- The lists of the objects with `RT_IPC_FLAG_PRIO` are ordered by priority and arrival. -/
def InOrder (flag : O → IpcFlag) (k : Kernel T O) (arrival : T → Nat) : Prop :=
  ∀ o, flag o = .prio → (k.queue (.wait o)).Pairwise (Before k.rank arrival)

/-- The place of `t` in these lists, if it is in one, fits the priority `p`. -/
def Fits [DecidableEq T] (flag : O → IpcFlag) (k : Kernel T O) (arrival : T → Nat) (t : T)
    (p : Nat) : Prop :=
  ∀ o, flag o = .prio → (k.queue (.wait o)).Pairwise fun u v =>
    u = t ∨ v = t → Before (Function.update k.rank t p) arrival u v

lemma inOrder_shrinks (h : InOrder flag k arrival) (hs : Shrinks k k')
    (harr : ∀ u, (k.tcb u).stat = .suspend → arrival' u = arrival u) :
    InOrder flag k' arrival' := by
  intro o ho
  have hold := (h o ho).sublist (hs.list o)
  refine (Ranked.pairwise_congr (fun u hu => ?_) fun u hu => ?_).mpr hold
  · exact hs.rank u (hs.stays hu)
  exact harr u (hs.stat u (hs.stays hu))

lemma inOrder_parks_iff [DecidableEq O] {t : T} {o : O} (hw : Waiting k)
    (hp : Parks (flag o) k k' t o) (harr : ∀ u, (k.tcb u).stat = .suspend → arrival' u = arrival u)
    (hlast : ∀ u ∈ k.queue (.wait o), arrival u < arrival' t) :
    InOrder flag k' arrival' ↔ InOrder flag k arrival := by
  have hcongr : ∀ o', (k.queue (.wait o')).Pairwise (Before k'.rank arrival') ↔
      (k.queue (.wait o')).Pairwise (Before k.rank arrival) := fun o' =>
    Ranked.pairwise_congr (fun u _ => congrFun hp.rank u) fun u hu => harr u (hw.suspended hu)
  refine forall_congr' fun o' => imp_congr_right fun ho' => ?_
  rw [← hcongr o', hp.list]
  split
  · rename_i he
    subst he
    rw [ho']
    -- the list is one of those that are ordered by priority
    have hinsert : k.insertWaiter .prio t (k.queue (.wait o')) =
        (k.queue (.wait o')).orderedInsert (fun u v => k'.rank u < k'.rank v) t := by
      rw [hp.rank]
      rfl
    rw [hinsert]
    constructor
    · exact fun h => h.sublist (List.sublist_orderedInsert _ _)
    refine fun h => Ranked.pairwise_orderedInsert h fun u hu => ?_
    rw [harr u (hw.suspended hu)]
    exact hlast u hu
  rfl

lemma inOrder_retuned_iff [DecidableEq T] {t : T} {p : Nat} (hw : Waiting k)
    (h : InOrder flag k arrival) (hr : Retuned k k' t p)
    (harr : ∀ u, (k.tcb u).stat = .suspend → arrival' u = arrival u) :
    InOrder flag k' arrival' ↔ Fits flag k arrival t p := by
  refine forall_congr' fun o => forall_congr' fun ho => ?_
  have hcongr : (k.queue (.wait o)).Pairwise (Before k'.rank arrival') ↔
      (k.queue (.wait o)).Pairwise (Before (Function.update k.rank t p) arrival) :=
    Ranked.pairwise_congr (fun u _ => congrFun hr.rank u) fun u hu => harr u (hw.suspended hu)
  rw [hr.list, hcongr]
  exact Ranked.pairwise_update_iff (h o ho) t p

end

lemma update_flag {A B : Type} [DecidableEq A] (flag : B → IpcFlag) (f : A → B) {a : A} {b : B}
    (h : flag b = flag (f a)) (a' : A) : flag (Function.update f a b a') = flag (f a') := by
  by_cases ha : a' = a
  · subst ha
    rw [Function.update_self, h]
  rw [Function.update_of_ne ha]

/-! ## The four systems

Each with its own kernel. The expiry of a timer is left out: in the common system it is not a step
of an object. -/

namespace Semaphores

variable {T S : Type} [DecidableEq T] [DecidableEq S] {s s' : State T S} {a : Action T S}

lemma local_step (hw : Waiting s.kernel) (h : step s a = some s') (ha : ∀ t, a ≠ .timeout t) :
    Local (fun o => (s.sem o).flag) s.kernel s'.kernel := by
  cases move_of_step h with
  | grab hp hv | refuse hp | back hp hs | count hq => exact .wakes ((Agrees.refl _).wakes hw)
  | @wait t o time k hs hp hv hk =>
    have herr := agrees_setError s.kernel t rtEok
    have hready := (herr.stat t).trans hs
    exact .parks t o (herr.parks ((herr.waiting hw).parks_rtIpcWait hready hk))
  | @wake o w l hq => exact .wakes (hw.wakes_resume (o := o) (by simp [hq]))
  | @expire t k hk => exact absurd rfl (ha t)

lemma flag_step (h : step s a = some s') (o : S) : (s'.sem o).flag = (s.sem o).flag := by
  have hset : ∀ (o' : S) (sm : Sem), sm.flag = (s.sem o').flag →
      (Function.update s.sem o' sm o).flag = (s.sem o).flag := fun o' sm hsm =>
    update_flag Sem.flag s.sem hsm o
  cases move_of_step h with
  | grab hp hv => exact hset _ _ rfl
  | refuse hp => exact hset _ _ rfl
  | wait hs hp hv hk => rfl
  | back hp hs => rfl
  | wake hq => exact hset _ _ rfl
  | count hq => exact hset _ _ rfl
  | expire hk => rfl

end Semaphores

namespace Mailboxes

variable {T : Type} [DecidableEq T] {s s' : State T} {a : Action T}

lemma after_kernel (s : State T) (t : T) (f : Option Frame)
    (r : Kernel T Side × Mailbox × Outcome T) :
    (s.after t f r).kernel = r.1 ∧ (s.after t f r).mb = r.2.1 := by
  obtain ⟨k, mb, c | f'⟩ := r <;> exact ⟨rfl, rfl⟩

lemma local_call {op : Op} {t : T} {timeout : BitVec 32} (hw : Waiting s.kernel)
    (h : (if s.Idle t then (op.start s.kernel s.mb s.tick t timeout).map (s.after t none)
      else none) = some s') :
    Local (fun _ => s.mb.flag) s.kernel s'.kernel ∧ s'.mb.flag = s.mb.flag := by
  split at h
  · rename_i hi
    obtain ⟨r, hr, rfl⟩ := map_eq_some_iff.mp h
    rw [(after_kernel s t none r).1, (after_kernel s t none r).2]
    exact ⟨(stay_start hr).1.at_lists hw (by simp [hi.1]), (stay_start hr).2⟩
  simp at h

lemma local_step (hw : Waiting s.kernel) (h : step s a = some s') (ha : ∀ t, a ≠ .timeout t) :
    Local (fun _ => s.mb.flag) s.kernel s'.kernel ∧ s'.mb.flag = s.mb.flag := by
  cases a with
  | sendWait t value timeout => exact local_call hw h
  | send t value => exact local_call hw h
  | recv t timeout => exact local_call hw h
  | interrupt t value =>
    obtain ⟨r, hr, rfl⟩ := map_eq_some_iff.mp h
    -- a call without time to wait does not suspend the thread that is interrupted
    simp only [rtMbSend, rtMbSendWait, Op.start, and_true] at hr
    split at hr
    · cases hr
      exact ⟨.wakes ((Agrees.refl _).wakes hw), rfl⟩
    rename_i hfree
    rw [Frame.loop, if_neg hfree] at hr
    cases hr
    exact ⟨.wakes (hw.wakes_resumeFirst _), rfl⟩
  | back t =>
    simp only [step] at h
    split at h
    · split at h
      · rename_i hs
        obtain ⟨r, hr, rfl⟩ := map_eq_some_iff.mp h
        rw [(after_kernel s t none r).1, (after_kernel s t none r).2]
        exact ⟨(stay_resume hr).1.at_lists hw (by simp [hs]), (stay_resume hr).2⟩
      simp at h
    simp at h
  | tick =>
    cases h
    exact ⟨.wakes ((Agrees.refl _).wakes hw), rfl⟩
  | timeout t => exact absurd rfl (ha t)

end Mailboxes

namespace MessageQueues

variable {T I : Type} [DecidableEq T] [DecidableEq I] {s s' : State T I} {c : T ⊕ I}

def Effect (s s' : State T I) : Prop :=
  Local (fun _ => s.mq.flag) s.kernel s'.kernel ∧ s'.mq.flag = s.mq.flag

omit [DecidableEq I] in
lemma effect_of_stays (hw : Waiting s.kernel) (hr : s.Running c) (h : Stays s s' c.getLeft?) :
    Effect s s' := by
  refine ⟨h.1.at_lists hw fun t ht => ?_, h.2⟩
  obtain rfl := Sum.getLeft?_eq_some_iff.mp ht
  exact hr

lemma effect_step {a : Action T I} (hw : Waiting s.kernel) (h : step s a = some s')
    (ha : ∀ t, a ≠ .timeout t) : Effect s s' := by
  cases a with
  | send c buffer | urgent c buffer =>
    simp only [step, ite_none_right_eq_some] at h
    exact effect_of_stays hw h.1.1 (stays_takeSlot h.2)
  | recv c size timeout =>
    simp only [step, ite_none_right_eq_some] at h
    exact effect_of_stays hw h.1.1 (stays_recv h.2)
  | control c =>
    simp only [step, ite_none_right_eq_some] at h
    exact effect_of_stays hw h.1.1 (stays_control h.2)
  | work c =>
    simp only [step] at h
    split at h
    · simp only [ite_none_right_eq_some] at h
      exact effect_of_stays hw h.1 (stays_work h.2)
    simp at h
  | tick =>
    cases h
    exact ⟨.wakes ((Agrees.refl _).wakes hw), rfl⟩
  | timeout t => exact absurd rfl (ha t)

end MessageQueues

namespace Mutexes

variable {T M : Type}

/-- The owner of the mutex and its new priority, if a step raises the owner: when a thread of higher
priority has to wait. -/
def State.raises [DecidableEq T] (s : State T M) : Action T M → Option (T × Nat)
  | .take t m time =>
    match (s.mutex m).owner with
    | some w =>
      if w ≠ t ∧ (s.mutex m).value = 0 ∧ time ≠ 0 ∧ s.kernel.rank t < s.kernel.rank w then
        some (w, s.kernel.rank t)
      else none
    | none => none
  | _ => none

variable [DecidableEq T] [DecidableEq M] {s s' : State T M} {a : Action T M} {k' : Kernel T M}
  {time : Int}

def Effect (s : State T M) (k' : Kernel T M) : Option (T × Nat) → Prop
  | none => Local (fun m => (s.mutex m).flag) s.kernel k'
  | some (w, p) => ∃ k₁ t m, Retuned s.kernel k₁ w p ∧ Parks (s.mutex m).flag k₁ k' t m

lemma effect_of_agrees (hw : Waiting s.kernel) (h : Agrees s.kernel k') :
    Effect s k' none := .wakes (h.wakes hw)

lemma effect_waitFor (hw : Waiting s.kernel) {t w : T} {m : M} (hs : (s.kernel.tcb t).stat = .ready)
    (hk : waitFor (s.kernel.setError t rtEok) (s.mutex m).flag m w t time = some k') :
    Effect s k'
      (if s.kernel.rank t < s.kernel.rank w then some (w, s.kernel.rank t) else none) := by
  have herr := agrees_setError s.kernel t rtEok
  have hrank : ∀ u, ((s.kernel.setError t rtEok).tcb u).currentPriority = s.kernel.rank u :=
    congrFun herr.rank
  have hw1 := herr.waiting hw
  have hready := (herr.stat t).trans hs
  simp only [waitFor, boost, hrank] at hk
  split
  · rename_i hlt
    rw [if_pos hlt] at hk
    have hret := hw1.retuned_control w (s.kernel.rank t)
    have hpark := (hret.waiting hw1).parks_rtIpcWait ((hret.stat t).trans hready) hk
    exact ⟨_, t, m, herr.retuned hret, hpark⟩
  rename_i hge
  rw [if_neg hge] at hk
  exact .parks t m (herr.parks (hw1.parks_rtIpcWait hready hk))

lemma effect_take (hw : Waiting s.kernel) {t : T} {m : M} (h : step s (.take t m time) = some s') :
    Effect s s'.kernel (s.raises (.take t m time)) ∧
      ∀ m', (s'.mutex m').flag = (s.mutex m').flag := by
  have herr := agrees_setError s.kernel t rtEok
  simp only [step, ite_none_right_eq_some, map_eq_some_iff] at h
  obtain ⟨hf, r, hr, rfl⟩ := h
  unfold rtMutexTake at hr
  split at hr
  · -- the owner takes the mutex once more
    rename_i ho
    cases hr
    have hnone : s.raises (.take t m time) = none := by simp [State.raises, ho]
    rw [hnone]
    exact ⟨effect_of_agrees hw herr, update_flag Mutex.flag s.mutex rfl⟩
  split at hr
  · cases hr
    have hnone : s.raises (.take t m time) = none := by
      unfold State.raises
      simp only
      split
      · rw [if_neg (by omega)]
      rfl
    rw [hnone]
    exact ⟨effect_of_agrees hw herr, update_flag Mutex.flag s.mutex rfl⟩
  split at hr
  · cases hr
    have hnone : s.raises (.take t m time) = none := by
      unfold State.raises
      simp only
      split
      · rw [if_neg (by tauto)]
      rfl
    have herr' := agrees_setError (s.kernel.setError t rtEok) t (-rtEtimeout)
    have hboth : Agrees s.kernel ((s.kernel.setError t rtEok).setError t (-rtEtimeout)) :=
      ⟨herr'.rank.trans herr.rank, fun u => (herr'.stat u).trans (herr.stat u), fun _ => rfl⟩
    rw [hnone]
    exact ⟨effect_of_agrees hw hboth, update_flag Mutex.flag s.mutex rfl⟩
  rename_i ho hv ht
  split at hr
  · simp at hr
  rename_i w hown
  obtain ⟨k, hk, rfl⟩ := map_eq_some_iff.mp hr
  have hraises : s.raises (.take t m time) =
      if s.kernel.rank t < s.kernel.rank w then some (w, s.kernel.rank t) else none := by
    have hwt : w ≠ t := fun he => ho (he ▸ hown)
    have hzero : (s.mutex m).value = 0 := by omega
    simp [State.raises, hown, hwt, hzero, ht]
  rw [hraises]
  exact ⟨effect_waitFor hw hf.1 hk, fun _ => rfl⟩

lemma wakes_restore (hw : Waiting s.kernel) (mx : Mutex T) {t : T}
    (hs : (s.kernel.tcb t).stat = .ready) : Wakes s.kernel (restore s.kernel mx t) := by
  unfold restore
  split
  · exact (hw.retuned_control t _).wakes hw (by simp [hs])
  exact (Agrees.refl _).wakes hw

lemma effect_step (hw : Waiting s.kernel) (h : step s a = some s') (ha : ∀ t, a ≠ .timeout t) :
    Effect s s'.kernel (s.raises a) ∧ ∀ m, (s'.mutex m).flag = (s.mutex m).flag := by
  cases a with
  | take t m time => exact effect_take hw h
  | back t =>
    cases move_of_step h with
    | back hp hs => exact ⟨effect_of_agrees hw (Agrees.refl _), fun _ => rfl⟩
  | release t m =>
    cases move_of_step h with
    | deny hf ho =>
      exact ⟨effect_of_agrees hw (agrees_setError _ t _), update_flag Mutex.flag s.mutex rfl⟩
    | drop hf ho hh =>
      exact ⟨effect_of_agrees hw (Agrees.refl _), update_flag Mutex.flag s.mutex rfl⟩
    | free hf ho hh hq =>
      exact ⟨.wakes (wakes_restore hw _ hf.1), update_flag Mutex.flag s.mutex rfl⟩
    | @hand _ _ w l hf ho hh hq =>
      have hback := wakes_restore hw (s.mutex m) hf.1
      have hresume := (hback.waiting hw).wakes_resume (o := m) (t := w) (by simp [hq])
      exact ⟨.wakes (hback.trans hresume), update_flag Mutex.flag s.mutex rfl⟩
  | timeout t => exact absurd rfl (ha t)

end Mutexes

/-! ## The law -/

namespace Ipc

variable {T I S M B Q : Type}

section

variable [DecidableEq T]

def State.change (s : State T I S M B Q) : Action T I S M B Q → Option (T × Nat)
  | .control t priority => some (t, priority)
  | .mutex a => s.mutexes.raises a
  | _ => none

/-- The condition on a step: if the thread whose priority it changes is in a list that is ordered by
priority, then its place there fits the new priority. -/
def KeepsOrder (s : State T I S M B Q) (a : Action T I S M B Q) : Prop :=
  match s.change a with
  | some (t, p) => Fits s.flag s.kernel s.arrival t p
  | none => True

end

/-! ## What a step preserves -/

structure Inv (s : State T I S M B Q) : Prop where
  waiting : Waiting s.kernel
  arrived : ∀ {o t}, t ∈ s.kernel.queue (.wait o) → s.arrival t < s.clock

lemma inv_start {s : State T I S M B Q} (h : Start s) : Inv s := by
  refine ⟨⟨?_, ?_⟩, ?_⟩
  · intro o t ht
    simp [h.wait] at ht
  · intro o o' t ht
    simp [h.wait] at ht
  intro o t ht
  simp [h.wait] at ht

inductive Course {O : Type} [DecidableEq T] [DecidableEq O] (flag : O → IpcFlag)
    (k k' : Kernel T O) : Option (T × Nat) → Prop where
  | quiet (h : Quiet flag k k') : Course flag k k' none
  | retuned {t p} (h : Retuned k k' t p) : Course flag k k' (some (t, p))
  | raised {t p} (k₁ : Kernel T O) (u : T) (o : O) (h : Retuned k k₁ t p)
      (h' : Parks (flag o) k₁ k' u o) : Course flag k k' (some (t, p))

section

variable {s s' : State T I S M B Q} {a : Action T I S M B Q}

lemma flag_ext (hsem : ∀ o, (s'.sem o).flag = (s.sem o).flag)
    (hmutex : ∀ m, (s'.mutex m).flag = (s.mutex m).flag)
    (hmail : ∀ b, (s'.mb b).flag = (s.mb b).flag) (hmq : ∀ q, (s'.mq q).flag = (s.mq q).flag) :
    s'.flag = s.flag := by
  funext o
  cases o with
  | sem o => exact hsem o
  | mutex m => exact hmutex m
  | mail b side => exact hmail b
  | mq q => exact hmq q

lemma stamp_old {u : T} (hu : (s.kernel.tcb u).stat = .suspend) :
    (s.stamp s').arrival u = s.arrival u := by
  simp [State.stamp, hu]

lemma stamp_new {u : T} (hu : (s.kernel.tcb u).stat ≠ .suspend)
    (hu' : (s'.kernel.tcb u).stat = .suspend) : (s.stamp s').arrival u = s.clock := by
  simp [State.stamp, hu, hu']

variable [DecidableEq S] [DecidableEq M] [DecidableEq B] [DecidableEq Q]

variable {c : Option (T × Nat)} {k₁ : Kernel T (WaitList S M B Q)} {o : WaitList S M B Q}

lemma stamp_parks {t : T} (hstat : ∀ u, (k₁.tcb u).stat = (s.kernel.tcb u).stat)
    (hp : Parks (s.flag o) k₁ s'.kernel t o) : (s.stamp s').arrival t = s.clock :=
  stamp_new ((hstat t) ▸ hp.ready) ((hp.stat t).mpr (.inl rfl))

lemma inv_parks (h : Inv s) {t : T} (hw : Waiting k₁)
    (hstat : ∀ u, (k₁.tcb u).stat = (s.kernel.tcb u).stat)
    (hlist : ∀ o, k₁.queue (.wait o) = s.kernel.queue (.wait o))
    (hp : Parks (s.flag o) k₁ s'.kernel t o) : Inv (s.stamp s') := by
  refine ⟨hp.waiting hw, fun {o' u} hu => ?_⟩
  rcases hp.mem.mp hu with hu | ⟨-, rfl⟩
  · rw [hlist] at hu
    rw [stamp_old (h.waiting.suspended hu)]
    exact (h.arrived hu).trans (Nat.lt_succ_self _)
  rw [stamp_parks hstat hp]
  exact Nat.lt_succ_self _

variable [DecidableEq T]

lemma inv_course (h : Inv s) (hc : Course s.flag s.kernel s'.kernel c) : Inv (s.stamp s') := by
  have hold : ∀ {o u}, u ∈ s.kernel.queue (.wait o) → (s.stamp s').arrival u < s.clock + 1 :=
    fun hu => by
      rw [stamp_old (h.waiting.suspended hu)]
      exact (h.arrived hu).trans (Nat.lt_succ_self _)
  cases hc with
  | quiet hq =>
    cases hq with
    | shrinks hs => exact ⟨hs.waiting h.waiting, fun hu => hold ((hs.list _).subset hu)⟩
    | parks t o hp => exact inv_parks h h.waiting (fun _ => rfl) (fun _ => rfl) hp
  | retuned hr =>
    refine ⟨hr.waiting h.waiting, fun {o u} hu => ?_⟩
    have hu' : u ∈ s'.kernel.queue (.wait o) := hu
    rw [hr.list] at hu'
    exact hold hu'
  | raised k₁ u o hr hp => exact inv_parks h (hr.waiting h.waiting) hr.stat hr.list hp

lemma inOrder_course (h : Inv s) (hord : InOrder s.flag s.kernel s.arrival)
    (hc : Course s.flag s.kernel s'.kernel c) :
    InOrder s.flag s'.kernel (s.stamp s').arrival ↔
      ∀ t p, c = some (t, p) → Fits s.flag s.kernel s.arrival t p := by
  have hold : ∀ u, (s.kernel.tcb u).stat = .suspend → (s.stamp s').arrival u = s.arrival u :=
    fun u => stamp_old
  cases hc with
  | quiet hq =>
    refine iff_of_true ?_ (by simp)
    cases hq with
    | shrinks hs => exact inOrder_shrinks hord hs hold
    | parks t o hp =>
      refine (inOrder_parks_iff h.waiting hp hold fun u hu => ?_).mpr hord
      rw [stamp_parks (fun _ => rfl) hp]
      exact h.arrived hu
  | @retuned t p hr =>
    rw [inOrder_retuned_iff h.waiting hord hr hold]
    simp
  | @raised t p k₁ u o hr hp =>
    have hlast : ∀ v ∈ k₁.queue (.wait o), s.arrival v < (s.stamp s').arrival u := fun v hv => by
      rw [hr.list] at hv
      rw [stamp_parks hr.stat hp]
      exact h.arrived hv
    have hold1 : ∀ v, (k₁.tcb v).stat = .suspend → (s.stamp s').arrival v = s.arrival v :=
      fun v hv => hold v ((hr.stat v) ▸ hv)
    rw [inOrder_parks_iff (hr.waiting h.waiting) hp hold1 hlast,
      inOrder_retuned_iff h.waiting hord hr fun _ _ => rfl]
    simp

lemma course_mutex (hw : Waiting s.kernel) {k' : Kernel T M} (h : Mutexes.Effect s.mutexes k' c) :
    Course s.flag s.kernel (s.kernel.withPart ownMutex k') c := by
  cases c with
  | none => exact .quiet (Local.withPart hw h fun _ => rfl)
  | some wp =>
    obtain ⟨k₁, t, m, hret, hpark⟩ := h
    -- the kernel in between is a kernel of the common system too
    have hpart := part_withPart s.kernel ownMutex k₁
    rw [← hpart] at hpark
    have hwhole := hpark.withPart
    rw [withPart_withPart] at hwhole
    exact .raised _ t (.mutex m) hret.withPart hwhole

variable [DecidableEq I]

lemma course_step (hw : Waiting s.kernel) (hall : s.Allowed a) (h : act s a = some s') :
    Course s.flag s.kernel s'.kernel (s.change a) ∧ s'.flag = s.flag := by
  cases a with
  | sem a =>
    obtain ⟨s1, hs1, rfl⟩ := map_eq_some_iff.mp h
    have hloc := Semaphores.local_step (hw.part ownSem) hs1 (by rintro t rfl; exact hall)
    exact ⟨.quiet (hloc.withPart hw fun _ => rfl),
      flag_ext (Semaphores.flag_step hs1) (fun _ => rfl) (fun _ => rfl) fun _ => rfl⟩
  | mutex a =>
    obtain ⟨s1, hs1, rfl⟩ := map_eq_some_iff.mp h
    obtain ⟨heff, hflag⟩ := Mutexes.effect_step (hw.part ownMutex) hs1 (by rintro t rfl; exact hall)
    exact ⟨course_mutex hw heff, flag_ext (fun _ => rfl) hflag (fun _ => rfl) fun _ => rfl⟩
  | mail b a =>
    obtain ⟨s1, hs1, rfl⟩ := map_eq_some_iff.mp h
    obtain ⟨hloc, hflag⟩ :=
      Mailboxes.local_step (hw.part (ownMail b)) hs1 (by rintro t rfl; exact hall)
    exact ⟨.quiet (hloc.withPart hw fun _ => rfl), flag_ext (fun _ => rfl) (fun _ => rfl)
      (update_flag Mailboxes.Mailbox.flag s.mb hflag) fun _ => rfl⟩
  | mq q a =>
    obtain ⟨s1, hs1, rfl⟩ := map_eq_some_iff.mp h
    obtain ⟨hloc, hflag⟩ :=
      MessageQueues.effect_step (hw.part (ownMq q)) hs1 (by rintro t rfl; exact hall)
    exact ⟨.quiet (hloc.withPart hw fun _ => rfl), flag_ext (fun _ => rfl) (fun _ => rfl)
      (fun _ => rfl) (update_flag MessageQueues.Mq.flag s.mq hflag)⟩
  | control t p =>
    cases h
    exact ⟨.retuned (hw.retuned_control t p), rfl⟩
  | timeout t =>
    simp only [act, ite_none_right_eq_some, map_eq_some_iff] at h
    obtain ⟨-, k, hk, rfl⟩ := h
    exact ⟨.quiet (.shrinks (hw.shrinks_timeout hk)), rfl⟩
  | tick =>
    cases h
    exact ⟨.quiet (.shrinks ((Agrees.refl _).wakes hw).toShrinks), rfl⟩

lemma step_eq_some : step s a = some s' ↔
    s.Allowed a ∧ ∃ s1, act s a = some s1 ∧ s.stamp s1 = s' := by
  rw [step, ite_none_right_eq_some, map_eq_some_iff]

lemma inv_step (h : Inv s) (hstep : step s a = some s') : Inv s' := by
  obtain ⟨hall, s1, hs1, rfl⟩ := step_eq_some.mp hstep
  exact inv_course h (course_step h.waiting hall hs1).1

lemma inOrder_step (h : Inv s) (hord : InOrder s.flag s.kernel s.arrival)
    (hstep : step s a = some s') : InOrder s'.flag s'.kernel s'.arrival ↔ KeepsOrder s a := by
  obtain ⟨hall, s1, hs1, rfl⟩ := step_eq_some.mp hstep
  obtain ⟨hcourse, hflag⟩ := course_step h.waiting hall hs1
  have hiff := inOrder_course h hord hcourse
  have hkeeps : KeepsOrder s a ↔
      ∀ t p, s.change a = some (t, p) → Fits s.flag s.kernel s.arrival t p := by
    unfold KeepsOrder
    cases s.change a with
    | none => simp
    | some tp =>
      obtain ⟨t, p⟩ := tp
      simp
  rw [hkeeps, ← hiff, ← hflag]
  rfl

/-- **The order of the wait lists.** In all states of a run the threads in the wait lists of the
objects with `RT_IPC_FLAG_PRIO` are ordered by their current priorities, threads of equal priority
standing in the order of their arrival, if and only if every thread whose priority is changed, by
`rt_thread_control` or by `rt_mutex_take`, is in no such list or has its place between the threads
in front of it and those behind it with its new priority too. -/
theorem waitLists_ordered_iff {s₀ s : State T I S M B Q} {as : List (Action T I S M B Q)}
    (h₀ : Start s₀) (h : exec step s₀ as = some s) :
    (∀ s₁, Reached step s₀ as s₁ → InOrder s₁.flag s₁.kernel s₁.arrival) ↔
      Meets step KeepsOrder s₀ as := by
  have hinit : InOrder s₀.flag s₀.kernel s₀.arrival := fun o _ => by
    rw [h₀.wait]
    exact List.Pairwise.nil
  exact always_iff_meets (fun _ _ _ hI _ hs => inv_step hI hs)
    (fun _ _ _ hI _ hP hs => inOrder_step hI hP hs) (inv_start h₀) hinit
    (meets_of_forall (fun _ _ => trivial) _ _) h

end

def waitListEquiv : WaitList S M B Q ≃ S ⊕ M ⊕ (B × Bool) ⊕ Q where
  toFun
    | .sem o => .inl o
    | .mutex m => .inr (.inl m)
    | .mail b .receivers => .inr (.inr (.inl (b, true)))
    | .mail b .senders => .inr (.inr (.inl (b, false)))
    | .mq q => .inr (.inr (.inr q))
  invFun
    | .inl o => .sem o
    | .inr (.inl m) => .mutex m
    | .inr (.inr (.inl (b, true))) => .mail b .receivers
    | .inr (.inr (.inl (b, false))) => .mail b .senders
    | .inr (.inr (.inr q)) => .mq q
  left_inv o := by
    rcases o with _ | _ | ⟨_, _ | _⟩ | _ <;> rfl
  right_inv o := by
    rcases o with _ | _ | ⟨_, _ | _⟩ | _ <;> rfl

instance [Fintype S] [Fintype M] [Fintype B] [Fintype Q] : Fintype (WaitList S M B Q) :=
  Fintype.ofEquiv _ waitListEquiv.symm

instance [DecidableEq T] [Fintype S] [Fintype M] [Fintype B] [Fintype Q]
    (s : State T I S M B Q) (a : Action T I S M B Q) : Decidable (KeepsOrder s a) := by
  unfold KeepsOrder Fits
  split <;> infer_instance

def semAndMutex : State (Fin 3) Empty Unit Unit Empty Empty where
  kernel := Kernel.ready ![20, 10, 15]
  sem _ := { value := 0, flag := .prio }
  mutex _ := Mutexes.rtMutexInit .prio
  mb := Empty.elim
  mq := Empty.elim
  tick := 0
  call _ := none
  clock := 0
  arrival _ := 0

lemma start_semAndMutex : Start semAndMutex := ⟨fun _ => rfl, fun _ => rfl⟩

/-- The owner of the mutex waits for the semaphore and is raised; another thread waits behind it,
and its priority is changed to one that fits its place. -/
def raisedInPlace : List (Action (Fin 3) Empty Unit Unit Empty Empty) :=
  [.mutex (.take 0 () (-1)), .sem (.take 0 () (-1)), .mutex (.take 1 () (-1)),
    .sem (.take 2 () (-1)), .control 2 12]

theorem waitLists_ordered_iff_raisedInPlace : ∃ s, exec step semAndMutex raisedInPlace = some s ∧
      s.kernel.queue (.wait (.sem ())) = [0, 2] ∧ s.kernel.rank 0 = 10 ∧ s.kernel.rank 2 = 12 ∧
      ∀ s₁, Reached step semAndMutex raisedInPlace s₁ → InOrder s₁.flag s₁.kernel s₁.arrival := by
  obtain ⟨s, hs, hq, h0, h2⟩ : ∃ s, exec step semAndMutex raisedInPlace = some s ∧
      s.kernel.queue (.wait (.sem ())) = [0, 2] ∧ s.kernel.rank 0 = 10 ∧
      s.kernel.rank 2 = 12 := by decide +kernel
  have hmeets : Meets step KeepsOrder semAndMutex raisedInPlace := by decide +kernel
  exact ⟨s, hs, hq, h0, h2, (waitLists_ordered_iff start_semAndMutex hs).mpr hmeets⟩

def twoWait : List (Action (Fin 3) Empty Unit Unit Empty Empty) :=
  [.mutex (.take 0 () (-1)), .sem (.take 0 () (-1)), .sem (.take 2 () (-1))]

/-- The priority of the last thread is changed to 5 by a call; or it becomes 10, since the thread
owns the mutex that a thread of this priority takes. In both cases it stays behind a thread of
priority 15. -/
theorem raised_behind : (∃ s, exec step semAndMutex (twoWait ++ [.control 0 5]) = some s ∧
      s.flag (.sem ()) = .prio ∧ s.kernel.queue (.wait (.sem ())) = [2, 0] ∧
      s.kernel.rank 2 = 15 ∧ s.kernel.rank 0 = 5) ∧
    ∃ s, exec step semAndMutex (twoWait ++ [.mutex (.take 1 () (-1))]) = some s ∧
      s.flag (.sem ()) = .prio ∧ s.kernel.queue (.wait (.sem ())) = [2, 0] ∧
      s.kernel.rank 2 = 15 ∧ s.kernel.rank 0 = 10 := by
  decide +kernel

end Ipc

end NbIot
