import NbIot.Ipc.Mutex

/-! # Priority inheritance

A thread that has to wait for a mutex raises the owner to its own priority, and the owner gets
back the priority it had when it took the mutex as soon as it has released it. Both are done for
one mutex at a time, so they go together only as long as no thread holds two mutexes in a bad
order and every queue is handed over from the front in the order of the priorities.

Smaller numbers are more urgent, as in the source.
-/

namespace NbIot.Mutexes

open Queues Kernel Run

/-! ## Priorities -/

variable {T M : Type}

section

variable [DecidableEq T] [DecidableEq M] {k k' : Kernel T M} {pend : T → Option M}

lemma boost_priority (k : Kernel T M) (w t u : T) : ((boost k w t).tcb u).currentPriority =
      if u = w ∧ (k.tcb t).currentPriority < (k.tcb w).currentPriority then
        (k.tcb t).currentPriority
      else (k.tcb u).currentPriority := by
  unfold boost
  by_cases hlt : (k.tcb t).currentPriority < (k.tcb w).currentPriority
  · rw [if_pos hlt, rtThreadControl_tcb]
    by_cases e : u = w
    · subst e
      simp [hlt]
    simp [e]
  rw [if_neg hlt, if_neg (fun h => hlt h.2)]

lemma restore_priority (k : Kernel T M) (mx : Mutex T) (t u : T) :
    ((restore k mx t).tcb u).currentPriority =
      if u = t then mx.originalPriority else (k.tcb u).currentPriority := by
  unfold restore
  split
  · rw [rtThreadControl_tcb]
    by_cases e : u = t
    · subst e
      simp
    simp [e]
  rename_i heq
  by_cases e : u = t
  · subst e
    rw [if_pos rfl]
    exact (not_not.mp heq).symm
  rw [if_neg e]

lemma resume_priority {m : M} {w : T} {l : List T} (h : Blocked k pend)
    (hq : k.queue (.wait m) = w :: l) (u : T) :
    ((k.rtIpcListResume w).tcb u).currentPriority = (k.tcb u).currentPriority ∧
      ((k.rtIpcListResume w).tcb u).initPriority = (k.tcb u).initPriority := by
  rw [h.resume_tcb hq]
  exact ⟨update_keeps _ u, update_keeps _ u⟩

lemma timeout_priority {t : T} (hk : k.rtThreadTimeout t = some k') (u : T) :
    (k'.tcb u).currentPriority = (k.tcb u).currentPriority ∧
      (k'.tcb u).initPriority = (k.tcb u).initPriority := by
  rw [(Blocked.timeout_tcb hk).2]
  exact ⟨update_keeps _ u, update_keeps _ u⟩

omit [DecidableEq M] in
lemma setError_priority (k : Kernel T M) (t : T) (e : Int) (u : T) :
    ((k.setError t e).tcb u).currentPriority = (k.tcb u).currentPriority ∧
      ((k.setError t e).tcb u).initPriority = (k.tcb u).initPriority :=
  ⟨update_keeps _ u, update_keeps _ u⟩

end

/-! ## The priority of an owner -/

def State.prio (s : State T M) (t : T) : Nat := (s.kernel.tcb t).currentPriority

def State.waiters (s : State T M) (m : M) : List T := s.kernel.queue (.wait m)

/-- The owner of a mutex is at least as urgent as every thread that waits for it. -/
def Inherits (s : State T M) : Prop :=
  ∀ m t u, (s.mutex m).owner = some t → u ∈ s.waiters m → s.prio t ≤ s.prio u

/-- What keeps the inheritance intact. A take that raises the owner finds it waiting only for
mutexes whose owners are as urgent as the caller. The last release of a mutex hands it to the
most urgent waiter, and takes the priority of the caller back to one that is as urgent as every
thread that waits for another mutex of the caller. -/
def InheritOk (s : State T M) : Action T M → Prop
  | .take t m time =>
    time ≠ 0 → ∀ w, (s.mutex m).owner = some w → s.prio t < s.prio w →
      ∀ m' x, w ∈ s.waiters m' → (s.mutex m').owner = some x → s.prio x ≤ s.prio t
  | .release t m =>
    (s.mutex m).owner = some t → (s.mutex m).drop.hold = 0 →
      (∀ w, (s.waiters m).head? = some w → ∀ u ∈ (s.waiters m).tail, s.prio w ≤ s.prio u) ∧
      ∀ m', m' ≠ m → (s.mutex m').owner = some t → ∀ u ∈ s.waiters m',
        (s.mutex m).originalPriority ≤ s.prio u
  | _ => True

instance [Fintype T] [Fintype M] [DecidableEq T] [DecidableEq M] (s : State T M) :
    ∀ a, Decidable (InheritOk s a)
  | .take _ _ _ | .release _ _ | .back _ | .timeout _ => by
    dsimp only [InheritOk]
    infer_instance

/-! ## What a move does to it -/

variable {s s' : State T M} {k : Kernel T M} {mx : Mutex T} {m : M}

section

lemma Inherits.congr (h : Inherits s)
    (ho : ∀ m t, (s'.mutex m).owner = some t → (s.mutex m).owner = some t ∨ s'.waiters m = [])
    (hw : ∀ m u, u ∈ s'.waiters m → u ∈ s.waiters m) (hp : ∀ u, s'.prio u = s.prio u) :
    Inherits s' := by
  intro m t u hot hu
  rw [hp, hp]
  rcases ho m t hot with hot | hnil
  · exact h m t u hot (hw m u hu)
  simp [hnil] at hu

variable [DecidableEq M]

lemma Inherits.ret (h : Inherits s) (c : Call T M)
    (ho : mx.owner = (s.mutex m).owner) (hw : ∀ m', k.queue (.wait m') = s.kernel.queue (.wait m'))
    (hp : ∀ u, (k.tcb u).currentPriority = (s.kernel.tcb u).currentPriority) :
    Inherits (s.ret k m mx c) := by
  refine h.congr (fun m' t hot => .inl ?_) (fun m' u hu => ?_) hp
  · exact (update_keeps Mutex.owner m' ho).symm.trans hot
  have hu' : u ∈ k.queue (.wait m') := hu
  rw [hw] at hu'
  exact hu'

variable [DecidableEq T]

lemma inherits_block_iff (h : Inherits s) (hi : Inv s) {t w : T}
    (ho : (s.mutex m).owner = some w) (hw : w ≠ t)
    (hk : Waits (s.kernel.setError t rtEok) k s.pend m w t) :
    Inherits (s.block k t m) ↔ (s.prio t < s.prio w →
      ∀ m' x, w ∈ s.waiters m' → (s.mutex m').owner = some x → s.prio x ≤ s.prio t) := by
  have hprio : ∀ u, (s.block k t m).prio u =
      if u = w ∧ s.prio t < s.prio w then s.prio t else s.prio u := by
    intro u
    have hset := fun v => (setError_priority s.kernel t rtEok v).1
    show (k.tcb u).currentPriority = _
    rw [(hk.priority u).1, boost_priority, hset, hset, hset]
    rfl
  have hmem : ∀ m' u, u ∈ (s.block k t m).waiters m' ↔ u ∈ s.waiters m' ∨ (m' = m ∧ u = t) := hk.mem
  constructor
  · intro hinh hlt m' x hwm hox
    have hxw : x ≠ w := by
      rintro rfl
      exact hi.owner_notMem hox hwm
    have := hinh m' x w hox ((hmem m' w).mpr (.inl hwm))
    rw [hprio, hprio, if_neg (fun hc => hxw hc.1), if_pos ⟨rfl, hlt⟩] at this
    exact this
  intro hcond m' x u hox hu
  have hle : (s.block k t m).prio x ≤ s.prio x := by
    rw [hprio]
    split
    · rename_i hc
      rw [hc.1]
      exact Nat.le_of_lt hc.2
    exact le_rfl
  rcases (hmem m' u).mp hu with hu | ⟨rfl, rfl⟩
  · by_cases hc : u = w ∧ s.prio t < s.prio w
    · -- the raised owner waits itself, and for `m'`
      rw [hprio u, if_pos hc]
      obtain ⟨rfl, hlt⟩ := hc
      exact Nat.le_trans hle (hcond hlt m' x hu hox)
    rw [hprio u, if_neg hc]
    exact Nat.le_trans hle (h m' x u hox hu)
  -- the new waiter and the owner it has raised
  obtain rfl : w = x := Option.some.inj (ho.symm.trans hox)
  rw [hprio, hprio, if_neg (fun hc : u = w ∧ _ => hw hc.1.symm)]
  split
  · exact le_rfl
  rename_i hc
  simp only [true_and] at hc
  omega

lemma inherits_release_iff (h : Inherits s) (hi : Inv s) {t : T} (hf : s.Free t)
    (ho : (s.mutex m).owner = some t) (c : Call T M)
    (hp : ∀ u, (k.tcb u).currentPriority = if u = t then (s.mutex m).originalPriority else s.prio u)
    (hw : ∀ m', m' ≠ m → k.queue (.wait m') = s.waiters m')
    (hl : k.queue (.wait m) = (s.waiters m).tail) (hown : mx.owner = (s.waiters m).head?) :
    Inherits (s.ret k m mx c) ↔
      (∀ w, (s.waiters m).head? = some w → ∀ u ∈ (s.waiters m).tail, s.prio w ≤ s.prio u) ∧
      ∀ m', m' ≠ m → (s.mutex m').owner = some t → ∀ u ∈ s.waiters m',
        (s.mutex m).originalPriority ≤ s.prio u := by
  -- the thread that releases waits nowhere, so no waiter changes its priority
  have hnot : ∀ {m' u}, u ∈ s.waiters m' → u ≠ t := by
    rintro m' u hu rfl
    exact hi.blocked.notMem_of_pend hf.2 m' hu
  have hprio : ∀ u, (s.ret k m mx c).prio u =
      if u = t then (s.mutex m).originalPriority else s.prio u := hp
  have howner : ∀ m', m' ≠ m → ((s.ret k m mx c).mutex m').owner = (s.mutex m').owner := by
    intro m' e
    simp [State.ret, e]
  have hself : ((s.ret k m mx c).mutex m).owner = (s.waiters m).head? := by
    simpa [State.ret] using hown
  constructor
  · intro hinh
    refine ⟨?_, ?_⟩
    · intro w hw' u hu
      have hwm : w ∈ s.waiters m := List.mem_of_mem_head? hw'
      have hum : u ∈ s.waiters m := List.mem_of_mem_tail hu
      have hle := hinh m w u (hself.trans hw') (by
        show u ∈ k.queue (.wait m)
        rw [hl]
        exact hu)
      rw [hprio, hprio, if_neg (hnot hwm), if_neg (hnot hum)] at hle
      exact hle
    intro m' e ho' u hu
    have hle := hinh m' t u (by rw [howner m' e]; exact ho') (by
      show u ∈ k.queue (.wait m')
      rw [hw m' e]
      exact hu)
    rw [hprio, hprio, if_pos rfl, if_neg (hnot hu)] at hle
    exact hle
  rintro ⟨hfirst, hother⟩ m' x u hox hu
  by_cases e : m' = m
  · -- the new owner is the first of the waiters, `u` is one of the others
    subst e
    rw [hself] at hox
    have hu' : u ∈ (s.waiters m').tail := by
      rw [← hl]
      exact hu
    have hwm : x ∈ s.waiters m' := List.mem_of_mem_head? hox
    have hum : u ∈ s.waiters m' := List.mem_of_mem_tail hu'
    rw [hprio, hprio, if_neg (hnot hwm), if_neg (hnot hum)]
    exact hfirst x hox u hu'
  rw [howner m' e] at hox
  have hu' : u ∈ s.waiters m' := by
    rw [← hw m' e]
    exact hu
  rw [hprio, hprio, if_neg (hnot hu')]
  split
  · rename_i ex
    subst ex
    exact hother m' e hox u hu'
  exact h m' x u hox hu'

lemma inherits_move_iff {a : Action T M} (h : Inherits s) (hi : Inv s) (hm : Move s a s') :
    Inherits s' ↔ InheritOk s a := by
  cases hm with
  | @again t m time hf ho =>
    apply iff_of_true
    · exact h.ret _ rfl (fun _ => rfl) fun u => (setError_priority s.kernel t rtEok u).1
    -- the owner is not less urgent than itself
    intro _ w hw hlt
    rw [ho] at hw
    obtain rfl : t = w := Option.some.inj hw
    omega
  | @grab t m time hf ho hv =>
    obtain ⟨-, hnone, -, hnil⟩ := hi.free_of_value hv
    apply iff_of_true
    · refine h.congr ?_ (fun _ _ hu => hu) fun u => (setError_priority s.kernel t rtEok u).1
      intro m' x hx
      by_cases e : m' = m
      · subst e
        exact .inr hnil
      left
      simpa [State.ret, e] using hx
    intro _ w hw
    simp [hnone] at hw
  | @refuse t m hf ho =>
    apply iff_of_true
    · refine h.ret _ rfl (fun _ => rfl) ?_
      intro u
      rw [(setError_priority _ t _ u).1, (setError_priority _ t _ u).1]
    intro hne
    exact absurd rfl hne
  | @wait t m time w k hf ho hw ht hk =>
    rw [inherits_block_iff h hi ho hw (waitFor_spec hi.blocked hf.1 hf.2 hk)]
    constructor
    · intro hc _ w' hw' hlt
      obtain rfl : w = w' := Option.some.inj (ho.symm.trans hw')
      exact hc hlt
    intro hc hlt
    exact hc ht w ho hlt
  | back hp hs => exact iff_of_true (h.congr (fun _ _ => .inl) (fun _ _ => id) fun _ => rfl) trivial
  | @deny t m hf ho =>
    apply iff_of_true
    · exact h.ret _ rfl (fun _ => rfl) fun u => (setError_priority s.kernel t (-rtError) u).1
    intro ho'
    exact absurd ho' ho
  | drop hf ho hh =>
    apply iff_of_true
    · exact h.ret _ rfl (fun _ => rfl) fun _ => rfl
    intro _ hh'
    exact absurd hh' hh
  | @free t m hf ho hh hq =>
    have hwait := (tuned_restore s.kernel (s.mutex m) t).wait hi.blocked
    rw [hwait] at hq
    rw [inherits_release_iff h hi hf ho _ (restore_priority _ _ t) (fun m' _ => hwait m')
      ((hwait m).trans (by rw [State.waiters, hq]; rfl)) (by rw [State.waiters, hq]; rfl)]
    exact ⟨fun hc _ _ => hc, fun hc => hc ho hh⟩
  | @hand t m w l hf ho hh hq =>
    have ht := tuned_restore s.kernel (s.mutex m) t
    have hb := ht.blocked hi.blocked
    have hwait := ht.wait hi.blocked
    have hq' : s.waiters m = w :: l := (hwait m).symm.trans hq
    rw [inherits_release_iff h hi hf ho _ _
      (fun m' e => (hb.resume_wait_of_ne hq e).trans (hwait m'))
      ((hb.resume_wait_self hq).trans (by rw [hq']; rfl)) (by rw [hq']; rfl)]
    · exact ⟨fun hc _ _ => hc, fun hc => hc ho hh⟩
    intro u
    exact ((resume_priority hb hq u).1).trans (restore_priority _ _ t u)
  | @expire t k hl hk =>
    apply iff_of_true _ trivial
    refine h.congr (fun _ _ => .inl) ?_ ?_
    · intro m u hu
      have hu' : u ∈ k.queue (.wait m) := hu
      rw [Blocked.timeout_wait hk] at hu'
      exact (mem_unlink.mp hu').1
    intro u
    exact (timeout_priority hk u).1

/-- **Priority inheritance.** In every run of `rt_mutex_take` and `rt_mutex_release`, the owner
of a mutex is at least as urgent as its waiters in every state exactly when every step meets
`InheritOk`. -/
theorem inherits_iff {s₀ s : State T M} {as : List (Action T M)} (hs : Start s₀)
    (h : exec step s₀ as = some s) :
    (∀ u, Reached step s₀ as u → Inherits u) ↔ Meets step InheritOk s₀ as := by
  apply always_iff_meets _ _ (inv_start hs) _
    (meets_of_forall (fun _ _ => trivial) s₀ as) h
  · intro u a u' hu _ hstep
    exact inv_move hu (move_of_step hstep)
  · intro u a u' hu _ hP hstep
    exact inherits_move_iff hP hu (move_of_step hstep)
  intro m t u _ hu
  have hu' : u ∈ s₀.kernel.queue (.wait m) := hu
  simp [hs.wait] at hu'

end

/-- Threads of priorities 20, 15 and 5 use one mutex. The least urgent one takes it, the others
come to wait for it one after the other, and the owner releases it. -/
def threeThreads (flag : IpcFlag) : State (Fin 3) Unit := ready ![20, 15, 5] fun _ => flag

def releaseToWaiters : List (Action (Fin 3) Unit) :=
  [.take 0 () (-1), .take 1 () (-1), .take 2 () (-1), .release 0 ()]

theorem inherits_iff_prio : Start (threeThreads .prio) ∧
      ∀ u, Reached step (threeThreads .prio) releaseToWaiters u → Inherits u := by
  have hstart : Start (threeThreads .prio) := start_ready _ _
  have hsome : (exec step (threeThreads .prio) releaseToWaiters).isSome = true := by
    decide +kernel
  obtain ⟨s, hs⟩ := Option.isSome_iff_exists.mp hsome
  have hmeets : Meets step InheritOk (threeThreads .prio) releaseToWaiters := by
    decide +kernel
  exact ⟨hstart, (inherits_iff hstart hs).mpr hmeets⟩

/-- **The missing case.** With `RT_IPC_FLAG_FIFO` the release hands the mutex to the thread of
priority 15, which is not raised although the thread of priority 5 waits for it. -/
theorem handOff_inverts : Start (threeThreads .fifo) ∧
      ∃ s, exec step (threeThreads .fifo) releaseToWaiters = some s ∧
        (s.mutex ()).owner = some 1 ∧ s.waiters () = [2] ∧ s.prio 1 = 15 ∧ s.prio 2 = 5 ∧
        ¬ Inherits s := by
  obtain ⟨s, hs, ho, hw, h1, h2⟩ : ∃ s, exec step (threeThreads .fifo) releaseToWaiters =
      some s ∧ (s.mutex ()).owner = some 1 ∧ s.waiters () = [2] ∧ s.prio 1 = 15 ∧
      s.prio 2 = 5 := by decide +kernel
  refine ⟨start_ready _ _, s, hs, ho, hw, h1, h2, ?_⟩
  intro hinh
  have hle := hinh () 1 2 ho (by simp [hw])
  omega

/-! ## The priority after the last release -/

def Restored (s : State T M) : Prop :=
  ∀ t, (∀ m, (s.mutex m).owner ≠ some t) → s.prio t = (s.kernel.tcb t).initPriority

/-- The last release of the last mutex of a thread finds the thread's own priority in the mutex:
it was not raised when it took this mutex. -/
def RestoreOk (s : State T M) : Action T M → Prop
  | .release t m =>
    (s.mutex m).owner = some t → (s.mutex m).drop.hold = 0 →
      (∀ m', m' ≠ m → (s.mutex m').owner ≠ some t) →
        (s.mutex m).originalPriority = (s.kernel.tcb t).initPriority
  | _ => True

instance [Fintype M] [DecidableEq T] [DecidableEq M] (s : State T M) :
    ∀ a, Decidable (RestoreOk s a)
  | .take _ _ _ | .release _ _ | .back _ | .timeout _ => by
    dsimp only [RestoreOk]
    infer_instance

section

lemma Restored.congr (h : Restored s)
    (ho : ∀ t m, (s.mutex m).owner = some t → ∃ m', (s'.mutex m').owner = some t)
    (hp : ∀ t, s'.prio t = s.prio t ∧
      (s'.kernel.tcb t).initPriority = (s.kernel.tcb t).initPriority) : Restored s' := by
  intro t hnone
  rw [(hp t).1, (hp t).2]
  apply h t
  intro m hm
  obtain ⟨m', hm'⟩ := ho t m hm
  exact hnone m' hm'

variable [DecidableEq M]

lemma Restored.ret (h : Restored s) (c : Call T M)
    (ho : ∀ t, (s.mutex m).owner = some t → mx.owner = some t)
    (hp : ∀ u, (k.tcb u).currentPriority = (s.kernel.tcb u).currentPriority ∧
      (k.tcb u).initPriority = (s.kernel.tcb u).initPriority) : Restored (s.ret k m mx c) := by
  refine h.congr ?_ hp
  intro t m' hm'
  refine ⟨m', ?_⟩
  by_cases e : m' = m
  · subst e
    simpa [State.ret] using ho t hm'
  simpa [State.ret, e] using hm'

variable [DecidableEq T]

lemma Restored.block (h : Restored s) {t w : T} (ho : (s.mutex m).owner = some w)
    (hk : Waits (s.kernel.setError t rtEok) k s.pend m w t) : Restored (s.block k t m) := by
  intro u hnone
  have hne : u ≠ w := by
    rintro rfl
    exact hnone m ho
  show (k.tcb u).currentPriority = (k.tcb u).initPriority
  rw [(hk.priority u).1, (hk.priority u).2, boost_priority,
    ((tuned_boost ..).kept u).2.2, if_neg (fun hc => hne hc.1),
    (setError_priority s.kernel t rtEok u).1, (setError_priority s.kernel t rtEok u).2]
  exact h u hnone

lemma restored_release_iff (h : Restored s) {t : T} (ho : (s.mutex m).owner = some t) (c : Call T M)
    (hp : ∀ u, (k.tcb u).currentPriority = if u = t then (s.mutex m).originalPriority else s.prio u)
    (hip : ∀ u, (k.tcb u).initPriority = (s.kernel.tcb u).initPriority) (hown : mx.owner ≠ some t) :
    Restored (s.ret k m mx c) ↔ ((∀ m', m' ≠ m → (s.mutex m').owner ≠ some t) →
      (s.mutex m).originalPriority = (s.kernel.tcb t).initPriority) := by
  have howner : ∀ m', m' ≠ m → ((s.ret k m mx c).mutex m').owner = (s.mutex m').owner := by
    intro m' e
    simp [State.ret, e]
  have hself : ((s.ret k m mx c).mutex m).owner = mx.owner := by simp [State.ret]
  constructor
  · intro hr hother
    have hnone : ∀ m', ((s.ret k m mx c).mutex m').owner ≠ some t := by
      intro m'
      by_cases e : m' = m
      · subst e
        rw [hself]
        exact hown
      rw [howner m' e]
      exact hother m' e
    calc (s.mutex m).originalPriority = (k.tcb t).currentPriority := by rw [hp, if_pos rfl]
      _ = (k.tcb t).initPriority := hr t hnone
      _ = (s.kernel.tcb t).initPriority := hip t
  intro hcond u hnone
  show (k.tcb u).currentPriority = (k.tcb u).initPriority
  rw [hp, hip]
  by_cases e : u = t
  · subst e
    rw [if_pos rfl]
    apply hcond
    intro m' em
    rw [← howner m' em]
    exact hnone m'
  rw [if_neg e]
  apply h u
  intro m'
  by_cases em : m' = m
  · subst em
    rw [ho]
    simpa using Ne.symm e
  rw [← howner m' em]
  exact hnone m'

lemma restored_move_iff {a : Action T M} (h : Restored s) (hi : Inv s) (hm : Move s a s') :
    Restored s' ↔ RestoreOk s a := by
  cases hm with
  | @again t m time hf ho =>
    exact iff_of_true (h.ret _ (fun _ hx => hx) (setError_priority s.kernel t rtEok)) trivial
  | @grab t m time hf ho hv =>
    obtain ⟨-, hnone, -, -⟩ := hi.free_of_value hv
    refine iff_of_true (h.ret _ ?_ (setError_priority s.kernel t rtEok)) trivial
    intro x hx
    simp [hnone] at hx
  | @refuse t m hf ho =>
    refine iff_of_true (h.ret _ (fun _ hx => hx) ?_) trivial
    intro u
    rw [(setError_priority _ t _ u).1, (setError_priority _ t _ u).1,
      (setError_priority _ t _ u).2, (setError_priority _ t _ u).2]
    exact ⟨rfl, rfl⟩
  | @wait t m time w k hf ho hw ht hk =>
    exact iff_of_true (h.block ho (waitFor_spec hi.blocked hf.1 hf.2 hk)) trivial
  | back hp hs => exact iff_of_true (h.congr (fun _ m hm => ⟨m, hm⟩) fun _ => ⟨rfl, rfl⟩) trivial
  | @deny t m hf ho =>
    apply iff_of_true
    · exact h.ret _ (fun _ hx => hx) (setError_priority s.kernel t (-rtError))
    intro ho'
    exact absurd ho' ho
  | drop hf ho hh =>
    apply iff_of_true
    · exact h.ret _ (fun _ hx => hx) fun _ => ⟨rfl, rfl⟩
    intro _ hh'
    exact absurd hh' hh
  | @free t m hf ho hh hq =>
    rw [restored_release_iff h ho _ (restore_priority _ _ t)
      (fun u => ((tuned_restore ..).kept u).2.2)
      (by simp [Mutex.free])]
    exact ⟨fun hc _ _ => hc, fun hc => hc ho hh⟩
  | @hand t m w l hf ho hh hq =>
    have ht := tuned_restore s.kernel (s.mutex m) t
    have hb := ht.blocked hi.blocked
    have hwt : w ≠ t := by
      rintro rfl
      have hm : w ∈ (restore s.kernel (s.mutex m) w).queue (.wait m) := by simp [hq]
      exact hb.notMem_of_pend hf.2 m hm
    rw [restored_release_iff h ho _ _ _ (by simpa [Mutex.hand] using hwt)]
    · exact ⟨fun hc _ _ => hc, fun hc => hc ho hh⟩
    · intro u
      exact ((resume_priority hb hq u).1).trans (restore_priority _ _ t u)
    intro u
    exact ((resume_priority hb hq u).2).trans (ht.kept u).2.2
  | @expire t k hl hk =>
    exact iff_of_true (h.congr (fun _ m hm => ⟨m, hm⟩) (timeout_priority hk)) trivial

/-- **Priority restoration.** In every run of `rt_mutex_take` and `rt_mutex_release` by threads
that start with their own priorities, a thread without a mutex has its own priority in every
state exactly when every step meets `RestoreOk`. -/
theorem restored_iff {s₀ s : State T M} {as : List (Action T M)} (hs : Start s₀)
    (hp : ∀ t, s₀.prio t = (s₀.kernel.tcb t).initPriority) (h : exec step s₀ as = some s) :
    (∀ u, Reached step s₀ as u → Restored u) ↔ Meets step RestoreOk s₀ as := by
  apply always_iff_meets _ _ (inv_start hs) _
    (meets_of_forall (fun _ _ => trivial) s₀ as) h
  · intro u a u' hu _ hstep
    exact inv_move hu (move_of_step hstep)
  · intro u a u' hu _ hP hstep
    exact restored_move_iff hP hu (move_of_step hstep)
  intro t _
  exact hp t

end

def twoMutexes : State (Fin 2) (Fin 2) := ready ![20, 5] fun _ => .prio

/-- The first thread takes a mutex and is raised by the second one that waits for it; it takes
the other mutex and releases the two in the order of `ms`. -/
def nested (ms : List (Fin 2)) : List (Action (Fin 2) (Fin 2)) :=
  [.take 0 0 (-1), .take 1 0 (-1), .take 0 1 (-1)] ++ ms.map (.release 0)

theorem restored_iff_nested :
    Start twoMutexes ∧ ∀ u, Reached step twoMutexes (nested [1, 0]) u → Restored u := by
  have hstart : Start twoMutexes := start_ready _ _
  have hsome : (exec step twoMutexes (nested [1, 0])).isSome = true := by decide +kernel
  obtain ⟨s, hs⟩ := Option.isSome_iff_exists.mp hsome
  have hmeets : Meets step RestoreOk twoMutexes (nested [1, 0]) := by decide +kernel
  exact ⟨hstart, (restored_iff hstart (fun _ => rfl) hs).mpr hmeets⟩

/-- **The missing case.** Released in the order in which they were taken, the second mutex gives
the thread the raised priority that it saved, and the thread keeps it without any mutex. -/
theorem releaseInOrder_keeps_boost : Start twoMutexes ∧
      ∃ s, exec step twoMutexes (nested [0, 1]) = some s ∧
        (∀ m, (s.mutex m).owner ≠ some 0) ∧ s.prio 0 = 5 ∧
        (s.kernel.tcb 0).initPriority = 20 ∧ ¬ Restored s := by
  obtain ⟨s, hs, hnone, hprio, hinit⟩ : ∃ s, exec step twoMutexes (nested [0, 1]) = some s ∧
      (∀ m, (s.mutex m).owner ≠ some 0) ∧ s.prio 0 = 5 ∧
      (s.kernel.tcb 0).initPriority = 20 := by decide +kernel
  refine ⟨start_ready _ _, s, hs, hnone, hprio, hinit, ?_⟩
  intro hr
  have := hr 0 hnone
  omega

end NbIot.Mutexes
