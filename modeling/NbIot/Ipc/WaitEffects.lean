import NbIot.Ipc.System

/-! # What the functions do to the wait lists

For the order of the wait lists it matters which threads are in them, which threads are suspended,
and what the current priorities are. In these terms every function of an object does one of two
things: it resumes some threads, which leave their lists (`Wakes`), or it suspends the running
thread and inserts it into a list (`Parks`). A change of a priority is a third one (`Retuned`).
-/

namespace NbIot

open Queues Function

/-! ## What a call may do to a wait list -/

variable {T O O' : Type}

/-- `current_priority` of the threads. -/
def Kernel.rank (k : Kernel T O) (t : T) : Nat := (k.tcb t).currentPriority

structure Waiting (k : Kernel T O) : Prop where
  suspended : ∀ {o t}, t ∈ k.queue (.wait o) → (k.tcb t).stat = .suspend
  unique : ∀ {o o' t}, t ∈ k.queue (.wait o) → t ∈ k.queue (.wait o') → o = o'

structure Agrees (k k' : Kernel T O) : Prop where
  rank : k'.rank = k.rank
  stat : ∀ u, (k'.tcb u).stat = (k.tcb u).stat
  list : ∀ o, k'.queue (.wait o) = k.queue (.wait o)

/-- Threads leave the wait lists. The priority of a thread that is not suspended may change. -/
structure Shrinks (k k' : Kernel T O) : Prop where
  rank : ∀ u, (k'.tcb u).stat = .suspend → k'.rank u = k.rank u
  list : ∀ o, List.Sublist (k'.queue (.wait o)) (k.queue (.wait o))
  stat : ∀ u, (k'.tcb u).stat = .suspend → (k.tcb u).stat = .suspend
  stays : ∀ {o u}, u ∈ k'.queue (.wait o) → (k'.tcb u).stat = .suspend

structure Wakes (k k' : Kernel T O) : Prop extends Shrinks k k' where
  woken : ∀ u, (k.tcb u).stat = .suspend → (k'.tcb u).stat = .suspend ∨ ∃ o, u ∈ k.queue (.wait o)

/-- The thread `t` is suspended and put into the list of `o`. -/
structure Parks [DecidableEq O] (flag : IpcFlag) (k k' : Kernel T O) (t : T) (o : O) : Prop where
  ready : (k.tcb t).stat ≠ .suspend
  rank : k'.rank = k.rank
  list : ∀ o', k'.queue (.wait o') =
    if o' = o then k.insertWaiter flag t (k.queue (.wait o)) else k.queue (.wait o')
  stat : ∀ u, (k'.tcb u).stat = .suspend ↔ u = t ∨ (k.tcb u).stat = .suspend

/-- The thread `t` gets the priority `p`. -/
structure Retuned [DecidableEq T] (k k' : Kernel T O) (t : T) (p : Nat) : Prop where
  rank : k'.rank = update k.rank t p
  stat : ∀ u, (k'.tcb u).stat = (k.tcb u).stat
  list : ∀ o, k'.queue (.wait o) = k.queue (.wait o)

inductive Local [DecidableEq O] (flag : O → IpcFlag) (k k' : Kernel T O) : Prop where
  | wakes (h : Wakes k k')
  | parks (t : T) (o : O) (h : Parks (flag o) k k' t o)

inductive Quiet [DecidableEq O] (flag : O → IpcFlag) (k k' : Kernel T O) : Prop where
  | shrinks (h : Shrinks k k')
  | parks (t : T) (o : O) (h : Parks (flag o) k k' t o)

/-! ## These compose -/

variable {k k₁ k' : Kernel T O} {t : T} {o : O} {flag : IpcFlag}

section

lemma Waiting.congr (hw : Waiting k) (hs : ∀ u, (k'.tcb u).stat = (k.tcb u).stat)
    (hl : ∀ o, k'.queue (.wait o) = k.queue (.wait o)) : Waiting k' where
  suspended {o u} hu := by
    rw [hl] at hu
    rw [hs]
    exact hw.suspended hu
  unique {o o' u} hu hu' := by
    rw [hl] at hu hu'
    exact hw.unique hu hu'

lemma Agrees.waiting (h : Agrees k k') (hw : Waiting k) : Waiting k' := hw.congr h.stat h.list

lemma Agrees.wakes (h : Agrees k k') (hw : Waiting k) : Wakes k k' where
  rank u _ := congrFun h.rank u
  list o := by
    rw [h.list]
  stat u hu := (h.stat u) ▸ hu
  stays hu := (h.waiting hw).suspended hu
  woken u hu := .inl ((h.stat u).trans hu)

lemma Agrees.refl (k : Kernel T O) : Agrees k k := ⟨rfl, fun _ => rfl, fun _ => rfl⟩

lemma Shrinks.trans (h : Shrinks k k₁) (h' : Shrinks k₁ k') : Shrinks k k' where
  rank u hu := (h'.rank u hu).trans (h.rank u (h'.stat u hu))
  list o := (h'.list o).trans (h.list o)
  stat u hu := h.stat u (h'.stat u hu)
  stays := h'.stays

lemma Wakes.trans (h : Wakes k k₁) (h' : Wakes k₁ k') : Wakes k k' where
  toShrinks := h.toShrinks.trans h'.toShrinks
  woken u hu := by
    rcases h.woken u hu with hs | hq
    · rcases h'.woken u hs with hs' | ⟨o, hq⟩
      · exact .inl hs'
      exact .inr ⟨o, (h.list o).subset hq⟩
    exact .inr hq

lemma Shrinks.waiting (h : Shrinks k k') (hw : Waiting k) : Waiting k' :=
  ⟨h.stays, fun hu hu' => hw.unique ((h.list _).subset hu) ((h.list _).subset hu')⟩

lemma insertWaiter_congr (h : k₁.rank = k.rank) (flag : IpcFlag) (t : T) (l : List T) :
    k₁.insertWaiter flag t l = k.insertWaiter flag t l := by
  have hrank : ∀ u, (k₁.tcb u).currentPriority = (k.tcb u).currentPriority := congrFun h
  simp only [Kernel.insertWaiter, hrank]

variable [DecidableEq O]

lemma Agrees.parks (h : Agrees k k₁) (h' : Parks flag k₁ k' t o) : Parks flag k k' t o where
  ready := (h.stat t) ▸ h'.ready
  rank := h'.rank.trans h.rank
  list o' := by rw [h'.list, h.list, h.list, insertWaiter_congr h.rank]
  stat u := by rw [h'.stat, h.stat]

lemma Parks.mem (h : Parks flag k k' t o) {o' : O} {u : T} :
    u ∈ k'.queue (.wait o') ↔ u ∈ k.queue (.wait o') ∨ o' = o ∧ u = t := by
  rw [h.list]
  by_cases he : o' = o
  · subst he
    rw [if_pos rfl, (Kernel.insertWaiter_perm k flag t _).mem_iff, List.mem_cons]
    tauto
  simp [he]

lemma Parks.waiting (h : Parks flag k k' t o) (hw : Waiting k) : Waiting k' where
  suspended {o' u} hu := by
    rw [h.stat]
    rcases h.mem.mp hu with hu | ⟨-, hu⟩
    · exact .inr (hw.suspended hu)
    exact .inl hu
  unique {o1 o2 u} h1 h2 := by
    have hnot : ∀ o', t ∉ k.queue (.wait o') := fun o' ht => h.ready (hw.suspended ht)
    rcases h.mem.mp h1 with h1 | ⟨rfl, rfl⟩
    · rcases h.mem.mp h2 with h2 | ⟨-, rfl⟩
      · exact hw.unique h1 h2
      exact absurd h1 (hnot o1)
    rcases h.mem.mp h2 with h2 | ⟨rfl, -⟩
    · exact absurd h2 (hnot o2)
    rfl

end

section

variable [DecidableEq T] {p : Nat}

lemma Agrees.retuned (h : Agrees k k₁) (h' : Retuned k₁ k' t p) : Retuned k k' t p where
  rank := by rw [h'.rank, h.rank]
  stat u := (h'.stat u).trans (h.stat u)
  list o := (h'.list o).trans (h.list o)

lemma Retuned.waiting (h : Retuned k k' t p) (hw : Waiting k) : Waiting k' := hw.congr h.stat h.list

lemma Retuned.wakes (h : Retuned k k' t p) (hw : Waiting k) (ht : (k.tcb t).stat ≠ .suspend) :
    Wakes k k' where
  rank u hu := by
    have hne : u ≠ t := by
      rintro rfl
      exact ht ((h.stat u) ▸ hu)
    rw [h.rank, update_of_ne hne]
  list o := by rw [h.list]
  stat u hu := (h.stat u) ▸ hu
  stays hu := (h.waiting hw).suspended hu
  woken u hu := .inl ((h.stat u).trans hu)

end

/-! ## The functions of `ipc.c` do no more -/

section

open Kernel

lemma Waiting.notMem (hw : Waiting k) (ht : (k.tcb t).stat ≠ .suspend) (o : O) :
    t ∉ k.queue (.wait o) := fun hm => ht (hw.suspended hm)

variable [DecidableEq T]

lemma agrees_setTcb (k : Kernel T O) (t : T) {c : Tcb}
    (hrank : c.currentPriority = (k.tcb t).currentPriority) (hstat : c.stat = (k.tcb t).stat) :
    Agrees k (k.setTcb t c) :=
  ⟨funext fun u => update_keeps _ u hrank, fun u => update_keeps _ u hstat, fun _ => rfl⟩

lemma agrees_setError (k : Kernel T O) (t : T) (e : Int) : Agrees k (k.setError t e) :=
  agrees_setTcb k t rfl rfl

lemma agrees_rtTimerStart {n : Nat} (h : k.rtTimerStart t n = some k') : Agrees k k' := by
  unfold rtTimerStart at h
  split at h
  · cases h
    exact agrees_setTcb k t rfl rfl
  simp at h

variable [DecidableEq O]

lemma Waiting.parks_suspend (hw : Waiting k) (hs : (k.tcb t).stat = .ready) (o : O)
    (flag : IpcFlag) : Parks flag k (k.rtIpcListSuspend o t flag) t o := by
  have hnot : (k.tcb t).stat ≠ .suspend := by simp [hs]
  have hqueue : ∀ o', (k.rtThreadSuspend t).1.queue (.wait o') = k.queue (.wait o') := fun o' => by
    rw [rtThreadSuspend_queue hs]
    exact unlink_apply_of_notMem (hw.notMem hnot o')
  have hrank : (k.rtThreadSuspend t).1.rank = k.rank := by
    funext u
    rw [Kernel.rank, rtThreadSuspend_tcb hs]
    exact update_keeps Tcb.currentPriority u
  refine ⟨hnot, hrank, fun o' => ?_, fun u => ?_⟩
  · rw [rtIpcListSuspend, setQueue_queue]
    by_cases he : o' = o
    · rw [if_pos he, he, update_self, hqueue, insertWaiter_congr hrank]
    rw [if_neg he, update_of_ne (by simpa using he), hqueue]
  rw [rtIpcListSuspend, setQueue_tcb, rtThreadSuspend_tcb hs]
  by_cases hu : u = t
  · simp [hu]
  simp [hu]

lemma Waiting.parks_rtIpcWait (hw : Waiting k) (hs : (k.tcb t).stat = .ready)
    {time : Int} (hk : k.rtIpcWait o t flag time = some k') : Parks flag k k' t o := by
  have hpark := hw.parks_suspend hs o flag
  unfold rtIpcWait at hk
  split at hk
  · have hsame := agrees_rtTimerStart hk
    refine ⟨hpark.ready, hsame.rank.trans hpark.rank, fun o' => ?_, fun u => ?_⟩
    · rw [hsame.list, hpark.list]
    rw [hsame.stat, hpark.stat]
  cases hk
  exact hpark

lemma Waiting.shrinks_resume (hw : Waiting k) (hs : (k.tcb t).stat = .suspend) :
    Shrinks k (k.rtThreadResume t).1 := by
  have htcb := rtThreadResume_tcb hs
  have hwait := Blocked.resume_wait hs
  refine ⟨fun u _ => ?_, fun o => ?_, fun u hu => ?_, fun {o u} hu => ?_⟩
  · rw [Kernel.rank, htcb]
    exact update_keeps Tcb.currentPriority u
  · rw [hwait]
    exact List.filter_sublist
  · by_cases hut : u = t
    · exact hut ▸ hs
    simpa [htcb, hut] using hu
  rw [hwait] at hu
  obtain ⟨hmem, hut⟩ := mem_unlink.mp hu
  simpa [htcb, hut] using hw.suspended hmem

lemma Waiting.wakes_resume (hw : Waiting k) (ht : t ∈ k.queue (.wait o)) :
    Wakes k (k.rtIpcListResume t) := by
  have hs := hw.suspended ht
  refine ⟨hw.shrinks_resume hs, fun u hu => ?_⟩
  by_cases hut : u = t
  · exact .inr ⟨o, hut ▸ ht⟩
  left
  rw [rtIpcListResume, rtThreadResume_tcb hs]
  simpa [hut] using hu

lemma Waiting.wakes_resumeFirst (hw : Waiting k) (o : O) : Wakes k (k.resumeFirst o) := by
  unfold Kernel.resumeFirst
  split
  · rename_i t l hq
    exact hw.wakes_resume (o := o) (by simp [hq])
  exact (Agrees.refl k).wakes hw

lemma Waiting.wakes_resumeAllLoop (hw : Waiting k) (o : O) {fuel : Nat}
    (hk : k.resumeAllLoop o fuel = some k') : Wakes k k' := by
  induction fuel generalizing k with
  | zero => exact absurd hk (by simp [resumeAllLoop])
  | succ fuel ih =>
    rw [resumeAllLoop] at hk
    split at hk
    · obtain rfl := Option.some.inj hk
      exact (Agrees.refl k).wakes hw
    -- one turn, and then the rest of the loop
    rename_i t l hq
    have herr := agrees_setError k t (-rtError)
    have hw1 := herr.waiting hw
    have hturn : Wakes k (k.rtIpcListAbort t) :=
      (herr.wakes hw).trans (hw1.wakes_resume (o := o) (by simp [hq]))
    exact hturn.trans (ih (hturn.waiting hw) hk)

lemma Kernel.Stay.at_lists {caller : Option T} (h : Stay flag caller k k')
    (hw : Waiting k) (hs : ∀ t, caller = some t → (k.tcb t).stat = .ready) :
    Local (fun _ => flag) k k' := by
  cases h with
  | quiet h => exact .wakes (h ▸ (Agrees.refl k).wakes hw)
  | error t e h => exact .wakes (h ▸ (agrees_setError k t e).wakes hw)
  | wait t o time hc h =>
    have herr := agrees_setError k t rtEok
    have hready := (herr.stat t).trans (hs t hc)
    exact .parks t o (herr.parks ((herr.waiting hw).parks_rtIpcWait hready h))
  | resume o h => exact .wakes (h ▸ hw.wakes_resumeFirst o)
  | reset o h => exact .wakes (hw.wakes_resumeAllLoop o h)

lemma Waiting.shrinks_timeout (hw : Waiting k) (hk : k.rtThreadTimeout t = some k') :
    Shrinks k k' := by
  obtain ⟨hs, rfl⟩ := rtThreadTimeout_eq_some hk
  have hsame : Agrees k (k.setTcb t (k.tcb t).expired) := agrees_setTcb k t rfl rfl
  have hshrink := (hsame.waiting hw).shrinks_resume ((hsame.stat t).trans hs)
  exact (hsame.wakes hw).toShrinks.trans hshrink

lemma Waiting.retuned_control (hw : Waiting k) (t : T) (p : Nat) :
    Retuned k (k.rtThreadControl t p) t p := by
  have htcb := rtThreadControl_tcb k t p
  refine ⟨funext fun u => ?_, fun u => ?_, fun o => ?_⟩
  · rw [Kernel.rank, htcb]
    exact apply_update (fun _ => Tcb.currentPriority) k.tcb t _ u
  · rw [htcb]
    exact update_keeps Tcb.stat u
  exact Blocked.control_list p fun hs => hw.notMem (by simp [hs]) o

end

/-! ## In a part of a kernel -/

section

variable {k : Kernel T O} {k₁ k' : Kernel T O'} {w : Own O' O}

lemma Own.find_list (w : Own O' O) (o : O') : w.find (w.list o) = some o := w.find_eq_some.mpr rfl

lemma Own.list_injective (w : Own O' O) {o o' : O'} (h : w.list o = w.list o') : o = o' := by
  have hfind := w.find_list o
  rw [h, w.find_list] at hfind
  exact (Option.some.inj hfind).symm

@[simp] lemma withPart_tcb (k : Kernel T O) (w : Own O' O) (k' : Kernel T O') :
    (k.withPart w k').tcb = k'.tcb := rfl

lemma withPart_list (k : Kernel T O) (w : Own O' O) (k' : Kernel T O') (o : O') :
    (k.withPart w k').queue (.wait (w.list o)) = k'.queue (.wait o) := by
  simp only [Kernel.withPart, w.find_list]

lemma withPart_of_find (k : Kernel T O) (k' : Kernel T O') {o : O} (ho : w.find o = none) :
    (k.withPart w k').queue (.wait o) = k.queue (.wait o) := by
  simp only [Kernel.withPart, ho]

lemma Own.cases (w : Own O' O) (o : O) : (∃ o', o = w.list o') ∨ w.find o = none := by
  cases hfind : w.find o with
  | none => exact .inr rfl
  | some o' => exact .inl ⟨o', (w.find_eq_some.mp hfind).symm⟩

lemma part_withPart (k : Kernel T O) (w : Own O' O) (k' : Kernel T O') :
    (k.withPart w k').part w = k' := by
  have hqueue : ((k.withPart w k').part w).queue = k'.queue := by
    funext h
    cases h with
    | ready p => rfl
    | defunct => rfl
    | wait o => exact withPart_list k w k' o
  have hrest : (k.withPart w k').part w =
      { k' with queue := ((k.withPart w k').part w).queue } := rfl
  rw [hrest, hqueue]

lemma withPart_withPart (k : Kernel T O) (w : Own O' O) (k₁ k' : Kernel T O') :
    (k.withPart w k₁).withPart w k' = k.withPart w k' := by
  have hqueue : ((k.withPart w k₁).withPart w k').queue = (k.withPart w k').queue := by
    funext h
    cases h with
    | ready p => rfl
    | defunct => rfl
    | wait o =>
      simp only [Kernel.withPart]
      cases w.find o <;> rfl
  have hrest : (k.withPart w k₁).withPart w k' =
      { k.withPart w k' with queue := ((k.withPart w k₁).withPart w k').queue } := rfl
  rw [hrest, hqueue]

lemma Waiting.part (hw : Waiting k) (w : Own O' O) : Waiting (k.part w) :=
  ⟨fun hu => hw.suspended hu, fun hu hu' => w.list_injective (hw.unique hu hu')⟩

lemma Wakes.withPart (h : Wakes (k.part w) k') (hw : Waiting k) : Shrinks k (k.withPart w k') := by
  refine ⟨h.rank, fun o => ?_, h.stat, fun {o u} hu => ?_⟩
  · rcases w.cases o with ⟨o', rfl⟩ | ho
    · rw [withPart_list]
      exact h.list o'
    rw [withPart_of_find k k' ho]
  rcases w.cases o with ⟨o', rfl⟩ | ho
  · rw [withPart_list] at hu
    exact h.stays hu
  rw [withPart_of_find k k' ho] at hu
  rcases h.woken u (hw.suspended hu) with hs | ⟨o', hu'⟩
  · exact hs
  have hlist : o = w.list o' := hw.unique hu hu'
  rw [hlist, w.find_list] at ho
  simp at ho

lemma Parks.withPart [DecidableEq O] [DecidableEq O'] {flag : IpcFlag} {t : T} {o : O'}
    (h : Parks flag (k.part w) k' t o) : Parks flag k (k.withPart w k') t (w.list o) := by
  refine ⟨h.ready, h.rank, fun o' => ?_, h.stat⟩
  rcases w.cases o' with ⟨o1, rfl⟩ | ho
  · rw [withPart_list, h.list]
    by_cases he : o1 = o
    · subst he
      rw [if_pos rfl, if_pos rfl]
      rfl
    rw [if_neg he, if_neg fun hl => he (w.list_injective hl)]
    rfl
  have hne : o' ≠ w.list o := by
    rintro rfl
    rw [w.find_list] at ho
    simp at ho
  rw [withPart_of_find k k' ho, if_neg hne]

lemma Local.withPart [DecidableEq O] [DecidableEq O'] {flag : O → IpcFlag} {flag' : O' → IpcFlag}
    (hw : Waiting k) (h : Local flag' (k.part w) k') (hflag : ∀ o, flag' o = flag (w.list o)) :
    Quiet flag k (k.withPart w k') := by
  cases h with
  | wakes h => exact .shrinks (h.withPart hw)
  | parks t o h =>
    rw [hflag] at h
    exact .parks t (w.list o) h.withPart

lemma Retuned.withPart [DecidableEq T] {t : T} {p : Nat} (h : Retuned (k.part w) k' t p) :
    Retuned k (k.withPart w k') t p := by
  refine ⟨h.rank, h.stat, fun o => ?_⟩
  rcases w.cases o with ⟨o', rfl⟩ | ho
  · rw [withPart_list, h.list]
    rfl
  exact withPart_of_find k k' ho

end

end NbIot
