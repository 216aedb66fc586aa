import NbIot.Kernel.Thread

/-! # Reaping dead threads

A thread ends through `rt_thread_exit`, `rt_thread_detach` or `rt_thread_delete`, and what is left
to do for it (its cleanup function, its stack, its object) is done by the idle thread. It finds the
dead threads in the list `rt_thread_defunct`, where each was put at the front when it ended.
-/

namespace NbIot.Reap

open Queues Kernel List

/-! ## Threads that end -/

variable {T O : Type}

/-- The kernel, the threads in the object container, and the cleanup functions that have been
called, in order. -/
structure State (T O : Type) where
  kernel : Kernel T O
  registered : List T
  cleanups : List T

/-- The object of `t` is static. -/
def State.static (s : State T O) (t : T) : Bool := (s.kernel.tcb t).systemObject

/-- `t` has a cleanup function. -/
def State.cleanup (s : State T O) (t : T) : Bool := (s.kernel.tcb t).cleanup

def State.defunct (s : State T O) : List T := s.kernel.queue .defunct

inductive Ending (T : Type) where
  | exit (t : T)
  | detach (t : T)
  | delete (t : T)

def Ending.thread : Ending T → T
  | .exit t => t
  | .detach t => t
  | .delete t => t

/-- The ways in which a thread can end: `rt_thread_detach` is for static threads,
`rt_thread_delete` for dynamic ones. -/
def Ending.Proper (s : State T O) : Ending T → Prop
  | .exit _ => True
  | .detach t => s.static t
  | .delete t => ¬ s.static t

/-! ## The functions of `idle.c` -/

section

variable [DecidableEq T]

def rtObjectDetach (s : State T O) (t : T) : State T O :=
  { s with registered := s.registered.filter (· ≠ t) }

/-- `rt_object_delete`, which also frees the block of the object. -/
def rtObjectDelete (s : State T O) (t : T) : Option (State T O) :=
  if s.static t then none else some (rtObjectDetach s t)

/-- The loop of `rt_thread_idle_excute`, for `fuel` turns at most. -/
def idleLoop : Nat → State T O → Option (State T O)
  | 0, _ => none
  | fuel + 1, s =>
    match s.kernel.queue .defunct with
    | [] => some s
    | t :: _ =>
      let s' : State T O := { s with
          kernel := s.kernel.rtListRemove t
          cleanups := if s.cleanup t then s.cleanups ++ [t] else s.cleanups }
      -- a static thread ends the call and not only the turn
      if s.static t then some s' else (rtObjectDelete s' t).bind (idleLoop fuel)

/-- `rt_thread_idle_excute`: every turn takes a thread out of the list. -/
def rtThreadIdleExcute (s : State T O) : Option (State T O) :=
  idleLoop (s.kernel.queue .defunct).length.succ s

variable [DecidableEq O]

def finish (s : State T O) : Ending T → State T O
  | .exit t =>
    let s' := if s.static t ∧ ¬ s.cleanup t then rtObjectDetach s t else s
    { s' with kernel := s.kernel.rtThreadExit t }
  | .detach t => { rtObjectDetach s t with kernel := s.kernel.rtThreadDetach t }
  | .delete t => { s with kernel := s.kernel.rtThreadDelete t }

def finishAll (s : State T O) (es : List (Ending T)) : State T O := es.foldl finish s

end

/-! ## What an ending does -/

def Ending.queued (s : State T O) : Ending T → Bool
  | .exit t => ! s.static t || s.cleanup t
  | .detach t => s.cleanup t
  | .delete _ => true

def Ending.unregisters (s : State T O) : Ending T → Bool
  | .exit t => s.static t && ! s.cleanup t
  | .detach _ => true
  | .delete _ => false

section

variable [DecidableEq T] [DecidableEq O] (s : State T O) (e : Ending T)

lemma kernel_finish : (finish s e).kernel =
    if e.queued s then (s.kernel.closeThread e.thread).rtListInsertAfter .defunct e.thread
    else s.kernel.closeThread e.thread := by
  cases e with
  | exit t =>
    cases hs : s.static t <;> cases hc : s.cleanup t <;>
      simp only [State.static, State.cleanup] at hs hc <;>
      simp [finish, rtThreadExit, Ending.queued, Ending.thread, State.static, State.cleanup, hs, hc]
  | detach t => rfl
  | delete t => rfl

lemma kind_finish (t : T) :
    (finish s e).static t = s.static t ∧ (finish s e).cleanup t = s.cleanup t := by
  have hclose : ((s.kernel.closeThread e.thread).tcb t).systemObject = s.static t ∧
      ((s.kernel.closeThread e.thread).tcb t).cleanup = s.cleanup t := by
    by_cases h : t = e.thread
    · subst h; simp [State.static, State.cleanup]
    simp [State.static, State.cleanup, h]
  rw [State.static, State.cleanup, kernel_finish]
  split
  · exact hclose
  exact hclose

lemma static_finish (t : T) : (finish s e).static t = s.static t := (kind_finish s e t).1

lemma cleanup_finish (t : T) : (finish s e).cleanup t = s.cleanup t := (kind_finish s e t).2

lemma queued_finish (e' : Ending T) : e'.queued (finish s e) = e'.queued s := by
  cases e' <;> simp [Ending.queued, static_finish, cleanup_finish]

lemma unregisters_finish (e' : Ending T) : e'.unregisters (finish s e) = e'.unregisters s := by
  cases e' <;> simp [Ending.unregisters, static_finish, cleanup_finish]

lemma cleanups_finish : (finish s e).cleanups = s.cleanups := by
  cases e with
  | exit t => simp only [finish]; split <;> rfl
  | detach t => rfl
  | delete t => rfl

lemma mem_registered_finish {t : T} : t ∈ (finish s e).registered ↔
      t ∈ s.registered ∧ ¬ (e.unregisters s = true ∧ e.thread = t) := by
  have hdetach : ∀ u, t ∈ (rtObjectDetach s u).registered ↔ t ∈ s.registered ∧ ¬ u = t := by
    simp [rtObjectDetach, ne_comm]
  cases e with
  | exit u =>
    simp only [finish, Ending.unregisters, Ending.thread]
    by_cases h : s.static u = true ∧ ¬ s.cleanup u = true
    · rw [if_pos h, hdetach]
      simp [h.1, h.2]
    have hn : ¬ (s.static u = true ∧ s.cleanup u = false) := by simpa using h
    simp [hn]
  | detach u => simpa [finish, Ending.unregisters, Ending.thread] using hdetach u
  | delete u => simp [finish, Ending.unregisters]

lemma defunct_finish (h : e.thread ∉ s.defunct) :
    (finish s e).defunct = if e.queued s then e.thread :: s.defunct else s.defunct := by
  have hclose : (s.kernel.closeThread e.thread).queue .defunct = s.defunct := by
    rw [closeThread_queue]
    exact unlink_apply_of_notMem h
  rw [State.defunct, kernel_finish]
  split
  · simp only [rtListInsertAfter, setQueue_queue, Function.update_self, hclose]
  exact hclose

end

/-! ## Any number of them -/

def queuedEndings (s : State T O) (es : List (Ending T)) : List (Ending T) :=
  es.filter (·.queued s)

structure Finished (s : State T O) (es : List (Ending T)) (s' : State T O) : Prop where
  static : ∀ t, s'.static t = s.static t
  cleanup : ∀ t, s'.cleanup t = s.cleanup t
  cleanups : s'.cleanups = s.cleanups
  registered : ∀ t, t ∈ s'.registered ↔ t ∈ s.registered ∧ ∀ e ∈ es, e.unregisters s → e.thread ≠ t
  defunct : s'.defunct = ((queuedEndings s es).map Ending.thread).reverse ++ s.defunct

lemma finished_finishAll [DecidableEq T] [DecidableEq O] (s : State T O) (es : List (Ending T))
    (hnd : (es.map Ending.thread).Nodup) (hnew : ∀ e ∈ es, e.thread ∉ s.defunct) :
    Finished s es (finishAll s es) := by
  induction es generalizing s with
  | nil => exact ⟨fun _ => rfl, fun _ => rfl, rfl, fun t => by simp [finishAll], rfl⟩
  | cons e es ih =>
    obtain ⟨he, hnd'⟩ := nodup_cons.mp hnd
    have hdef := defunct_finish s e (hnew e mem_cons_self)
    have hnew' : ∀ e' ∈ es, e'.thread ∉ (finish s e).defunct := by
      intro e' he' hmem
      rw [hdef] at hmem
      have hne : e'.thread ≠ e.thread := fun h => he (h ▸ List.mem_map_of_mem he')
      split at hmem
      · rcases mem_cons.mp hmem with h | h
        · exact hne h
        exact hnew e' (mem_cons_of_mem e he') h
      exact hnew e' (mem_cons_of_mem e he') hmem
    have h := ih (finish s e) hnd' hnew'
    refine ⟨fun t => ?_, fun t => ?_, ?_, fun t => ?_, ?_⟩
    · exact (h.static t).trans (static_finish s e t)
    · exact (h.cleanup t).trans (cleanup_finish s e t)
    · exact h.cleanups.trans (cleanups_finish s e)
    · refine (h.registered t).trans ?_
      rw [mem_registered_finish, forall_mem_cons]
      simp only [unregisters_finish, not_and, and_assoc]
    have hq : queuedEndings (finish s e) es = queuedEndings s es := by
      simp only [queuedEndings, queued_finish]
    calc (finishAll s (e :: es)).defunct
        = ((queuedEndings s es).map Ending.thread).reverse ++ (finish s e).defunct := by
          rw [← hq]; exact h.defunct
      _ = ((queuedEndings s (e :: es)).map Ending.thread).reverse ++ s.defunct := by
          rw [hdef]
          by_cases hqe : e.queued s = true
          · simp [queuedEndings, hqe]
          simp [queuedEndings, hqe]

/-! ## The loop of the idle thread -/

/-- The dead threads that the loop looks at: those in front of the first static one, and that
one. -/
def visited (s : State T O) : List T → List T
  | [] => []
  | t :: l => if s.static t then [t] else t :: visited s l

lemma visited_initial (s : State T O) (l : List T) : visited s l <+: l := by
  induction l with
  | nil => exact nil_prefix
  | cons t l ih =>
    simp only [visited]
    split
    · exact cons_prefix_cons.mpr ⟨rfl, nil_prefix⟩
    exact cons_prefix_cons.mpr ⟨rfl, ih⟩

lemma visited_eq_self_iff (s : State T O) (l : List T) :
    visited s l = l ↔ ∀ t ∈ l.dropLast, s.static t = false := by
  induction l with
  | nil => simp [visited]
  | cons t l ih =>
    cases l with
    | nil => simp [visited]
    | cons u l =>
      rw [visited, dropLast_cons_of_ne_nil (by simp), forall_mem_cons]
      by_cases hst : s.static t = true
      · simp [hst]
      rw [if_neg hst]
      constructor
      · intro h
        exact ⟨by simpa using hst, ih.mp (List.cons.inj h).2⟩
      intro h
      rw [ih.mpr h.2]

/-- What the loop leaves behind, with `l` the list of dead threads. -/
structure Looped (s : State T O) (l : List T) (s' : State T O) : Prop where
  defunct : s'.defunct = l.drop (visited s l).length
  cleanups : s'.cleanups = s.cleanups ++ (visited s l).filter (s.cleanup ·)
  registered : ∀ t, t ∈ s'.registered ↔ t ∈ s.registered ∧ ¬ (t ∈ visited s l ∧ s.static t = false)

/-- **The loop.** It ends, and has looked at the visited threads, once each. -/
theorem looped_idleLoop [DecidableEq T] (s : State T O) (l : List T) (fuel : Nat)
    (hl : s.defunct = l) (hnd : l.Nodup) (hfuel : l.length < fuel) :
    ∃ s', idleLoop fuel s = some s' ∧ Looped s l s' := by
  induction l generalizing s fuel with
  | nil =>
    obtain ⟨n, rfl⟩ : ∃ n, fuel = n + 1 := ⟨fuel - 1, by simp at hfuel; omega⟩
    have hstep : idleLoop (n + 1) s = some s := by
      rw [idleLoop, show s.kernel.queue .defunct = [] from hl]
    exact ⟨s, hstep, hl, by simp [visited], fun t => by simp [visited]⟩
  | cons t l ih =>
    obtain ⟨n, rfl⟩ : ∃ n, fuel = n + 1 := ⟨fuel - 1, by simp at hfuel; omega⟩
    have hq : s.kernel.queue .defunct = t :: l := hl
    set s1 : State T O := { s with
        kernel := s.kernel.rtListRemove t
        cleanups := if s.cleanup t then s.cleanups ++ [t] else s.cleanups } with hs1
    have hdef1 : s1.defunct = l := unlink_apply_of_cons hq (hq ▸ hnd)
    have hcl1 : s1.cleanups = s.cleanups ++ [t].filter (s.cleanup ·) := by
      by_cases hc : s.cleanup t = true <;> simp [hs1, hc]
    by_cases hst : s.static t = true
    · -- a static thread: the call returns
      have hstep : idleLoop (n + 1) s = some s1 := by
        rw [idleLoop, hq]
        simp only [hst, if_true, hs1]
      refine ⟨s1, hstep, ?_, ?_, fun u => ?_⟩
      · simpa [visited, hst] using hdef1
      · simpa [visited, hst] using hcl1
      have hnot : ¬ (u = t ∧ s.static u = false) := by
        rintro ⟨rfl, hu⟩
        simp [hst] at hu
      simp [visited, hst, hnot, hs1]
    -- a dynamic thread: its object is deleted, and the loop goes on
    have hst' : s.static t = false := by simpa using hst
    have hstep : idleLoop (n + 1) s = idleLoop n (rtObjectDetach s1 t) := by
      have hdel : rtObjectDelete s1 t = some (rtObjectDetach s1 t) := if_neg hst
      rw [idleLoop, hq]
      simp only [hst', Bool.false_eq_true, if_false, ← hs1, hdel, Option.bind_some]
    obtain ⟨s', hrun, hloop⟩ := ih (rtObjectDetach s1 t) n hdef1
      (nodup_cons.mp hnd).2 (by simpa using hfuel)
    have hvis : visited (rtObjectDetach s1 t) l = visited s l := by
      clear ih hl hnd hfuel hq hdef1 hloop
      induction l with
      | nil => rfl
      | cons u l ih => rw [visited, ih]; rfl
    refine ⟨s', hstep.trans hrun, ?_, ?_, fun u => ?_⟩
    · rw [hloop.defunct, hvis, visited, if_neg hst, length_cons, drop_succ_cons]
    · calc s'.cleanups
          = s1.cleanups ++ (visited s l).filter (s.cleanup ·) := by
            rw [hloop.cleanups, hvis]; rfl
        _ = s.cleanups ++ ([t].filter (s.cleanup ·) ++ (visited s l).filter (s.cleanup ·)) := by
            rw [hcl1, append_assoc]
        _ = s.cleanups ++ (visited s (t :: l)).filter (s.cleanup ·) := by
            rw [← filter_append, visited, if_neg hst]; rfl
    rw [hloop.registered, hvis, visited, if_neg hst]
    simp only [rtObjectDetach, mem_filter, mem_cons, decide_eq_true_eq]
    constructor
    · rintro ⟨⟨hu, hne⟩, hnot⟩
      exact ⟨hu, fun h => h.1.elim hne fun hv => hnot ⟨hv, h.2⟩⟩
    rintro ⟨hu, hnot⟩
    refine ⟨⟨hu, fun h => hnot ⟨.inl h, h ▸ hst'⟩⟩, fun h => hnot ⟨.inr h.1, h.2⟩⟩

/-! ## What is left of them -/

/-- The threads about to end are registered and different from each other, each ends in a proper
way, and no dead thread is left from before. -/
structure Live (s : State T O) (es : List (Ending T)) : Prop where
  nodup : (es.map Ending.thread).Nodup
  registered : ∀ e ∈ es, e.thread ∈ s.registered
  proper : ∀ e ∈ es, e.Proper s
  defunct : s.defunct = []
  cleanups : s.cleanups = []

/-- Everything is done for the threads `es` that ended, with `s` the state after they did: the
cleanup functions of the queued ones were called once, the list is empty, and none of them is
registered. -/
structure Reaped (s : State T O) (es : List (Ending T)) (s' : State T O) [DecidableEq T] :
    Prop where
  cleanups : ∀ t ∈ s.defunct, s.cleanup t → s'.cleanups.count t = 1
  defunct : s'.defunct = []
  registered : ∀ e ∈ es, e.thread ∉ s'.registered

/-- Only the first thread that was queued may be static, and no static thread with a cleanup
function ended through `rt_thread_exit`. -/
def Orderly (s : State T O) (es : List (Ending T)) : Prop :=
  (∀ e ∈ (queuedEndings s es).tail, s.static e.thread = false) ∧
    ∀ t, Ending.exit t ∈ es → s.cleanup t → s.static t = false

section

variable [DecidableEq T] [DecidableEq O] {s : State T O} {es : List (Ending T)}

lemma Live.finished (h : Live s es) : Finished s es (finishAll s es) :=
  finished_finishAll s es h.nodup fun e _ => by rw [h.defunct]; exact not_mem_nil

lemma Live.defunct_finishAll (h : Live s es) :
    (finishAll s es).defunct = ((queuedEndings s es).map Ending.thread).reverse := by
  rw [h.finished.defunct, h.defunct, append_nil]

lemma Live.nodup_defunct (h : Live s es) : (finishAll s es).defunct.Nodup := by
  rw [h.defunct_finishAll, nodup_reverse]
  exact h.nodup.sublist (filter_sublist.map Ending.thread)

lemma Live.visited_iff (h : Live s es) :
    visited (finishAll s es) (finishAll s es).defunct = (finishAll s es).defunct ↔
      ∀ e ∈ (queuedEndings s es).tail, s.static e.thread = false := by
  rw [visited_eq_self_iff, h.defunct_finishAll, dropLast_reverse, ← map_tail]
  simp only [mem_reverse, List.mem_map, forall_exists_index, and_imp,
    forall_apply_eq_imp_iff₂, h.finished.static]

omit [DecidableEq T] [DecidableEq O] in
lemma Live.eq_of_thread_eq (h : Live s es) {e e' : Ending T} (he : e ∈ es) (he' : e' ∈ es)
    (ht : e.thread = e'.thread) : e = e' :=
  inj_on_of_nodup_map h.nodup he he' ht

lemma Live.mem_registered_iff (h : Live s es) {s' : State T O} {e : Ending T} (he : e ∈ es)
    (hreg : ∀ t, t ∈ s'.registered ↔ t ∈ (finishAll s es).registered ∧
      ¬ (t ∈ (finishAll s es).defunct ∧ (finishAll s es).static t = false)) :
    e.thread ∈ s'.registered ↔ e.unregisters s = false ∧ s.static e.thread = true := by
  rw [hreg, h.finished.registered, h.finished.static, h.defunct_finishAll]
  simp only [mem_reverse, List.mem_map, not_and, Bool.not_eq_false]
  constructor
  · rintro ⟨⟨_, hnot⟩, hst⟩
    have hun : e.unregisters s = false := by
      by_contra hu
      exact hnot e he (by simpa using hu) rfl
    refine ⟨hun, ?_⟩
    by_contra hdyn
    -- a dynamic thread that was left registered is queued
    have hq : e.queued s = true := by
      cases e with
      | exit t => simp only [Ending.thread] at hdyn; simp [Ending.queued, hdyn]
      | detach t => simp [Ending.unregisters] at hun
      | delete t => rfl
    exact hdyn (hst ⟨e, mem_filter.mpr ⟨he, hq⟩, rfl⟩)
  rintro ⟨hun, hst⟩
  refine ⟨⟨h.registered e he, ?_⟩, fun _ => hst⟩
  intro e' he' hun' ht
  rw [h.eq_of_thread_eq he' he ht, hun] at hun'
  exact absurd hun' (by simp)

omit [DecidableEq T] [DecidableEq O] in
lemma Live.unregisters_iff (h : Live s es) :
    (∀ e ∈ es, ¬ (e.unregisters s = false ∧ s.static e.thread = true)) ↔
      ∀ t, Ending.exit t ∈ es → s.cleanup t → s.static t = false := by
  constructor
  · intro hall t ht hc
    by_contra hst
    exact hall _ ht ⟨by simp [Ending.unregisters, hc], by simpa [Ending.thread] using hst⟩
  rintro hall e he ⟨hun, hst⟩
  cases e with
  | exit t =>
    have hc : s.cleanup t = true := by
      have hst' : s.static t = true := hst
      simpa [Ending.unregisters, hst'] using hun
    exact absurd (hall t he hc) (by simpa [Ending.thread] using hst)
  | detach t => simp [Ending.unregisters] at hun
  | delete t => exact h.proper _ he hst

/-- **Dead threads are reaped** by one call of `rt_thread_idle_excute`, whatever list of threads
has ended, if and only if the list is orderly. -/
theorem reaped_iff (s : State T O) (es : List (Ending T)) (h : Live s es) :
    (∃ s', rtThreadIdleExcute (finishAll s es) = some s' ∧ Reaped (finishAll s es) es s') ↔
      Orderly s es := by
  obtain ⟨s', hrun, hloop⟩ := looped_idleLoop (finishAll s es) (finishAll s es).defunct
    (finishAll s es).defunct.length.succ rfl h.nodup_defunct (Nat.lt_succ_self _)
  have hpre := visited_initial (finishAll s es) (finishAll s es).defunct
  have hall : s'.defunct = [] ↔
      visited (finishAll s es) (finishAll s es).defunct = (finishAll s es).defunct := by
    rw [hloop.defunct, drop_eq_nil_iff]
    exact ⟨fun hle => hpre.eq_of_length (le_antisymm hpre.length_le hle), fun he => by rw [he]⟩
  constructor
  · rintro ⟨u, hu, hreaped⟩
    obtain rfl : s' = u := Option.some.inj (hrun.symm.trans hu)
    have hvis := hall.mp hreaped.defunct
    refine ⟨h.visited_iff.mp hvis, h.unregisters_iff.mp fun e he hbad => ?_⟩
    have hreg := hloop.registered
    rw [hvis] at hreg
    exact hreaped.registered e he ((h.mem_registered_iff he hreg).mpr hbad)
  rintro ⟨htail, hexit⟩
  have hvis := h.visited_iff.mpr htail
  have hreg := hloop.registered
  rw [hvis] at hreg
  refine ⟨s', hrun, fun t ht hc => ?_, hall.mpr hvis, fun e he hmem => ?_⟩
  · rw [hloop.cleanups, hvis, h.finished.cleanups, h.cleanups, nil_append, count_filter hc]
    exact count_eq_one_of_mem h.nodup_defunct ht
  exact h.unregisters_iff.mpr hexit e he ((h.mem_registered_iff he hreg).mp hmem)

end

/-- Two ready threads with cleanup functions; `kind t` tells whether thread `t` is static. -/
def twoThreads (kind : Fin 2 → Bool) : State (Fin 2) Empty where
  kernel := { (Kernel.ready fun _ => 5 : Kernel (Fin 2) Empty) with
      tcb := fun t => { readyTcb 5 with cleanup := true, systemObject := kind t } }
  registered := [0, 1]
  cleanups := []

theorem reaped_iff_detach_exit : Live (twoThreads fun t => t == 0) [.detach 0, .exit 1] ∧
      ∃ s', rtThreadIdleExcute (finishAll (twoThreads fun t => t == 0) [.detach 0, .exit 1])
          = some s' ∧
        Reaped (finishAll (twoThreads fun t => t == 0) [.detach 0, .exit 1])
          [.detach 0, .exit 1] s' := by
  have hlive : Live (twoThreads fun t => t == 0) [.detach 0, .exit 1] := by
    refine ⟨by decide, by decide, ?_, rfl, rfl⟩
    intro e he
    rcases mem_pair.mp he with rfl | rfl
    · rfl
    trivial
  refine ⟨hlive, (reaped_iff _ _ hlive).mpr ⟨?_, ?_⟩⟩
  · intro e he
    obtain rfl : e = .exit 1 := mem_singleton.mp he
    rfl
  intro t ht _
  rcases mem_pair.mp ht with h | h
  · simp at h
  obtain rfl : t = 1 := Ending.exit.inj h
  rfl

/-- Two static threads with cleanup functions are detached, and one call reaps the second only: the
first is still in the list, and its cleanup function has not been called. -/
theorem secondStatic_leaves_first :
    ((rtThreadIdleExcute (finishAll (twoThreads fun _ => true) [.detach 0, .detach 1])).map
        fun s' => (s'.defunct, s'.cleanups, s'.registered)) = some ([0], [1], []) ∧
      ((rtThreadIdleExcute (finishAll (twoThreads fun _ => true) [.exit 0])).map
        fun s' => (s'.defunct, s'.cleanups, s'.registered)) = some ([], [0], [0, 1]) := by
  decide +kernel

end NbIot.Reap
