import NbIot.Basic.Ring
import NbIot.Kernel.Thread

/-! # The lists of the kernel as they stand in memory

In `NbIot.Kernel.Thread` a list of threads is a list. In memory it is a ring of `rt_list` nodes:
one in every thread, one for every list head. Here are the nodes and the functions that write
them, and `Represents` ties them to the lists: as long as every function runs to its end without
being interrupted, the rings are those lists (`represents_rtThreadResume`).
-/

namespace NbIot

open Queues Function List

/-! ## The rings in memory -/

/-- A `rt_list` node: that of a list head, or `tlist` of a thread. -/
inductive Node (T O : Type) where
  | head (h : Head O)
  | thread (t : T)
  deriving DecidableEq

/-- The part of the kernel state that `rt_thread_resume` works on. -/
structure Nodes (T O : Type) where
  links : Links (Node T O)
  tcb : T → Tcb
  readyPriorityGroup : BitVec 32

namespace Nodes

variable {T O : Type} [DecidableEq T] [DecidableEq O]

def rtListRemove (s : Nodes T O) (t : T) : Nodes T O :=
  { s with links := s.links.remove (.thread t) }

def rtListInsertBefore (s : Nodes T O) (h : Head O) (t : T) : Nodes T O :=
  { s with links := s.links.insertBefore (.head h) (.thread t) }

def rtTimerStop (s : Nodes T O) (t : T) : Nodes T O :=
  { s with tcb := update s.tcb t { s.tcb t with timer := (s.tcb t).timer.stop } }

def rtScheduleInsertThread (s : Nodes T O) (t : T) : Nodes T O :=
  { links := s.links.insertBefore (.head (.ready (s.tcb t).currentPriority)) (.thread t)
    tcb := update s.tcb t { s.tcb t with stat := .ready }
    readyPriorityGroup := s.readyPriorityGroup ||| (s.tcb t).numberMask }

/-- `rt_thread_resume`, from the first instruction to the last. -/
def rtThreadResume (s : Nodes T O) (t : T) : Nodes T O × Int :=
  if (s.tcb t).stat ≠ .suspend then (s, -rtError)
  else (((s.rtListRemove t).rtTimerStop t).rtScheduleInsertThread t, rtEok)

/-! ## Rings that represent the lists -/

/-! ## The primitives refine those on lists -/

omit [DecidableEq T] [DecidableEq O] in
/-- Every list of `k` is a ring of nodes, and the node of a thread that is in no list is linked to
itself. -/
structure Represents (s : Nodes T O) (k : Kernel T O) : Prop where
  tcb : s.tcb = k.tcb
  group : s.readyPriorityGroup = k.readyPriorityGroup
  separate : Separate k.queue
  ring : ∀ h, Ring s.links.next s.links.prev (.head h) ((k.queue h).map .thread)
  loose : ∀ t, Unlinked k.queue t →
    s.links.next (.thread t) = .thread t ∧ s.links.prev (.thread t) = .thread t

omit [DecidableEq T] [DecidableEq O] in
lemma Represents.disjoint {s : Nodes T O} {k : Kernel T O} (hr : s.Represents k) {h h' : Head O}
    (hne : h ≠ h') {n : Node T O} (hn : n ∈ Node.head h :: (k.queue h).map .thread) :
    n ∉ Node.head h' :: (k.queue h').map .thread := by
  intro hn'
  cases n with
  | head g =>
    obtain rfl : g = h := by simpa using hn
    obtain rfl : g = h' := by simpa using hn'
    exact hne rfl
  | thread t =>
    have ht : t ∈ k.queue h := by simpa using hn
    have ht' : t ∈ k.queue h' := by simpa using hn'
    exact hne (hr.separate.eq_of_mem ht ht')

variable {s : Nodes T O} {k : Kernel T O} {t : T}

lemma represents_rtListRemove (hr : s.Represents k) (t : T) :
    (s.rtListRemove t).Represents (k.rtListRemove t) := by
  by_cases hlinked : ∃ g, t ∈ k.queue g
  · obtain ⟨g, hg⟩ := hlinked
    obtain ⟨as, bs, hsplit⟩ := append_of_mem hg
    have hnd : (as ++ t :: bs).Nodup := hsplit ▸ hr.separate.nodup g
    have hring : Ring s.links.next s.links.prev (Node.head g)
        (as.map .thread ++ .thread t :: bs.map .thread) := by
      simpa [hsplit] using hr.ring g
    obtain ⟨hmemP, hmemN⟩ := (hr.ring g).neighbours_mem (List.mem_map_of_mem hg)
    refine ⟨hr.tcb, hr.group, hr.separate.unlink t, fun h => ?_, fun u hu => ?_⟩
    · by_cases hh : h = g
      · subst hh
        have hq : unlink k.queue t h = as ++ bs := by
          have hnot : t ∉ as ++ bs := (nodup_cons.mp (perm_middle.nodup_iff.mp hnd)).1
          rw [unlink, hsplit, filter_append, filter_cons_of_neg (by simp), ← filter_append]
          exact filter_eq_self.mpr fun a ha => by simp [ne_of_mem_of_not_mem ha hnot]
        show Ring _ _ (Node.head h) ((unlink k.queue t h).map Node.thread)
        rw [hq, map_append]
        exact Links.ring_remove hring
      have hq : unlink k.queue t h = k.queue h :=
        unlink_apply_of_notMem fun ht => hh (hr.separate.eq_of_mem ht hg)
      show Ring _ _ (Node.head h) ((unlink k.queue t h).map Node.thread)
      rw [hq]
      have hself : Node.thread t ∈ Node.head g :: (k.queue g).map .thread := by simp [hg]
      exact Links.ring_remove_of_notMem (hr.ring h) (hr.disjoint (Ne.symm hh) hself)
        (hr.disjoint (Ne.symm hh) hmemN) (hr.disjoint (Ne.symm hh) hmemP)
    -- a loose node is `t` itself, or was loose before and is not a neighbour of `t`
    by_cases hut : u = t
    · subst hut
      exact ⟨by simp [rtListRemove, Links.remove_next], by simp [rtListRemove, Links.remove_prev]⟩
    have hu' : Unlinked k.queue u := fun h hmem => hu h (mem_unlink.mpr ⟨hmem, hut⟩)
    obtain ⟨hn, hp⟩ := hr.loose u hu'
    have hne : ∀ n ∈ Node.head g :: (k.queue g).map .thread, Node.thread u ≠ n := by
      rintro n hn' rfl
      exact hu' g (by simpa using hn')
    have hself : (Node.thread u : Node T O) ≠ .thread t := fun e => hut (Node.thread.inj e)
    refine ⟨?_, ?_⟩
    · rw [rtListRemove, Links.remove_next, update_of_ne hself, update_of_ne (hne _ hmemP), hn]
    rw [rtListRemove, Links.remove_prev, update_of_ne hself, update_of_ne (hne _ hmemN), hp]
  have hun : Unlinked k.queue t := fun g hg => hlinked ⟨g, hg⟩
  obtain ⟨hn, hp⟩ := hr.loose t hun
  have hs : s.rtListRemove t = s := by rw [rtListRemove, Links.remove_loose s.links hn hp]
  have hk : k.rtListRemove t = k := by
    rw [Kernel.rtListRemove, unlink_of_unlinked hun]; rfl
  rwa [hs, hk]

lemma represents_rtListInsertBefore (hr : s.Represents k) (ht : Unlinked k.queue t)
    (g : Head O) : (s.rtListInsertBefore g t).Represents (k.rtListInsertBefore g t) := by
  have hthread : ∀ h, Node.thread t ∉ Node.head h :: (k.queue h).map .thread := by
    intro h hmem
    exact ht h (by simpa using hmem)
  have hmemP : s.links.prev (.head g) ∈ Node.head g :: (k.queue g).map .thread := by
    rw [(hr.ring g).prev_head]
    exact before_mem _ _
  refine ⟨hr.tcb, hr.group, ?_, fun h => ?_, fun u hu => ?_⟩
  · exact hr.separate.update ht (perm_append_singleton t _)
  · by_cases hh : h = g
    · subst hh
      have hq : (k.rtListInsertBefore h t).queue h = k.queue h ++ [t] := by
        simp [Kernel.rtListInsertBefore]
      rw [hq, map_append]
      exact Links.ring_insertBefore (hr.ring h) (hthread h)
    have hq : (k.rtListInsertBefore g t).queue h = k.queue h := by
      simp [Kernel.rtListInsertBefore, hh]
    rw [hq]
    exact Links.ring_insertBefore_of_notMem (hr.ring h) (hthread h)
      (hr.disjoint (Ne.symm hh) mem_cons_self) (hr.disjoint (Ne.symm hh) hmemP)
  have hut : u ≠ t := by
    rintro rfl
    exact hu g (by simp [Kernel.rtListInsertBefore])
  have hu' : Unlinked k.queue u := by
    intro h hmem
    refine hu h ((mem_update_perm (perm_append_singleton t _)).mpr (.inl hmem))
  obtain ⟨hn, hp⟩ := hr.loose u hu'
  have hself : (Node.thread u : Node T O) ≠ .thread t := fun e => hut (Node.thread.inj e)
  have hne : ∀ n ∈ Node.head g :: (k.queue g).map .thread, Node.thread u ≠ n := by
    rintro n hn' rfl
    exact hu' g (by simpa using hn')
  refine ⟨?_, ?_⟩
  · rw [rtListInsertBefore, Links.insertBefore_next, update_of_ne hself,
      update_of_ne (hne _ hmemP), hn]
  rw [rtListInsertBefore, Links.insertBefore_prev, update_of_ne (by simp), update_of_ne hself, hp]

omit [DecidableEq O] in
lemma represents_rtTimerStop (hr : s.Represents k) (t : T) :
    (s.rtTimerStop t).Represents (k.rtTimerStop t) := by
  refine ⟨?_, hr.group, hr.separate, hr.ring, hr.loose⟩
  simp only [rtTimerStop, hr.tcb, Kernel.rtTimerStop_tcb]

lemma represents_rtScheduleInsertThread (hr : s.Represents k) (ht : Unlinked k.queue t) :
    (s.rtScheduleInsertThread t).Represents (k.rtScheduleInsertThread t) := by
  have hins := represents_rtListInsertBefore hr ht (.ready (k.tcb t).currentPriority)
  refine ⟨?_, ?_, ?_, ?_, ?_⟩
  · simp only [rtScheduleInsertThread, hr.tcb, Kernel.rtScheduleInsertThread_tcb]
  · simp only [rtScheduleInsertThread, hr.tcb, hr.group]; rfl
  · simpa [Kernel.rtListInsertBefore] using hins.separate
  · simpa [Kernel.rtListInsertBefore, hr.tcb, rtListInsertBefore, rtScheduleInsertThread]
      using hins.ring
  simpa [Kernel.rtListInsertBefore, hr.tcb, rtListInsertBefore, rtScheduleInsertThread]
    using hins.loose

/-- **An uninterrupted resume** does to the rings what it is meant to do to the lists. -/
theorem represents_rtThreadResume (hr : s.Represents k) (t : T) :
    (s.rtThreadResume t).1.Represents (k.rtThreadResume t).1 ∧
      (s.rtThreadResume t).2 = (k.rtThreadResume t).2 := by
  rw [rtThreadResume, Kernel.rtThreadResume, hr.tcb]
  split
  · exact ⟨hr, rfl⟩
  refine ⟨represents_rtScheduleInsertThread (represents_rtTimerStop
    (represents_rtListRemove hr t) t) ?_, rfl⟩
  exact unlinked_unlink k.queue t

end Nodes

end NbIot
