import NbIot.Ipc.Mailbox

/-! # No lost wake-up on a mailbox

A thread that waits for a mail or for a free cell is resumed by the call that makes one, but what
it waits for is not reserved for it. So a mail may well be in the mailbox while a receiver waits:
what must not happen is that nobody is on the way to fetch it. `Awaited` says that for each mail
there is then a receiver that has been resumed and has not run yet, and for each free cell such a
sender.
-/

namespace NbIot.Mailboxes

open Queues Kernel Blocked Function

/-! ## Sides, and what they wait for -/

def Side.available (mb : Mailbox) : Side → Nat
  | .receivers => mb.entry
  | .senders => mb.size - mb.entry

structure InRange (mb : Mailbox) : Prop where
  le : mb.entry ≤ mb.size
  size : mb.size < 2 ^ 16

lemma Op.wakes_ne (op : Op) : op.wakes ≠ op.waitsIn := by
  cases op <;> simp [Op.wakes, Op.waitsIn]

lemma Op.side_cases (op : Op) (o : Side) : o = op.wakes ∨ o = op.waitsIn := by
  cases op <;> cases o <;> simp [Op.wakes, Op.waitsIn]

variable {mb : Mailbox} {op : Op}

lemma available_of_stuck (hstuck : op.Stuck mb) : op.waitsIn.available mb = 0 := by
  cases op with
  | send value => exact Nat.sub_eq_zero_of_le (le_of_eq hstuck.symm)
  | recv => exact hstuck

lemma available_transfer (h : InRange mb) (hfree : ¬ op.Stuck mb) :
    op.wakes.available (op.transfer mb) = op.wakes.available mb + 1 ∧
      op.waitsIn.available (op.transfer mb) + 1 = op.waitsIn.available mb := by
  have hle := h.le
  have hsize := h.size
  cases op with
  | send value =>
    have hne : mb.entry ≠ mb.size := hfree
    show (mb.entry + 1) % 2 ^ 16 = mb.entry + 1 ∧
      mb.size - (mb.entry + 1) % 2 ^ 16 + 1 = mb.size - mb.entry
    omega
  | recv =>
    have hne : mb.entry ≠ 0 := hfree
    show mb.size - (if mb.entry = 0 then 2 ^ 16 - 1 else mb.entry - 1) = mb.size - mb.entry + 1 ∧
      (if mb.entry = 0 then 2 ^ 16 - 1 else mb.entry - 1) + 1 = mb.entry
    rw [if_neg hne]
    omega

lemma inRange_transfer (h : InRange mb) (hfree : ¬ op.Stuck mb) : InRange (op.transfer mb) := by
  have hle := h.le
  have hsize := h.size
  have hentry := available_transfer h hfree
  cases op with
  | send value =>
    have hne : mb.entry ≠ mb.size := hfree
    simp only [Op.transfer, Op.wakes, Side.available] at hentry
    exact ⟨by rw [transfer_size]; show (mb.store value).entry ≤ _; omega, hsize⟩
  | recv =>
    simp only [Op.transfer, Op.waitsIn, Side.available] at hentry
    exact ⟨by rw [transfer_size]; show mb.fetch.entry ≤ _; omega, hsize⟩

/-! ## Nobody waits in vain -/

section

variable {T : Type} [Fintype T] {s s' : State T} {t : T}

/-- If threads wait on a side, then for each thing they wait for there is one on its way. -/
def Awaited (k : Kernel T Side) (pend : T → Option Side) (mb : Mailbox) : Prop :=
  ∀ o, k.queue (.wait o) ≠ [] → o.available mb ≤ (woken k pend o).card

structure Attended (s : State T) : Prop where
  inRange : InRange s.mb
  awaited : Awaited s.kernel (pend s.call) s.mb

lemma attended_start {size : Nat} (h : Start size s) : Attended s := by
  obtain ⟨msgPool, flag, hmb⟩ := h.mb
  refine ⟨?_, fun o hq => absurd (h.wait o) hq⟩
  rw [hmb]
  exact ⟨Nat.zero_le _, Nat.mod_lt _ (by decide)⟩

omit [Fintype T] in
lemma pend_ne_wakes (hop : ∀ f ∈ s.call t, f.op = op) :
    pend s.call t ≠ some op.wakes := by
  intro hp
  obtain ⟨f, hf, hside⟩ := Option.map_eq_some_iff.mp hp
  rw [hop f hf] at hside
  exact op.wakes_ne hside.symm

variable [DecidableEq T] {k : Kernel T Side}

lemma woken_finish_of_pend {pend : T → Option Side} {o : Side}
    (hp : pend t ≠ some o) : woken k (update pend t none) o = woken k pend o := by
  rw [woken_finish]
  refine Finset.erase_eq_of_notMem ?_
  rw [mem_woken]
  exact fun hw => hp hw.1

omit [DecidableEq T] in
lemma Awaited.stuck {k k' : Kernel T Side} {pend pend' : T → Option Side} (h : Awaited k pend mb)
    (hstuck : op.Stuck mb)
    (hq : ∀ t, t ∈ k'.queue (.wait op.wakes) → t ∈ k.queue (.wait op.wakes))
    (hw : woken k' pend' op.wakes = woken k pend op.wakes) : Awaited k' pend' mb := by
  intro o hne
  rcases op.side_cases o with rfl | rfl
  · rw [hw]
    obtain ⟨t, ht⟩ := List.exists_mem_of_ne_nil _ hne
    exact h _ (List.ne_nil_of_mem (hq t ht))
  rw [available_of_stuck hstuck]
  exact Nat.zero_le _

lemma Awaited.wake {pend : T → Option Side}
    (h : Awaited k pend mb) (hb : Blocked k pend) (hr : InRange mb) (hfree : ¬ op.Stuck mb) :
    let k' := k.resumeFirst op.wakes
    (k'.queue (.wait op.wakes) ≠ [] →
      op.wakes.available (op.transfer mb) ≤ (woken k' pend op.wakes).card) ∧
    (k'.queue (.wait op.waitsIn) ≠ [] →
      op.waitsIn.available (op.transfer mb) + 1 ≤ (woken k' pend op.waitsIn).card) := by
  obtain ⟨hup, hdown⟩ := available_transfer hr hfree
  have hne := op.wakes_ne.symm
  simp only [Kernel.resumeFirst]
  split
  · rename_i w l hq
    have hwakes := h op.wakes (by simp [hq])
    refine ⟨fun _ => ?_, fun hwait => ?_⟩
    · rw [hb.woken_resume hq, if_pos rfl, hup]
      exact Nat.succ_le_succ hwakes
    rw [hb.resume_wait_of_ne hq hne] at hwait
    rw [hb.woken_resume hq, if_neg hne, hdown]
    exact h _ hwait
  rename_i hq
  refine ⟨fun hwait => absurd hq hwait, fun hwait => ?_⟩
  rw [hdown]
  exact h _ hwait

lemma Awaited.transfer {pend : T → Option Side} (h : Awaited k pend mb) (hb : Blocked k pend)
    (hr : InRange mb) (hfree : ¬ op.Stuck mb) (hp : pend t ≠ some op.wakes) :
    Awaited (k.resumeFirst op.wakes) (update pend t none) (op.transfer mb) := by
  obtain ⟨hother, hown⟩ := h.wake hb hr hfree
  intro o hwait
  rcases op.side_cases o with rfl | rfl
  · rw [woken_finish_of_pend hp]
    exact hother hwait
  -- the caller may be one of the threads on their way
  have hcard := Finset.pred_card_le_card_erase
    (s := woken (k.resumeFirst op.wakes) pend op.waitsIn) (a := t)
  have := hown hwait
  rw [woken_finish]
  omega

lemma Awaited.post {pend : T → Option Side}
    (h : Awaited k pend mb) (hb : Blocked k pend) (hr : InRange mb) (hfree : ¬ op.Stuck mb) :
    Awaited (k.resumeFirst op.wakes) pend (op.transfer mb) := by
  obtain ⟨hother, hown⟩ := h.wake hb hr hfree
  intro o hwait
  rcases op.side_cases o with rfl | rfl
  · exact hother hwait
  exact (Nat.le_succ _).trans (hown hwait)

lemma attended_turn (hi : Inv s) (h : Attended s)
    {r : Kernel T Side × Mailbox × Outcome T} (hop : ∀ f ∈ s.call t, f.op = op)
    (hs : (s.kernel.tcb t).stat = .ready) (hr : Turn op s.kernel s.mb t r) :
    Attended (s.after t none r) := by
  have hp := pend_ne_wakes hop
  have hawake := hi.awake hs
  have hnone : pend (update s.call t none) t = none := by simp [pend]
  have hfin : woken s.kernel (pend (update s.call t none)) op.wakes =
      woken s.kernel (pend s.call) op.wakes := by
    rw [pend_update]
    exact woken_finish_of_pend hp
  cases hr with
  | giveUp hstuck =>
    refine ⟨h.inRange, h.awaited.stuck hstuck (fun _ hu => hu) ?_⟩
    exact (woken_setError hnone _ _).trans hfin
  | @wait f k' time hopf hstuck hk =>
    have hpark := (hawake.setError hnone rtEok).wait_spec (by simpa using hs) hnone (by simp) hk
    refine ⟨h.inRange, h.awaited.stuck hstuck (fun u hu => ?_) ?_⟩
    · rcases (hpark.mem op.wakes u).mp hu with hu | ⟨he, -⟩
      · exact hu
      exact absurd he op.wakes_ne
    have hw := (hpark.woken hnone op.wakes).trans ((woken_setError hnone _ _).trans hfin)
    rw [pend_update, update_idem] at hw
    show woken k' (pend (update s.call t (some f))) op.wakes = _
    rw [pend_update, Option.map_some, hopf]
    exact hw
  | transfer hfree =>
    refine ⟨inRange_transfer h.inRange hfree, ?_⟩
    show Awaited _ (pend (update s.call t none)) _
    rw [pend_update]
    exact h.awaited.transfer hi.blocked h.inRange hfree hp

lemma attended_move (hi : Inv s) (h : Attended s) (hm : Move s s') : Attended s' := by
  cases hm with
  | refuse =>
    refine ⟨h.inRange, ?_⟩
    show Awaited _ (pend (update _ _ _)) _
    rw [update_eq_self]
    exact h.awaited
  | turn hop hs hr => exact attended_turn hi h hop hs hr
  | post hfree =>
    refine ⟨inRange_transfer h.inRange hfree, ?_⟩
    show Awaited _ (pend (update _ _ _)) _
    rw [update_eq_self]
    exact h.awaited.post hi.blocked h.inRange hfree
  | @expired t f hf hs he =>
    -- a thread that was woken by its timer was not on its way to anything
    refine ⟨h.inRange, fun o hwait => ?_⟩
    have herase : (woken s.kernel (pend s.call) o).erase t = woken s.kernel (pend s.call) o :=
      Finset.erase_eq_of_notMem fun hw => he (mem_woken.mp hw).2.2
    show o.available s.mb ≤ (woken s.kernel (pend (update s.call t none)) o).card
    rw [pend_update]
    exact (woken_finish s.kernel (pend s.call) t o).trans herase ▸ h.awaited o hwait
  | tick => exact ⟨h.inRange, h.awaited⟩
  | @expire t k hk =>
    refine ⟨h.inRange, fun o hwait => ?_⟩
    rw [woken_timeout hk]
    obtain ⟨u, hu⟩ := List.exists_mem_of_ne_nil _ hwait
    have hu' : u ∈ unlink s.kernel.queue t (.wait o) := timeout_wait hk o ▸ hu
    exact h.awaited o (List.ne_nil_of_mem (mem_unlink.mp hu').1)

/-- **No lost wake-up.** In every state of every run on a mailbox of any size: if receivers wait,
there are no more mails than receivers that a send has resumed and that have not run since; and if
senders wait, there are no more free cells than senders that a receive has resumed and that have
not run since. -/
theorem no_lost_wakeup {size : Nat} {s₀ s : State T} {as : List (Action T)} (hs : Start size s₀)
    (h : Run.exec step s₀ as = some s) :
    (s.kernel.queue (.wait .receivers) ≠ [] →
      s.mb.entry ≤ (woken s.kernel (pend s.call) .receivers).card) ∧
    (s.kernel.queue (.wait .senders) ≠ [] →
      s.mb.size - s.mb.entry ≤ (woken s.kernel (pend s.call) .senders).card) := by
  have hinv : Inv s ∧ Attended s := by
    refine Run.inv_of_exec (I := fun u => Inv u ∧ Attended u) ?_
      ⟨inv_start hs, attended_start hs⟩ h
    intro u a u' hu hstep
    have hm := move_of_step hstep
    exact ⟨inv_move hu.1 hm, attended_move hu.1 hu.2 hm⟩
  exact ⟨hinv.2.awaited .receivers, hinv.2.awaited .senders⟩

end

def mailWhileWaiting : List (Action (Fin 3)) :=
  [.recv 0 0xffffffff, .recv 1 0xffffffff, .send 2 7]

theorem no_lost_wakeup_mailWhileWaiting :
    ∃ s, Run.exec step threeThreads mailWhileWaiting = some s ∧
      s.kernel.queue (.wait .receivers) = [1] ∧ s.mb.entry = 1 ∧
      1 ≤ (woken s.kernel (pend s.call) .receivers).card := by
  obtain ⟨s, hs, hq, he⟩ : ∃ s, Run.exec step threeThreads mailWhileWaiting = some s ∧
      s.kernel.queue (.wait .receivers) = [1] ∧ s.mb.entry = 1 := by decide +kernel
  have hstart : Start 1 threeThreads := ⟨⟨_, _, rfl⟩, fun _ => rfl, fun _ => rfl, fun _ => rfl, rfl⟩
  have hle := (no_lost_wakeup hstart hs).1 (by simp [hq])
  exact ⟨s, hs, hq, he, he ▸ hle⟩

end NbIot.Mailboxes
