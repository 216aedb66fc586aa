import NbIot.Kernel.ReadyQueue

/-! # The choice of the scheduler

`__rt_ffs` finds the lowest bit of the bitmap with a table for one byte (`rtFfs_spec`), so a right
bitmap leads `rt_schedule` to the first thread of the highest priority (`rtSchedule_first`). A
`rt_thread_yield` of that thread rotates its list (`Top.yield`), and so the threads of the list run
in turn.
-/

namespace NbIot.ReadyQueue

open Queues Kernel Function List Run

/-! ## The lowest bit -/

/-- Bit `i` is the lowest one that is set. -/
def Lowest (v : BitVec 32) (i : Nat) : Prop :=
  v.getLsbD i = true ∧ ∀ j < i, v.getLsbD j = false

variable {v : BitVec 32}

lemma Lowest.unique {i j : Nat} (hi : Lowest v i) (hj : Lowest v j) : i = j := by
  rcases Nat.lt_trichotomy i j with h | h | h
  · exact absurd hi.1 (by simp [hj.2 i h])
  · exact h
  exact absurd hj.1 (by simp [hi.2 j h])

lemma lowestBitBitmap_spec : ∀ b < 256, b ≠ 0 →
    b.testBit (lowestBitBitmap.getD b 0) = true ∧ lowestBitBitmap.getD b 0 < 8 ∧
      ∀ j < lowestBitBitmap.getD b 0, b.testBit j = false := by
  decide +kernel

lemma getLsbD_byteMask {o : Nat} (ho : o ≤ 24) (i : Nat) :
    (0xff#32 <<< o).getLsbD i = decide (o ≤ i ∧ i < o + 8) := by
  rw [show (0xff#32) = BitVec.ofNat 32 (2 ^ 8 - 1) from rfl, BitVec.getLsbD_shiftLeft,
    BitVec.getLsbD_ofNat, Nat.testBit_two_pow_sub_one, Bool.eq_iff_iff]
  simp only [Bool.and_eq_true, Bool.not_eq_true', decide_eq_true_eq, decide_eq_false_iff_not]
  omega

lemma lowest_byte {o : Nat} (ho : o ≤ 24) (hlow : ∀ j < o, v.getLsbD j = false) :
    (v &&& 0xff#32 <<< o ≠ 0 →
      Lowest v (lowestBitBitmap.getD ((v &&& 0xff#32 <<< o) >>> o).toNat 0 + o)) ∧
    (v &&& 0xff#32 <<< o = 0 → ∀ j < o + 8, v.getLsbD j = false) := by
  have hmask : ∀ i, (v &&& 0xff#32 <<< o).getLsbD i
      = (v.getLsbD i && decide (o ≤ i ∧ i < o + 8)) := fun i => by
    rw [BitVec.getLsbD_and, getLsbD_byteMask ho]
  generalize v &&& 0xff#32 <<< o = w at hmask
  have hbit : ∀ j, (w >>> o).toNat.testBit j = w.getLsbD (o + j) := fun j => by
    rw [BitVec.testBit_toNat, BitVec.getLsbD_ushiftRight]
  constructor
  · intro hne
    generalize (w >>> o).toNat = b at hbit
    have hlt : b < 256 := Nat.lt_pow_two_of_testBit b (n := 8) fun i hi => by
      rw [hbit, hmask]
      simp [show ¬ i < 8 by omega]
    have hb : b ≠ 0 := by
      rintro rfl
      refine hne (BitVec.eq_of_getLsbD_eq fun i _ => ?_)
      by_cases hi : o ≤ i
      · have := hbit (i - o)
        rw [show o + (i - o) = i by omega] at this
        simp [← this]
      simp [hmask, hi]
    obtain ⟨h1, h2, h3⟩ := lowestBitBitmap_spec b hlt hb
    rw [hbit, hmask, add_comm] at h1
    refine ⟨(Bool.and_eq_true_iff.mp h1).1, fun j hj => ?_⟩
    by_cases hjo : j < o
    · exact hlow j hjo
    have h := h3 (j - o) (by omega)
    rw [hbit, hmask, show o + (j - o) = j by omega, decide_eq_true (by omega)] at h
    simpa using h
  rintro rfl j hj
  by_cases hjo : j < o
  · exact hlow j hjo
  simpa [show o ≤ j ∧ j < o + 8 by omega] using (hmask j).symm

lemma rtFfs_spec (hv : v ≠ 0) : ∃ i, rtFfs v = i + 1 ∧ Lowest v i := by
  have h0 := lowest_byte (v := v) (o := 0) (by omega) (by omega)
  rw [rtFfs, if_neg hv]
  split_ifs with b0 b1 b2
  · exact ⟨_, rfl, h0.1 b0⟩
  · exact ⟨_, rfl, (lowest_byte (by omega) (h0.2 (not_not.mp b0))).1 b1⟩
  · have h1 := lowest_byte (by omega) (h0.2 (not_not.mp b0))
    exact ⟨_, rfl, (lowest_byte (by omega) (h1.2 (not_not.mp b1))).1 b2⟩
  have h1 := lowest_byte (by omega) (h0.2 (not_not.mp b0))
  have h2 := lowest_byte (by omega) (h1.2 (not_not.mp b1))
  have h3 := lowest_byte (by omega) (h2.2 (not_not.mp b2))
  -- not all four bytes are zero
  exact ⟨_, rfl, h3.1 fun hz => hv (BitVec.eq_of_getLsbD_eq fun i hi => by simp [h3.2 hz i hi])⟩

/-! ## The highest priority -/

variable {T O : Type} {k : Kernel T O} {p : Nat} {t : T} {l : List T}

/-- `p` is the highest priority with a ready thread. -/
structure Highest (k : Kernel T O) (p : Nat) (l : List T) : Prop where
  bits : Bits k
  unlocked : k.schedulerLockNest = 0
  lt : p < rtThreadPriorityMax
  queue : k.queue (.ready p) = l
  above : ∀ q < p, k.queue (.ready q) = []

lemma rtSchedule_first (h : Highest k p (t :: l)) : k.rtSchedule = some (k.setCurrent t) := by
  have hp := h.lt
  have hlow : Lowest k.readyPriorityGroup p := by
    refine ⟨(h.bits p hp).mpr (by simp [h.queue]), fun q hq => Bool.eq_false_iff.mpr fun hbit => ?_⟩
    exact (h.bits q (by omega)).mp hbit (h.above q hq)
  obtain ⟨i, hi, hlow'⟩ := rtFfs_spec (v := k.readyPriorityGroup) fun hz => by
    simpa [hz] using hlow.1
  rw [rtSchedule, if_pos h.unlocked, if_neg (by omega), hi, Nat.add_sub_cancel,
    hlow'.unique hlow, h.queue]

lemma Inv.exists_highest {live : T → Bool} (hi : Inv k live) (hb : Bits k)
    (hlock : k.schedulerLockNest = 0) (hl : live t = true) (hs : (k.tcb t).stat = .ready) :
    ∃ p u l, Highest k p (u :: l) := by
  have hex : ∃ p, k.queue (.ready p) ≠ [] := ⟨_, ne_nil_of_mem ((hi.placed t).mem hl hs)⟩
  obtain ⟨u, l, hq⟩ := exists_cons_of_ne_nil (Nat.find_spec hex)
  obtain ⟨hlu, -, hpu⟩ := (hi.placed u).of_mem (Nat.find hex) (by rw [hq]; exact mem_cons_self)
  exact ⟨_, u, l, hb, hlock, hpu ▸ ((hi.placed u).priority hlu).1, hq,
    fun q hlt => not_not.mp (Nat.find_min hex hlt)⟩

/-! ## Threads of one priority in turn -/

/-- The threads of the highest priority are `l`, and the first of them is the current one. -/
structure Top (s : State T O) (p : Nat) (l : List T) : Prop extends Highest s.kernel p l where
  inv : Inv s.kernel s.live
  current : s.kernel.currentThread = l.head?

variable [DecidableEq T] [DecidableEq O] {s : State T O}

lemma Top.yield (h : Top s p (t :: l)) :
    ∃ s', step s .yield = some s' ∧ Top s' p (l ++ [t]) := by
  obtain ⟨-, hs, hprio⟩ := (h.inv.placed t).of_mem p (by simp [h.queue])
  have hstep : step s .yield = if s.kernel.CanYield t then
      (s.kernel.rtThreadYield t).rtSchedule.map s.keep else some s := by
    simp only [step, h.current, head?_cons, Option.bind_some]
  cases l with
  | nil =>
    -- the only thread of its list goes on
    refine ⟨s, ?_, h⟩
    rw [hstep, if_neg fun hc => ?_]
    have := hc.2.2
    rw [hprio, h.queue] at this
    simp at this
  | cons u l =>
    have hc : s.kernel.CanYield t := ⟨hs, by simp [hprio, h.queue], by simp [hprio, h.queue]⟩
    have hqueue : (s.kernel.rtThreadYield t).queue = update (unlink s.kernel.queue t) (.ready p)
        (u :: l ++ [t]) := by
      rw [rtThreadYield, hprio]
      simp only [rtListInsertBefore, setQueue_queue, rtListRemove_queue]
      rw [unlink_apply_of_cons h.queue (h.inv.separate.nodup _)]
    have hhigh : Highest (s.kernel.rtThreadYield t) p (u :: l ++ [t]) := by
      refine ⟨h.bits.yield h.inv hc, h.unlocked, h.lt, by simp [hqueue], fun q hq => ?_⟩
      have hne : Head.ready (O := O) q ≠ .ready p := by simp [Nat.ne_of_lt hq]
      rw [hqueue, update_of_ne hne, unlink, h.above q hq, filter_nil]
    have hsched := rtSchedule_first hhigh
    refine ⟨_, by rw [hstep, if_pos hc, hsched]; rfl, ?_⟩
    exact ⟨⟨hhigh.bits.schedule hsched, h.unlocked, h.lt, hhigh.queue, hhigh.above⟩,
      (h.inv.yield hc).schedule hsched, rfl⟩

lemma Top.yields (h : Top s p l) (hl : l ≠ []) (j : Nat) :
    ∃ s', exec step s (List.replicate j .yield) = some s' ∧ Top s' p (l.rotate j) := by
  induction j generalizing s l with
  | zero => exact ⟨s, rfl, by simpa using h⟩
  | succ j ih =>
    obtain ⟨t, l, rfl⟩ := exists_cons_of_ne_nil hl
    obtain ⟨s1, hs1, h1⟩ := h.yield
    obtain ⟨s', hs', h'⟩ := ih h1 (by simp)
    exact ⟨s', exec_cons_eq_some.mpr ⟨s1, hs1, hs'⟩, by simpa using h'⟩

/-- **The choice of the scheduler.** `__rt_ffs` finds the lowest bit of every word that is not zero.
When the ready queue and its bitmap are right, some thread is ready and the scheduler is not locked,
`rt_schedule` makes the first thread of the numerically smallest priority with a ready thread the
current one; and the `k` different threads of that priority then run in turn, each of them once in
`k` calls of `rt_thread_yield`. -/
theorem schedule_choice (s : State T O) (hi : Inv s.kernel s.live) (hb : Bits s.kernel)
    (hlock : s.kernel.schedulerLockNest = 0)
    (hready : ∃ t, s.live t = true ∧ (s.kernel.tcb t).stat = .ready) :
    (∀ v : BitVec 32, v ≠ 0 → ∃ i, rtFfs v = i + 1 ∧ v.getLsbD i = true ∧
      ∀ j < i, v.getLsbD j = false) ∧
    ∃ p l, s.kernel.queue (.ready p) = l ∧ l ≠ [] ∧ l.Nodup ∧
      (∀ q < p, s.kernel.queue (.ready q) = []) ∧
      ∃ k, s.kernel.rtSchedule = some k ∧ k.currentThread = l.head? ∧
        ∀ j, ∃ s', exec step (s.keep k) (List.replicate j .yield) = some s' ∧
          s'.kernel.currentThread = l[j % l.length]? := by
  refine ⟨fun v hv => rtFfs_spec hv, ?_⟩
  obtain ⟨t, hl, hs⟩ := hready
  obtain ⟨p, u, l, hhigh⟩ := hi.exists_highest hb hlock hl hs
  have hsched := rtSchedule_first hhigh
  have htop : Top (s.keep (s.kernel.setCurrent u)) p (u :: l) :=
    ⟨⟨hb.schedule hsched, hlock, hhigh.lt, hhigh.queue, hhigh.above⟩, hi.schedule hsched, rfl⟩
  refine ⟨p, u :: l, hhigh.queue, by simp, hhigh.queue ▸ hi.separate.nodup _, hhigh.above, _,
    hsched, rfl, fun j => ?_⟩
  obtain ⟨s', hs', h'⟩ := htop.yields (by simp) j
  refine ⟨s', hs', ?_⟩
  rw [h'.current, ← rotate_mod, head?_rotate (Nat.mod_lt _ (by simp))]

/-- The idle thread and two threads of priority 5, before the scheduler is started. -/
def threeReady : List (Op (Fin 3)) :=
  [.create 0 (blank 0) 31, .create 1 (blank 0) 5, .create 2 (blank 0) 5, .startup 0, .startup 1,
    .startup 2]

lemma threeReady_admissible :
    Meets step Admissible (boot fun _ => blank 0 : State (Fin 3) Empty) threeReady := by
  have hfree : ∀ t : Fin 3, Unlinked (fun _ : Head Empty => ([] : List (Fin 3))) t :=
    fun _ _ => not_mem_nil
  refine ⟨⟨rfl, hfree 0⟩, fun s hs => ?_⟩
  cases hs
  refine ⟨⟨rfl, hfree 1⟩, fun s hs => ?_⟩
  cases hs
  refine ⟨⟨rfl, hfree 2⟩, fun s hs => ?_⟩
  cases hs
  refine ⟨rfl, fun s hs => ?_⟩
  cases hs
  refine ⟨rfl, fun s hs => ?_⟩
  cases hs
  exact ⟨rfl, fun s hs => trivial⟩

/-- The two threads of priority 5 run in turn. -/
theorem schedule_choice_twoPriorities :
    ∃ s k, exec step (boot fun _ => blank 0 : State (Fin 3) Empty) threeReady = some s ∧
      s.kernel.queue (.ready 31) = [0] ∧ s.kernel.queue (.ready 5) = [1, 2] ∧
      s.kernel.rtSchedule = some k ∧ k.currentThread = some 1 ∧
      ∀ j, ∃ s', exec step (s.keep k) (replicate j .yield) = some s' ∧
        s'.kernel.currentThread = ([1, 2] : List (Fin 3))[j % 2]? := by
  obtain ⟨s, hs, hidle, hfive, hempty, hlive, hstat, hlock⟩ :
      ∃ s, exec step (boot fun _ => blank 0 : State (Fin 3) Empty) threeReady = some s ∧
        s.kernel.queue (.ready 31) = [0] ∧ s.kernel.queue (.ready 5) = [1, 2] ∧
        (∀ q < 5, s.kernel.queue (.ready q) = []) ∧ s.live 0 = true ∧
        (s.kernel.tcb 0).stat = .ready ∧ s.kernel.schedulerLockNest = 0 := by
    decide
  have hmask :
      Meets step MaskHarmless (boot fun _ => blank 0 : State (Fin 3) Empty) threeReady := by
    simp [threeReady, Meets, MaskHarmless]
  have hgood : Inv s.kernel s.live ∧ Bits s.kernel :=
    inv_of_meets (I := fun s => Inv s.kernel s.live ∧ Bits s.kernel) (fun s op s' h hop hs' =>
      have hspec := step_spec h.1 hop.1 hs'
      ⟨hspec.1, (hspec.2 h.2).mpr hop.2⟩) ⟨inv_boot _, bits_boot _⟩
      (threeReady_admissible.and hmask) hs
  obtain ⟨-, p, l, hq, hne, -, habove, k, hk, hcur, hyield⟩ :=
    schedule_choice s hgood.1 hgood.2 hlock ⟨0, hlive, hstat⟩
  obtain rfl : p = 5 := by
    refine le_antisymm (not_lt.mp fun hlt => ?_) (not_lt.mp fun hlt => ?_)
    · exact absurd (hfive.symm.trans (habove 5 hlt)) (by simp)
    exact hne (hq.symm.trans (hempty p hlt))
  obtain rfl : l = [1, 2] := hq.symm.trans hfive
  exact ⟨s, k, hs, hidle, hfive, hk, hcur, hyield⟩

end NbIot.ReadyQueue
