import NbIot.Timer.Machine

/-! # The order of the timer list

The list is ordered by the time that is left until a timer is due, timers that are due together
being in the order in which they were started. `timeout_tick` wraps, so the time that is left is
counted from the current tick (`State.left`), and the unsigned comparisons of `rt_timer_start` and
`rt_timer_check` agree with it as long as every linked timer is near the current tick.
-/

namespace NbIot.Timers

open WrapClock Function List Run

/-! ## The order of the list -/

variable {τ : Type} {s : State τ}

def State.left (s : State τ) (t : τ) : Int := ahead s.tick (s.timer t).timeoutTick

def State.Before (s : State τ) (t u : τ) : Prop :=
  s.left t < s.left u ∨
    (s.timer t).timeoutTick = (s.timer u).timeoutTick ∧ s.started t < s.started u

structure Inv (c : Config) (s : State τ) : Prop where
  rows : SkipList.Rows c.last s.row
  near : ∀ t ∈ s.row c.last, Near s.tick (s.timer t).timeoutTick
  idle : s.phase = .idle → ∀ t ∈ s.row c.last, 0 ≤ s.left t
  order : (s.row c.last).Pairwise s.Before
  stamp : ∀ t ∈ s.row c.last, s.started t < s.starts
  current : ∀ x, s.phase = .checking x → x = s.tick

lemma State.Before.left_le {t u : τ} (h : s.Before t u) : s.left t ≤ s.left u := by
  rcases h with hlt | ⟨heq, _⟩
  · exact hlt.le
  exact (ahead_inj.mpr heq).le

lemma Start.inv (h : Start s) (c : Config) : Inv c s where
  rows := by
    refine ⟨fun i _ => ?_, ?_⟩
    · rw [h.row i]
      exact nil_sublist _
    rw [h.row c.last]
    exact nodup_nil
  near := by simp [h.row]
  idle := by simp [h.row]
  order := by rw [h.row]; exact List.Pairwise.nil
  stamp := by simp [h.row]
  current := by simp [h.phase]

/-! ## Steps that start nothing -/

section

variable {c : Config} {s s' : State τ} {t u : τ}

variable (h : Inv c s)

include h

lemma Inv.shrink (hrows : SkipList.Rows c.last s'.row)
    (hsub : List.Sublist (s'.row c.last) (s.row c.last)) (htick : s'.tick = s.tick)
    (htime : ∀ u, (s'.timer u).timeoutTick = (s.timer u).timeoutTick)
    (hstarted : s'.started = s.started) (hstarts : s'.starts = s.starts)
    (hidle : s'.phase = .idle → ∀ u ∈ s.row c.last, 0 ≤ s.left u)
    (hcurrent : ∀ x, s'.phase = .checking x → x = s.tick) : Inv c s' := by
  have hleft : ∀ u, s'.left u = s.left u := fun u => by rw [State.left, htick, htime]; rfl
  refine ⟨hrows, fun u hu => ?_, fun hp u hu => ?_, ?_, fun u hu => ?_, fun x hx => ?_⟩
  · rw [htick, htime]
    exact h.near u (hsub.subset hu)
  · rw [hleft]
    exact hidle hp u (hsub.subset hu)
  · refine (h.order.sublist hsub).imp fun {a b} hab => ?_
    rw [State.Before, hleft, hleft, htime, htime, hstarted]
    exact hab
  · rw [hstarted, hstarts]
    exact h.stamp u (hsub.subset hu)
  rw [htick]
  exact hcurrent x hx

lemma Inv.checking : Inv c { s with phase := .checking s.tick } :=
  h.shrink h.rows (List.Sublist.refl _) rfl (fun _ => rfl) rfl rfl (by simp)
    fun _ hx => (Phase.checking.inj hx).symm

lemma Inv.mark (d : τ → Bool) : Inv c { s with detached := d } :=
  h.shrink h.rows (List.Sublist.refl _) rfl (fun _ => rfl) rfl rfl h.idle h.current

lemma Inv.tick (hp : s.phase = .idle) : Inv c { s with tick := s.tick + 1, phase := .ticked } := by
  -- no linked timer has passed, so the time that is left goes down by one for all of them
  have hleft : ∀ u ∈ s.row c.last, ahead (s.tick + 1) (s.timer u).timeoutTick = s.left u - 1 :=
    fun u hu => ahead_succ (h.near u hu).1
  refine ⟨h.rows, fun u hu => ?_, by simp, ?_, h.stamp, by simp⟩
  · have hnext := hleft u hu
    have hpos := h.idle hp u hu
    have hlt : s.left u < half.toNat := (h.near u hu).2
    refine ⟨?_, ?_⟩
    · show -1 ≤ ahead (s.tick + 1) (s.timer u).timeoutTick
      omega
    show ahead (s.tick + 1) (s.timer u).timeoutTick < half.toNat
    omega
  refine h.order.imp_of_mem fun {a b} ha hb hab => ?_
  rcases hab with hlt | heq
  · have hnext : ahead (s.tick + 1) (s.timer a).timeoutTick
        < ahead (s.tick + 1) (s.timer b).timeoutTick := by
      rw [hleft a ha, hleft b hb]
      omega
    exact .inl hnext
  exact .inr heq

lemma Inv.first_le {rest : List τ} (hrow : s.row c.last = t :: rest)
    (hu : u ∈ s.row c.last) : s.left t ≤ s.left u := by
  have hord := h.order
  rw [hrow] at hord hu
  rcases mem_cons.mp hu with rfl | hu
  · exact le_rfl
  exact ((pairwise_cons.mp hord).1 u hu).left_le

lemma Inv.left_pos {x : BitVec 32} (hp : s.phase = .checking x)
    (hd : dueTimer c s x = none) : ∀ u ∈ s.row c.last, 0 < s.left u := by
  intro u hu
  obtain rfl := h.current x hp
  unfold dueTimer at hd
  split at hd
  · rename_i hrow
    rw [hrow] at hu
    simp at hu
  rename_i t rest hrow
  have hnot : ¬ s.tick - (s.timer t).timeoutTick < half := by simpa using hd
  have ht : t ∈ s.row c.last := by rw [hrow]; exact mem_cons_self
  have hpos : ¬ s.left t ≤ 0 := fun hle =>
    hnot ((now_sub_lt_half_iff (h.near t ht)).mpr hle)
  have hle := h.first_le hrow hu
  omega

lemma Inv.next : s.row c.last = [] ∧ rtTimerNextTimeoutTick c s = 0xffffffff ∨
      ∃ t ∈ s.row c.last, rtTimerNextTimeoutTick c s = (s.timer t).timeoutTick ∧
        ∀ u ∈ s.row c.last, s.left t ≤ s.left u := by
  unfold rtTimerNextTimeoutTick
  split
  · rename_i hrow
    exact .inl ⟨hrow, rfl⟩
  rename_i t rest hrow
  refine .inr ⟨t, ?_, rfl, fun u hu => h.first_le hrow hu⟩
  rw [hrow]
  exact mem_cons_self

/-! ## A timer is started -/

variable [DecidableEq τ]

omit h in
lemma sublist_remove (t : τ) (row : Nat → List τ) (i : Nat) :
    List.Sublist (SkipList.remove t row i) (row i) := filter_sublist

omit h in
lemma Started.timer_self (hs : Started c s t s') : (s'.timer t).timeoutTick =
    s.tick + (s.timer t).initTick := by rw [hs.timer, update_self]

omit h in
lemma Started.timer_ne (hs : Started c s t s') (hu : u ≠ t) : s'.timer u = s.timer u := by
  rw [hs.timer, update_of_ne hu]

omit h in
lemma Started.left_self (hs : Started c s t s') : s'.left t = (s.timer t).initTick.toNat := by
  rw [State.left, hs.timer_self, hs.tick]
  exact ahead_add hs.init

omit h in
lemma Started.left_ne (hs : Started c s t s') (hu : u ≠ t) : s'.left u = s.left u := by
  rw [State.left, hs.timer_ne hu, hs.tick]
  rfl

omit h in
lemma mem_remove {row : Nat → List τ} {i : Nat} :
    u ∈ SkipList.remove t row i ↔ u ∈ row i ∧ u ≠ t := by
  simp [SkipList.remove]

lemma Inv.passes_iff (hs : Started c s t s') (hu : u ∈ SkipList.remove t s.row c.last) :
    passes s'.timer (s'.timer t).timeoutTick u = true ↔ s.left u ≤ s'.left t := by
  obtain ⟨hmem, hne⟩ := mem_remove.mp hu
  have hnear := h.near u hmem
  have hnew : Near s.tick (s.tick + (s.timer t).initTick) := near_add hs.init
  have hadd : ahead s.tick (s.tick + (s.timer t).initTick) = s'.left t := by
    rw [State.left, hs.timer_self, hs.tick]
  have hcome : 0 ≤ ahead s.tick (s.tick + (s.timer t).initTick) := by
    rw [ahead_add hs.init]
    exact Int.natCast_nonneg _
  have hlt := sub_lt_half_iff hnear hnew hcome
  have heq : (s.timer u).timeoutTick - (s.tick + (s.timer t).initTick) = 0 ↔
      s.left u = ahead s.tick (s.tick + (s.timer t).initTick) :=
    sub_eq_zero_iff
  rw [passes, hs.timer_ne hne, hs.timer_self, decide_eq_true_iff, hlt, heq]
  show s.left u = _ ∨ ¬ _ ≤ s.left u ↔ _
  omega

lemma Inv.mono (hs : Started c s t s') :
    SkipList.Mono (passes s'.timer (s'.timer t).timeoutTick) (SkipList.remove t s.row c.last) := by
  have hord := h.order.sublist (sublist_remove t s.row c.last)
  refine hord.imp_of_mem fun {a b} ha hb hab hpass => ?_
  rw [h.passes_iff hs hb] at hpass
  exact (h.passes_iff hs ha).mpr (hab.left_le.trans hpass)

lemma Inv.row_start (hs : Started c s t s') : s'.row c.last =
      (SkipList.remove t s.row c.last).filter (passes s'.timer (s'.timer t).timeoutTick) ++
      t :: (SkipList.remove t s.row c.last).filter
        fun u => !passes s'.timer (s'.timer t).timeoutTick u := by
  obtain ⟨m, hm, hrow⟩ := hs.row
  rw [hrow]
  exact SkipList.insert_eq (h.rows.remove t) (h.mono hs) (le_rfl) hm

lemma Inv.mem_start (hs : Started c s t s') : u ∈ s'.row c.last ↔ u = t ∨ u ∈ s.row c.last := by
  have hsplit := (h.mono hs).split
  have hperm : u ∈ s'.row c.last ↔ u = t ∨ u ∈ SkipList.remove t s.row c.last := by
    rw [h.row_start hs]
    conv_rhs => rw [hsplit]
    simp only [mem_append, mem_cons]
    tauto
  rw [hperm, mem_remove]
  by_cases hu : u = t <;> simp [hu]

lemma Inv.order_start (hs : Started c s t s') : (s'.row c.last).Pairwise s'.Before := by
  have hold : (SkipList.remove t s.row c.last).Pairwise s'.Before := by
    refine (h.order.sublist (sublist_remove t s.row c.last)).imp_of_mem fun {a b} ha hb hab => ?_
    have hane := (mem_remove.mp ha).2
    have hbne := (mem_remove.mp hb).2
    rw [State.Before, hs.left_ne hane, hs.left_ne hbne, hs.timer_ne hane, hs.timer_ne hbne,
      hs.started, update_of_ne hane, update_of_ne hbne]
    exact hab
  rw [(h.mono hs).split, pairwise_append] at hold
  obtain ⟨hfront, hback, hcross⟩ := hold
  rw [h.row_start hs]
  refine pairwise_append.mpr ⟨hfront, pairwise_cons.mpr ⟨fun u hu => ?_, hback⟩, ?_⟩
  · -- those behind it are due later
    obtain ⟨hmem, hpass⟩ := mem_filter.mp hu
    have hlt : ¬ s.left u ≤ s'.left t := fun hle => by
      rw [(h.passes_iff hs hmem).mpr hle] at hpass
      simp at hpass
    refine .inl ?_
    rw [hs.left_ne (mem_remove.mp hmem).2]
    omega
  intro a ha b hb
  rcases mem_cons.mp hb with rfl | hb
  · -- those in front of it are due earlier, or have been started earlier
    obtain ⟨hmem, hpass⟩ := mem_filter.mp ha
    obtain ⟨hrow, hne⟩ := mem_remove.mp hmem
    have hle := (h.passes_iff hs hmem).mp hpass
    rw [← hs.left_ne hne] at hle
    rcases hle.lt_or_eq with hlt | heq
    · exact .inl hlt
    refine .inr ⟨ahead_inj.mp heq, ?_⟩
    rw [hs.started, update_self, update_of_ne hne]
    exact h.stamp a hrow
  exact hcross a ha b hb

lemma Inv.start (hs : Started c s t s') : Inv c s' := by
  have hne : ∀ u, u ∈ s'.row c.last → u = t ∨ u ≠ t ∧ u ∈ s.row c.last := fun u hu => by
    rcases (h.mem_start hs).mp hu with rfl | hmem
    · exact .inl rfl
    exact (eq_or_ne u t).imp id fun hne => ⟨hne, hmem⟩
  refine ⟨?_, fun u hu => ?_, fun hp u hu => ?_, h.order_start hs, fun u hu => ?_, fun x hx => ?_⟩
  · obtain ⟨m, hm, hrow⟩ := hs.row
    rw [hrow]
    exact (h.rows.remove t).insert (h.mono hs) (fun hmem => (mem_remove.mp hmem).2 rfl) hm
  · rw [hs.tick]
    rcases hne u hu with rfl | ⟨hut, hmem⟩
    · rw [hs.timer_self]
      exact near_add hs.init
    rw [hs.timer_ne hut]
    exact h.near u hmem
  · rcases hne u hu with rfl | ⟨hut, hmem⟩
    · rw [hs.left_self]
      exact Int.natCast_nonneg _
    rw [hs.left_ne hut]
    exact h.idle (hs.phase ▸ hp) u hmem
  · rw [hs.starts, hs.started]
    rcases hne u hu with rfl | ⟨hut, hmem⟩
    · rw [update_self]
      exact Nat.lt_succ_self _
    rw [update_of_ne hut]
    exact (h.stamp u hmem).trans (Nat.lt_succ_self _)
  rw [hs.tick]
  exact h.current x (hs.phase ▸ hx)

lemma Inv.remove (t : τ) : Inv c (rtTimerRemove s t) :=
  h.shrink (h.rows.remove t) (sublist_remove t s.row c.last) rfl (fun _ => rfl) rfl rfl h.idle
    h.current

lemma Inv.write (t : τ) (x : Timer)
    (hx : x.timeoutTick = (s.timer t).timeoutTick) : Inv c (s.write t x) := by
  refine h.shrink h.rows (List.Sublist.refl _) rfl (fun u => ?_) rfl rfl h.idle h.current
  show (update s.timer t x u).timeoutTick = _
  by_cases hu : u = t
  · subst hu
    rw [update_self, hx]
  rw [update_of_ne hu]

lemma Inv.setActivated (t : τ) (b : Bool) : Inv c (s.setActivated t b) := h.write t _ rfl

/-! ## Runs -/

lemma inv_step {a : Action τ} (hstep : step c s a = some s') : Inv c s' := by
  cases move_of_step hstep with
  | start t s1 ho hs => exact (h.start hs).mark _
  | stop t ho ha => exact (h.remove t).setActivated t false
  | stopError t ho ha => exact h
  | detach t ho => exact (h.remove t).mark _
  | control t cmd ho =>
    cases cmd with
    | getTime => exact h
    | setTime time => exact h.write t _ rfl
    | setOneshot => exact h.write t _ rfl
    | setPeriodic => exact h.write t _ rfl
  | tick hp => exact h.tick hp
  | check hp => exact h.checking
  | timeout t x hp hd =>
    exact h.shrink (h.rows.remove t) (sublist_remove t s.row c.last) rfl (fun _ => rfl) rfl rfl
      (by simp) (by simp)
  | restart t s1 hp hper ha hs => exact (h.checking.setActivated t false).start hs
  | finish t hp hno => exact h.checking.setActivated t false
  | leave x hp hd =>
    exact h.shrink h.rows (List.Sublist.refl _) rfl (fun _ => rfl) rfl rfl
      (fun _ u hu => (h.left_pos hp hd u hu).le) (by simp)

omit h in
lemma inv_of_run {s0 : State τ} {as : List (Action τ)} (h0 : Start s0)
    (h : exec (step c) s0 as = some s) : Inv c s :=
  inv_of_exec (fun _ _ _ hI hs => inv_step hI hs) (h0.inv c) h

omit h in
/-- **The timer list is ordered.** In every state of every run, each row is ordered by the time
that is left, timers that are due together standing in the order of their starts; each row is a
sublist of the one below; no linked timer has passed by more than the tick that is being handled, or
is `RT_TICK_MAX / 2` ticks ahead; and `rt_timer_next_timeout_tick` is the earliest timeout. -/
theorem timerList_ordered (c : Config) {s₀ s : State τ} {as : List (Action τ)} (h₀ : Start s₀)
    (h : exec (step c) s₀ as = some s) :
    (∀ i ≤ c.last, (s.row i).Pairwise s.Before) ∧
    (∀ i < c.last, List.Sublist (s.row i) (s.row (i + 1))) ∧
    (∀ t ∈ s.row c.last, -1 ≤ s.left t ∧ s.left t < half.toNat) ∧
    (s.phase = .idle → ∀ t ∈ s.row c.last, 0 ≤ s.left t) ∧
    (s.row c.last = [] ∧ rtTimerNextTimeoutTick c s = 0xffffffff ∨
      ∃ t ∈ s.row c.last, rtTimerNextTimeoutTick c s = (s.timer t).timeoutTick ∧
        ∀ u ∈ s.row c.last, s.left t ≤ s.left u) := by
  have hinv := inv_of_run h₀ h
  exact ⟨fun i hi => hinv.order.sublist (hinv.rows.sublist hi), hinv.rows.sub, hinv.near, hinv.idle,
    hinv.next⟩

end

def threeTimers : State (Fin 3) where
  tick := 0xfffffffe
  timer t := ⟨if t = 1 then 1 else 3, 0, false, false⟩
  row _ := []
  randomNr := 0
  phase := .idle
  starts := 0
  started _ := 0
  detached _ := false

lemma start_threeTimers : Start threeTimers := ⟨fun _ => rfl, fun _ => rfl, rfl, fun _ => rfl⟩

def overWrap : List (Action (Fin 3)) :=
  [.start 0, .start 1, .start 2, .tick, .check, .timeout 1, .start 1, .back, .leave]

theorem timerList_ordered_overWrap : ∃ s, exec (step ⟨1, 1⟩) threeTimers overWrap = some s ∧
    s.row 1 = [1, 0, 2] ∧ s.row 0 = [1] ∧ rtTimerNextTimeoutTick ⟨1, 1⟩ s = 0 ∧
    (s.row 1).Pairwise s.Before ∧ List.Sublist (s.row 0) (s.row 1) := by
  obtain ⟨s, hs, h1, h0, hnext⟩ : ∃ s, exec (step ⟨1, 1⟩) threeTimers overWrap = some s ∧
      s.row 1 = [1, 0, 2] ∧ s.row 0 = [1] ∧ rtTimerNextTimeoutTick ⟨1, 1⟩ s = 0 := by
    decide +kernel
  have hord := timerList_ordered ⟨1, 1⟩ start_threeTimers hs
  exact ⟨s, hs, h1, h0, hnext, hord.1 1 (le_rfl), hord.2.1 0 Nat.zero_lt_one⟩

end NbIot.Timers
