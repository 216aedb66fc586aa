import NbIot.Timer.Order

/-! # The loop of `rt_timer_check`

A turn of the loop takes the first timer that is due out of the list, calls its timeout function,
and starts it again if it is periodic (`turn_spec`). When the timeout functions leave the timers
alone, a timer that was started again with a period of at least one tick is not due any more, so the
number of timers that are due goes down; one with the period zero stays due for ever
(`checkReturns_iff`).
-/

namespace NbIot.Timers

open WrapClock Function Option Run

/-! ## The loop of `rt_timer_check` -/

variable {τ : Type} [DecidableEq τ] {c : Config} {s s' : State τ} {t u : τ}

/-- Turns of the loop for the timers `ts`, whose timeout functions make no calls. -/
def fires (ts : List τ) : List (Action τ) := ts.flatMap fun t => [.timeout t, .back]

omit [DecidableEq τ] in
lemma fires_cons (ts : List τ) (a : Action τ) :
    fires (t :: ts) ++ [a] = [.timeout t, .back] ++ (fires ts ++ [a]) := by
  simp [fires]

/-- A call of `rt_timer_check` returns. -/
def CheckReturns (c : Config) (s : State τ) : Prop :=
  ∃ ts s', exec (step c) s (.check :: (fires ts ++ [.leave])) = some s'

/-- The head of the loop, with timers that `rt_timer_start` accepts. -/
structure Checking (c : Config) (s : State τ) : Prop extends Inv c s where
  phase : s.phase = .checking s.tick
  admitted : ∀ t, (s.timer t).initTick < half

def Again (s : State τ) (t : τ) : Prop :=
  (s.timer t).periodic = true ∧ (s.timer t).activated = true

/-! ## One turn -/

/-- What a turn for the timer `t` does. -/
structure Turn (c : Config) (s : State τ) (t : τ) (s' : State τ) : Prop where
  checking : Checking c s'
  tick : s'.tick = s.tick
  timer : ∀ u, u ≠ t ∨ Again s t → s'.timer u = if u = t then
    { s.timer t with timeoutTick := s.tick + (s.timer t).initTick } else s.timer u
  mem : ∀ u, u ∈ s'.row c.last ↔ if u = t then Again s t else u ∈ s.row c.last

lemma exists_started (h : (s.timer t).initTick < half) : ∃ s', rtTimerStart c s t = some s' := by
  simp [rtTimerStart, State.setActivated, State.write, rtTimerRemove, h]

lemma turn_spec (h : Checking c s) (hd : dueTimer c s s.tick = some t) :
    ∃ s', exec (step c) s [.timeout t, .back] = some s' ∧ Turn c s t s' := by
  have hout : step c s (.timeout t) = some { rtTimerRemove s t with phase := .firing t } := by
    simp only [step, h.phase, hd, if_true]
  have hi := inv_step h.toInv hout
  suffices hback : ∃ s', step c { rtTimerRemove s t with phase := .firing t } .back = some s' ∧
      (Inv c s' → Turn c s t s') by
    obtain ⟨s', hs', hturn⟩ := hback
    exact ⟨s', by simp [exec_cons, hout, hs'], hturn (inv_step hi hs')⟩
  by_cases hagain : Again s t
  · obtain ⟨s', hs'⟩ := exists_started (t := t) (s := ({ rtTimerRemove s t with
      phase := .checking s.tick } : State τ).setActivated t false)
      (by simpa [State.setActivated, State.write, rtTimerRemove] using h.admitted t)
    have hst := started_of_rtTimerStart hs'
    have hmem := fun u => (hi.checking.setActivated t false).mem_start (u := u) hst
    have htimer : s'.timer = update s.timer t
        { s.timer t with timeoutTick := s.tick + (s.timer t).initTick } := by
      rw [hst.timer]
      simp [State.setActivated, State.write, rtTimerRemove, hagain.2]
    refine ⟨s', ?_, fun hi' => ⟨⟨hi', ?_, fun u => ?_⟩, hst.tick, fun u _ => ?_, fun u => ?_⟩⟩
    · exact (if_pos hagain).trans hs'
    · rw [hst.phase, hst.tick]
      rfl
    · rw [htimer]
      by_cases hu : u = t
      · simpa [hu] using h.admitted t
      simpa [hu] using h.admitted u
    · rw [htimer, update_apply]
    rw [hmem]
    show u = t ∨ u ∈ SkipList.remove t s.row c.last ↔ _
    rw [mem_remove]
    by_cases hu : u = t <;> simp [hu, hagain]
  refine ⟨_, if_neg hagain, fun hi' => ⟨⟨hi', rfl, fun u => ?_⟩, rfl, fun u hu => ?_, fun u => ?_⟩⟩
  · by_cases hu : u = t
    · simpa [State.setActivated, State.write, rtTimerRemove, hu] using h.admitted t
    simpa [State.setActivated, State.write, rtTimerRemove, hu] using h.admitted u
  · have hne := hu.resolve_right hagain
    simp [State.setActivated, State.write, rtTimerRemove, hne]
  show u ∈ SkipList.remove t s.row c.last ↔ _
  rw [mem_remove]
  by_cases hu : u = t <;> simp [hu, hagain]

lemma Turn.left_ne (h : Turn c s t s') (hu : u ≠ t) : s'.left u = s.left u := by
  rw [State.left, h.timer u (.inl hu), if_neg hu, h.tick]
  rfl

lemma Turn.left_self (h : Turn c s t s') (hagain : Again s t)
    (hlt : (s.timer t).initTick < half) : s'.left t = (s.timer t).initTick.toNat := by
  rw [State.left, h.timer t (.inr hagain), if_pos rfl, h.tick]
  exact ahead_add hlt

/-! ## Timers that are due for ever -/

def Spins (c : Config) (s : State τ) (t : τ) : Prop :=
  t ∈ s.row c.last ∧ s.left t ≤ 0 ∧ Again s t ∧ (s.timer t).initTick = 0

lemma Spins.turn (hz : Spins c s u) (h : Turn c s t s') : Spins c s' u := by
  obtain ⟨hmem, hleft, hagain, hzero⟩ := hz
  by_cases hu : u = t
  · subst hu
    have htimer := h.timer u (.inr hagain)
    rw [if_pos rfl] at htimer
    refine ⟨(h.mem u).mpr (by simpa using hagain), ?_, ?_, by rw [htimer]; exact hzero⟩
    · rw [h.left_self hagain (by rw [hzero]; decide), hzero]
      rfl
    rw [Again, htimer]
    exact hagain
  have htimer := h.timer u (.inl hu)
  rw [if_neg hu] at htimer
  refine ⟨(h.mem u).mpr (by simpa [hu] using hmem), ?_, ?_, by rw [htimer]; exact hzero⟩
  · rwa [h.left_ne hu]
  rwa [Again, htimer]

lemma Spins.never (h : Checking c s) (hz : Spins c s u) (ts : List τ) :
    exec (step c) s (fires ts ++ [.leave]) = none := by
  induction ts generalizing s with
  | nil =>
    have hdue : dueTimer c s s.tick ≠ none := fun hd => by
      have := h.left_pos h.phase hd u hz.1
      have := hz.2.1
      omega
    simp [fires, exec_cons, step, h.phase, hdue]
  | cons t ts ih =>
    rw [fires_cons, exec_append]
    by_cases hd : dueTimer c s s.tick = some t
    · obtain ⟨s', hs', hturn⟩ := turn_spec h hd
      rw [hs']
      exact ih hturn.checking (hz.turn hturn)
    simp [exec_cons, step, h.phase, hd]

def due (c : Config) (s : State τ) : Finset τ := (s.row c.last).toFinset.filter (s.left · ≤ 0)

lemma mem_due : u ∈ due c s ↔ u ∈ s.row c.last ∧ s.left u ≤ 0 := by
  simp [due]

lemma leaves (h : Checking c s) (hz : ∀ u, ¬ Spins c s u) :
    ∃ ts s', exec (step c) s (fires ts ++ [.leave]) = some s' := by
  -- on the number of timers that are due
  induction hn : (due c s).card using Nat.strong_induction_on generalizing s with
  | _ n ih =>
    cases hd : dueTimer c s s.tick with
    | none => exact ⟨[], { s with phase := .idle }, by simp [fires, exec_cons, step, h.phase, hd]⟩
    | some t =>
      obtain ⟨s', hs', hturn⟩ := turn_spec h hd
      obtain ⟨hrow, hleft⟩ : t ∈ s.row c.last ∧ s.left t ≤ 0 := by
        unfold dueTimer at hd
        split at hd
        · cases hd
        rename_i u rest hrow
        simp only [ite_none_right_eq_some, Option.some.injEq] at hd
        obtain ⟨hlt, rfl⟩ := hd
        have hmem : u ∈ s.row c.last := by simp [hrow]
        exact ⟨hmem, (now_sub_lt_half_iff (h.near u hmem)).mp hlt⟩
      -- started again or not, `t` is not due any more
      have hnot : t ∉ due c s' := by
        intro hmem
        obtain ⟨hin, hle⟩ := mem_due.mp hmem
        have hagain : Again s t := by simpa using (hturn.mem t).mp hin
        rw [hturn.left_self hagain (h.admitted t)] at hle
        exact hz t ⟨hrow, hleft, hagain, BitVec.eq_of_toNat_eq (by simpa using hle)⟩
      have hsub : due c s' ⊆ due c s := by
        intro u hu
        have hne : u ≠ t := fun e => hnot (e ▸ hu)
        obtain ⟨hin, hle⟩ := mem_due.mp hu
        rw [hturn.left_ne hne] at hle
        exact mem_due.mpr ⟨by simpa [hne] using (hturn.mem u).mp hin, hle⟩
      have hcard : (due c s').card < n := hn ▸ Finset.card_lt_card
        ⟨hsub, fun hsup => hnot (hsup (mem_due.mpr ⟨hrow, hleft⟩))⟩
      -- a timer that spins now did so before
      have hz' : ∀ u, ¬ Spins c s' u := by
        rintro u ⟨hin, hle, hagain, hzero⟩
        have hdue := mem_due.mpr ⟨hin, hle⟩
        have hne : u ≠ t := fun e => hnot (e ▸ hdue)
        have htimer := hturn.timer u (.inl hne)
        rw [if_neg hne] at htimer
        rw [Again, htimer] at hagain
        rw [htimer] at hzero
        obtain ⟨hin, hle⟩ := mem_due.mp (hsub hdue)
        exact hz u ⟨hin, hle, hagain, hzero⟩
      obtain ⟨ts, s'', hs''⟩ := ih _ hcard hturn.checking hz' rfl
      exact ⟨t :: ts, s'', by rw [fires_cons, exec_append, hs', bind_some, hs'']⟩

/-! ## When the loop ends -/

lemma checkReturns_checking (hi : Inv c s) (hp : s.phase = .idle ∨ s.phase = .ticked)
    (hinit : ∀ t, (s.timer t).initTick < half) :
    CheckReturns c s ↔ ∀ t, ¬ Spins c s t := by
  have hc : Checking c { s with phase := .checking s.tick } := ⟨hi.checking, rfl, hinit⟩
  have henter : ∀ as, exec (step c) s (.check :: as)
      = exec (step c) { s with phase := .checking s.tick } as := fun as => by
    rw [exec_cons, step, if_pos hp, bind_some]
  simp only [CheckReturns, henter]
  constructor
  · rintro ⟨ts, s', hs'⟩ t hz
    have hnone := Spins.never hc hz ts
    rw [hnone] at hs'
    cases hs'
  exact fun hz => leaves hc hz

/-- **`rt_timer_check` returns** after finitely many timeout functions that make no calls on timers,
in a state of any run with periods below `RT_TICK_MAX / 2`, if and only if none of the timers that
are due is periodic with the period zero. -/
theorem checkReturns_iff (c : Config) {s₀ s : State τ} {as : List (Action τ)} (h₀ : Start s₀)
    (h : exec (step c) s₀ as = some s) (hp : s.phase = .idle ∨ s.phase = .ticked)
    (hinit : ∀ t, (s.timer t).initTick < half) :
    CheckReturns c s ↔ ∀ t ∈ s.row c.last, s.left t ≤ 0 → (s.timer t).periodic = true →
      (s.timer t).activated = true → (s.timer t).initTick ≠ 0 := by
  rw [checkReturns_checking (inv_of_run h₀ h) hp hinit]
  constructor
  · intro hz t hmem hleft hper hact hzero
    exact hz t ⟨hmem, hleft, ⟨hper, hact⟩, hzero⟩
  rintro hz t ⟨hmem, hleft, ⟨hper, hact⟩, hzero⟩
  exact hz t hmem hleft hper hact hzero

/-- A timer that is not periodic and one with the period 1 are due. -/
theorem checkReturns_iff_due :
    ∃ s, exec (step ⟨1, 1⟩) threeTimers [.control 2 (.setTime 1), .control 2 .setPeriodic, .start 1,
      .start 2, .tick] = some s ∧ s.row 1 = [1, 2] ∧ CheckReturns ⟨1, 1⟩ s := by
  have hrun : (exec (step ⟨1, 1⟩) threeTimers [.control 2 (.setTime 1), .control 2 .setPeriodic,
      .start 1, .start 2, .tick]).map
        (fun s => (s.phase, s.row 1, s.timer 0, s.timer 1, s.timer 2)) =
      some (.ticked, [1, 2], ⟨3, 0, false, false⟩, ⟨1, 0xffffffff, false, true⟩,
        ⟨1, 0xffffffff, true, true⟩) := by
    decide +kernel
  obtain ⟨s, hs, heq⟩ := map_eq_some_iff.mp hrun
  simp only [Prod.mk.injEq] at heq
  obtain ⟨hp, hrow, h0, h1, h2⟩ := heq
  refine ⟨s, hs, hrow, (checkReturns_iff ⟨1, 1⟩ start_threeTimers hs (.inr hp) fun t => ?_).mpr ?_⟩
  · fin_cases t
    · simp [h0, half]
    · simp [h1, half]
    simp [h2, half]
  intro t _ _ hper
  fin_cases t
  · simp [h0] at hper
  · simp [h1] at hper
  simp [h2]

/-- With the period zero, a periodic timer is due as soon as it is started, and the loop goes round
for ever. -/
theorem zeroPeriod_spins :
    ∃ s, exec (step ⟨1, 1⟩) threeTimers [.control 1 (.setTime 0), .control 1 .setPeriodic,
      .start 1] = some s ∧ ¬ CheckReturns ⟨1, 1⟩ s := by
  have hrun : (exec (step ⟨1, 1⟩) threeTimers [.control 1 (.setTime 0), .control 1 .setPeriodic,
      .start 1]).map (fun s => (s.phase, s.tick, s.row 1, s.timer 0, s.timer 1, s.timer 2)) =
      some (.idle, 0xfffffffe, [1], ⟨3, 0, false, false⟩, ⟨0, 0xfffffffe, true, true⟩,
        ⟨3, 0, false, false⟩) := by
    decide +kernel
  obtain ⟨s, hs, heq⟩ := map_eq_some_iff.mp hrun
  simp only [Prod.mk.injEq] at heq
  obtain ⟨hp, htick, hrow, h0, h1, h2⟩ := heq
  refine ⟨s, hs, fun hret => ?_⟩
  refine (checkReturns_checking (inv_of_run start_threeTimers hs) (.inl hp) fun t => ?_).mp hret 1
    ⟨by simp [hrow], ?_, ⟨by rw [h1], by rw [h1]⟩, by rw [h1]⟩
  · fin_cases t
    · simp [h0, half]
    · simp [h1, half]
    simp [h2, half]
  rw [State.left, htick, h1]
  decide

end NbIot.Timers
