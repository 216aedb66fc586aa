import NbIot.Timer.Order

/-! # The activation flag and detached timers

`RT_TIMER_FLAG_ACTIVATED` is meant to say whether a timer is linked in the list. Two calls leave it
wrong. `rt_timer_detach` unlinks a timer and leaves its flag set. `rt_timer_check` clears the flag
of a timer that is not periodic when its timeout function has returned, although the function may
have started the timer again. `flagExact_iff` says that these are the only two.
-/

namespace NbIot.Timers

open Function Run

/-! ## What a call does to the flags -/

variable {τ : Type} [DecidableEq τ]

variable {c : Config} {s s' : State τ} {t u : τ} {a : Action τ}

omit [DecidableEq τ] in
lemma mem_of_dueTimer {x : BitVec 32} (h : dueTimer c s x = some t) : t ∈ s.row c.last := by
  unfold dueTimer at h
  split at h
  · simp at h
  rename_i u rest hrow
  simp only [Option.ite_none_right_eq_some, Option.some.injEq] at h
  rw [hrow, h.2]
  exact List.mem_cons_self

lemma setActivated_activated (s : State τ) (t : τ) (b : Bool) (u : τ) :
    ((s.setActivated t b).timer u).activated = if u = t then b else (s.timer u).activated := by
  by_cases hu : u = t
  · subst hu
    simp [State.setActivated, State.write]
  simp [State.setActivated, State.write, hu]

lemma Started.activated (hs : Started c s t s') (u : τ) :
    (s'.timer u).activated = if u = t then true else (s.timer u).activated := by
  by_cases hu : u = t
  · subst hu
    simp [hs.timer]
  simp [hs.timer_ne hu, hu]

lemma control_activated (s : State τ) (t : τ) (cmd : Cmd) (u : τ) :
    ((rtTimerControl s t cmd).2.timer u).activated = (s.timer u).activated := by
  by_cases hu : u = t
  · subst hu
    cases cmd <;> simp [rtTimerControl, State.write]
  cases cmd <;> simp [rtTimerControl, State.write, update_of_ne hu]

lemma control_row (s : State τ) (t : τ) (cmd : Cmd) : (rtTimerControl s t cmd).2.row = s.row := by
  cases cmd <;> rfl

lemma control_phase (s : State τ) (t : τ) (cmd : Cmd) :
    (rtTimerControl s t cmd).2.phase = s.phase := by
  cases cmd <;> rfl

lemma control_detached (s : State τ) (t : τ) (cmd : Cmd) :
    (rtTimerControl s t cmd).2.detached = s.detached := by
  cases cmd <;> rfl

lemma rtTimerStop_error : (rtTimerStop s t).1 = .error ↔ (s.timer t).activated = false := by
  unfold rtTimerStop
  split
  · rename_i ha
    simp [ha]
  rename_i ha
  simpa using ha

/-! ## The flag of a timer -/

/-- Every timer is linked exactly if its flag is set, but for the one whose timeout function is
running; and `rt_timer_stop` fails only for timers that are not linked. -/
def FlagExact (c : Config) (s : State τ) : Prop :=
  (∀ t, s.phase ≠ .firing t → (t ∈ s.row c.last ↔ (s.timer t).activated = true)) ∧
  ∀ t, (rtTimerStop s t).1 = .error → t ∉ s.row c.last

/-- The condition on a step: no timer with its flag set is detached, unless by its own timeout
function, and a timeout function does not leave its timer started, unless the timer is periodic. -/
def KeepsFlag (c : Config) (s : State τ) : Action τ → Prop
  | .detach t => s.phase ≠ .firing t → (s.timer t).activated = false
  | .back =>
    match s.phase with
    | .firing t => t ∈ s.row c.last → (s.timer t).periodic = true
    | _ => True
  | _ => True

instance (c : Config) (s : State τ) (a : Action τ) : Decidable (KeepsFlag c s a) := by
  unfold KeepsFlag
  split
  · infer_instance
  · split <;> infer_instance
  infer_instance

lemma flagExact_def : FlagExact c s ↔
    (∀ t, s.phase ≠ .firing t → (t ∈ s.row c.last ↔ (s.timer t).activated = true)) ∧
    ∀ t, t ∈ s.row c.last → (s.timer t).activated = true := by
  refine and_congr_right fun _ => forall_congr' fun t => ?_
  rw [rtTimerStop_error, imp_not_comm, Bool.not_eq_false]

lemma Start.flagExact {s : State τ} (h : Start s) (c : Config) : FlagExact c s := by
  rw [flagExact_def]
  refine ⟨fun t _ => ?_, fun t ht => ?_⟩
  · rw [h.row, h.activated]
    simp
  rw [h.row] at ht
  simp at ht

lemma flagExact_start (hI : Inv c s) (hs : Started c s t s')
    (hex : ∀ u, u ≠ t → s.phase ≠ .firing u → (u ∈ s.row c.last ↔ (s.timer u).activated = true))
    (hset : ∀ u, u ≠ t → u ∈ s.row c.last → (s.timer u).activated = true) : FlagExact c s' := by
  rw [flagExact_def]
  refine ⟨fun u hu => ?_, fun u hu => ?_⟩
  · rw [hI.mem_start hs, hs.activated]
    by_cases hut : u = t
    · simp [hut]
    rw [hs.phase] at hu
    simp [hex u hut hu]
  rw [hs.activated]
  rw [hI.mem_start hs] at hu
  by_cases hut : u = t
  · simp [hut]
  simp [hset u hut (hu.resolve_left hut)]

lemma FlagExact.congr (h : FlagExact c s) (hrow : s'.row = s.row)
    (hact : ∀ u, (s'.timer u).activated = (s.timer u).activated)
    (hphase : ∀ u, s'.phase ≠ .firing u → s.phase ≠ .firing u) : FlagExact c s' := by
  rw [flagExact_def] at h ⊢
  refine ⟨fun u hu => ?_, fun u hu => ?_⟩
  · rw [hrow, hact]
    exact h.1 u (hphase u hu)
  rw [hact]
  rw [hrow] at hu
  exact h.2 u hu

lemma FlagExact.stop (h : FlagExact c s) :
    FlagExact c ((rtTimerRemove s t).setActivated t false) := by
  rw [flagExact_def] at h ⊢
  have hmem : ∀ u, u ∈ ((rtTimerRemove s t).setActivated t false).row c.last ↔
      u ∈ s.row c.last ∧ u ≠ t := fun u => mem_remove
  have hact := setActivated_activated (rtTimerRemove s t) t false
  refine ⟨fun u hu => ?_, fun u hu => ?_⟩
  · rw [hmem, hact]
    by_cases hut : u = t
    · simp [hut]
    rw [if_neg hut]
    exact (and_iff_left hut).trans (h.1 u hu)
  obtain ⟨hrow, hut⟩ := (hmem u).mp hu
  rw [hact, if_neg hut]
  exact h.2 u hrow

lemma flagExact_detach (h : FlagExact c s) (d : τ → Bool) :
    FlagExact c { rtTimerRemove s t with detached := d } ↔
      (s.phase ≠ .firing t → (s.timer t).activated = false) := by
  rw [flagExact_def] at h ⊢
  have hmem : ∀ u, u ∈ SkipList.remove t s.row c.last ↔ u ∈ s.row c.last ∧ u ≠ t :=
    fun u => mem_remove
  constructor
  · rintro ⟨hex, _⟩ hp
    have ht := hex t hp
    -- `t` is unlinked now
    exact Bool.eq_false_iff.mpr fun ha => ((hmem t).mp (ht.mpr ha)).2 rfl
  intro hcond
  refine ⟨fun u hu => ?_, fun u hu => h.2 u ((hmem u).mp hu).1⟩
  show u ∈ SkipList.remove t s.row c.last ↔ _
  rw [hmem]
  by_cases hut : u = t
  · subst hut
    simp [rtTimerRemove, hcond hu]
  exact (and_iff_left hut).trans (h.1 u hu)

lemma FlagExact.timeout (h : FlagExact c s) {x : BitVec 32} (hp : s.phase = .checking x) :
    FlagExact c { rtTimerRemove s t with phase := .firing t } := by
  rw [flagExact_def] at h ⊢
  have hmem : ∀ u, u ∈ SkipList.remove t s.row c.last ↔ u ∈ s.row c.last ∧ u ≠ t :=
    fun u => mem_remove
  refine ⟨fun u hu => ?_, fun u hu => h.2 u ((hmem u).mp hu).1⟩
  have hut : u ≠ t := fun heq => hu (congrArg Phase.firing heq.symm)
  have hidle : s.phase ≠ .firing u := by rw [hp]; simp
  exact (hmem u).trans ((and_iff_left hut).trans (h.1 u hidle))

lemma flagExact_finish (h : FlagExact c s) (hp : s.phase = .firing t)
    (hno : ¬ ((s.timer t).periodic = true ∧ (s.timer t).activated = true)) :
    FlagExact c ({ s with phase := .checking s.tick }.setActivated t false) ↔
      (t ∈ s.row c.last → (s.timer t).periodic = true) := by
  rw [flagExact_def] at h ⊢
  have hact := setActivated_activated { s with phase := .checking s.tick } t false
  constructor
  · rintro ⟨_, hset⟩ ht
    have hfalse := hset t ht
    rw [hact] at hfalse
    simp at hfalse
  intro hcond
  -- if it were linked, its flag would be set, and it would be periodic: it would be started again
  have hnot : t ∉ s.row c.last := fun ht => hno ⟨hcond ht, h.2 t ht⟩
  refine ⟨fun u _ => ?_, fun u hu => ?_⟩
  · rw [hact]
    by_cases hut : u = t
    · subst hut
      simpa [State.setActivated, State.write] using hnot
    have hother : s.phase ≠ .firing u := by
      rw [hp]
      exact fun heq => hut (Phase.firing.inj heq).symm
    rw [if_neg hut]
    exact h.1 u hother
  have hut : u ≠ t := fun heq => hnot (heq ▸ hu)
  rw [hact, if_neg hut]
  exact h.2 u hu

lemma flagExact_step (hI : Inv c s) (h : FlagExact c s)
    (hstep : step c s a = some s') : FlagExact c s' ↔ KeepsFlag c s a := by
  cases move_of_step hstep with
  | start t s1 ho hs =>
    refine iff_of_true ?_ trivial
    rw [flagExact_def] at h
    have hstart := flagExact_start hI hs (fun u _ => h.1 u) fun u _ => h.2 u
    exact hstart.congr rfl (fun _ => rfl) fun _ hu => hu
  | stop t ho ha => exact iff_of_true h.stop trivial
  | stopError t ho ha => exact iff_of_true h trivial
  | detach t ho => exact flagExact_detach h _
  | control t cmd ho =>
    refine iff_of_true (h.congr (control_row s t cmd) (control_activated s t cmd) ?_) trivial
    rw [control_phase]
    exact fun u hu => hu
  | tick hp | leave x hp hd => exact iff_of_true (h.congr rfl (fun _ => rfl) (by simp [hp])) trivial
  | check hp =>
    refine iff_of_true (h.congr rfl (fun _ => rfl) ?_) trivial
    rcases hp with hp | hp <;> simp [hp]
  | timeout t x hp hd => exact iff_of_true (h.timeout hp) trivial
  | restart t s1 hp hper ha hs =>
    have hcond : KeepsFlag c s .back := by
      simp [KeepsFlag, hp, hper]
    refine iff_of_true ?_ hcond
    rw [flagExact_def] at h
    have hact := setActivated_activated { s with phase := .checking s.tick } t false
    refine flagExact_start (hI.checking.setActivated t false) hs (fun u hut _ => ?_)
      fun u hut hu => ?_
    · have hother : s.phase ≠ .firing u := by
        rw [hp]
        exact fun heq => hut (Phase.firing.inj heq).symm
      rw [hact, if_neg hut]
      exact h.1 u hother
    rw [hact, if_neg hut]
    exact h.2 u hu
  | finish t hp hno =>
    have hcond : KeepsFlag c s .back ↔ (t ∈ s.row c.last → (s.timer t).periodic = true) := by
      simp [KeepsFlag, hp]
    rw [hcond]
    exact flagExact_finish h hp hno

/-- The timer will not be started by `rt_timer_check`: it is not linked, and if its timeout function
is running, its flag is not set. -/
def Quiet (c : Config) (t : τ) (s : State τ) : Prop :=
  t ∉ s.row c.last ∧ (s.phase = .firing t → (s.timer t).activated = false)

lemma quiet_step (h : Inv c s ∧ Quiet c t s) (ha : a ≠ .start t)
    (hstep : step c s a = some s') : Inv c s' ∧ Quiet c t s' := by
  obtain ⟨hI, hnot, hflag⟩ := h
  refine ⟨inv_step hI hstep, ?_⟩
  cases move_of_step hstep with
  | start u s1 ho hs =>
    have hne : t ≠ u := fun heq => ha (congrArg Action.start heq.symm)
    refine ⟨fun ht => ?_, fun hp => ?_⟩
    · exact ((hI.mem_start hs).mp ht).elim hne hnot
    rw [hs.activated, if_neg hne]
    exact hflag (hs.phase ▸ hp)
  | stop u ho hu =>
    refine ⟨fun ht => hnot (mem_remove.mp ht).1, fun hp => ?_⟩
    rw [setActivated_activated]
    split
    · rfl
    exact hflag hp
  | stopError u ho hu => exact ⟨hnot, hflag⟩
  | detach u ho => exact ⟨fun ht => hnot (mem_remove.mp ht).1, hflag⟩
  | control u cmd ho =>
    refine ⟨?_, ?_⟩
    · rw [control_row]
      exact hnot
    rw [control_phase, control_activated]
    exact hflag
  | tick hp => exact ⟨hnot, by simp⟩
  | check hp => exact ⟨hnot, by simp⟩
  | timeout u x hp hd =>
    refine ⟨fun ht => hnot (mem_remove.mp ht).1, fun hfire => ?_⟩
    -- the timer that fires was linked
    obtain rfl := Phase.firing.inj hfire
    exact absurd (mem_of_dueTimer hd) hnot
  | restart u s1 hp hper hu hs =>
    have hne : t ≠ u := by
      rintro rfl
      rw [hflag hp] at hu
      simp at hu
    refine ⟨fun ht => ?_, fun hfire => ?_⟩
    · exact (((hI.checking.setActivated u false).mem_start hs).mp ht).elim hne hnot
    rw [hs.phase] at hfire
    simp [State.setActivated, State.write] at hfire
  | finish u hp hno => exact ⟨hnot, by simp [State.setActivated, State.write]⟩
  | leave x hp hd => exact ⟨hnot, by simp⟩

lemma mem_of_timeout (h : step c s (.timeout t) = some s') : t ∈ s.row c.last := by
  cases move_of_step h with
  | timeout _ x hp hd => exact mem_of_dueTimer hd

/-- **The activation flag.** In all states of a run the flags say which timers are linked, if and
only if no timer with its flag set is detached, unless by its own timeout function, and no timeout
function of a timer that is not periodic leaves it started. In such a run, the timeout function of a
timer for which `rt_timer_stop` has failed is called again only after the timer has been started. -/
theorem flagExact_iff (c : Config) {s₀ s : State τ} {as : List (Action τ)} (h₀ : Start s₀)
    (h : exec (step c) s₀ as = some s) :
    ((∀ s₁, Reached (step c) s₀ as s₁ → FlagExact c s₁) ↔ Meets (step c) (KeepsFlag c) s₀ as) ∧
    (Meets (step c) (KeepsFlag c) s₀ as → ∀ as₁ as₂ as₃ t s₁,
      as = as₁ ++ .stop t :: (as₂ ++ .timeout t :: as₃) →
      exec (step c) s₀ as₁ = some s₁ → (rtTimerStop s₁ t).1 = .error →
      .start t ∈ as₂) := by
  have hiff : (∀ s₁, Reached (step c) s₀ as s₁ → FlagExact c s₁) ↔
      Meets (step c) (KeepsFlag c) s₀ as :=
    always_iff_meets (fun _ _ _ hI _ hs => inv_step hI hs)
      (fun _ _ _ hI _ hP hs => flagExact_step hI hP hs) (h₀.inv c) (h₀.flagExact c)
      (meets_of_forall (fun _ _ => trivial) _ _) h
  refine ⟨hiff, fun hmeets as₁ as₂ as₃ t s₁ heq hs₁ herr => ?_⟩
  by_contra hstart
  subst heq
  obtain ⟨s₁', s₂, hs₁', hstop, hrest⟩ := exec_cut h
  obtain rfl : s₁ = s₁' := Option.some.inj (hs₁.symm.trans hs₁')
  obtain ⟨s₃, s₄, hs₃, hfire, _⟩ := exec_cut hrest
  have hexact := hiff.mpr hmeets s₁ ⟨as₁, List.prefix_append _ _, hs₁⟩
  -- the failed stop finds the timer silent, and it stays so up to the timeout
  have hquiet : Inv c s₁ ∧ Quiet c t s₁ :=
    ⟨inv_of_run h₀ hs₁, hexact.2 t herr, fun _ => rtTimerStop_error.mp herr⟩
  have hquiet₂ := quiet_step hquiet (by simp) hstop
  have hquiet₃ := inv_of_forall_mem
    (fun _ _ _ hI ha hs => quiet_step hI ha hs) hquiet₂
    (fun a ha hat => hstart (hat ▸ ha)) hs₃
  exact hquiet₃.2.1 (mem_of_timeout hfire)

def twoTimers : State (Fin 2) where
  tick := 0
  timer t := ⟨1, 0, t = 1, false⟩
  row _ := []
  randomNr := 0
  phase := .idle
  starts := 0
  started _ := 0
  detached _ := false

lemma start_twoTimers : Start twoTimers := ⟨fun _ => rfl, fun _ => rfl, rfl, fun _ => rfl⟩

def bothDue : List (Action (Fin 2)) :=
  [.start 0, .start 1, .tick, .check, .timeout 0, .back, .timeout 1, .back, .leave, .stop 0,
    .start 0, .tick, .check, .timeout 1, .back, .timeout 0]

theorem flagExact_iff_bothDue : ∃ s, exec (step ⟨0, 3⟩) twoTimers bothDue = some s ∧ s.row 0 = [1] ∧
      ∀ s₁, Reached (step ⟨0, 3⟩) twoTimers bothDue s₁ → FlagExact ⟨0, 3⟩ s₁ := by
  obtain ⟨s, hs, hrow⟩ : ∃ s, exec (step ⟨0, 3⟩) twoTimers bothDue = some s ∧
      s.row 0 = [1] := by decide +kernel
  have hmeets : Meets (step ⟨0, 3⟩) (KeepsFlag ⟨0, 3⟩) twoTimers bothDue := by decide +kernel
  exact ⟨s, hs, hrow, (flagExact_iff ⟨0, 3⟩ start_twoTimers hs).1.mpr hmeets⟩

def restartOwn : List (Action (Fin 2)) :=
  [.start 0, .tick, .check, .timeout 0, .start 0, .back, .leave]

/-- The timer that has started itself again is linked, but its flag is clear: `rt_timer_stop` fails,
and the timer fires. And a timer that is detached while it is running keeps its flag. -/
theorem linked_without_flag :
    (∃ s, exec (step ⟨0, 3⟩) twoTimers restartOwn = some s ∧ s.phase = .idle ∧
      s.row 0 = [0] ∧ (s.timer 0).activated = false ∧ (rtTimerStop s 0).1 = .error ∧
      (exec (step ⟨0, 3⟩) s [.stop 0, .tick, .check, .timeout 0]).isSome = true) ∧
    ∃ s, exec (step ⟨0, 3⟩) twoTimers [.start 0, .detach 0] = some s ∧ s.phase = .idle ∧
      s.row 0 = [] ∧ (s.timer 0).activated = true := by
  decide +kernel

/-! ## Detached timers -/

def DetachedUnlinked (c : Config) (s : State τ) : Prop :=
  ∀ t, s.detached t = true → t ∉ s.row c.last

/-- The condition on a step: when a timeout function returns and its timer has been detached, the
timer is not periodic or its flag has been cleared. -/
def KeepsDetached (s : State τ) : Action τ → Prop
  | .back =>
    match s.phase with
    | .firing t => s.detached t = true →
        ¬ ((s.timer t).periodic = true ∧ (s.timer t).activated = true)
    | _ => True
  | _ => True

instance (s : State τ) (a : Action τ) : Decidable (KeepsDetached s a) := by
  unfold KeepsDetached
  split
  · split <;> infer_instance
  infer_instance

section

variable {t : τ}

omit [DecidableEq τ] in
lemma DetachedUnlinked.shrink (h : DetachedUnlinked c s)
    (hrow : ∀ u, u ∈ s'.row c.last → u ∈ s.row c.last)
    (hdet : ∀ u, u ∈ s'.row c.last → s'.detached u = true → s.detached u = true) :
    DetachedUnlinked c s' :=
  fun u hu hmem => h u (hdet u hmem hu) (hrow u hmem)

lemma detachedUnlinked_step (hI : Inv c s) (h : DetachedUnlinked c s)
    (hstep : step c s a = some s') : DetachedUnlinked c s' ↔ KeepsDetached s a := by
  cases move_of_step hstep with
  | start t s1 ho hs =>
    refine iff_of_true (fun u hu hmem => ?_) trivial
    change update s1.detached t false u = true at hu
    by_cases hut : u = t
    · subst hut
      simp at hu
    rw [update_of_ne hut, hs.detached] at hu
    exact h u hu (((hI.mem_start hs).mp hmem).resolve_left hut)
  | stop t ho ha | timeout t x hp hd =>
    exact iff_of_true (h.shrink (fun u hu => (mem_remove.mp hu).1) fun u _ hu => hu) trivial
  | stopError t ho ha => exact iff_of_true h trivial
  | detach t ho =>
    refine iff_of_true (h.shrink (fun u hu => (mem_remove.mp hu).1) fun u hmem hu => ?_) trivial
    change update s.detached t true u = true at hu
    rwa [update_of_ne (mem_remove.mp hmem).2] at hu
  | control t cmd ho =>
    refine iff_of_true (h.shrink (fun u => ?_) fun u _ => ?_) trivial
    · rw [control_row]
      exact id
    rw [control_detached]
    exact id
  | tick hp => exact iff_of_true h trivial
  | check hp => exact iff_of_true h trivial
  | restart t s1 hp hper ha hs =>
    have hcond : KeepsDetached s .back ↔ s.detached t = false := by
      simp [KeepsDetached, hp, hper, ha]
    have hmem : ∀ u, u ∈ s'.row c.last ↔ u = t ∨ u ∈ s.row c.last := fun u =>
      (hI.checking.setActivated t false).mem_start hs
    have hdet : s'.detached = s.detached := hs.detached
    rw [hcond]
    constructor
    · -- the timer is linked now
      intro hP
      exact Bool.eq_false_iff.mpr fun hd => hP t (hdet ▸ hd) ((hmem t).mpr (.inl rfl))
    intro hd u hu hlink
    rw [hdet] at hu
    rcases (hmem u).mp hlink with rfl | hlink
    · rw [hd] at hu
      simp at hu
    exact h u hu hlink
  | finish t hp hno =>
    have hcond : KeepsDetached s .back := by
      simpa [KeepsDetached, hp] using fun _ => not_and.mp hno
    exact iff_of_true (h.shrink (fun _ hu => hu) fun _ _ hu => hu) hcond
  | leave x hp hd => exact iff_of_true h trivial

lemma detached_step (h : s.detached t = true) (ha : a ≠ .start t)
    (hstep : step c s a = some s') : s'.detached t = true := by
  cases move_of_step hstep with
  | start u s1 ho hs =>
    have hne : t ≠ u := fun heq => ha (congrArg Action.start heq.symm)
    show update s1.detached u false t = true
    rw [update_of_ne hne, hs.detached, h]
  | stop u ho hu => exact h
  | stopError u ho hu => exact h
  | detach u ho =>
    show update s.detached u true t = true
    by_cases htu : t = u
    · subst htu
      exact update_self _ _ _
    rw [update_of_ne htu, h]
  | control u cmd ho =>
    rw [control_detached]
    exact h
  | tick hp => exact h
  | check hp => exact h
  | timeout u x hp hd => exact h
  | restart u s1 hp hper hu hs =>
    rw [hs.detached]
    exact h
  | finish u hp hno => exact h
  | leave x hp hd => exact h

/-- **Detached timers.** In all states of a run the timers that have been detached are not linked,
if and only if whenever a timeout function returns whose timer has been detached, that timer is not
both periodic and flagged as active. In such a run the timeout function of a timer that has been
detached is called again only after the timer has been started. -/
theorem detached_unlinked_iff (c : Config) {s₀ s : State τ} {as : List (Action τ)} (h₀ : Start s₀)
    (h : exec (step c) s₀ as = some s) :
    ((∀ s₁, Reached (step c) s₀ as s₁ → DetachedUnlinked c s₁) ↔
      Meets (step c) KeepsDetached s₀ as) ∧
    (Meets (step c) KeepsDetached s₀ as → ∀ as₁ as₂ as₃ t,
      as = as₁ ++ .detach t :: (as₂ ++ .timeout t :: as₃) → .start t ∈ as₂) := by
  have hinit : DetachedUnlinked c s₀ := fun t ht => by
    rw [h₀.detached t] at ht
    simp at ht
  have hiff : (∀ s₁, Reached (step c) s₀ as s₁ → DetachedUnlinked c s₁) ↔
      Meets (step c) KeepsDetached s₀ as :=
    always_iff_meets (fun _ _ _ hI _ hs => inv_step hI hs)
      (fun _ _ _ hI _ hP hs => detachedUnlinked_step hI hP hs) (h₀.inv c) hinit
      (meets_of_forall (fun _ _ => trivial) _ _) h
  refine ⟨hiff, fun hmeets as₁ as₂ as₃ t heq => ?_⟩
  by_contra hstart
  subst heq
  obtain ⟨s₁, s₂, hs₁, hdetach, hrest⟩ := exec_cut h
  obtain ⟨s₃, s₄, hs₃, hfire, hend⟩ := exec_cut hrest
  have hmark : s₂.detached t = true := by
    cases move_of_step hdetach with
    | detach _ ho => exact update_self _ _ _
  have hmark₃ : s₃.detached t = true :=
    inv_of_forall_mem (I := fun s : State τ => s.detached t = true)
      (fun _ _ _ hI ha hs => detached_step hI ha hs) hmark
      (fun a ha hat => hstart (hat ▸ ha)) hs₃
  -- the state in which the timeout function is called is one of the run
  have hreach : Reached (step c) s₀ (as₁ ++ .detach t :: (as₂ ++ .timeout t :: as₃)) s₃ := by
    refine ⟨as₁ ++ .detach t :: as₂, by simp, ?_⟩
    rw [exec_append, hs₁, Option.bind_some, exec_cons, hdetach, Option.bind_some, hs₃]
  exact hiff.mpr hmeets s₃ hreach t hmark₃ (mem_of_timeout hfire)

end

/-- The timeout function of the periodic timer stops and detaches its timer, which fires again after
it has been started. -/
def stopAndDetach : List (Action (Fin 2)) :=
  [.start 1, .tick, .check, .timeout 1, .stop 1, .detach 1, .back, .leave, .tick, .check, .leave,
    .start 1, .tick, .check, .timeout 1]

theorem detached_unlinked_iff_stopAndDetach :
    ∃ s, exec (step ⟨0, 3⟩) twoTimers stopAndDetach = some s ∧ s.phase = .firing 1 ∧
      ∀ s₁, Reached (step ⟨0, 3⟩) twoTimers stopAndDetach s₁ → DetachedUnlinked ⟨0, 3⟩ s₁ := by
  obtain ⟨s, hs, hphase⟩ : ∃ s, exec (step ⟨0, 3⟩) twoTimers stopAndDetach = some s ∧
      s.phase = .firing 1 := by decide +kernel
  have hmeets : Meets (step ⟨0, 3⟩) KeepsDetached twoTimers stopAndDetach := by decide +kernel
  exact ⟨s, hs, hphase, (detached_unlinked_iff ⟨0, 3⟩ start_twoTimers hs).1.mpr hmeets⟩

def detachOwn : List (Action (Fin 2)) := [.start 1, .tick, .check, .timeout 1, .detach 1]

/-- The detached timer is started again by `rt_timer_check` and fires with the next tick. -/
theorem detached_fires : ∃ s, exec (step ⟨0, 3⟩) twoTimers (detachOwn ++ [.back, .leave]) = some s ∧
      s.detached 1 = true ∧ s.row 0 = [1] ∧
      (exec (step ⟨0, 3⟩) s [.tick, .check, .timeout 1]).isSome = true := by
  decide +kernel

end NbIot.Timers
