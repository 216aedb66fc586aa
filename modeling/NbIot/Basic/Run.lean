import Mathlib.Tactic

/-! # Runs of a labelled transition system

A system is a partial function `step : σ → α → Option σ`: the action `a` taken in the state `s`
leads to `step s a`, and `none` means that the action has no next state there. A run is a list of
actions. Everything that is nondeterministic about a system is in the list, so a statement about
every run is a statement about every list of actions. `Meets C` says that every step of a run is
taken under the condition `C`, a condition on the action and the state before it.
-/

namespace NbIot.Run

open List

/-! ## Runs -/

variable {σ α : Type}

/-- The state in which the run of `as` from `s` ends. -/
def exec (step : σ → α → Option σ) : σ → List α → Option σ
  | s, [] => some s
  | s, a :: as => (step s a).bind fun s' => exec step s' as

/-- The run of `as` from `s` passes through `s'`: some prefix of it ends there. -/
def Reached (step : σ → α → Option σ) (s : σ) (as : List α) (s' : σ) : Prop :=
  ∃ as', as' <+: as ∧ exec step s as' = some s'

/-- Every step of the run is taken in a state and with an action that satisfy `C`. -/
def Meets (step : σ → α → Option σ) (C : σ → α → Prop) : σ → List α → Prop
  | _, [] => True
  | s, a :: as => C s a ∧ ∀ s', step s a = some s' → Meets step C s' as

instance decidableMeets (step : σ → α → Option σ) (C : σ → α → Prop)
    [∀ s a, Decidable (C s a)] : ∀ s as, Decidable (Meets step C s as)
  | _, [] => isTrue trivial
  | s, a :: as =>
    match h : step s a with
    | none => decidable_of_iff (C s a) (by simp [Meets, h])
    | some s' =>
      have := decidableMeets step C s' as
      decidable_of_iff (C s a ∧ Meets step C s' as) (by simp [Meets, h])

instance decidableResult {β : Type} (o : Option β) (P : β → Prop) [DecidablePred P] :
    Decidable (∃ b, o = some b ∧ P b) :=
  inferInstanceAs (Decidable (∃ b ∈ o, P b))

/-! ## Runs in pieces -/

variable {step : σ → α → Option σ} {as : List α} {s s' : σ}

section

variable {a : α}

@[simp] lemma exec_nil (s : σ) : exec step s [] = some s := rfl

lemma exec_cons (s : σ) (a : α) (as : List α) :
    exec step s (a :: as) = (step s a).bind fun s' => exec step s' as := rfl

lemma exec_cons_eq_some :
    exec step s (a :: as) = some s' ↔ ∃ t, step s a = some t ∧ exec step t as = some s' := by
  rw [exec_cons, Option.bind_eq_some_iff]

lemma exec_append (s : σ) (as bs : List α) :
    exec step s (as ++ bs) = (exec step s as).bind fun s' => exec step s' bs := by
  induction as generalizing s with
  | nil => rfl
  | cons a as ih =>
    rw [cons_append, exec_cons, exec_cons]
    cases step s a with
    | none => rfl
    | some t => exact ih t

lemma exec_cut {bs : List α} (h : exec step s (as ++ a :: bs) = some s') :
    ∃ t u, exec step s as = some t ∧ step t a = some u ∧ exec step u bs = some s' := by
  rw [exec_append, Option.bind_eq_some_iff] at h
  obtain ⟨t, ht, hrest⟩ := h
  obtain ⟨u, hu, hbs⟩ := exec_cons_eq_some.mp hrest
  exact ⟨t, u, ht, hu, hbs⟩

lemma reached_last (h : exec step s as = some s') : Reached step s as s' := ⟨as, prefix_rfl, h⟩

lemma reached_nil : Reached step s [] s' ↔ s' = s := by
  constructor
  · rintro ⟨as', hpre, h⟩
    rw [prefix_nil.mp hpre] at h
    exact (Option.some.inj h).symm
  rintro rfl
  exact reached_last rfl

lemma reached_cons :
    Reached step s (a :: as) s' ↔ s' = s ∨ ∃ t, step s a = some t ∧ Reached step t as s' := by
  constructor
  · rintro ⟨as', hpre, h⟩
    cases as' with
    | nil => exact .inl (Option.some.inj h).symm
    | cons b bs =>
      obtain ⟨rfl, hbs⟩ := cons_prefix_cons.mp hpre
      obtain ⟨t, ht, h'⟩ := exec_cons_eq_some.mp h
      exact .inr ⟨t, ht, bs, hbs, h'⟩
  rintro (rfl | ⟨t, ht, bs, hbs, h⟩)
  · exact ⟨[], nil_prefix, rfl⟩
  exact ⟨a :: bs, cons_prefix_cons.mpr ⟨rfl, hbs⟩, exec_cons_eq_some.mpr ⟨t, ht, h⟩⟩

end

/-! ## Invariants of runs -/

section

variable {C : σ → α → Prop} {I P : σ → Prop} {D : σ → α → Prop} {Q : α → Prop}

lemma meets_of_forall (h : ∀ s a, C s a) (s : σ) (as : List α) : Meets step C s as := by
  induction as generalizing s with
  | nil => trivial
  | cons a as ih => exact ⟨h s a, fun s' _ => ih s'⟩

lemma meets_of_forall_mem (h : ∀ a ∈ as, Q a) :
    Meets step (fun _ a => Q a) s as := by
  induction as generalizing s with
  | nil => trivial
  | cons a as ih =>
    exact ⟨h a mem_cons_self, fun s' _ => ih fun b hb => h b (mem_cons_of_mem a hb)⟩

lemma Meets.and (hC : Meets step C s as)
    (hD : Meets step D s as) : Meets step (fun s a => C s a ∧ D s a) s as := by
  induction as generalizing s with
  | nil => trivial
  | cons a as ih => exact ⟨⟨hC.1, hD.1⟩, fun s' hs' => ih (hC.2 s' hs') (hD.2 s' hs')⟩

/-- **The invariant rule.** What holds at the start and is kept by every step taken under `C`
holds at the end of every run whose steps are all taken under `C`. -/
theorem inv_of_meets (hstep : ∀ s a s', I s → C s a → step s a = some s' → I s') (hs : I s)
    (hC : Meets step C s as) (h : exec step s as = some s') : I s' := by
  induction as generalizing s with
  | nil =>
    obtain rfl : s = s' := Option.some.inj h
    exact hs
  | cons a as ih =>
    obtain ⟨t, ht, h'⟩ := exec_cons_eq_some.mp h
    exact ih (hstep s a t hs hC.1 ht) (hC.2 t ht) h'

lemma inv_of_exec (hstep : ∀ s a s', I s → step s a = some s' → I s')
    (hs : I s) (h : exec step s as = some s') : I s' :=
  inv_of_meets (fun t a t' hI _ => hstep t a t' hI) hs
    (meets_of_forall (fun _ _ => trivial) s as) h

lemma inv_of_forall_mem (hstep : ∀ s a s', I s → Q a → step s a = some s' → I s')
    (hs : I s) (hQ : ∀ a ∈ as, Q a) (h : exec step s as = some s') : I s' :=
  inv_of_meets hstep hs (meets_of_forall_mem hQ) h

/-- `Meets` read at the cuts of the run: before every action, in the state the run has come to,
the condition holds. -/
theorem meets_iff_forall_cut : Meets step C s as ↔
      ∀ pre a, pre ++ [a] <+: as → ∀ t, exec step s pre = some t → C t a := by
  induction as generalizing s with
  | nil =>
    refine ⟨fun _ pre a hpre => ?_, fun _ => trivial⟩
    simp at hpre
  | cons b bs ih =>
    constructor
    · rintro ⟨hC, hM⟩ pre a hpre t ht
      cases pre with
      | nil =>
        obtain rfl : a = b := (cons_prefix_cons.mp hpre).1
        obtain rfl : s = t := Option.some.inj ht
        exact hC
      | cons c cs =>
        obtain ⟨rfl, hcs⟩ := cons_prefix_cons.mp hpre
        obtain ⟨u, hu, ht'⟩ := exec_cons_eq_some.mp ht
        exact ih.mp (hM u hu) cs a hcs t ht'
    intro hall
    refine ⟨hall [] b (cons_prefix_cons.mpr ⟨rfl, nil_prefix⟩) s rfl, ?_⟩
    intro u hu
    refine ih.mpr fun pre a hpre t ht => ?_
    exact hall (b :: pre) a (cons_prefix_cons.mpr ⟨rfl, hpre⟩) t
      (exec_cons_eq_some.mpr ⟨u, hu, ht⟩)

lemma Meets.shorten {bs : List α} (h : Meets step C s bs) (hpre : as <+: bs) : Meets step C s as :=
  meets_iff_forall_cut.mpr fun pre a hp => meets_iff_forall_cut.mp h pre a (hp.trans hpre)

lemma exec_isSome_of_meets (hstep : ∀ s a, I s → C s a → ∃ s', step s a = some s' ∧ I s') (hs : I s)
    (hC : Meets step C s as) : ∃ s', exec step s as = some s' ∧ I s' := by
  induction as generalizing s with
  | nil => exact ⟨s, rfl, hs⟩
  | cons a as ih =>
    obtain ⟨t, ht, hI⟩ := hstep s a hs hC.1
    obtain ⟨s', hs', hI'⟩ := ih hI (hC.2 t ht)
    exact ⟨s', exec_cons_eq_some.mpr ⟨t, ht, hs'⟩, hI'⟩

/-- **The two-sided rule.** In a run whose steps all meet `D`, let `I` be kept by every step,
and let a step from an `I` state with `P` end in a `P` state exactly when it is taken under `C`.
Then `P` holds in every state of the run if and only if every step meets `C`. -/
theorem always_iff_meets (hI : ∀ s a s', I s → D s a → step s a = some s' → I s')
    (hP : ∀ s a s', I s → D s a → P s → step s a = some s' → (P s' ↔ C s a)) (hs : I s) (hPs : P s)
    (hD : Meets step D s as) (h : exec step s as = some s') :
    (∀ t, Reached step s as t → P t) ↔ Meets step C s as := by
  induction as generalizing s with
  | nil => exact ⟨fun _ => trivial, fun _ t ht => by rw [reached_nil.mp ht]; exact hPs⟩
  | cons a as ih =>
    obtain ⟨u, hu, h'⟩ := exec_cons_eq_some.mp h
    have hIu : I u := hI s a u hs hD.1 hu
    have hDu : Meets step D u as := hD.2 u hu
    constructor
    · intro hall
      have hPu : P u := hall u (reached_cons.mpr (.inr ⟨u, hu, [], nil_prefix, rfl⟩))
      refine ⟨(hP s a u hs hD.1 hPs hu).mp hPu, fun v hv => ?_⟩
      obtain rfl : u = v := Option.some.inj (hu.symm.trans hv)
      exact (ih hIu hPu hDu h').mp fun t ht =>
        hall t (reached_cons.mpr (.inr ⟨u, hu, ht⟩))
    rintro ⟨hC, hM⟩ t ht
    have hPu : P u := (hP s a u hs hD.1 hPs hu).mpr hC
    rcases reached_cons.mp ht with rfl | ⟨v, hv, ht'⟩
    · exact hPs
    obtain rfl : u = v := Option.some.inj (hu.symm.trans hv)
    exact (ih hIu hPu hDu h').mpr (hM u hu) t ht'

/-- Two conditions that agree under an invariant, which the steps under one of them keep, are met by
the same runs. -/
theorem meets_iff_of_inv {L : σ → α → Prop}
    (hI : ∀ s a s', I s → D s a → C s a → step s a = some s' → I s')
    (hL : ∀ s a, I s → D s a → (L s a ↔ C s a)) (hs : I s) (hD : Meets step D s as) :
    Meets step L s as ↔ Meets step C s as := by
  induction as generalizing s with
  | nil => exact Iff.rfl
  | cons a as ih =>
    have hiff := hL s a hs hD.1
    constructor
    · rintro ⟨hLs, hM⟩
      have hC := hiff.mp hLs
      exact ⟨hC, fun u hu => (ih (hI s a u hs hD.1 hC hu) (hD.2 u hu)).mp (hM u hu)⟩
    rintro ⟨hC, hM⟩
    exact ⟨hiff.mpr hC, fun u hu => (ih (hI s a u hs hD.1 hC hu) (hD.2 u hu)).mpr (hM u hu)⟩

end

/-- In a system with one party this is `0`. -/
instance neZero_one : NeZero 1 := ⟨Nat.succ_ne_zero 0⟩

/-- In a system of two parties these are `0` and `1`. -/
instance neZero_two : NeZero 2 := ⟨Nat.succ_ne_zero 1⟩

/-- In a system of three parties these are `0`, `1` and `2`. -/
instance neZero_three : NeZero 3 := ⟨Nat.succ_ne_zero 2⟩

end NbIot.Run
