import Mathlib.Tactic

/-! # Machines that answer, and refinement between them

A machine takes actions one after the other and gives an answer to each. `run` is the state a list
of actions ends in, with the answers. One machine refines another if a relation between their
states is kept by every action and the answers are the same; `run_refines` carries this from one
action to every list of actions, under a condition on the actions that may depend on the state of
the abstract machine (`Allowed`).
-/

namespace NbIot.Refine

variable {σ τ α β : Type} {P : τ → α → Prop}

def run (step : σ → α → σ × β) : σ → List α → σ × List β
  | s, [] => (s, [])
  | s, a :: as => ((run step (step s a).1 as).1, (step s a).2 :: (run step (step s a).1 as).2)

def Allowed (step : τ → α → τ × β) (P : τ → α → Prop) : τ → List α → Prop
  | _, [] => True
  | t, a :: as => P t a ∧ Allowed step P (step t a).1 as

lemma allowed_of_forall {step : τ → α → τ × β} (h : ∀ t a, P t a) (t : τ)
    (as : List α) : Allowed step P t as := by
  induction as generalizing t with
  | nil => trivial
  | cons a as ih => exact ⟨h t a, ih _⟩

lemma run_refines {f : σ → α → σ × β} {g : τ → α → τ × β} {R : σ → τ → Prop}
    (hstep : ∀ s t a, R s t → P t a → R (f s a).1 (g t a).1 ∧ (f s a).2 = (g t a).2)
    {s : σ} {t : τ} {as : List α} (hR : R s t) (hP : Allowed g P t as) :
    R (run f s as).1 (run g t as).1 ∧ (run f s as).2 = (run g t as).2 := by
  induction as generalizing s t with
  | nil => exact ⟨hR, rfl⟩
  | cons a as ih =>
    obtain ⟨hR', hans⟩ := hstep s t a hR hP.1
    obtain ⟨hend, hrest⟩ := ih hR' hP.2
    refine ⟨hend, ?_⟩
    simp only [run]
    rw [hans, hrest]

end NbIot.Refine
