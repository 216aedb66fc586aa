import Mathlib.Tactic

/-! # Cells in custody

A fixed set of cells that are linked in the lists of a component while nobody uses them, and handed
out to a party that uses one. `Custody cells l held` says that every cell is in `l` or held by one
party, never both and never twice: `l` is all that is linked, in whatever lists, and `held c` is
the cell that the party `c` has.
-/

namespace NbIot

variable {C α : Type}

/-- Every cell is in `l` or held by exactly one party. -/
structure Custody (cells : Set α) (l : List α) (held : C → Option α) : Prop where
  nodup : l.Nodup
  apart : ∀ {c a}, held c = some a → a ∉ l
  unique : ∀ {c c' a}, held c = some a → held c' = some a → c = c'
  cover : ∀ a, a ∈ cells ↔ a ∈ l ∨ ∃ c, held c = some a

namespace Custody

variable {cells : Set α} {l l' : List α} {held : C → Option α} {a : α} {c : C}

lemma of_nodup (hl : l.Nodup) (hcells : ∀ a, a ∈ cells ↔ a ∈ l) (hheld : ∀ c, held c = none) :
    Custody cells l held := by
  refine ⟨hl, ?_, ?_, ?_⟩
  · intro c a h
    simp [hheld] at h
  · intro c c' a h
    simp [hheld] at h
  simp [hcells, hheld]

lemma perm (h : Custody cells l held) (hp : l'.Perm l) : Custody cells l' held := by
  refine ⟨hp.nodup_iff.mpr h.nodup, fun hc => ?_, h.unique, fun a => ?_⟩
  · rw [hp.mem_iff]
    exact h.apart hc
  rw [hp.mem_iff]
  exact h.cover a

variable [DecidableEq C]

lemma take (h : Custody cells (a :: l) held) (hc : held c = none) :
    Custody cells l (Function.update held c (some a)) := by
  obtain ⟨hnot, hnd⟩ := List.nodup_cons.mp h.nodup
  have hother : ∀ {c' b}, c' ≠ c → held c' = some b → b ≠ a := by
    rintro c' b - hb rfl
    exact h.apart hb (by simp)
  refine ⟨hnd, ?_, ?_, ?_⟩
  · intro c' b hb
    by_cases hcc : c' = c
    · obtain rfl : a = b := by simpa [hcc] using hb
      exact hnot
    exact fun hm => h.apart (by simpa [hcc] using hb) (List.mem_cons_of_mem a hm)
  · intro c1 c2 b h1 h2
    by_cases e1 : c1 = c
    · by_cases e2 : c2 = c
      · rw [e1, e2]
      obtain rfl : a = b := by simpa [e1] using h1
      exact absurd rfl (hother e2 (by simpa [e2] using h2))
    by_cases e2 : c2 = c
    · obtain rfl : a = b := by simpa [e2] using h2
      exact absurd rfl (hother e1 (by simpa [e1] using h1))
    exact h.unique (by simpa [e1] using h1) (by simpa [e2] using h2)
  intro b
  rw [h.cover b, List.mem_cons]
  constructor
  · rintro ((rfl | hb) | ⟨c', hb⟩)
    · exact .inr ⟨c, by simp⟩
    · exact .inl hb
    have hcc : c' ≠ c := by
      rintro rfl
      simp [hc] at hb
    exact .inr ⟨c', by simpa [hcc] using hb⟩
  rintro (hb | ⟨c', hb⟩)
  · exact .inl (.inr hb)
  by_cases hcc : c' = c
  · exact .inl (.inl (by simpa [hcc, eq_comm] using hb))
  exact .inr ⟨c', by simpa [hcc] using hb⟩

lemma put (h : Custody cells l held) (hc : held c = some a) :
    Custody cells (a :: l) (Function.update held c none) := by
  have hkeep : ∀ {c' b}, Function.update held c none c' = some b → c' ≠ c ∧ held c' = some b := by
    intro c' b hb
    by_cases hcc : c' = c
    · simp [hcc] at hb
    exact ⟨hcc, by simpa [hcc] using hb⟩
  refine ⟨List.nodup_cons.mpr ⟨h.apart hc, h.nodup⟩, ?_, ?_, ?_⟩
  · intro c' b hb
    obtain ⟨hcc, hb⟩ := hkeep hb
    rw [List.mem_cons]
    rintro (rfl | hm)
    · exact hcc (h.unique hb hc)
    exact h.apart hb hm
  · intro c1 c2 b h1 h2
    exact h.unique (hkeep h1).2 (hkeep h2).2
  intro b
  rw [h.cover b, List.mem_cons]
  constructor
  · rintro (hb | ⟨c', hb⟩)
    · exact .inl (.inr hb)
    by_cases hcc : c' = c
    · subst hcc
      exact .inl (.inl (Option.some.inj (hb.symm.trans hc)))
    exact .inr ⟨c', by simpa [hcc] using hb⟩
  rintro ((rfl | hb) | ⟨c', hb⟩)
  · exact .inr ⟨c, hc⟩
  · exact .inl hb
  exact .inr ⟨c', (hkeep hb).2⟩

end Custody

end NbIot
