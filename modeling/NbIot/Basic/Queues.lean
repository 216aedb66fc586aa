import Mathlib.Tactic

/-! # Intrusive queues

A family of lists `q : H → List T`, one for each head, whose members carry their own link node.
Since a member has one node, it can be taken out of whatever list it is in without naming that
list (`unlink`), and it must be in one list at most: `Separate q` says that no list has a
repetition and no two lists have a common member.
-/

namespace NbIot.Queues

open Function

variable {H T : Type} {q : H → List T} {l : List T}

/-- Take `t` out of the list it is in, if it is in one. -/
def unlink [DecidableEq T] (q : H → List T) (t : T) : H → List T := fun h => (q h).filter (· ≠ t)

/-- `t` is in none of the lists. -/
def Unlinked (q : H → List T) (t : T) : Prop := ∀ h, t ∉ q h

structure Separate (q : H → List T) : Prop where
  nodup : ∀ h, (q h).Nodup
  eq_of_mem : ∀ {h h' t}, t ∈ q h → t ∈ q h' → h = h'

section

variable [DecidableEq T] {h : H} {t : T}

@[simp] lemma mem_unlink {t u : T} : u ∈ unlink q t h ↔ u ∈ q h ∧ u ≠ t := by
  simp [unlink]

lemma unlinked_unlink (q : H → List T) (t : T) : Unlinked (unlink q t) t := by
  intro h hmem
  exact (mem_unlink.mp hmem).2 rfl

lemma unlink_apply_of_notMem (ht : t ∉ q h) : unlink q t h = q h := by
  apply List.filter_eq_self.mpr
  intro u hu
  have hne : u ≠ t := fun e => ht (e ▸ hu)
  simp [hne]

lemma unlink_of_unlinked (ht : Unlinked q t) : unlink q t = q :=
  funext fun h => unlink_apply_of_notMem (ht h)

lemma unlink_apply_of_cons {l : List T} (hq : q h = t :: l)
    (hnd : (q h).Nodup) : unlink q t h = l := by
  rw [hq] at hnd
  have hnot : t ∉ l := (List.nodup_cons.mp hnd).1
  have hl : unlink (fun _ : H => l) t h = l := unlink_apply_of_notMem hnot
  calc unlink q t h = (t :: l).filter (· ≠ t) := by rw [unlink, hq]
    _ = l.filter (· ≠ t) := List.filter_cons_of_neg (by simp)
    _ = l := hl

end

/-- An entry is replaced by one with the same value of `g`. -/
theorem update_keeps {A B : Type} [DecidableEq H] (g : A → B) {f : H → A} {h : H} {a : A}
    (h' : H) (ha : g a = g (f h) := by rfl) : g (update f h a h') = g (f h') := by
  rw [apply_update (fun _ => g), ha]
  exact congrFun (update_eq_self h fun x => g (f x)) h'

lemma mem_update_perm [DecidableEq H] {t u : T} {h h' : H} (hl : l.Perm (t :: q h)) :
    u ∈ update q h l h' ↔ u ∈ q h' ∨ (h' = h ∧ u = t) := by
  by_cases e : h' = h
  · subst e
    rw [update_self, hl.mem_iff, List.mem_cons]
    constructor
    · rintro (hu | hu)
      · exact .inr ⟨rfl, hu⟩
      exact .inl hu
    rintro (hu | ⟨_, hu⟩)
    · exact .inr hu
    exact .inl hu
  simp [e]

lemma Separate.unlink [DecidableEq T] (hq : Separate q) (t : T) : Separate (unlink q t) := by
  refine ⟨fun h => (hq.nodup h).filter _, ?_⟩
  intro h h' u hu hu'
  exact hq.eq_of_mem (mem_unlink.mp hu).1 (mem_unlink.mp hu').1

lemma Separate.update [DecidableEq H] {t : T} {h : H} (hq : Separate q)
    (ht : Unlinked q t) (hl : l.Perm (t :: q h)) : Separate (update q h l) := by
  refine ⟨?_, ?_⟩
  · intro h'
    by_cases e : h' = h
    · subst e
      rw [update_self]
      exact hl.nodup_iff.mpr (List.nodup_cons.mpr ⟨ht h', hq.nodup h'⟩)
    rw [update_of_ne e]
    exact hq.nodup h'
  intro h₁ h₂ u h1 h2
  rcases (mem_update_perm hl).mp h1 with m1 | ⟨rfl, rfl⟩
  · rcases (mem_update_perm hl).mp h2 with m2 | ⟨rfl, rfl⟩
    · exact hq.eq_of_mem m1 m2
    exact absurd m1 (ht h₁)
  rcases (mem_update_perm hl).mp h2 with m2 | ⟨rfl, _⟩
  · exact absurd m2 (ht h₂)
  rfl

end NbIot.Queues
