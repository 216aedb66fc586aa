import Mathlib.Tactic

/-! # Lists ordered by rank and arrival

Members with a rank and an arrival number: a list is in order if ranks do not go down along it and
members of equal rank stand in the order of their arrival (`Before`). A new member that is inserted
before the first one of larger rank keeps a list in order, since it has arrived last
(`pairwise_orderedInsert`).
-/

namespace NbIot.Ranked

open Function List

variable {T : Type} {rank arrival : T → Nat} {l : List T} {t : T}

def Before (rank arrival : T → Nat) (u v : T) : Prop :=
  rank u < rank v ∨ rank u = rank v ∧ arrival u < arrival v
  deriving Decidable

lemma Before.rank_le {u v : T} (h : Before rank arrival u v) : rank u ≤ rank v := by
  rcases h with hlt | ⟨heq, _⟩
  · exact hlt.le
  exact heq.le

lemma pairwise_congr {rank' arrival' : T → Nat} (hrank : ∀ u ∈ l, rank' u = rank u)
    (harrival : ∀ u ∈ l, arrival' u = arrival u) :
    l.Pairwise (Before rank' arrival') ↔ l.Pairwise (Before rank arrival) := by
  refine List.Pairwise.iff_of_mem fun {u v} hu hv => ?_
  rw [Before, Before, hrank u hu, hrank v hv, harrival u hu, harrival v hv]

lemma pairwise_orderedInsert (h : l.Pairwise (Before rank arrival))
    (hlast : ∀ u ∈ l, arrival u < arrival t) :
    (l.orderedInsert (fun u v => rank u < rank v) t).Pairwise (Before rank arrival) := by
  induction l with
  | nil => exact pairwise_singleton _ t
  | cons u l ih =>
    obtain ⟨hu, hl⟩ := pairwise_cons.mp h
    rw [orderedInsert_cons]
    split
    · -- behind the first member of larger rank there is none of smaller rank
      rename_i hlt
      refine pairwise_cons.mpr ⟨fun v hv => .inl ?_, h⟩
      rcases mem_cons.mp hv with rfl | hv
      · exact hlt
      exact hlt.trans_le (hu v hv).rank_le
    rename_i hle
    refine pairwise_cons.mpr ⟨fun v hv => ?_, ih hl fun v hv => hlast v (by simp [hv])⟩
    rcases mem_orderedInsert _ |>.mp hv with rfl | hv
    · rcases (not_lt.mp hle).lt_or_eq with hlt | heq
      · exact .inl hlt
      exact .inr ⟨heq, hlast u mem_cons_self⟩
    exact hu v hv

lemma pairwise_update_iff [DecidableEq T] (h : l.Pairwise (Before rank arrival)) (t : T)
    (r : Nat) : l.Pairwise (Before (update rank t r) arrival) ↔
      l.Pairwise fun u v => u = t ∨ v = t → Before (update rank t r) arrival u v := by
  constructor
  · intro hnew
    refine List.Pairwise.imp ?_ hnew
    exact fun hb _ => hb
  intro hfit
  refine (h.and hfit).imp fun {u v} hb => ?_
  by_cases he : u = t ∨ v = t
  · exact hb.2 he
  obtain ⟨hu, hv⟩ := not_or.mp he
  have hold := hb.1
  rw [Before, update_of_ne hu, update_of_ne hv]
  exact hold

end NbIot.Ranked
