import Mathlib.Tactic

/-! # Tables of slots

A table has a fixed number of slots, some of which are empty. A program that wants to enter
something new walks through the table once: it remembers the first empty slot and stops at a slot
that holds what it wants to enter. `scan` is that walk, `scan_found` and `scan_free` what it finds.
-/

namespace NbIot.Slots

variable {α : Type}

/-- The walk through the slots from the index `i` on, with the empty slot that has been met before:
whether it stopped at a hit, and the first empty slot up to there. -/
def scan (empty hit : α → Bool) : List α → Nat → Option Nat → Bool × Option Nat
  | [], _, free => (false, free)
  | a :: rest, i, free =>
    if empty a then scan empty hit rest (i + 1) (free.or (some i))
    else if hit a then (true, free)
    else scan empty hit rest (i + 1) free

variable {empty hit : α → Bool} {l : List α}

lemma scan_found (i : Nat) (free : Option Nat) :
    (scan empty hit l i free).1 = l.any fun a => !empty a && hit a := by
  induction l generalizing i free with
  | nil => rfl
  | cons a l ih =>
    rw [scan, List.any_cons]
    cases empty a with
    | true => exact ih (i + 1) (free.or (some i))
    | false =>
      cases hit a with
      | true => simp
      | false => exact ih (i + 1) free

lemma scan_free (hnone : ∀ a ∈ l, empty a = false → hit a = false) (i : Nat) (free : Option Nat) :
    (scan empty hit l i free).2 = free.or ((l.findIdx? empty).map (· + i)) := by
  induction l generalizing i free with
  | nil => simp [scan]
  | cons a l ih =>
    have ih := fun free => ih (fun b hb => hnone b (List.mem_cons_of_mem a hb)) (i + 1) free
    have hshift : (Option.map (fun j => j + 1) (l.findIdx? empty)).map (· + i) =
        (l.findIdx? empty).map (· + (i + 1)) := by
      rw [Option.map_map]
      congr 1
      funext j
      show j + 1 + i = j + (i + 1)
      omega
    rw [scan, List.findIdx?_cons]
    cases he : empty a with
    | true =>
      rw [if_pos rfl, ih]
      simp
    | false =>
      have hhit := hnone a List.mem_cons_self he
      rw [if_neg (by simp), if_neg (by simp [hhit]), if_neg (by simp), ih, hshift]

lemma scan_eq (hnone : ∀ a ∈ l, empty a = false → hit a = false) :
    scan empty hit l 0 none = (false, l.findIdx? empty) := by
  have hfound : (scan empty hit l 0 none).1 = false := by
    rw [scan_found, List.any_eq_false]
    intro a ha
    cases he : empty a with
    | true => simp
    | false => simp [hnone a ha he]
  have hfree := scan_free hnone 0 none
  refine Prod.ext hfound (hfree.trans ?_)
  simp

lemma scan_cases (empty hit : α → Bool) (l : List α) :
    ((∃ a ∈ l, empty a = false ∧ hit a = true) ∧ (scan empty hit l 0 none).1 = true) ∨
      ((∀ a ∈ l, empty a = false → hit a = false) ∧
        scan empty hit l 0 none = (false, l.findIdx? empty)) := by
  by_cases h : ∃ a ∈ l, empty a = false ∧ hit a = true
  · left
    refine ⟨h, ?_⟩
    obtain ⟨a, ha, he, hh⟩ := h
    rw [scan_found, List.any_eq_true]
    exact ⟨a, ha, by simp [he, hh]⟩
  right
  have hnone : ∀ a ∈ l, empty a = false → hit a = false := by
    intro a ha he
    cases hh : hit a with
    | false => rfl
    | true => exact absurd ⟨a, ha, he, hh⟩ h
  exact ⟨hnone, scan_eq hnone⟩

end NbIot.Slots
