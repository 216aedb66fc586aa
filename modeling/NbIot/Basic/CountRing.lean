import NbIot.Basic.LapRing

/-! # A ring buffer with a counter

A ring of `size` cells with a write offset, a read offset and the number of items in it, so that
full and empty can be told apart. `push` needs a free cell and `pop` an item; neither tests for it.

`Holds r stored received` relates a ring to its two histories, all items ever pushed and all items
ever popped: the counter is their difference in length, the offsets are their lengths modulo
`size`, and what has been popped is the first part of what has been pushed.
-/

namespace NbIot.CountRing

open LapRing List

variable {α : Type}

structure Ring (α : Type) where
  cells : Nat → α
  size : Nat
  entry : Nat
  inOffset : Nat
  outOffset : Nat

def Ring.push (r : Ring α) (a : α) : Ring α :=
  { r with cells := Function.update r.cells r.inOffset a
           inOffset := next r.size r.inOffset
           entry := r.entry + 1 }

/-- The item that `pop` takes out. -/
def Ring.front (r : Ring α) : α := r.cells r.outOffset

def Ring.pop (r : Ring α) : Ring α :=
  { r with outOffset := next r.size r.outOffset
           entry := r.entry - 1 }

/-- The ring `r` after the items `stored` have been pushed and the items `received` popped. -/
structure Holds (r : Ring α) (stored received : List α) : Prop where
  pos : 0 < r.size
  le : r.entry ≤ r.size
  count : received.length + r.entry = stored.length
  inOffset : r.inOffset = stored.length % r.size
  outOffset : r.outOffset = received.length % r.size
  before : received <+: stored
  cells : ∀ (i : Nat) (hi : i < stored.length), received.length ≤ i →
    r.cells (i % r.size) = stored[i]

lemma holds_nil {r : Ring α} (hsize : 0 < r.size) (hentry : r.entry = 0)
    (hin : r.inOffset = 0) (hout : r.outOffset = 0) : Holds r [] [] where
  pos := hsize
  le := by omega
  count := by simpa using hentry
  inOffset := by exact hin
  outOffset := by exact hout
  before := prefix_rfl
  cells := fun i hi => absurd hi (Nat.not_lt_zero i)

namespace Holds

variable {r : Ring α} {stored received : List α}

variable (h : Holds r stored received)

include h

lemma inOffset_lt : r.inOffset < r.size := by
  rw [h.inOffset]
  exact Nat.mod_lt _ h.pos

lemma outOffset_lt : r.outOffset < r.size := by
  rw [h.outOffset]
  exact Nat.mod_lt _ h.pos

lemma inOffset_eq : r.inOffset = (r.outOffset + r.entry) % r.size := by
  calc r.inOffset
      = (received.length + r.entry) % r.size := by rw [h.inOffset, h.count]
    _ = (received.length % r.size + r.entry) % r.size := (Nat.mod_add_mod _ _ _).symm
    _ = (r.outOffset + r.entry) % r.size := by rw [h.outOffset]

lemma push (hfree : r.entry < r.size) (a : α) : Holds (r.push a) (stored ++ [a]) received where
  pos := h.pos
  le := hfree
  count := by
    have := h.count
    simp only [Ring.push, length_append, length_singleton]
    omega
  inOffset := by
    show next r.size r.inOffset = _
    rw [h.inOffset, next_mod h.pos, length_append]
    rfl
  outOffset := h.outOffset
  before := h.before.trans (prefix_append _ _)
  cells := by
    intro i hi hri
    show Function.update r.cells r.inOffset a (i % r.size) = _
    rw [h.inOffset]
    by_cases e : i = stored.length
    · subst e
      simp
    -- the cell written is none of those between the offsets
    have hlt : i < stored.length := by
      simp only [length_append, length_singleton] at hi
      omega
    have hne : i % r.size ≠ stored.length % r.size := by
      have := h.count
      exact mod_ne_of_window hlt (by omega)
    rw [Function.update_of_ne hne, h.cells i hlt hri, getElem_append_left hlt]

lemma pop (hitem : 0 < r.entry) : Holds r.pop stored (received ++ [r.front]) := by
  have hcount := h.count
  have hle := h.le
  have hlt : received.length < stored.length := by omega
  have hfront : r.front = stored[received.length] := by
    rw [Ring.front, h.outOffset]
    exact h.cells received.length hlt (le_rfl)
  refine ⟨h.pos, ?_, ?_, h.inOffset, ?_, ?_, ?_⟩
  · show r.entry - 1 ≤ r.size
    omega
  · simp only [Ring.pop, length_append, length_singleton]
    omega
  · show next r.size r.outOffset = _
    rw [h.outOffset, next_mod h.pos, length_append]
    rfl
  · have htake := prefix_iff_eq_take.mp h.before
    have hsucc : stored.take (received.length + 1) = received ++ [r.front] := by
      rw [take_succ_eq_append_getElem hlt, ← htake, hfront]
    rw [← hsucc]
    exact take_prefix _ _
  intro i hi hri
  simp only [length_append] at hri
  exact h.cells i hi (by omega)

end Holds

end NbIot.CountRing
