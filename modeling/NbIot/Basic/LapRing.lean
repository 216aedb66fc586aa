import Mathlib.Tactic

/-! # A ring buffer that may be lapped

A ring of `n` cells with a read index and a write index and no full flag: the writer never waits,
so it can overtake the reader. What the ring then holds is a question about the histories.

* `Holds n r recv delv` relates a ring to its two histories: the indices are the lengths of the
  histories modulo `n`, and the last `n` items written are in the cells.
* `unread recv delv = (recv.length - delv.length) % n` items are readable, the newest ones: an
  overrun loses a multiple of `n` items.
-/

namespace NbIot.LapRing

open List

/-! ## Cells and indices -/

variable {α : Type} {n w d : Nat}

structure Ring (α : Type) where
  buf : Nat → α
  rd : Nat
  wr : Nat

def next (n i : Nat) : Nat := if n ≤ i + 1 then 0 else i + 1

def put (n : Nat) (r : Ring α) (a : α) : Ring α :=
  { r with buf := Function.update r.buf r.wr a, wr := next n r.wr }

def get (n : Nat) (r : Ring α) : Option (α × Ring α) :=
  if r.rd ≠ r.wr then some (r.buf r.rd, { r with rd := next n r.rd }) else none

/-- Fetch until `k` items are read or the indices are equal. -/
def drain (n : Nat) : Nat → Ring α → List α
  | 0, _ => []
  | k + 1, r =>
    match get n r with
    | none => []
    | some (a, r') => a :: drain n k r'

/-- The number of readable items after `w` writes and `d` reads. -/
def unread (n w d : Nat) : Nat := (w - d) % n

/-- The ring `r` after the items `recv` have been written and the items `delv` read. -/
structure Holds (n : Nat) (r : Ring α) (recv delv : List α) : Prop where
  le : delv.length ≤ recv.length
  wr : r.wr = recv.length % n
  rd : r.rd = delv.length % n
  window : ∀ (j : Nat) (hj : j < recv.length), recv.length ≤ j + n → r.buf (j % n) = recv[j]
  sub : delv.Sublist (recv.take (recv.length - unread n recv.length delv.length))

/-! ## Indices modulo the size -/

lemma succ_mod (hn : 0 < n) (k : Nat) : (k + 1) % n = if k % n + 1 = n then 0 else k % n + 1 := by
  have hlt := Nat.mod_lt k hn
  rw [← Nat.mod_add_mod]
  split
  · next h => rw [h, Nat.mod_self]
  exact Nat.mod_eq_of_lt (by omega)

lemma next_mod (hn : 0 < n) (k : Nat) : next n (k % n) = (k + 1) % n := by
  have hlt := Nat.mod_lt k hn
  rw [succ_mod hn, next]
  split <;> split <;> omega

lemma unread_le (n w d : Nat) : unread n w d ≤ w - d := Nat.mod_le _ _

lemma mod_eq_iff_unread (h : d ≤ w) : d % n = w % n ↔ unread n w d = 0 := by
  exact (Nat.modEq_iff_dvd' h).trans Nat.dvd_iff_mod_eq_zero

lemma oldest_mod (h : d ≤ w) : (w - unread n w d) % n = d % n := by
  have hdiv := Nat.mod_add_div (w - d) n
  have : w - unread n w d = d + n * ((w - d) / n) := by
    unfold unread
    omega
  rw [this, Nat.add_mul_mod_self_left]

lemma mod_ne_of_window {j : Nat} (hj : j < w) (hw : w < j + n) : j % n ≠ w % n := by
  intro h
  have hz : (w - j) % n = 0 := Nat.sub_mod_eq_zero_of_mod_eq h.symm
  rw [Nat.mod_eq_of_lt (by omega)] at hz
  omega

lemma unread_succ_left (hn : 0 < n) (h : d ≤ w) :
    unread n (w + 1) d = if unread n w d + 1 = n then 0 else unread n w d + 1 := by
  unfold unread
  rw [show w + 1 - d = w - d + 1 by omega, succ_mod hn]

lemma unread_succ_right (hn : 0 < n) (h : unread n w d ≠ 0) :
    unread n w (d + 1) + 1 = unread n w d := by
  have hle := unread_le n w d
  have hs := succ_mod hn (w - (d + 1))
  rw [show w - (d + 1) + 1 = w - d by omega] at hs
  unfold unread at *
  split at hs <;> omega

/-! ## The ring holds a queue -/

section

variable {n : Nat} {r : Ring α} {recv delv : List α}

lemma holds_empty (buf : Nat → α) : Holds n ⟨buf, 0, 0⟩ [] [] where
  le := le_rfl
  wr := (Nat.zero_mod n).symm
  rd := (Nat.zero_mod n).symm
  window := fun j hj => absurd hj (Nat.not_lt_zero j)
  sub := List.Sublist.refl _

lemma Holds.put (hn : 0 < n) (h : Holds n r recv delv) (a : α) :
    Holds n (put n r a) (recv ++ [a]) delv := by
  have hle := h.le
  have hwr : (LapRing.put n r a).wr = next n r.wr := rfl
  have hlen : (recv ++ [a]).length = recv.length + 1 := by simp
  refine ⟨by omega, ?_, h.rd, ?_, ?_⟩
  · rw [hwr, h.wr, next_mod hn, hlen]
  · intro j hj hwin
    show Function.update r.buf r.wr a (j % n) = _
    rw [h.wr]
    rcases Nat.lt_or_ge j recv.length with hlt | hge
    · rw [Function.update_of_ne (mod_ne_of_window hlt (by omega)), getElem_append_left hlt]
      exact h.window j hlt (by omega)
    obtain rfl : j = recv.length := by omega
    simp
  rw [hlen, unread_succ_left hn hle]
  split
  · -- the reader is lapped: everything written so far is out of reach
    rw [take_of_length_le (by omega)]
    exact h.sub.trans ((take_sublist _ _).trans (sublist_append_left _ _))
  rw [show recv.length + 1 - (unread n recv.length delv.length + 1) =
    recv.length - unread n recv.length delv.length by omega,
    take_append_of_le_length (by omega)]
  exact h.sub

lemma Holds.oldest (hn : 0 < n) (h : Holds n r recv delv)
    (hu : unread n recv.length delv.length ≠ 0) :
    ∃ hj : recv.length - unread n recv.length delv.length < recv.length,
      r.buf r.rd = recv[recv.length - unread n recv.length delv.length] := by
  have hle := unread_le n recv.length delv.length
  have hlt : unread n recv.length delv.length < n := Nat.mod_lt _ hn
  refine ⟨by omega, ?_⟩
  rw [h.rd, ← oldest_mod h.le]
  exact h.window _ _ (by omega)

/-- **Reading.** The item read is the oldest readable one. -/
theorem Holds.get (hn : 0 < n) (h : Holds n r recv delv) {a : α} {r' : Ring α}
    (hget : get n r = some (a, r')) : Holds n r' recv (delv ++ [a]) := by
  rw [LapRing.get] at hget
  split at hget
  · next hne =>
      cases hget
      have hu : unread n recv.length delv.length ≠ 0 := by
        rwa [h.rd, h.wr, Ne, mod_eq_iff_unread h.le] at hne
      have hle := unread_le n recv.length delv.length
      have hu' := unread_succ_right hn hu
      have hlen : (delv ++ [r.buf r.rd]).length = delv.length + 1 := by simp
      obtain ⟨hj, hold⟩ := h.oldest hn hu
      refine ⟨by omega, h.wr, ?_, h.window, ?_⟩
      · rw [hlen, ← next_mod hn, ← h.rd]
      rw [hlen, show recv.length - unread n recv.length (delv.length + 1) =
        recv.length - unread n recv.length delv.length + 1 by omega,
        take_add_one, getElem?_eq_getElem hj, ← hold]
      exact h.sub.append (List.Sublist.refl _)
  simp at hget

lemma Holds.get_eq_none (h : Holds n r recv delv) :
    LapRing.get n r = none ↔ unread n recv.length delv.length = 0 := by
  rw [LapRing.get, ← mod_eq_iff_unread h.le, ← h.rd, ← h.wr]
  split <;> simp_all

/-- **What is readable.** Reading on without a write in between yields the newest items. -/
theorem Holds.drain_eq (hn : 0 < n) (h : Holds n r recv delv) (k : Nat) :
    drain n k r = (recv.drop (recv.length - unread n recv.length delv.length)).take k := by
  induction k generalizing r delv with
  | zero => rfl
  | succ k ih =>
    rw [drain]
    cases hget : LapRing.get n r with
    | none =>
      have hu := h.get_eq_none.mp hget
      rw [hu, Nat.sub_zero, drop_length]
      rfl
    | some p =>
      obtain ⟨a, r'⟩ := p
      have hu : unread n recv.length delv.length ≠ 0 := by
        rw [Ne, ← h.get_eq_none, hget]
        simp
      have hle := unread_le n recv.length delv.length
      have hu' := unread_succ_right hn hu
      have hlen : (delv ++ [a]).length = delv.length + 1 := by simp
      obtain ⟨hj, hold⟩ := h.oldest hn hu
      have ha : a = r.buf r.rd := by
        rw [LapRing.get] at hget
        split at hget
        · exact (Prod.mk.inj (Option.some.inj hget)).1.symm
        simp at hget
      show a :: drain n k r' = _
      rw [ih (h.get hn hget), hlen, drop_eq_getElem_cons hj, take_succ_cons, ← hold,
        ← ha, show recv.length - unread n recv.length (delv.length + 1) =
          recv.length - unread n recv.length delv.length + 1 by omega]

/-- **No loss.** While fewer than `n` items are written and not read, the items read are the
first ones written. -/
theorem Holds.eq_take (h : Holds n r recv delv) (hlt : recv.length - delv.length < n) :
    delv = recv.take delv.length := by
  have hle := h.le
  have hsub := h.sub
  rw [unread, Nat.mod_eq_of_lt hlt, show recv.length - (recv.length - delv.length) = delv.length by
    omega] at hsub
  exact hsub.eq_of_length (by rw [length_take]; omega)

end

end NbIot.LapRing
