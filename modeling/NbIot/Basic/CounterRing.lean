import NbIot.Basic.LapRing

/-! # A ring with free-running counters

A ring of `n` cells whose two counters are never reduced modulo `n`: they count the items pushed
and the items popped, wrap at `M`, and the item with the running number `i` goes into the cell
`i % M % n`. Where `n` divides `M` that is the cell `i % n`, and otherwise the sequence of cells
jumps each time a counter wraps.
-/

namespace NbIot.CounterRing

open List

open LapRing (mod_ne_of_window)

/-! ## Counters that wrap around -/

variable {α : Type} {M n g p : Nat}

/-- The cell of the item with the running number `i`. -/
def cell (M n i : Nat) : Nat := i % M % n

/-- The items from `g` to `p - 1` are in different cells. -/
def Apart (M n g p : Nat) : Prop := ∀ i j, g ≤ i → i < j → j < p → cell M n i ≠ cell M n j

/-- How many items fit into the ring while one of the counters has wrapped and the other has
not. -/
def room (M n : Nat) : Nat := if n ∣ M then n else M % n

/-- The number of items between a counter at `b` and a counter at `a` that is ahead of it. -/
def between (M b a : Nat) : Nat := if b ≤ a then a - b else M + a - b

/-- There is room for one more item: the counters are `b` and `a`. -/
def Free (M n b a : Nat) : Prop := between M b a < if b ≤ a then n else room M n
  deriving Decidable

/-! ## Cells on one lap and on the next -/

lemma same_lap (hgp : g ≤ p) (hlt : p < g + M) (hle : g % M ≤ p % M) : p = g + (p % M - g % M) := by
  have hg := Nat.div_add_mod g M
  have hp := Nat.div_add_mod p M
  have hdiv : p / M = g / M := by
    apply le_antisymm _ (Nat.div_le_div_right hgp)
    by_contra hgt
    have := Nat.mul_le_mul_left M (Nat.succ_le_of_lt (Nat.lt_of_not_le hgt))
    rw [Nat.mul_succ] at this
    omega
  rw [hdiv] at hp
  omega

/-- Counters that are less than a lap apart and out of order are on two laps that follow each
other. -/
theorem next_lap (hgp : g ≤ p) (hlt : p < g + M) (hgt : p % M < g % M) :
    ∃ k, g = M * k + g % M ∧ p = M * k + M + p % M := by
  have hM : 0 < M := by omega
  have hg := Nat.div_add_mod g M
  have hp := Nat.div_add_mod p M
  have hgm := Nat.mod_lt g hM
  have hdiv : p / M = g / M + 1 := by
    apply le_antisymm
    · by_contra hfar
      have := Nat.mul_le_mul_left M (Nat.succ_le_of_lt (Nat.lt_of_not_le hfar))
      rw [Nat.mul_succ, Nat.mul_succ] at this
      omega
    by_contra hnear
    have := Nat.mul_le_mul_left M (Nat.le_of_lt_succ (Nat.lt_of_not_le hnear))
    omega
  rw [hdiv] at hp
  exact ⟨g / M, hg.symm, hp.symm⟩

lemma between_mod (hgp : g ≤ p) (hlt : p < g + M) : between M (g % M) (p % M) = p - g := by
  unfold between
  split
  · rename_i hle
    have := same_lap hgp hlt hle
    omega
  obtain ⟨k, hg, hp⟩ := next_lap hgp hlt (by omega)
  omega

lemma cell_ne_of_same_lap {i j : Nat} (hij : i < j) (hlt : j < i + n)
    (hmod : j % M = i % M + (j - i)) : cell M n i ≠ cell M n j := by
  exact mod_ne_of_window (by omega) (by omega)

lemma cell_of_dvd (hdvd : n ∣ M) (i : Nat) : cell M n i = i % n := Nat.mod_mod_of_dvd i hdvd

/-- The item `x` places before the end of a lap is in the cell `M % n - x`, if that is a cell. -/
theorem cell_before_wrap (hn : 0 < n) {x : Nat} (hx : 0 < x) (hle : x ≤ M % n) (k : Nat) :
    cell M n (M * k + M - x) = M % n - x := by
  have hr := Nat.mod_lt M hn
  have hrM := Nat.mod_le M n
  have hlap : (M * k + M - x) % M = M - x := by
    rw [Nat.add_sub_assoc (by omega), Nat.mul_add_mod, Nat.mod_eq_of_lt (by omega)]
  obtain ⟨q, hq⟩ : n ∣ M - M % n := Nat.dvd_sub_mod M
  calc cell M n (M * k + M - x)
      = (M - x) % n := by rw [cell, hlap]
    _ = (n * q + (M % n - x)) % n := by rw [show M - x = n * q + (M % n - x) by omega]
    _ = M % n - x := by rw [Nat.mul_add_mod, Nat.mod_eq_of_lt (by omega)]

lemma cell_after_wrap {y : Nat} (hyn : y < n) (hyM : y < M) (k : Nat) :
    cell M n (M * k + M + y) = y := by
  rw [cell, ← Nat.mul_succ, Nat.mul_add_mod, Nat.mod_eq_of_lt hyM, Nat.mod_eq_of_lt hyn]

lemma apart_succ : Apart M n g (p + 1) ↔
    Apart M n g p ∧ ∀ i, g ≤ i → i < p → cell M n i ≠ cell M n p := by
  constructor
  · intro h
    exact ⟨fun i j hi hij hj => h i j hi hij (by omega),
      fun i hi hip => h i p hi hip (Nat.lt_succ_self p)⟩
  rintro ⟨hA, hlast⟩ i j hi hij hj
  rcases Nat.lt_succ_iff_lt_or_eq.mp hj with hj | rfl
  · exact hA i j hi hij hj
  exact hlast i hi hij

lemma cell_ne_of_le (hgp : g ≤ p) (hlt : p < g + M) (hle : g % M ≤ p % M) (hn : p < g + n)
    {i : Nat} (hi : g ≤ i) (hip : i < p) : cell M n i ≠ cell M n p := by
  have hp := same_lap hgp hlt hle
  have hpm := Nat.mod_lt p (show 0 < M by omega)
  have him : i % M = g % M + (i - g) := by
    calc i % M = (g + (i - g)) % M := by rw [Nat.add_sub_cancel' hi]
      _ = (g % M + (i - g)) % M := (Nat.mod_add_mod _ _ _).symm
      _ = g % M + (i - g) := Nat.mod_eq_of_lt (by omega)
  exact cell_ne_of_same_lap hip (by omega) (by omega)

/-- One counter has wrapped, and fewer items than the cells after the jump are in the ring. -/
theorem cell_ne_of_wrapped (hn : 0 < n) (hnM : n < M) (hgp : g ≤ p) (hgt : p % M < g % M)
    (hroom : p < g + M % n) {i : Nat} (hi : g ≤ i) (hip : i < p) : cell M n i ≠ cell M n p := by
  have hr := Nat.mod_lt M hn
  obtain ⟨k, hg, hp⟩ := next_lap hgp (by omega) hgt
  have hgm := Nat.mod_lt g (show 0 < M by omega)
  have hcell := cell_after_wrap (n := n) (M := M) (y := p % M) (by omega) (by omega) k
  rw [← hp] at hcell
  rcases Nat.lt_or_ge i (M * k + M) with hold | hnew
  · -- the item is of the last lap: its distance to the jump is too small
    have hx := cell_before_wrap hn (x := M * k + M - i) (M := M) (by omega) (by omega) k
    rw [show M * k + M - (M * k + M - i) = i by omega] at hx
    omega
  have hy := cell_after_wrap (n := n) (M := M) (y := i - (M * k + M)) (by omega) (by omega) k
  rw [show M * k + M + (i - (M * k + M)) = i by omega] at hy
  omega

/-- One counter has wrapped, and there is an item for each of the cells after the jump: then two
items are in one cell. -/
theorem not_apart_of_wrapped (hn : 0 < n) (hnM : n < M) (hgp : g ≤ p) (hlt : p < g + M)
    (hgt : p % M < g % M) (hr : 0 < M % n) (hfull : g + M % n ≤ p) : ¬ Apart M n g (p + 1) := by
  intro hA
  have hrn := Nat.mod_lt M hn
  obtain ⟨k, hg, hp⟩ := next_lap hgp hlt hgt
  have hgm := Nat.mod_lt g (show 0 < M by omega)
  rcases Nat.lt_or_ge (p % M) (M % n) with hsmall | hbig
  · -- the new item meets the item `M % n` places before it
    have hold := cell_before_wrap hn (M := M) (x := M % n - p % M) (by omega) (by omega) k
    have hnew := cell_after_wrap (n := n) (M := M) (y := p % M) (by omega) (by omega) k
    refine hA (M * k + M - (M % n - p % M)) (M * k + M + p % M) (by omega) (by omega) (by omega) ?_
    omega
  -- two older items have met before: the last of the old lap, and one of the new lap
  have hold := cell_before_wrap hn (M := M) (x := 1) (by omega) (by omega) k
  have hnew := cell_after_wrap (n := n) (M := M) (y := M % n - 1) (by omega) (by omega) k
  refine hA (M * k + M - 1) (M * k + M + (M % n - 1)) (by omega) (by omega) (by omega) ?_
  rw [hold, hnew]

/-- **One more item.** The ring has room for it, and its cell is not that of another item,
exactly if the counters say `Free`. -/
theorem apart_succ_iff (hn : 0 < n) (hnM : n < M) (hgp : g ≤ p) (hle : p ≤ g + n)
    (hA : Apart M n g p) : Apart M n g (p + 1) ∧ p < g + n ↔ Free M n (g % M) (p % M) := by
  have hlt : p < g + M := by omega
  unfold Free
  rw [between_mod hgp hlt]
  by_cases hlap : g % M ≤ p % M
  · rw [if_pos hlap]
    constructor
    · omega
    intro hfree
    have hfit : p < g + n := by omega
    exact ⟨apart_succ.mpr ⟨hA, fun i hi hip => cell_ne_of_le hgp hlt hlap hfit hi hip⟩, hfit⟩
  have hgt : p % M < g % M := Nat.lt_of_not_le hlap
  rw [if_neg hlap, room]
  by_cases hdvd : n ∣ M
  · rw [if_pos hdvd]
    constructor
    · omega
    intro hfree
    refine ⟨apart_succ.mpr ⟨hA, fun i hi hip => ?_⟩, by omega⟩
    rw [cell_of_dvd hdvd, cell_of_dvd hdvd]
    exact mod_ne_of_window hip (by omega)
  rw [if_neg hdvd]
  have hr : 0 < M % n := pos_of_ne_zero fun h => hdvd (Nat.dvd_of_mod_eq_zero h)
  have hrn := Nat.mod_lt M hn
  constructor
  · rintro ⟨hA', -⟩
    by_contra hfull
    exact not_apart_of_wrapped hn hnM hgp hlt hgt hr (by omega) hA'
  intro hfree
  exact ⟨apart_succ.mpr ⟨hA, fun i hi hip =>
    cell_ne_of_wrapped hn hnM hgp hgt (by omega) hi hip⟩, by omega⟩

/-! ## The ring holds a queue -/

/-- The cells after the items `stored` have been pushed and the items `received` popped. -/
structure Holds (M n : Nat) (cells : Nat → α) (stored received : List α) : Prop where
  before : received <+: stored
  le : stored.length ≤ received.length + n
  apart : Apart M n received.length stored.length
  cells : ∀ (i : Nat) (hi : i < stored.length), received.length ≤ i → cells (cell M n i) = stored[i]

namespace Holds

variable {cells : Nat → α} {stored received : List α}

lemma length_le (h : Holds M n cells stored received) : received.length ≤ stored.length :=
  h.before.length_le

lemma push_iff (h : Holds M n cells stored received) (hn : 0 < n) (hnM : n < M) (a : α) :
    Holds M n (Function.update cells (cell M n stored.length) a) (stored ++ [a]) received ↔
      Free M n (received.length % M) (stored.length % M) := by
  rw [← apart_succ_iff hn hnM h.length_le h.le h.apart]
  constructor
  · intro h'
    have hapart := h'.apart
    have hle := h'.le
    simp only [length_append, length_singleton] at hapart hle
    exact ⟨hapart, by omega⟩
  rintro ⟨hapart, hfit⟩
  refine ⟨h.before.trans (prefix_append _ _), ?_, ?_, ?_⟩
  · rw [length_append, length_singleton]
    omega
  · rw [length_append]
    exact hapart
  intro i hi hri
  by_cases e : i = stored.length
  · subst e
    simp
  have hlt : i < stored.length := by
    simp only [length_append, length_singleton] at hi
    omega
  rw [Function.update_of_ne (hapart i _ hri hlt (Nat.lt_succ_self _)), h.cells i hlt hri,
    getElem_append_left hlt]

lemma pop (h : Holds M n cells stored received) (hlt : received.length < stored.length) :
    Holds M n cells stored (received ++ [cells (cell M n received.length)]) := by
  have hfront := h.cells received.length hlt (le_rfl)
  refine ⟨?_, ?_, ?_, ?_⟩
  · have hsucc : stored.take (received.length + 1) =
        received ++ [cells (cell M n received.length)] := by
      rw [take_succ_eq_append_getElem hlt, ← prefix_iff_eq_take.mp h.before, hfront]
    rw [← hsucc]
    exact take_prefix _ _
  · have := h.le
    rw [length_append]
    omega
  · intro i j hi hij hj
    rw [length_append] at hi
    exact h.apart i j (by omega) hij hj
  intro i hi hri
  rw [length_append] at hri
  exact h.cells i hi (by omega)

end Holds

end NbIot.CounterRing
