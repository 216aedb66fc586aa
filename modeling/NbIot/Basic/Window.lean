import Mathlib.Tactic

/-! # Windows on a circular array

A circular array of `n` cells is a function on indices that are read modulo `n`. `window n buf r k`
is the list of the `k` cells from the index `r` on. A block of items is written to such an array
with one copy, or with two if it reaches the end (`blit`); `Laid` says what either of them leaves,
so that a program needs to know only two facts about it: the cells behind the old contents hold the
block (`Laid.window_new`), and the old contents are still there (`Laid.window_old`).
-/

namespace NbIot

open List

variable {α : Type}

/-- The first `k` items of a source. -/
def block (f : Nat → α) (k : Nat) : List α := (List.range k).map f

/-- The `k` cells from the index `r` on. -/
def window (n : Nat) (buf : Nat → α) (r k : Nat) : List α := block (fun i => buf ((r + i) % n)) k

/-- `count` items of a source copied to the cells from `off` on. -/
def blit (buf : Nat → α) (off count : Nat) (f : Nat → α) : Nat → α := fun i =>
  if off ≤ i ∧ i < off + count then f (i - off) else buf i

section

variable {f g : Nat → α} {n r j k : Nat} {buf : Nat → α}

@[simp] lemma length_block (f : Nat → α) (k : Nat) : (block f k).length = k := by simp [block]

@[simp] lemma length_window (n : Nat) (buf : Nat → α) (r k : Nat) :
    (window n buf r k).length = k := length_block _ k

lemma block_congr (h : ∀ i < k, f i = g i) : block f k = block g k :=
  map_congr_left fun i hi => h i (mem_range.mp hi)

lemma block_eq_iff : block f k = block g k ↔ ∀ i < k, f i = g i := by
  constructor
  · intro h i hi
    exact map_inj_left.mp h i (mem_range.mpr hi)
  exact block_congr

lemma block_add (f : Nat → α) (j k : Nat) :
    block f (j + k) = block f j ++ block (fun i => f (j + i)) k := by
  simp [block, range_add]

lemma block_one (f : Nat → α) : block f 1 = [f 0] := rfl

lemma take_block (f : Nat → α) (j k : Nat) : (block f k).take j = block f (min j k) := by
  simp [block, ← map_take]

lemma drop_block (f : Nat → α) (h : j ≤ k) :
    (block f k).drop j = block (fun i => f (j + i)) (k - j) := by
  obtain ⟨l, rfl⟩ := Nat.exists_eq_add_of_le h
  rw [block_add, drop_left' (length_block f j), Nat.add_sub_cancel_left]

lemma window_congr {buf' : Nat → α} (h : ∀ i < k, buf' ((r + i) % n) = buf ((r + i) % n)) :
    window n buf' r k = window n buf r k := block_congr h

lemma window_add (n : Nat) (buf : Nat → α) (r j k : Nat) :
    window n buf r (j + k) = window n buf r j ++ window n buf (r + j) k := by
  rw [window, block_add]
  simp only [window, add_assoc]

lemma window_mod (n : Nat) (buf : Nat → α) (r k : Nat) :
    window n buf (r % n) k = window n buf r k :=
  block_congr fun i _ => by rw [Nat.mod_add_mod]

lemma take_window (h : j ≤ k) : (window n buf r k).take j = window n buf r j := by
  rw [window, take_block, min_eq_left h]
  rfl

lemma drop_window (h : j ≤ k) : (window n buf r k).drop j = window n buf (r + j) (k - j) := by
  rw [window, drop_block _ h]
  simp only [window, add_assoc]

lemma window_straight (h : r + k ≤ n) : window n buf r k = block (fun i => buf (r + i)) k :=
  block_congr fun i hi => by rw [Nat.mod_eq_of_lt (by omega)]

lemma window_wrapped (hr : r < n) (h : n - r ≤ k) (hk : k ≤ n) :
    window n buf r k = block (fun i => buf (r + i)) (n - r) ++ block buf (k - (n - r)) := by
  obtain ⟨l, rfl⟩ := Nat.exists_eq_add_of_le h
  have hend : r + (n - r) = n := by omega
  rw [window_add, window_straight (by omega), hend, Nat.add_sub_cancel_left]
  congr 1
  refine block_congr fun i hi => ?_
  rw [Nat.add_mod_left, Nat.mod_eq_of_lt (by omega)]

end

/-- `buf'` is `buf` with `len` items laid into the cells from `w` on. -/
structure Laid (n : Nat) (buf buf' : Nat → α) (w len : Nat) (f : Nat → α) : Prop where
  new : ∀ j < len, buf' ((w + j) % n) = f j
  old : ∀ j, len ≤ j → j < n → buf' ((w + j) % n) = buf ((w + j) % n)

section

variable {n w len r k : Nat} {buf buf' f : Nat → α}

lemma laid_straight (hw : w < n) (h : w + len ≤ n) : Laid n buf (blit buf w len f) w len f := by
  constructor
  · intro j hj
    rw [Nat.mod_eq_of_lt (show w + j < n by omega), blit, if_pos (by omega),
      Nat.add_sub_cancel_left]
  intro j hj hjn
  rw [blit, if_neg]
  by_cases hlt : w + j < n
  · rw [Nat.mod_eq_of_lt hlt]
    omega
  rw [Nat.mod_eq_sub_mod (by omega), Nat.mod_eq_of_lt (by omega)]
  omega

lemma laid_wrapped (hw : w < n) (h : n - w ≤ len) (hlen : len ≤ n) :
    Laid n buf (blit (blit buf w (n - w) f) 0 (len - (n - w)) fun i => f (n - w + i)) w len f := by
  -- where the `j`-th item goes
  have hplace : ∀ j < n, (w + j) % n = if w + j < n then w + j else w + j - n := by
    intro j hj
    split
    · next hlt => exact Nat.mod_eq_of_lt hlt
    rw [Nat.mod_eq_sub_mod (by omega), Nat.mod_eq_of_lt (by omega)]
  constructor
  · intro j hj
    rw [hplace j (by omega)]
    split
    · next hlt =>
        rw [blit, if_neg (by omega), blit, if_pos (by omega), Nat.add_sub_cancel_left]
    rw [blit, if_pos (by omega)]
    congr 1
    omega
  intro j hj hjn
  rw [hplace j hjn]
  split
  · omega
  rw [blit, if_neg (by omega), blit, if_neg (by omega)]

lemma Laid.window_new (h : Laid n buf buf' w len f) : window n buf' w len = block f len :=
  block_congr h.new

/-- What stands in front of the block is still there, as long as the block does not go round to
it. -/
theorem Laid.window_old (h : Laid n buf buf' w len f) (hw : w % n = (r + k) % n)
    (hfit : k + len ≤ n) : window n buf' r k = window n buf r k := by
  refine window_congr fun i hi => ?_
  have hcell : (r + i) % n = (w + (n - k + i)) % n := by
    have hgoal : (r + k + (n - k + i)) % n = (r + i) % n := by
      rw [show r + k + (n - k + i) = r + i + n by omega, Nat.add_mod_right]
    rw [← hgoal, Nat.add_mod, ← hw, ← Nat.add_mod]
  rw [hcell]
  exact h.old _ (by omega) (by omega)

lemma Laid.window_append (h : Laid n buf buf' w len f) (hw : w % n = (r + k) % n)
    (hfit : k + len ≤ n) : window n buf' r (k + len) = window n buf r k ++ block f len := by
  rw [window_add, h.window_old hw hfit, ← window_mod n buf' (r + k), ← hw, window_mod, h.window_new]

end

end NbIot
