import Mathlib.Tactic

/-! # A clock that wraps

Instants are 32-bit words, and the clock goes from `2 ^ 32 - 1` to `0`. No order on the words is
kept by that, but there is one relative to the current instant: `ahead now x` is the number of ticks
from `now` to `x`, negative if `x` has passed. Programs compare two instants by their difference as
an unsigned number: `x` is taken to be not before `y` if `x - y` is less than `half`. For the
instants `Near now` this is the order of `ahead now`, as long as `y` has not passed
(`sub_lt_half_iff`).
-/

namespace NbIot.WrapClock

def half : BitVec 32 := 0x7fffffff

/-- How many ticks after `now` the instant `x` is. -/
def ahead (now x : BitVec 32) : Int := (x - now).toInt

/-- The instants around `now` that can be compared: not yet passed, or passed by one tick. -/
def Near (now x : BitVec 32) : Prop := -1 ≤ ahead now x ∧ ahead now x < half.toNat

variable {now x y d : BitVec 32}

lemma ahead_inj : ahead now x = ahead now y ↔ x = y := by
  constructor
  · intro h
    have hsub : x - now = y - now := BitVec.toInt_inj.mp h
    bv_omega
  rintro rfl
  rfl

lemma sub_eq_zero_iff : x - y = 0 ↔ ahead now x = ahead now y := by
  rw [ahead_inj]
  constructor
  · bv_omega
  bv_omega

lemma ahead_succ (h : -1 ≤ ahead now x) : ahead (now + 1) x = ahead now x - 1 := by
  simp only [ahead, BitVec.toInt_eq_toNat_cond] at h ⊢
  bv_omega

lemma ahead_add (hd : d < half) : ahead now (now + d) = d.toNat := by
  rw [ahead, BitVec.toInt_eq_toNat_cond]
  unfold half at hd
  bv_omega

lemma near_add (hd : d < half) : Near now (now + d) := by
  rw [Near, ahead_add hd]
  have hlt : d.toNat < half.toNat := hd
  omega

/-- The unsigned difference orders the instants near the clock with one that is still to come. -/
theorem sub_lt_half_iff (hx : Near now x) (hy : Near now y) (hcome : 0 ≤ ahead now y) :
    x - y < half ↔ ahead now y ≤ ahead now x := by
  unfold Near half at hx hy
  simp only [ahead, BitVec.toInt_eq_toNat_cond, half] at hx hy hcome ⊢
  bv_omega

lemma now_sub_lt_half_iff (hx : Near now x) : now - x < half ↔ ahead now x ≤ 0 := by
  unfold Near half at hx
  simp only [ahead, BitVec.toInt_eq_toNat_cond, half] at hx ⊢
  bv_omega

end NbIot.WrapClock
