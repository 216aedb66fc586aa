import Mathlib.Data.List.GetD
import Mathlib.Tactic

/-! # Cyclic redundancy checks, bit by bit

The division register of a reflected CRC of any width and polynomial: each bit of the message is
added to the lowest bit of the register, which is then divided by one step. The step is linear, and
injective if the polynomial has its highest bit, the coefficient of `1` in reflected order. As many
bits as the register has may as well be added all at once (`feed_eq`), so that different texts of
this length leave different registers.
-/

namespace NbIot.Crc

variable {w : Nat}

def step (poly r : BitVec w) : BitVec w := r >>> 1 ^^^ if r.getLsbD 0 then poly else 0

def feed (poly : BitVec w) : BitVec w → List Bool → BitVec w
  | r, [] => r
  | r, b :: bits => feed poly (step poly (r ^^^ (BitVec.ofBool b).setWidth w)) bits

def pack : List Bool → BitVec w
  | [] => 0
  | b :: bits => (BitVec.ofBool b).setWidth w ^^^ pack bits <<< 1

variable {poly r : BitVec w}

lemma getLsbD_step (i : Nat) :
    (step poly r).getLsbD i = (r.getLsbD (i + 1) ^^ (r.getLsbD 0 && poly.getLsbD i)) := by
  rw [step, add_comm]
  cases r.getLsbD 0 <;> simp

lemma step_xor (a b : BitVec w) : step poly (a ^^^ b) = step poly a ^^^ step poly b := by
  refine BitVec.eq_of_getLsbD_eq fun i _ => ?_
  simp only [getLsbD_step, BitVec.getLsbD_xor, Bool.and_xor_distrib_right]
  rw [Bool.xor_assoc, Bool.xor_assoc, Bool.xor_left_comm (b.getLsbD (i + 1))]

lemma iterate_step_xor (n : Nat) (a b : BitVec w) :
    (step poly)^[n] (a ^^^ b) = (step poly)^[n] a ^^^ (step poly)^[n] b := by
  induction n generalizing a b with
  | zero => rfl
  | succ n ih => rw [Function.iterate_succ_apply, step_xor, ih]; rfl

lemma step_injective (hpoly : poly.msb = true) : Function.Injective (step poly) := by
  intro a b h
  rw [BitVec.msb_eq_getLsbD_last] at hpoly
  have hbit : ∀ i, (a.getLsbD (i + 1) ^^ (a.getLsbD 0 && poly.getLsbD i)) =
      (b.getLsbD (i + 1) ^^ (b.getLsbD 0 && poly.getLsbD i)) := fun i => by
    rw [← getLsbD_step, ← getLsbD_step, h]
  -- the highest bit of the result tells the lowest bit of the register
  have hlow : a.getLsbD 0 = b.getLsbD 0 := by
    have hlast := hbit (w - 1)
    rw [hpoly, BitVec.getLsbD_of_ge a _ (by omega), BitVec.getLsbD_of_ge b _ (by omega)] at hlast
    simpa using hlast
  refine BitVec.eq_of_getLsbD_eq fun i _ => ?_
  cases i with
  | zero => exact hlow
  | succ i => simpa [hlow] using hbit i

lemma step_shiftLeft (hr : r.msb = false) : step poly (r <<< 1) = r := by
  rw [BitVec.msb_eq_getLsbD_last] at hr
  refine BitVec.eq_of_getLsbD_eq fun i hi => ?_
  rw [getLsbD_step, BitVec.getLsbD_shiftLeft]
  by_cases hlast : i + 1 < w
  · simp [hlast]
  obtain rfl : i = w - 1 := by omega
  simp [hr]

lemma iterate_step_of_low {n : Nat} (h : ∀ i < n, r.getLsbD i = false) :
    (step poly)^[n] r = r >>> n := by
  induction n generalizing r with
  | zero => simp
  | succ n ih =>
    have hone : step poly r = r >>> 1 := by simp [step, h 0 n.succ_pos]
    have hrest : ∀ i < n, (r >>> 1).getLsbD i = false := fun i hi => by
      rw [BitVec.getLsbD_ushiftRight]
      exact h (1 + i) (by omega)
    rw [Function.iterate_succ_apply, hone, ih hrest, ← BitVec.shiftRight_add, add_comm]

/-- **Tables.** What several steps make of a register is what they make of as many of its lowest
bits, added to the rest of the register. -/
theorem iterate_step_eq (n : Nat) (r : BitVec w) :
    (step poly)^[n] r = r >>> n ^^^ (step poly)^[n] ((r.setWidth n).setWidth w) := by
  have hlow : ∀ i, ((r.setWidth n).setWidth w).getLsbD i = (decide (i < n) && r.getLsbD i) := by
    intro i
    by_cases hi : i < w
    · simp [hi]
    simp [BitVec.getLsbD_of_ge r i (by omega)]
  have hsplit : r = (r ^^^ (r.setWidth n).setWidth w) ^^^ (r.setWidth n).setWidth w := by
    rw [BitVec.xor_assoc, BitVec.xor_self, BitVec.xor_zero]
  conv_lhs => rw [hsplit, iterate_step_xor]
  congr 1
  rw [iterate_step_of_low fun i hi => by rw [BitVec.getLsbD_xor, hlow]; simp [hi]]
  refine BitVec.eq_of_getLsbD_eq fun i _ => ?_
  simp

lemma getLsbD_pack (bits : List Bool) (i : Nat) :
    (pack bits : BitVec w).getLsbD i = (decide (i < w) && bits.getD i false) := by
  induction bits generalizing i with
  | nil => simp [pack]
  | cons b bits ih =>
    rw [pack, BitVec.getLsbD_xor, BitVec.getLsbD_setWidth, BitVec.getLsbD_ofBool,
      BitVec.getLsbD_shiftLeft]
    cases i with
    | zero => simp
    | succ i =>
      simp only [ih]
      by_cases hi : i + 1 < w
      · simp [show i < w by omega]
      simp [hi]

lemma feed_append (r : BitVec w) (as bs : List Bool) :
    feed poly r (as ++ bs) = feed poly (feed poly r as) bs := by
  induction as generalizing r with
  | nil => rfl
  | cons b as ih => exact ih _

lemma feed_eq {bits : List Bool} (hlen : bits.length ≤ w) (r : BitVec w) :
    feed poly r bits = (step poly)^[bits.length] (r ^^^ pack bits) := by
  induction bits generalizing r with
  | nil => simp [feed, pack]
  | cons b bits ih =>
    rw [List.length_cons] at hlen
    have hmsb : (pack bits : BitVec w).msb = false := by
      rw [BitVec.msb_eq_getLsbD_last, getLsbD_pack, List.getD_eq_default _ _ (by omega),
        Bool.and_false]
    rw [feed, ih (by omega), List.length_cons, Function.iterate_succ_apply, pack,
      ← BitVec.xor_assoc, step_xor _ (pack bits <<< 1), step_shiftLeft hmsb]

lemma feed_injective (hpoly : poly.msb = true) (bits : List Bool) :
    Function.Injective (feed poly · bits) := by
  induction bits with
  | nil => exact fun _ _ h => h
  | cons b bits ih => exact fun _ _ h => by simpa using step_injective hpoly (ih h)

/-- **Bursts.** Two messages that differ only within as many bits as the register has leave
different registers. -/
theorem feed_burst (hpoly : poly.msb = true) {pre x y post : List Bool} (hx : x.length ≤ w)
    (hlen : y.length = x.length) (hne : x ≠ y) :
    feed poly r (pre ++ x ++ post) ≠ feed poly r (pre ++ y ++ post) := by
  simp only [feed_append]
  intro h
  have hwindow := feed_injective hpoly post h
  simp only [feed_eq hx, feed_eq (hlen.trans_le hx), hlen] at hwindow
  have hpack : (pack x : BitVec w) = pack y := by
    simpa using (step_injective hpoly).iterate _ hwindow
  refine hne (List.ext_getElem hlen.symm fun i hi hi' => ?_)
  have hbit := congrArg (·.getLsbD i) hpack
  simp only [getLsbD_pack] at hbit
  simpa [show i < w by omega, hi, hi'] using hbit

end NbIot.Crc
