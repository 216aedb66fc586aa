import Mathlib.Tactic

/-! # The real-time clock and its deadlines

A `long` has 32 bits, and there are 100 ticks in a second. The offset that `clock_settime` stores
has up to a whole second in its `tv_usec`, so that the time is not always normalised; and in
`clock_time_to_tick` the product of the nanoseconds and the tick rate does not fit an `int`.
-/

namespace NbIot.ClockTime

/-! ## Times and ticks -/

def rtTickPerSecond : Nat := 100
def microsecondPerTick : Nat := 10000
def nanosecondPerSecond : Nat := 1000000000

/-- What an `int` or a `long` keeps of a value. -/
def int32 (x : Int) : Int := x.bmod (2 ^ 32)

structure Timeval where
  sec : Int
  usec : Int

structure Timespec where
  sec : Int
  nsec : Int
  deriving DecidableEq

def Timespec.ns (t : Timespec) : Int := t.sec * nanosecondPerSecond + t.nsec

/-- `_timevalue` after `clock_settime`. -/
def clockSettime (tick : Nat) (second : Int) : Timeval where
  sec := int32 (second - (tick / rtTickPerSecond : Nat) - 1)
  usec := 1000000 - (tick % rtTickPerSecond * microsecondPerTick : Nat)

def clockGettime (timevalue : Timeval) (tick : Nat) : Timespec where
  sec := int32 (timevalue.sec + (tick / rtTickPerSecond : Nat))
  nsec := int32 ((timevalue.usec + (tick % rtTickPerSecond * microsecondPerTick : Nat)) * 1000)

/-- The difference is in `second` and `nsecond`. The quotient is that of unsigned numbers. -/
def clockTimeToTick (timevalue : Timeval) (tick : Nat) (time : Timespec) : Int :=
  let tp := clockGettime timevalue tick
  let borrow := int32 (time.nsec - tp.nsec) < 0
  let nsecond := if borrow then int32 (nanosecondPerSecond - (tp.nsec - time.nsec))
    else int32 (time.nsec - tp.nsec)
  let second := if borrow then int32 (time.sec - tp.sec - 1) else int32 (time.sec - tp.sec)
  max 0 (int32 (second * rtTickPerSecond +
    nsecond * rtTickPerSecond % 2 ^ 32 / nanosecondPerSecond))

/-- The time is normalised, and the deadline is converted to the ticks up to it. -/
def Converts (timevalue : Timeval) (tick : Nat) (time : Timespec) : Prop :=
  let now := clockGettime timevalue tick
  let left := time.ns - now.ns
  (0 ≤ now.nsec ∧ now.nsec < nanosecondPerSecond) ∧ clockTimeToTick timevalue tick time =
    if left < 0 then 0 else left * rtTickPerSecond / nanosecondPerSecond

/-! ## The arithmetic of an `int` -/

lemma int32_eq {x : Int} (h : -2 ^ 31 ≤ x) (h' : x < 2 ^ 31) : int32 x = x :=
  Int.bmod_eq_of_le (by omega) (by omega)

lemma nsec_eq (set tick : Nat) (second : Int) :
    (clockGettime (clockSettime set second) tick).nsec =
      (1000000 + (tick % 100 : Nat) * 10000 - (set % 100 : Nat) * 10000) * 1000 := by
  simp only [clockGettime, clockSettime, rtTickPerSecond, microsecondPerTick]
  rw [int32_eq (by omega) (by omega)]
  omega

/-- The ticks of a difference in nanoseconds, with the product of those below a second modulo
`2 ^ 32`. -/
def wrappedTicks (left : Int) : Int :=
  left / nanosecondPerSecond * rtTickPerSecond +
    left % nanosecondPerSecond * rtTickPerSecond % 2 ^ 32 / nanosecondPerSecond

lemma int32_second (second x : Int) :
    int32 (int32 second * 100 + x) = int32 (second * 100 + x) := by
  unfold int32
  rw [← Int.bmod_add_bmod, Int.bmod_mul_bmod, Int.bmod_add_bmod]

/-- The result for the difference in `second` and `nsecond`, before it is cut off at 0. -/
lemma ticks_eq {second nsecond left : Int} (hleft : left = second * 1000000000 + nsecond)
    (hnsecond : 0 ≤ nsecond ∧ nsecond < 1000000000) :
    int32 (int32 second * 100 + nsecond * 100 % 2 ^ 32 / 1000000000) =
      int32 (wrappedTicks left) := by
  have hdiv : left / 1000000000 = second := by omega
  have hmod : left % 1000000000 = nsecond := by omega
  rw [int32_second, wrappedTicks]
  simp only [nanosecondPerSecond, rtTickPerSecond, Nat.cast_ofNat, hdiv, hmod]

lemma ticks_iff {left : Int} (hnear : left < 10 ^ 15) :
    max 0 (int32 (wrappedTicks left)) = (if left < 0 then 0 else left * 100 / 1000000000) ↔
      if left < 0 then int32 (wrappedTicks left) ≤ 0 else left % 1000000000 < 42949673 := by
  by_cases hpast : left < 0
  · simp only [if_pos hpast]
    omega
  simp only [if_neg hpast, wrappedTicks, nanosecondPerSecond, rtTickPerSecond, Nat.cast_ofNat]
  have hdiv : left * 100 / 1000000000 =
      left / 1000000000 * 100 + left % 1000000000 * 100 / 1000000000 := by omega
  rw [int32_eq (by omega) (by omega), hdiv]
  by_cases hsmall : left % 1000000000 < 42949673
  · rw [Int.emod_eq_of_lt (b := 2 ^ 32) (by omega) (by omega)]
    omega
  · -- four ticks or more, but the quotient of the remainder is less than that of the product
    have hlarge : left % 1000000000 * 100 % 2 ^ 32 / 1000000000 <
        left % 1000000000 * 100 / 1000000000 := by omega
    omega

/-! ## The law -/

/-- **Deadlines** are converted as they should if and only if the tick is earlier in its second than
at the setting, and: for a deadline to come, the part of the difference below a second is less than
42949673 ns; for one that is past, the number of ticks is not positive as an `int`. -/
theorem deadline_converted_iff (set tick : Nat) (second : Int) (time now : Timespec)
    (hnow : clockGettime (clockSettime set second) tick = now)
    (hnsec : 0 ≤ time.nsec ∧ time.nsec < nanosecondPerSecond)
    (hnear : time.ns - now.ns < 10 ^ 15) :
    Converts (clockSettime set second) tick time ↔
      tick % rtTickPerSecond < set % rtTickPerSecond ∧
        if time.ns - now.ns < 0 then int32 (wrappedTicks (time.ns - now.ns)) ≤ 0
        else (time.ns - now.ns) % nanosecondPerSecond < 42949673 := by
  have hset := nsec_eq set tick second
  rw [hnow] at hset
  unfold Converts clockTimeToTick Timespec.ns at *
  rw [hnow]
  clear hnow
  obtain ⟨sec, nsec⟩ := now
  simp only [nanosecondPerSecond, rtTickPerSecond, Nat.cast_ofNat] at *
  refine (and_congr_left' (by omega : _ ↔ tick % 100 < set % 100)).trans
    (and_congr_right fun hearly => ?_)
  -- the time is normalised, so that the difference of the nanoseconds does not wrap
  rw [int32_eq (x := time.nsec - nsec) (by omega) (by omega)]
  refine Iff.trans ?_ (ticks_iff hnear)
  by_cases hborrow : time.nsec - nsec < 0
  · simp only [if_pos hborrow]
    have hleft : time.sec * 1000000000 + time.nsec - (sec * 1000000000 + nsec) =
        (time.sec - sec - 1) * 1000000000 + (1000000000 - (nsec - time.nsec)) := by omega
    rw [int32_eq (x := 1000000000 - (nsec - time.nsec)) (by omega) (by omega),
      ticks_eq hleft (by omega)]
    exact Iff.rfl
  · simp only [if_neg hborrow]
    have hleft : time.sec * 1000000000 + time.nsec - (sec * 1000000000 + nsec) =
        (time.sec - sec) * 1000000000 + (time.nsec - nsec) := by omega
    rw [ticks_eq hleft (by omega)]
    exact Iff.rfl

/-- Less than two ticks to come, and a deadline that is past. -/
theorem deadline_converted_iff_twoTicks :
    Converts (clockSettime 150 1000) 230 ⟨1000, 820000000⟩ ∧
      Converts (clockSettime 150 1000) 230 ⟨900, 0⟩ :=
  ⟨(deadline_converted_iff 150 230 1000 _ _ rfl (by decide) (by decide)).mpr (by decide),
    (deadline_converted_iff 150 230 1000 _ _ rfl (by decide) (by decide)).mpr (by decide)⟩

/-- Just after the setting the time is not normalised; and half a second is two ticks. -/
theorem deadline_missed :
    (clockGettime (clockSettime 100 1000) 100).nsec = 1000000000 ∧
      clockGettime (clockSettime 150 1000) 200 = ⟨1000, 500000000⟩ ∧
        clockTimeToTick (clockSettime 150 1000) 200 ⟨1001, 0⟩ = 2 := by
  decide

end NbIot.ClockTime
