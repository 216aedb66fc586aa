import NbIot.Basic.CString

/-! # Moves and strings of `kservice.c`

`rt_memmove`, `rt_strncpy` and `rt_strncmp` on the bytes of one array or of two. Memory is a
function on indices, and a pointer is an index.
-/

namespace NbIot.Kservice

open CString Function

/-! ## `rt_memmove` -/

/-- `while (n--) *(--tmp) = *(--s);`, with `tmp` and `s` at the ends of the two ranges. -/
def moveDown (mem : Nat → UInt8) (dest src : Nat) : Nat → Nat → UInt8
  | 0 => mem
  | n + 1 => moveDown (update mem (dest + n) (mem (src + n))) dest src n

/-- `while (n--) *tmp++ = *s++;`. -/
def moveUp (mem : Nat → UInt8) (dest src : Nat) : Nat → Nat → UInt8
  | 0 => mem
  | n + 1 => moveUp (update mem dest (mem src)) (dest + 1) (src + 1) n

def rtMemmove (mem : Nat → UInt8) (dest src n : Nat) : Nat → UInt8 :=
  if src < dest ∧ dest < src + n then moveDown mem dest src n else moveUp mem dest src n

lemma moveDown_eq {dest src : Nat} (h : src < dest) (mem : Nat → UInt8) (n : Nat) :
    moveDown mem dest src n = blit mem dest n fun i => mem (src + i) := by
  induction n generalizing mem with
  | zero =>
    funext i
    rw [moveDown, blit, if_neg (by omega)]
  | succ n ih =>
    rw [moveDown, ih]
    funext i
    simp only [blit]
    -- the byte just written is above all that are still to be read
    by_cases hlast : i = dest + n
    · subst hlast
      rw [if_neg (by omega), if_pos (by omega), update_self, Nat.add_sub_cancel_left]
    by_cases hin : dest ≤ i ∧ i < dest + n
    · rw [if_pos hin, if_pos (by omega), update_of_ne (by omega)]
    rw [if_neg hin, if_neg (by omega), update_of_ne hlast]

lemma moveUp_eq {dest src n : Nat} (h : dest ≤ src ∨ src + n ≤ dest) (mem : Nat → UInt8) :
    moveUp mem dest src n = blit mem dest n fun i => mem (src + i) := by
  induction n generalizing mem dest src with
  | zero =>
    funext i
    rw [moveUp, blit, if_neg (by omega)]
  | succ n ih =>
    rw [moveUp, ih (by omega)]
    funext i
    simp only [blit]
    by_cases hfirst : i = dest
    · subst hfirst
      rw [if_neg (by omega), if_pos (by omega), update_self, Nat.sub_self, add_zero]
    by_cases hin : dest + 1 ≤ i ∧ i < dest + 1 + n
    · rw [if_pos hin, if_pos (by omega), update_of_ne (by omega)]
      congr 1
      omega
    rw [if_neg hin, if_neg (by omega), update_of_ne hfirst]

lemma rtMemmove_eq (mem : Nat → UInt8) (dest src n : Nat) :
    rtMemmove mem dest src n = blit mem dest n fun i => mem (src + i) := by
  unfold rtMemmove
  split
  · rename_i h
    exact moveDown_eq h.1 mem n
  exact moveUp_eq (by omega) mem

/-! ## `rt_strncpy` -/

def padZero (dst : Nat → UInt8) (i : Nat) : Nat → Nat → UInt8
  | 0 => dst
  | n + 1 => padZero (update dst i 0) (i + 1) n

/-- The loop of `rt_strncpy`, with `n` bytes to go from the index `i` on. -/
def strncpyFrom (dst src : Nat → UInt8) (i : Nat) : Nat → Nat → UInt8
  | 0 => dst
  | n + 1 =>
    if src i = 0 then padZero (update dst i (src i)) (i + 1) n
    else strncpyFrom (update dst i (src i)) src (i + 1) n

def rtStrncpy (dst src : Nat → UInt8) (n : Nat) : Nat → UInt8 := strncpyFrom dst src 0 n

lemma padZero_eq (dst : Nat → UInt8) (i n : Nat) : padZero dst i n = blit dst i n fun _ => 0 := by
  induction n generalizing dst i with
  | zero =>
    funext j
    rw [padZero, blit, if_neg (by omega)]
  | succ n ih =>
    rw [padZero, ih]
    funext j
    simp only [blit]
    by_cases hj : j = i
    · subst hj
      rw [if_neg (by omega), if_pos (by omega), update_self]
    rw [update_of_ne hj]
    exact if_congr (by omega) rfl rfl

lemma strncpyFrom_eq {src : Nat → UInt8} {text : List UInt8} (htext : NoZero text)
    (hsrc : ∀ i, src i = text.getD i 0) (dst : Nat → UInt8) {i n : Nat} (hi : i ≤ text.length) :
    strncpyFrom dst src i n = blit dst i n fun j => text.getD (i + j) 0 := by
  induction n generalizing dst i with
  | zero =>
    funext j
    rw [strncpyFrom, blit, if_neg (by omega)]
  | succ n ih =>
    rw [strncpyFrom]
    by_cases hend : i = text.length
    · have hzero : src i = 0 := by rw [hsrc, List.getD_eq_default _ _ (by omega)]
      rw [if_pos hzero, padZero_eq, hzero]
      funext j
      simp only [blit]
      rw [List.getD_eq_default _ _ (by omega)]
      by_cases hj : j = i
      · subst hj
        rw [if_neg (by omega), if_pos (by omega), update_self]
      rw [update_of_ne hj]
      exact if_congr (by omega) rfl rfl
    have hlt : i < text.length := by omega
    have hne : src i ≠ 0 := by
      rw [hsrc, List.getD_eq_getElem _ _ hlt]
      exact htext _ (List.getElem_mem hlt)
    rw [if_neg hne, ih _ (by omega), hsrc]
    funext j
    simp only [blit]
    by_cases hj : j = i
    · subst hj
      rw [if_neg (by omega), if_pos (by omega), update_self, Nat.sub_self, add_zero]
    rw [update_of_ne hj]
    by_cases hin : i + 1 ≤ j ∧ j < i + 1 + n
    · rw [if_pos hin, if_pos (by omega)]
      congr 1
      omega
    rw [if_neg hin, if_neg (by omega)]

lemma rtStrncpy_padded {src : Nat → UInt8} {text : List UInt8} (htext : NoZero text)
    (hsrc : ∀ i, src i = text.getD i 0) (dst : Nat → UInt8) (n : Nat) :
    Padded n (rtStrncpy dst src n) text := by
  intro i hi
  rw [rtStrncpy, strncpyFrom_eq htext hsrc dst (Nat.zero_le _), blit, if_pos (by omega)]
  simp

/-! ## `rt_strncmp` -/

/-- The loop of `rt_strncmp` from the index `i` on; the result is a `signed char`. -/
def strncmpFrom (cs ct : Nat → UInt8) (i : Nat) : Nat → UInt8
  | 0 => 0
  | count + 1 =>
    if cs i - ct i ≠ 0 ∨ cs i = 0 then cs i - ct i else strncmpFrom cs ct (i + 1) count

def rtStrncmp (cs ct : Nat → UInt8) (count : Nat) : Int := (strncmpFrom cs ct 0 count).toInt8.toInt

lemma byte_sub_ne_zero {x y : UInt8} (hne : x ≠ y) : x - y ≠ 0 := by
  intro h
  have hadd := UInt8.sub_add_cancel x y
  rw [h, UInt8.zero_add] at hadd
  exact hne hadd.symm

lemma strncmpFrom_eq_zero {cs ct : Nat → UInt8} {i count : Nat} : strncmpFrom cs ct i count = 0 ↔
      ∀ j < count, (∀ l < j, cs (i + l) ≠ 0) → cs (i + j) = ct (i + j) := by
  induction count generalizing i with
  | zero => simp [strncmpFrom]
  | succ count ih =>
    rw [strncmpFrom]
    by_cases hdiff : cs i = ct i
    · by_cases hz : cs i = 0
      · -- both strings end here
        rw [if_pos (.inr hz), hdiff, UInt8.sub_self]
        refine ⟨fun _ j _ hl => ?_, fun _ => rfl⟩
        rcases Nat.eq_zero_or_pos j with rfl | hj
        · exact hdiff
        exact absurd hz (hl 0 hj)
      rw [if_neg (by rw [hdiff]; simpa [hdiff] using hz), ih]
      constructor
      · intro h j hj hl
        cases j with
        | zero => exact hdiff
        | succ j =>
          have := h j (by omega) fun l hlj => by
            have := hl (l + 1) (by omega)
            rwa [show i + (l + 1) = i + 1 + l by omega] at this
          rwa [show i + (j + 1) = i + 1 + j by omega]
      intro h j hj hl
      have := h (j + 1) (by omega) fun l hlj => by
        cases l with
        | zero => exact hz
        | succ l =>
          have := hl l (by omega)
          rwa [show i + (l + 1) = i + 1 + l by omega]
      rwa [show i + (j + 1) = i + 1 + j by omega] at this
    have hne := byte_sub_ne_zero hdiff
    rw [if_pos (.inl hne)]
    refine ⟨fun h => absurd h hne, fun h => absurd (h 0 (by omega) (by simp)) hdiff⟩

lemma toInt8_eq_zero (x : UInt8) : x.toInt8.toInt = 0 ↔ x = 0 := by
  constructor
  · intro h
    have hx : x.toInt8 = 0 := Int8.toInt_inj.mp (by exact h)
    rw [← UInt8.toUInt8_toInt8 x, hx]
    rfl
  rintro rfl
  rfl

/-- **`rt_strncmp`** is zero if the strings are equal up to their end or up to `count` bytes. -/
theorem rtStrncmp_eq_zero {cs ct : Nat → UInt8} {count : Nat} :
    rtStrncmp cs ct count = 0 ↔ ∀ j < count, (∀ l < j, cs l ≠ 0) → cs j = ct j := by
  rw [rtStrncmp, toInt8_eq_zero, strncmpFrom_eq_zero]
  simp

end NbIot.Kservice
