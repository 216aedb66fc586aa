import NbIot.Basic.Window
import Mathlib.Data.List.GetD

/-! # Texts in fixed arrays

An array of `n` bytes is a function on indices. `Padded n buf text` says that it holds a text and
zeros behind it, which is what a program keeps up that edits a text in place. `cstr n buf` is what
is read from the array by those who look for the terminating zero. A text is inserted into and
erased from with one move of the bytes behind the place (`padded_insert`, `padded_erase`).
-/

namespace NbIot.CString

open Function List

variable {n : Nat} {buf : Nat → UInt8} {text : List UInt8} {rest : List UInt8}

/-- The bytes up to the first zero, if there is a zero in the array. -/
def cstr (n : Nat) (buf : Nat → UInt8) : Option (List UInt8) :=
  if ((block buf n).takeWhile (· ≠ 0)).length < n then some ((block buf n).takeWhile (· ≠ 0))
  else none

def Padded (n : Nat) (buf : Nat → UInt8) (text : List UInt8) : Prop :=
  ∀ i < n, buf i = text.getD i 0

def NoZero (text : List UInt8) : Prop := ∀ c ∈ text, c ≠ 0

instance (text : List UInt8) : Decidable (NoZero text) := List.decidableBAll _ text

/-- The characters from `' '` to `'~'`. -/
def Printable (ch : UInt8) : Prop := 0x20 ≤ ch ∧ ch ≤ 0x7e
  deriving Decidable

lemma Printable.ne_zero {ch : UInt8} (h : Printable ch) : ch ≠ 0 := by
  rintro rfl
  exact absurd h (by decide)

lemma padded_nil (n : Nat) : Padded n (fun _ => 0) [] := fun _ _ => rfl

lemma Padded.block_eq (h : Padded n buf text) (hlen : text.length ≤ n) :
    block buf text.length = text := by
  refine ext_getElem (by simp) ?_
  intro i hi hi'
  simp only [block, getElem_map, getElem_range]
  rw [h i (by omega), getD_eq_getElem _ _ hi']

lemma Padded.zero (h : Padded n buf text) {i : Nat} (hi : text.length ≤ i) (hn : i < n) :
    buf i = 0 := by
  rw [h i hn, getD_eq_default _ _ hi]

lemma takeWhile_of_block {k : Nat} (htext : NoZero text) (hblock : block buf text.length = text)
    (hk : text.length < k) (hzero : buf text.length = 0) :
    (block buf k).takeWhile (· ≠ 0) = text := by
  have hsplit : block buf k = text ++ block (fun i => buf (text.length + i)) (k - text.length) := by
    calc block buf k = block buf (text.length + (k - text.length)) := by
          rw [Nat.add_sub_cancel' hk.le]
      _ = text ++ block (fun i => buf (text.length + i)) (k - text.length) := by
          rw [block_add, hblock]
  obtain ⟨m, hm⟩ : ∃ m, k - text.length = 1 + m := ⟨k - text.length - 1, by omega⟩
  rw [hsplit, hm, block_add, block_one, add_zero, hzero,
    takeWhile_append_of_pos (by simpa [NoZero] using htext)]
  simp

lemma cstr_of_block (htext : NoZero text) (hblock : block buf text.length = text)
    (hlen : text.length < n) (hzero : buf text.length = 0) : cstr n buf = some text := by
  rw [cstr, takeWhile_of_block htext hblock hlen hzero, if_pos hlen]

lemma Padded.cstr_eq (h : Padded n buf text) (htext : NoZero text) (hlen : text.length < n) :
    cstr n buf = some text :=
  cstr_of_block htext (h.block_eq hlen.le) hlen (h.zero (le_rfl) hlen)

/-- A byte is inserted at `c`: the bytes from there on are moved up, and it is stored. -/
theorem padded_insert (h : Padded n buf text) {c : Nat} (hc : c ≤ text.length) (ch : UInt8) :
    Padded n (update (blit buf (c + 1) (text.length - c) fun i => buf (c + i)) c ch)
      (text.insertIdx c ch) := by
  intro i hi
  rw [getD_eq_getElem?_getD, getElem?_insertIdx]
  rcases Nat.lt_trichotomy i c with hlt | rfl | hgt
  · rw [if_pos hlt, update_of_ne (by omega), blit, if_neg (by omega), h i hi, getD_eq_getElem?_getD]
  · simp [hc]
  rw [if_neg (by omega), if_neg (by omega), update_of_ne (by omega), blit]
  by_cases hin : i ≤ text.length
  · rw [if_pos (by omega), show c + (i - (c + 1)) = i - 1 by omega, h (i - 1) (by omega),
      getD_eq_getElem?_getD]
  rw [if_neg (by omega), h.zero (by omega) hi, getElem?_eq_none (by omega)]
  rfl

lemma padded_overwrite (h : Padded n buf (text ++ rest)) (hrest : rest.length ≤ 1) (ch : UInt8) :
    Padded n (update buf text.length ch) (text ++ [ch]) := by
  intro i hi
  rcases Nat.lt_trichotomy i text.length with hlt | rfl | hgt
  · rw [update_of_ne (by omega), h i hi, getD_append _ _ _ _ hlt, getD_append _ _ _ _ hlt]
  · simp
  rw [update_of_ne (by omega), h.zero (by simp; omega) hi, getD_eq_default _ _ (by simp; omega)]

lemma padded_append (h : Padded n buf text) (ch : UInt8) :
    Padded n (update buf text.length ch) (text ++ [ch]) :=
  padded_overwrite (show Padded n buf (text ++ []) by rwa [append_nil]) (Nat.zero_le 1) ch

lemma padded_clear (h : Padded n buf (text ++ rest))
    (hrest : rest.length ≤ 1) : Padded n (update buf text.length 0) text := by
  intro i hi
  have hover := padded_overwrite h hrest 0 i hi
  rw [hover]
  rcases Nat.lt_trichotomy i text.length with hlt | rfl | hgt
  · rw [getD_append _ _ _ _ hlt]
  · simp
  rw [getD_eq_default _ _ (by simp; omega), getD_eq_default _ _ (by omega)]

lemma padded_of_le {rest' : List UInt8} (h : Padded n buf (text ++ rest))
    (hlen : n ≤ text.length) : Padded n buf (text ++ rest') := by
  intro i hi
  rw [h i hi, getD_append _ _ _ _ (by omega), getD_append _ _ _ _ (by omega)]

/-- The byte at `c` is erased: the bytes behind it are moved down, and the last is cleared. -/
theorem padded_erase (h : Padded n buf text) {c : Nat} (hc : c < text.length)
    (hlen : text.length ≤ n) :
    Padded n (update (blit buf c (text.length - 1 - c) fun i => buf (c + 1 + i))
      (text.length - 1) 0) (text.eraseIdx c) := by
  intro i hi
  rw [getD_eq_getElem?_getD, getElem?_eraseIdx]
  rcases Nat.lt_trichotomy i (text.length - 1) with hlt | rfl | hgt
  · rw [update_of_ne (by omega), blit]
    by_cases hic : i < c
    · rw [if_neg (by omega), if_pos hic, h i hi, getD_eq_getElem?_getD]
    rw [if_pos (by omega), if_neg hic, show c + 1 + (i - c) = i + 1 by omega,
      h (i + 1) (by omega), getD_eq_getElem?_getD]
  · rw [update_self, if_neg (by omega), getElem?_eq_none (by omega)]
    rfl
  rw [update_of_ne (by omega), blit, if_neg (by omega), h.zero (by omega) hi,
    if_neg (by omega), getElem?_eq_none (by omega)]
  rfl

lemma padded_copy {src : Nat → UInt8} (hblock : block src text.length = text) (n : Nat) :
    Padded n (blit (fun _ => 0) 0 text.length src) text := by
  intro i hi
  rw [blit]
  by_cases hin : i < text.length
  · have hsrc : src i = text[i] := by
      have := congrArg (fun l => l[i]?) hblock
      simpa [block, hin] using this
    rw [if_pos (by omega), Nat.sub_zero, hsrc, getD_eq_getElem _ _ hin]
  rw [if_neg (by omega), getD_eq_default _ _ (by omega)]

lemma Padded.congr {buf' : Nat → UInt8} (h : Padded n buf text) (heq : ∀ i < n, buf' i = buf i) :
    Padded n buf' text := fun i hi => (heq i hi).trans (h i hi)

end NbIot.CString
