import NbIot.Basic.CString
import NbIot.Kservice.Length

/-! # Conversions of strings and octal numbers

`%.ps` on a string in memory: `rt_vsnprintf` takes the length of the whole string first and cuts it
down to the precision after that, if the precision is not zero, so that it looks at the bytes up to
the terminating zero, wherever that is. `%o`: `divide` knows the bases 10 and 16 only.
-/

namespace NbIot.Kservice

open Output CString

/-! ## `%s` with a precision -/

/-- `rt_strlen` from the index `i` on, for at most so many turns: the length and the indices that
are inspected. -/
def strlenFrom (s : Nat → UInt8) : Nat → Nat → Option (Nat × List Nat)
  | 0, _ => none
  | fuel + 1, i =>
    if s i = 0 then some (i, [i]) else (strlenFrom s fuel (i + 1)).map fun r => (r.1, i :: r.2)

/-- `len`, of a string of length `n`. -/
def printedLen (n : Nat) (precision : Int) : Int :=
  if 0 < precision ∧ precision < int32 n then precision else int32 n

/-- `case 's'` for the string at `s`: what is written, and the indices of `s` that are inspected. -/
def convertStr (s : Nat → UInt8) (fuel : Nat) (w p : Int) (f : Flags) :
    Option (Output Unit × List Nat) :=
  (strlenFrom s fuel 0).map fun (n, seen) =>
    (printItem (.str (block s n) w p f), seen ++ List.range (printedLen n p).toNat)

/-- A text in a field of width `w`. -/
def inField (left : Bool) (w : Int) (l : List UInt8) : List UInt8 :=
  let blanks := List.replicate (w - l.length).toNat ' '.toUInt8
  if left then l ++ blanks else blanks ++ l

/-- The first `p` characters of a string, or all of it if it is shorter. -/
def firstChars (s : Nat → UInt8) (p : Nat) : List UInt8 := (block s p).takeWhile (· ≠ 0)

section Text

variable (fits : Nat → Bool) (n : Nat)

@[simp] lemma text_fill (c : UInt8) (k : Nat) :
    text fits n (fill c k) = ((), List.replicate k c) := by
  induction k generalizing n with
  | zero => rfl
  | succ k ih => rw [fill, text_bind, text_putChar, ih, List.replicate_succ]; rfl

@[simp] lemma text_puts (l : List UInt8) : text fits n (puts l) = ((), l) := by
  induction l generalizing n with
  | nil => rfl
  | cons c l ih => rw [puts, text_bind, text_putChar, ih]; rfl

@[simp] lemma snd_padDown (c : UInt8) (bound m : Int) :
    (text fits n (padDown c bound m)).2 = List.replicate (m - bound).toNat c := by
  rw [padDown, text_bind, text_fill, text_pure, List.append_nil]

lemma text_str (l : List UInt8) (w p : Int) (f : Flags) (hw : -1 ≤ w) (hl : l.length < p)
    (hp : p < 2147483648) :
    (text fits n (printItem (.str l w p f))).2 = inField f.left w l := by
  have hlen : int32 l.length = l.length := int32_of_range (by omega) (by omega)
  have hrest : int32 (min (l.length : Int) w - 1) = min (l.length : Int) w - 1 :=
    int32_of_range (by omega) (by omega)
  simp only [printItem, hlen, inField]
  rw [if_neg (show ¬ (0 < p ∧ p < (l.length : Int)) by omega), Int.toNat_natCast, List.take_length]
  cases f.left with
  | true => simp [text_bind]
  | false =>
    have hnone : (min (l.length : Int) w - 1 - l.length).toNat = 0 := by omega
    simp [text_bind, hrest, hnone]

end Text

variable {s : Nat → UInt8}

lemma strlenFrom_eq {i k fuel : Nat} (hne : ∀ j < k, s (i + j) ≠ 0) (hz : s (i + k) = 0)
    (hk : k < fuel) : strlenFrom s fuel i = some (i + k, List.range' i (k + 1)) := by
  obtain ⟨fuel, rfl⟩ : ∃ m, fuel = m + 1 := ⟨fuel - 1, by omega⟩
  induction k generalizing i fuel with
  | zero => rw [strlenFrom, if_pos (by exact hz)]; rfl
  | succ k ih =>
    have hshift : ∀ j, i + 1 + j = i + (j + 1) := fun j => by omega
    obtain ⟨fuel, rfl⟩ : ∃ m, fuel = m + 1 := ⟨fuel - 1, by omega⟩
    have h0 : s i ≠ 0 := hne 0 (by omega)
    rw [strlenFrom, if_neg h0, ih _ (hshift k ▸ hz) fuel (by omega), hshift]
    · rfl
    exact fun j hj => hshift j ▸ hne (j + 1) (by omega)

lemma strlenFrom_spec {fuel i k : Nat} {seen : List Nat}
    (h : strlenFrom s fuel i = some (k, seen)) : s k = 0 ∧ k ∈ seen := by
  induction fuel generalizing i seen with
  | zero => cases h
  | succ fuel ih =>
    rw [strlenFrom] at h
    split at h
    · cases h
      exact ⟨‹_›, List.mem_singleton_self _⟩
    obtain ⟨⟨k', seen'⟩, hr, h⟩ := Option.map_eq_some_iff.mp h
    cases h
    exact ⟨(ih hr).1, List.mem_cons_of_mem _ (ih hr).2⟩

/-- **The precision of a string.** `%.ps` writes the first `p` characters, and inspects no byte from
the index `p` on, exactly if the string ends in front of this index. -/
theorem precision_iff (s : Nat → UInt8) (w p : Int) (f : Flags) (hw : -1 ≤ w ∧ w < 2147483648)
    (hp : 0 ≤ p ∧ p < 2147483648) :
    (∃ fuel o seen, convertStr s fuel w p f = some (o, seen) ∧
      (∀ fits n, (text fits n o).2 = inField f.left w (firstChars s p.toNat)) ∧
      ∀ i ∈ seen, (i : Int) < p) ↔ ∃ n : Nat, n < p ∧ s n = 0 := by
  constructor
  · rintro ⟨fuel, o, seen, hconv, -, hseen⟩
    obtain ⟨⟨n, seen'⟩, hlen, hr⟩ := Option.map_eq_some_iff.mp hconv
    cases hr
    obtain ⟨hz, hmem⟩ := strlenFrom_spec hlen
    exact ⟨n, hseen n (List.mem_append_left _ hmem), hz⟩
  rintro ⟨n, hn, hz⟩
  have hex : ∃ k, s k = 0 := ⟨n, hz⟩
  obtain ⟨k, hk⟩ : ∃ k, Nat.find hex = k := ⟨_, rfl⟩
  have hkz : s k = 0 := hk ▸ Nat.find_spec hex
  have hle : k ≤ n := hk ▸ Nat.find_min' hex hz
  have hne : ∀ j < k, s j ≠ 0 := fun j hj => Nat.find_min hex (hk ▸ hj)
  have hlen := @strlenFrom_eq s 0 k (k + 1) (by simpa using hne) (by simpa using hkz) (by omega)
  have hfirst : firstChars s p.toNat = block s k := by
    have htext : NoZero (block s k) := by
      intro c hc
      obtain ⟨j, hj, rfl⟩ := List.mem_map.mp hc
      exact hne j (List.mem_range.mp hj)
    exact takeWhile_of_block htext (by simp) (by simp; omega) (by simpa using hkz)
  refine ⟨k + 1, _, _, by rw [convertStr, hlen]; rfl, fun fits m => ?_, fun i hi => ?_⟩
  · rw [hfirst, zero_add]
    exact text_str fits m _ w p f hw.1 (by simp; omega) hp.2
  have hprinted : printedLen (0 + k) p ≤ k := by
    rw [printedLen, int32_of_range (by omega) (by omega)]
    split <;> omega
  simp only [List.mem_append, List.mem_range'_1, List.mem_range] at hi
  omega

theorem precision_iff_two :
    ∃ fuel o seen, convertStr (fun i => if i < 2 then 'a'.toUInt8 else 0) fuel 4 3 {} =
        some (o, seen) ∧ (∀ fits n, (text fits n o).2 = [' ', ' ', 'a', 'a'].map Char.toUInt8) ∧
      ∀ i ∈ seen, (i : Int) < 3 :=
  (precision_iff (fun i => if i < 2 then 'a'.toUInt8 else 0) 4 3 {} (by decide) (by decide)).mpr
    ⟨2, by decide, rfl⟩

/-- `%.0s` writes the whole string. `%.2s` writes two characters, but looks for the zero behind
them. -/
theorem zeroPrecision_ignored :
    (convertStr (fun i => if i < 3 then 'a'.toUInt8 else 0) 4 (-1) 0 {}).map
        (fun r => ((text (fun _ => true) 0 r.1).2, r.2)) =
      some (['a', 'a', 'a'].map Char.toUInt8, [0, 1, 2, 3, 0, 1, 2]) ∧
    (convertStr (fun i => if i < 3 then 'a'.toUInt8 else 0) 4 (-1) 2 {}).map
        (fun r => ((text (fun _ => true) 0 r.1).2, r.2)) =
      some (['a', 'a'].map Char.toUInt8, [0, 1, 2, 3, 0, 1]) := by
  decide

/-! ## Numerals -/

/-- The numeral of `n` in base `b`. -/
def numeral (large : Bool) (b n : Nat) : List UInt8 :=
  if n = 0 then ['0'.toUInt8] else ((Nat.digits b n).map (digits large)).reverse

def digitVal (c : UInt8) : Nat :=
  if c ≤ '9'.toUInt8 then c.toNat - '0'.toNat
  else if c ≤ 'F'.toUInt8 then c.toNat - 'A'.toNat + 10
  else c.toNat - 'a'.toNat + 10

def value (b : Nat) (l : List UInt8) : Nat := Nat.ofDigits b (l.map digitVal).reverse

lemma digitVal_digits (large : Bool) {d : Nat} (h : d < 16) : digitVal (digits large d) = d := by
  have hall : ∀ (large : Bool) (d : Fin 16), digitVal (digits large d) = d := by decide
  exact hall large ⟨d, h⟩

lemma map_digitVal {large : Bool} {ds : List Nat} (h : ∀ d ∈ ds, d < 16) :
    (ds.map (digits large)).map digitVal = ds := by
  rw [List.map_map]
  exact (List.map_congr_left fun d hd => digitVal_digits large (h d hd)).trans (List.map_id ds)

/-- Digits in a base up to 16 have a character each. -/
theorem digits_lt {b : Nat} (h1 : 1 < b) (h16 : b ≤ 16) (n : Nat) : ∀ d ∈ Nat.digits b n, d < 16 :=
  fun _ hd => (Nat.digits_lt_base h1 hd).trans_le h16

lemma value_numeral (large : Bool) {b : Nat} (h1 : 1 < b) (h16 : b ≤ 16) (n : Nat) :
    value b (numeral large b n) = n := by
  unfold numeral value
  split
  · rename_i h0
    rw [h0]
    rfl
  rw [List.map_reverse, List.reverse_reverse, map_digitVal (digits_lt h1 h16 n),
    Nat.ofDigits_digits]

/-- `divide` works in base 10 or 16, and after ten digits nothing is left of a 32-bit number, so
that `tmp` is large enough. -/
theorem tmpLoop_eq (large : Bool) (base k : Nat) (num : BitVec 32) (h : num.toNat < 10 ^ k) :
    tmpLoop large base k num =
      (Nat.digits (if base = 10 then 10 else 16) num.toNat).map (digits large) := by
  induction k generalizing num with
  | zero =>
    have h0 : num.toNat = 0 := by simpa using h
    rw [h0, Nat.digits_zero]
    rfl
  | succ k ih =>
    by_cases h0 : num = 0
    · simp [tmpLoop, h0]
    have hpos : 0 < num.toNat := pos_of_ne_zero fun hc => h0 (BitVec.eq_of_toNat_eq hc)
    have hdiv :
        divide num base = (num.toNat % (if base = 10 then 10 else 16), (divide num base).2) ∧
          (divide num base).2.toNat = num.toNat / (if base = 10 then 10 else 16) := by
      unfold divide
      split <;> simp
    have hlt : (divide num base).2.toNat < 10 ^ k := by
      rw [Nat.pow_succ] at h
      rw [hdiv.2]
      split <;> omega
    rw [tmpLoop, if_neg h0, ih _ hlt, hdiv.2, Nat.digits_def' (by split <;> decide) hpos,
      List.map_cons, hdiv.1]

/-! ## `%o` -/

def octalFormat : List UInt8 := ['%'.toUInt8, 'o'.toUInt8]

/-- The digits are those of base 16: the numerals agree only if there is one digit. -/
theorem numeral_eq_iff (large : Bool) (n : Nat) :
    numeral large 16 n = numeral large 8 n ↔ n < 8 := by
  constructor
  · intro h
    by_contra hn
    have hpos : 0 < n := by omega
    rw [numeral, numeral, if_neg hpos.ne', if_neg hpos.ne'] at h
    have hds := congrArg (List.map digitVal) (List.reverse_injective h)
    rw [map_digitVal (digits_lt (by decide) le_rfl n),
      map_digitVal (digits_lt (by decide) (by decide) n), Nat.digits_def' (by decide) hpos,
      Nat.digits_def' (by decide) hpos] at hds
    have htail := List.tail_eq_of_cons_eq hds
    have hle : n / 8 ≤ n / 16 :=
      calc n / 8 = Nat.ofDigits 8 (Nat.digits 8 (n / 8)) := (Nat.ofDigits_digits 8 _).symm
        _ = Nat.ofDigits 8 (Nat.digits 16 (n / 16)) := by rw [htail]
        _ ≤ Nat.ofDigits 16 (Nat.digits 16 (n / 16)) := Nat.ofDigits_monotone _ (by decide)
        _ = n / 16 := Nat.ofDigits_digits 16 _
    omega
  intro h
  unfold numeral
  split
  · rfl
  rw [Nat.digits_of_lt 16 n ‹_› (by omega), Nat.digits_of_lt 8 n ‹_› h]

lemma length_tmpLoop_le (large : Bool) (base k : Nat) (num : BitVec 32) :
    (tmpLoop large base k num).length ≤ k := by
  induction k generalizing num with
  | zero => exact le_rfl
  | succ k ih =>
    rw [tmpLoop]
    split
    · exact Nat.zero_le _
    exact Nat.succ_le_succ (ih _)

lemma text_octal (v : BitVec 32) :
    untruncated [.num v 8 (-1) (-1) {}] = numeral false 16 v.toNat := by
  obtain ⟨tmp, htmp⟩ : ∃ l, (if v = 0 then ['0'.toUInt8] else tmpLoop false 8 16 v) = l := ⟨_, rfl⟩
  have hlen : tmp.length ≤ 16 := by
    rw [← htmp]
    split
    · decide
    exact length_tmpLoop_le _ _ _ _
  have hfield : Field.of v 8 (-1) (-1) {} = ⟨none, tmp, tmp.length, -1 - tmp.length⟩ := by
    have hsize : int32 (-1 - tmp.length) = -1 - tmp.length := int32_of_range (by omega) (by omega)
    simp only [Field.of, Bool.false_eq_true, if_false, false_and, htmp]
    rw [if_pos (by omega), hsize]
  have h1 : int32 (-1 - tmp.length - 1) = -2 - tmp.length := by
    rw [int32_of_range (by omega) (by omega)]
    omega
  have h2 : int32 (-2 - tmp.length - 1) = -3 - tmp.length := by
    rw [int32_of_range (by omega) (by omega)]
    omega
  have htext : untruncated [.num v 8 (-1) (-1) {}] = tmp.reverse := by
    simp [untruncated, printAll, printItem, printNumber, hfield, printLead, printSign, printTail,
      text_bind, h1, h2]
  rw [htext, ← htmp, numeral]
  by_cases h0 : v = 0
  · simp [h0]
  have hne : v.toNat ≠ 0 := fun hc => h0 (BitVec.eq_of_toNat_eq hc)
  rw [if_neg h0, if_neg hne, tmpLoop_eq _ _ _ _ (by have := v.isLt; omega)]
  rfl

/-- **Octal formatting.** `%o` writes the base-8 numeral of a value, from which the value can be
read back, exactly for the values below 8: `divide` takes base 8 for 16. -/
theorem octal_iff (v : BitVec 32) : ∃ i, items octalFormat [.int v] = some [i] ∧
      (untruncated [i] = numeral false 8 v.toNat ∧ value 8 (untruncated [i]) = v.toNat ↔
        v.toNat < 8) := by
  refine ⟨.num v 8 (-1) (-1) {}, rfl, ?_⟩
  rw [text_octal, ← numeral_eq_iff false, and_iff_left_iff_imp]
  intro h
  rw [h, value_numeral false (by decide) (by decide)]

/-- `%o` of 8 writes `8`. -/
theorem octal_of_eight : (items octalFormat [.int 8]).map untruncated = some ['8'.toUInt8] ∧
      numeral false 8 8 = ['1'.toUInt8, '0'.toUInt8] := by
  decide +kernel

end NbIot.Kservice
