import NbIot.Kservice.Bounded

/-! # The length that the formatter returns

`rt_vsnprintf` returns how far its cursor has moved. That is meant to be the length of the text
without a limit, but `print_number` takes the sign into account only if it could store it: a sign
that falls outside the buffer leaves the padding counter one too high, and the padding behind it is
one character longer than it would be.
-/

namespace NbIot.Kservice

open Output

/-! ## Padding -/

section

variable (fits : Nat → Bool) (n : Nat)

@[simp] lemma count_fill (c : UInt8) (k : Nat) : count fits n (fill c k) = k := by
  induction k generalizing n with
  | zero => rfl
  | succ k ih => rw [fill, count_bind, count_putChar, ih, add_comm]

@[simp] lemma count_puts (l : List UInt8) : count fits n (puts l) = l.length := by
  induction l generalizing n with
  | nil => rfl
  | cons c l ih => rw [puts, count_bind, count_putChar, ih, add_comm, List.length_cons]

@[simp] lemma count_padDown (c : UInt8) (bound m : Int) :
    count fits n (padDown c bound m) = (m - bound).toNat := by
  rw [padDown, count_bind, count_fill, count_pure, add_zero]

@[simp] lemma fst_padDown (c : UInt8) (bound m : Int) :
    (text fits n (padDown c bound m)).1 = int32 (min bound m - 1) := by
  rw [padDown, fst_bind, text_pure]

@[simp] lemma count_padBlanks (m : Int) : count fits n (padBlanks m) = (int32 (m - 1)).toNat := by
  rw [padBlanks, count_bind, count_fill, count_pure, add_zero]

@[simp] lemma fst_padBlanks (m : Int) : (text fits n (padBlanks m)).1 = min (int32 (m - 1)) 0 := by
  rw [padBlanks, fst_bind, text_pure]

end

/-! ## Fields of a number -/

/-- The padding that is written once the sign is out, with `size` left in the counter: at once
unless the field is left-adjusted, and at the end of the field. -/
def padding (left : Bool) (size : Int) : Nat :=
  if left then size.toNat else size.toNat + (int32 (min 0 size - 1)).toNat

lemma int32_range (x : Int) : -2147483648 ≤ int32 x ∧ int32 x < 2147483648 := by
  have h1 := Int.le_bmod (x := x) (m := 4294967296) (by decide)
  have h2 := Int.bmod_lt (x := x) (m := 4294967296) (by decide)
  unfold int32
  omega

lemma int32_of_range {x : Int} (h1 : -2147483648 ≤ x) (h2 : x < 2147483648) : int32 x = x := by
  rw [int32, Int.bmod_eq_of_le (by omega) (by omega)]

/-- **The decrement.** It makes no difference to the padding, or it makes a difference of one; when
the counter overflows, of one less than `2 ^ 31`. -/
theorem padding_dec (left : Bool) {size : Int} (h1 : -2147483648 ≤ size) (h2 : size < 2147483648) :
    (padding left size : Int) = padding left (int32 (size - 1)) ∨
      (padding left size : Int) = padding left (int32 (size - 1)) + 1 ∨
      (padding left size : Int) = padding left (int32 (size - 1)) + 1 - 2147483648 := by
  rcases lt_or_ge 0 size with hpos | hneg
  · -- padding is left: one character more or less
    rw [int32_of_range (by omega) (by omega), padding, padding, min_eq_left hpos.le,
      min_eq_left (by omega)]
    split <;> omega
  rcases lt_or_ge (-2147483647) size with hrange | hlow
  · rw [padding, padding, min_eq_right hneg, int32_of_range (by omega) (by omega),
      int32_of_range (by omega) (by omega)]
    split <;> omega
  -- the two values at which a further decrement overflows
  obtain rfl | rfl : size = -2147483647 ∨ size = -2147483648 := by omega
  · cases left <;> decide
  cases left <;> decide

def Field.sizeAtSign (f : Field) (zeropad left : Bool) : Int :=
  if zeropad || left then f.size
  else int32 (min 0 (if f.sign.isSome ∧ 0 < f.size then f.size - 1 else f.size) - 1)

def Field.lead (f : Field) (zeropad left : Bool) : Nat :=
  if zeropad || left then 0
  else (if f.sign.isSome ∧ 0 < f.size then f.size - 1 else f.size).toNat

def Item.lead : Item → Nat
  | .num v base w p f => (Field.of v base w p f).lead (f.zeropad && !f.left) f.left
  | _ => 0

/-- The item is a number with a sign, and the padding behind the sign is not the same with and
without the decrement. -/
def Item.skew : Item → Bool
  | .num v base w p f =>
    let field := Field.of v base w p f
    let size := field.sizeAtSign (f.zeropad && !f.left) f.left
    field.sign.isSome && padding f.left size != padding f.left (int32 (size - 1))
  | _ => false

def Item.length (i : Item) : Nat := count (fun _ => true) 0 (printItem i)

/-! ## The length of an item -/

section

variable (fits : Nat → Bool) (n : Nat)

lemma count_printLead (f : Field) (zeropad left : Bool) :
    count fits n (printLead zeropad left f.sign f.size) = f.lead zeropad left := by
  unfold printLead Field.lead
  by_cases h : (zeropad || left) = true
  · rw [if_pos h, if_pos h, count_pure]
  rw [if_neg h, if_neg h, count_padDown, sub_zero]

lemma fst_printLead (f : Field) (zeropad left : Bool) :
    (text fits n (printLead zeropad left f.sign f.size)).1 = f.sizeAtSign zeropad left := by
  unfold printLead Field.sizeAtSign
  by_cases h : (zeropad || left) = true
  · rw [if_pos h, if_pos h, text_pure]
  rw [if_neg h, if_neg h, fst_padDown]

lemma count_printSign (sign : Option UInt8) (size : Int) :
    count fits n (printSign sign size) = if sign.isSome then 1 else 0 := by
  cases sign <;> rfl

lemma fst_printSign (sign : Option UInt8) (size : Int) : (text fits n (printSign sign size)).1
      = if sign.isSome then (if fits n then int32 (size - 1) else size) else size := by
  cases sign <;> rfl

lemma count_printTail (zeropad left : Bool) (tmp : List UInt8) (precision size : Int) :
    count fits n (printTail zeropad left tmp precision size)
      = padding left size + ((precision - tmp.length).toNat + tmp.length) := by
  unfold printTail
  cases left with
  | true =>
    simp only [if_true, count_bind, count_pure, text_pure, count_padDown, count_puts,
      List.length_reverse, padding]
    omega
  | false =>
    simp only [Bool.false_eq_true, if_false, count_bind, count_pure, count_padDown, fst_padDown,
      count_puts, List.length_reverse, sub_zero, padding]
    omega

lemma count_printNumber (num : BitVec 32) (base : Nat) (s p : Int) (f : Flags) :
    count fits n (printNumber num base s p f) = let field := Field.of num base s p f
      let size := field.sizeAtSign (f.zeropad && !f.left) f.left
      let rest := (field.precision - field.tmp.length).toNat + field.tmp.length
      let lead := field.lead (f.zeropad && !f.left) f.left
      if field.sign.isSome then
        lead + 1 + padding f.left (if fits (n + lead) then int32 (size - 1) else size) + rest
      else lead + padding f.left size + rest := by
  rw [printNumber, count_bind, count_printLead, fst_printLead, count_bind, count_printSign,
    fst_printSign, count_printTail]
  dsimp only
  split <;> omega

/-- **One item.** An item takes as many characters as without a limit, unless it is skewed and its
sign does not fit. Then the difference is one, or one less than `2 ^ 31`. -/
theorem count_printItem (i : Item) :
    ((i.skew = true → fits (n + i.lead) = true) → count fits n (printItem i) = i.length) ∧
    (i.skew = true → fits (n + i.lead) = false → (count fits n (printItem i) : Int) = i.length + 1 ∨
      (count fits n (printItem i) : Int) = i.length + 1 - 2147483648) := by
  cases i with
  | plain c => exact ⟨fun _ => rfl, fun h => absurd h (by simp [Item.skew])⟩
  | chr c w f | str s w p f =>
    refine ⟨fun _ => ?_, fun h => absurd h (by simp [Item.skew])⟩
    cases hl : f.left <;> simp [Item.length, printItem, count_bind, hl]
  | unknown c =>
    refine ⟨fun _ => ?_, fun h => absurd h (by simp [Item.skew])⟩
    cases c <;> simp [Item.length, printItem, count_bind]
  | num num base w p f =>
    simp only [Item.length, printItem, count_printNumber, Item.lead, Item.skew, Bool.and_eq_true,
      bne_iff_ne, if_true]
    set field := Field.of num base w p f with hfield
    set size' := field.sizeAtSign (f.zeropad && !f.left) f.left with hsize'
    set lead := field.lead (f.zeropad && !f.left) f.left with hlead
    have hrange : -2147483648 ≤ size' ∧ size' < 2147483648 := by
      rw [hsize', Field.sizeAtSign]
      split
      · exact int32_range _
      exact int32_range _
    cases field.sign.isSome with
    | false => simp
    | true =>
      simp only [true_and]
      constructor
      · intro h
        by_cases hin : fits (n + lead) = true
        · rw [if_pos hin]
        have heq : padding f.left size' = padding f.left (int32 (size' - 1)) := by
          by_contra hne
          exact hin (h hne)
        rw [if_neg hin, heq]
      intro hne hout
      rw [if_neg (Bool.eq_false_iff.mp hout)]
      rcases padding_dec f.left hrange.1 hrange.2 with h | h | h
      · exact absurd (by exact_mod_cast h) hne
      · left; push_cast; omega
      right; push_cast; omega

end

/-! ## Texts that are cut off -/

/-- Every sign with padding to come fits; `n` is the offset of the first item in the text without a
limit. -/
def Settled (fits : Nat → Bool) : Nat → List Item → Prop
  | _, [] => True
  | n, i :: is => (i.skew = true → fits (n + i.lead) = true) ∧ Settled fits (n + i.length) is

/-- The number of skewed items whose sign does not fit when they are written. -/
def beyond (fits : Nat → Bool) : Nat → List Item → Nat
  | _, [] => 0
  | n, i :: is => (if i.skew ∧ fits (n + i.lead) = false then 1 else 0)
      + beyond fits (n + count fits n (printItem i)) is

section

variable (fits : Nat → Bool) (n : Nat) (is : List Item)

lemma beyond_le : beyond fits n is ≤ is.countP Item.isNum := by
  induction is generalizing n with
  | nil => exact le_rfl
  | cons i is ih =>
    rw [beyond, List.countP_cons, add_comm]
    refine Nat.add_le_add (ih _) ?_
    by_cases h : i.skew = true ∧ fits (n + i.lead) = false
    · have hnum : i.isNum = true := by
        cases i <;> simp_all [Item.skew, Item.isNum]
      rw [if_pos h, if_pos hnum]
    rw [if_neg h]
    exact Nat.zero_le _

lemma settled_iff : Settled fits n is ↔ beyond fits n is = 0 := by
  induction is generalizing n with
  | nil => simp [Settled, beyond]
  | cons i is ih =>
    rw [Settled, beyond]
    by_cases h : i.skew = true ∧ fits (n + i.lead) = false
    · have hnot : ¬ (i.skew = true → fits (n + i.lead) = true) := fun hc => by
        rw [hc h.1] at h
        exact Bool.noConfusion h.2
      rw [if_pos h]
      exact ⟨fun hc => absurd hc.1 hnot, fun hc => absurd hc (by omega)⟩
    have hfits : i.skew = true → fits (n + i.lead) = true := fun hs =>
      Bool.eq_true_of_not_eq_false fun hc => h ⟨hs, hc⟩
    rw [if_neg h, zero_add, (count_printItem fits n i).1 hfits, ih]
    exact ⟨fun hc => hc.2, fun hc => ⟨hfits, hc⟩⟩

lemma count_printAll_cons (i : Item) : count fits n (printAll (i :: is))
      = count fits n (printItem i)
        + count fits (n + count fits n (printItem i)) (printAll is) := by
  rw [printAll, count_bind]

lemma count_unlimited (m : Nat) {α : Type} (o : Output α) :
    count (fun _ => true) n o = count (fun _ => true) m o := by
  induction o generalizing n m with
  | done a => rfl
  | put c o ih =>
    have h := ih (n + 1) (m + 1)
    simp only [count, text, List.length_cons] at h ⊢
    rw [h]
  | room k ih => exact ih true n m

/-- **The excess.** The characters written exceed those of the text without a limit by the number of
skewed signs that do not fit, modulo `2 ^ 31`. -/
theorem excess (m : Nat) :
    ∃ d : Int, (count fits m (printAll is) : Int) = count (fun _ => true) n (printAll is) + d ∧
      d % 2147483648 = (beyond fits m is : Int) % 2147483648 ∧
      (beyond fits m is = 0 → d = 0) := by
  induction is generalizing m n with
  | nil => exact ⟨0, by simp [printAll], rfl, fun _ => rfl⟩
  | cons i is ih =>
    have hlen : count (fun _ => true) n (printItem i) = i.length := count_unlimited n 0 _
    obtain ⟨hsame, hdiff⟩ := count_printItem fits m i
    obtain ⟨d, hcount, hmod, hzero⟩ := ih (n + i.length) (m + count fits m (printItem i))
    rw [count_printAll_cons, count_printAll_cons, hlen, beyond]
    by_cases hout : i.skew = true ∧ fits (m + i.lead) = false
    · rw [if_pos hout]
      rcases hdiff hout.1 hout.2 with hd | hd
      · exact ⟨d + 1, by push_cast; omega, by push_cast; omega, fun h => absurd h (by omega)⟩
      exact ⟨d + 1 - 2147483648, by push_cast; omega, by push_cast; omega,
        fun h => absurd h (by omega)⟩
    have hfits : i.skew = true → fits (m + i.lead) = true := fun hs =>
      Bool.eq_true_of_not_eq_false fun hc => hout ⟨hs, hc⟩
    have heq := hsame hfits
    rw [if_neg hout, zero_add]
    exact ⟨d, by push_cast; omega, hmod, hzero⟩

end

/-! ## The result -/

lemma int32_eq_iff (x y : Int) : int32 x = int32 y ↔ x % 4294967296 = y % 4294967296 := by
  unfold int32
  constructor
  · intro h
    have hx := Int.bmod_emod (x := x) (m := 4294967296)
    have hy := Int.bmod_emod (x := y) (m := 4294967296)
    rw [h] at hx
    exact_mod_cast hx.symm.trans hy
  intro h
  rw [← Int.emod_bmod, ← Int.emod_bmod (x := y)]
  exact congrArg (Int.bmod · 4294967296) (by exact_mod_cast h)

lemma fst_rtVsnprintf {mem : Mem} {buf size : Nat} {fmt : List UInt8} {args : List Arg}
    {is : List Item} (h : items fmt args = some is) (hbuf : buf < wordSize) :
    (rtVsnprintf mem buf size fmt args).map Prod.fst
      = some (int32 (count (within buf (lastOf buf size)) 0 (printAll is))) := by
  have hstr := str_write buf (lastOf buf size) 0 (printAll is) mem
  rw [add_zero, Nat.mod_eq_of_lt hbuf] at hstr
  rw [rtVsnprintf, h, Option.map_some, Option.map_some, printOut]
  simp only [hstr, Option.some.injEq, int32_eq_iff]
  unfold wordSize
  omega

/-- **Formatted length.** For every format that fits in memory, every list of arguments that
matches it and every buffer: the value returned is the length of the text without a limit if and
only if every sign with padding to come is inside the buffer. -/
theorem length_iff (mem : Mem) (buf size : Nat) (fmt : List UInt8) (args : List Arg)
    (is : List Item) (h : items fmt args = some is) (hfmt : fmt.length < wordSize)
    (hbuf : buf < wordSize) :
    (rtVsnprintf mem buf size fmt args).map Prod.fst = some (int32 (untruncated is).length) ↔
      Settled (within buf (lastOf buf size)) 0 is := by
  -- each skewed sign takes two characters of the format, so they cannot add up to `2 ^ 31`
  have hbound : beyond (within buf (lastOf buf size)) 0 is < 2147483648 := by
    have hnum := two_mul_countP_le h
    have hle := beyond_le (within buf (lastOf buf size)) 0 is
    unfold wordSize at hfmt
    omega
  obtain ⟨d, hcount, hmod, hzero⟩ := excess (within buf (lastOf buf size)) 0 is 0
  have hlen : count (fun _ => true) 0 (printAll is) = (untruncated is).length := rfl
  rw [fst_rtVsnprintf h hbuf, Option.some.injEq, settled_iff, hcount, hlen, int32_eq_iff]
  constructor
  · omega
  intro h0
  rw [hzero h0, add_zero]

theorem length_iff_four :
    (rtVsnprintf (fun _ => 0) 4096 4 abFormat [.int (-1)]).map Prod.fst = some (int32 7) := by
  have hiff := length_iff (fun _ => 0) 4096 4 abFormat [.int (-1)]
    [.plain 'a'.toUInt8, .plain 'b'.toUInt8,
      .num (-1) 10 5 (-1) { zeropad := true, sign := true }] (by decide +kernel) (by decide)
    (by decide)
  exact hiff.mpr ⟨by decide +kernel, by decide +kernel, by decide +kernel, trivial⟩

/-- The same call with a buffer of two bytes returns 8, with a large buffer it returns 7. -/
theorem signOutside_lengthens :
    (rtVsnprintf (fun _ => 0) 4096 2 abFormat [.int (-1)]).map Prod.fst = some 8 ∧
      (rtVsnprintf (fun _ => 0) 4096 100 abFormat [.int (-1)]).map Prod.fst = some 7 := by
  decide +kernel

end NbIot.Kservice
