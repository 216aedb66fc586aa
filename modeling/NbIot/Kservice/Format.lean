import NbIot.Basic.Output

/-! # The formatter of `kservice.c`

What `rt_vsnprintf` reads does not depend on what it has written, so the model has two parts.

* `items` is the reading part of the loop: each turn takes one ordinary character or one directive
  off the format, with its arguments. It is `none` if an argument is missing or has the wrong type.
* `printItem` and `printNumber` are the writing part, programs in the sense of `Output`.

`RT_PRINTF_PRECISION` is defined, `RT_PRINTF_LONGLONG` and `RT_PRINTF_SPECIAL` are not. A format is
the list of its bytes without the final zero, and so is a string argument. An `int` is an integer
that is brought back into its range after each operation.
-/

namespace NbIot.Kservice

open Output

/-! ## Arguments and directives -/

/-- The value of a 32-bit `int` after an operation. -/
def int32 (x : Int) : Int := Int.bmod x 4294967296

/-- The bits of `flags` and `type`. -/
structure Flags where
  zeropad : Bool := false
  sign : Bool := false
  plus : Bool := false
  space : Bool := false
  left : Bool := false
  special : Bool := false
  large : Bool := false
  deriving DecidableEq

/-- An argument: a 32-bit integer, a string or `RT_NULL`, a pointer. -/
inductive Arg where
  | int (v : BitVec 32)
  | str (s : Option (List UInt8))
  | ptr (p : BitVec 32)
  deriving DecidableEq

inductive Qualifier where
  | none
  | h
  | l
  deriving DecidableEq

inductive Item where
  | plain (c : UInt8)
  | chr (c : UInt8) (fieldWidth : Int) (flags : Flags)
  | str (s : List UInt8) (fieldWidth precision : Int) (flags : Flags)
  | num (num : BitVec 32) (base : Nat) (fieldWidth precision : Int) (flags : Flags)
  /-- A directive that is not known, with its character unless the format ends there. -/
  | unknown (c : Option UInt8)
  deriving DecidableEq

/-! ## The scan of a directive -/

def isdigit (c : UInt8) : Bool := '0'.toUInt8 ≤ c && c ≤ '9'.toUInt8

/-- `skip_atoi`, with the value read so far. -/
def skipAtoi : Int → List UInt8 → Int × List UInt8
  | i, [] => (i, [])
  | i, c :: fmt =>
    if isdigit c then skipAtoi (int32 (i * 10 + c.toNat - '0'.toNat)) fmt else (i, c :: fmt)

def scanFlags : Flags → List UInt8 → Flags × List UInt8
  | f, [] => (f, [])
  | f, c :: fmt =>
    if c = '-'.toUInt8 then scanFlags { f with left := true } fmt
    else if c = '+'.toUInt8 then scanFlags { f with plus := true } fmt
    else if c = ' '.toUInt8 then scanFlags { f with space := true } fmt
    else if c = '#'.toUInt8 then scanFlags { f with special := true } fmt
    else if c = '0'.toUInt8 then scanFlags { f with zeropad := true } fmt
    else (f, c :: fmt)

/-- `va_arg(args, int)`. -/
def argInt : List Arg → Option (BitVec 32 × List Arg)
  | .int v :: args => some (v, args)
  | _ => none

/-- The field width, after the flags; a negative one given as an argument sets `LEFT`. -/
def scanWidth (f : Flags) : List UInt8 → List Arg → Option (Int × Flags × List UInt8 × List Arg)
  | [], args => some (-1, f, [], args)
  | c :: fmt, args =>
    if isdigit c then
      some ((skipAtoi 0 (c :: fmt)).1, f, (skipAtoi 0 (c :: fmt)).2, args)
    else if c = '*'.toUInt8 then
      (argInt args).map fun (v, args) =>
        if v.toInt < 0 then (int32 (-v.toInt), { f with left := true }, fmt, args)
        else (v.toInt, f, fmt, args)
    else some (-1, f, c :: fmt, args)

/-- What follows the `.` of a precision. -/
def scanDot : List UInt8 → List Arg → Option (Int × List UInt8 × List Arg)
  | [], args => some (0, [], args)
  | c :: fmt, args =>
    if isdigit c then
      some (max 0 (skipAtoi 0 (c :: fmt)).1, (skipAtoi 0 (c :: fmt)).2, args)
    else if c = '*'.toUInt8 then
      (argInt args).map fun (v, args) => (max 0 v.toInt, fmt, args)
    else some (0, c :: fmt, args)

def scanPrecision : List UInt8 → List Arg → Option (Int × List UInt8 × List Arg)
  | [], args => some (-1, [], args)
  | c :: fmt, args =>
    if c = '.'.toUInt8 then scanDot fmt args else some (-1, c :: fmt, args)

def scanQualifier : List UInt8 → Qualifier × List UInt8
  | [] => (.none, [])
  | c :: fmt =>
    if c = 'h'.toUInt8 then (.h, fmt)
    else if c = 'l'.toUInt8 then (.l, fmt)
    else (.none, c :: fmt)

/-- The integer argument as `num`. -/
def argNum (q : Qualifier) (f : Flags) (v : BitVec 32) : BitVec 32 :=
  match q with
  | .h => if f.sign then (v.setWidth 16).signExtend 32 else (v.setWidth 16).setWidth 32
  | _ => v

/-! ## Conversions -/

/-- An integer conversion: `base` and the flags are set up, the argument is taken. -/
def convertNum (q : Qualifier) (f : Flags) (w p : Int) (base : Nat) (fmt : List UInt8)
    (args : List Arg) : Option (Item × List UInt8 × List Arg) :=
  (argInt args).map fun (v, args) => (.num (argNum q f v) base w p f, fmt, args)

/-- `"(NULL)"`. -/
def nullText : List UInt8 := ['(', 'N', 'U', 'L', 'L', ')'].map Char.toUInt8

/-- The `switch` over the conversion. -/
def convert (q : Qualifier) (f : Flags) (w p : Int) :
    List UInt8 → List Arg → Option (Item × List UInt8 × List Arg)
  | [], args => some (.unknown none, [], args)
  | c :: fmt, args =>
    if c = 'c'.toUInt8 then
      (argInt args).map fun (v, args) => (.chr (UInt8.ofNat v.toNat) w f, fmt, args)
    else if c = 's'.toUInt8 then
      match args with
      | .str s :: args => some (.str (s.getD nullText) w p f, fmt, args)
      | _ => none
    else if c = 'p'.toUInt8 then
      match args with
      | .ptr v :: args =>
        if w = -1 then some (.num v 16 8 p { f with zeropad := true }, fmt, args)
        else some (.num v 16 w p f, fmt, args)
      | _ => none
    else if c = '%'.toUInt8 then some (.plain '%'.toUInt8, fmt, args)
    else if c = 'o'.toUInt8 then convertNum q f w p 8 fmt args
    else if c = 'X'.toUInt8 then convertNum q { f with large := true } w p 16 fmt args
    else if c = 'x'.toUInt8 then convertNum q f w p 16 fmt args
    else if c = 'd'.toUInt8 ∨ c = 'i'.toUInt8 then
      convertNum q { f with sign := true } w p 10 fmt args
    else if c = 'u'.toUInt8 then convertNum q f w p 10 fmt args
    else some (.unknown (some c), fmt, args)

/-- What follows a `%`. -/
def directive (fmt : List UInt8) (args : List Arg) : Option (Item × List UInt8 × List Arg) :=
  (scanWidth (scanFlags {} fmt).1 (scanFlags {} fmt).2 args).bind fun (w, f, fmt, args) =>
    (scanPrecision fmt args).bind fun (p, fmt, args) =>
      convert (scanQualifier fmt).1 f w p (scanQualifier fmt).2 args

/-- One turn of the loop, on a format that is not at its end. -/
def scanItem (c : UInt8) (fmt : List UInt8) (args : List Arg) :
    Option (Item × List UInt8 × List Arg) :=
  if c ≠ '%'.toUInt8 then some (.plain c, fmt, args) else directive fmt args

/-- The turns of the loop, `fuel` at most. -/
def itemsLoop : Nat → List UInt8 → List Arg → Option (List Item)
  | _, [], _ => some []
  | 0, _ :: _, _ => some []
  | fuel + 1, c :: fmt, args =>
    (scanItem c fmt args).bind fun (i, fmt, args) => (itemsLoop fuel fmt args).map (i :: ·)

/-- Everything a format asks to be written; each turn takes a character off the format. -/
def items (fmt : List UInt8) (args : List Arg) : Option (List Item) :=
  itemsLoop fmt.length fmt args

/-! ## Every directive is scanned -/

def Item.isNum : Item → Bool
  | .num .. => true
  | _ => false

lemma skipAtoi_length (i : Int) (fmt : List UInt8) : (skipAtoi i fmt).2.length ≤ fmt.length := by
  induction fmt generalizing i with
  | nil => exact le_rfl
  | cons c fmt ih =>
    simp only [skipAtoi]
    split
    · exact (ih _).trans (Nat.le_succ _)
    exact le_rfl

lemma scanFlags_length (f : Flags) (fmt : List UInt8) :
    (scanFlags f fmt).2.length ≤ fmt.length := by
  induction fmt generalizing f with
  | nil => exact le_rfl
  | cons c fmt ih =>
    simp only [scanFlags]
    split_ifs
    all_goals first | exact (ih _).trans (Nat.le_succ _) | exact le_rfl

variable {args args' : List Arg} {fmt fmt' : List UInt8}

lemma scanWidth_length {f f' : Flags} {w : Int}
    (h : scanWidth f fmt args = some (w, f', fmt', args')) : fmt'.length ≤ fmt.length := by
  cases fmt with
  | nil =>
    cases h
    exact le_rfl
  | cons c fmt =>
    simp only [scanWidth] at h
    split at h
    · cases h
      exact skipAtoi_length 0 (c :: fmt)
    split at h
    · obtain ⟨⟨v, args1⟩, -, hv⟩ := Option.map_eq_some_iff.mp h
      have hrest : fmt' = fmt := by
        split at hv <;> simp only [Prod.mk.injEq] at hv <;> exact hv.2.2.1.symm
      rw [hrest]
      exact Nat.le_succ _
    cases h
    exact le_rfl

lemma scanPrecision_length {p : Int}
    (h : scanPrecision fmt args = some (p, fmt', args')) : fmt'.length ≤ fmt.length := by
  -- what follows the dot
  have hdot : ∀ fmt, scanDot fmt args = some (p, fmt', args') → fmt'.length ≤ fmt.length := by
    intro fmt h
    cases fmt with
    | nil =>
      cases h
      exact le_rfl
    | cons c fmt =>
      simp only [scanDot] at h
      split at h
      · cases h
        exact skipAtoi_length 0 (c :: fmt)
      split at h
      · obtain ⟨⟨v, args1⟩, -, hv⟩ := Option.map_eq_some_iff.mp h
        simp only [Prod.mk.injEq] at hv
        rw [← hv.2.1]
        exact Nat.le_succ _
      cases h
      exact le_rfl
  cases fmt with
  | nil =>
    cases h
    exact le_rfl
  | cons c fmt =>
    simp only [scanPrecision] at h
    split at h
    · exact (hdot fmt h).trans (Nat.le_succ _)
    cases h
    exact le_rfl

lemma scanQualifier_length (fmt : List UInt8) : (scanQualifier fmt).2.length ≤ fmt.length := by
  cases fmt with
  | nil => exact le_rfl
  | cons c fmt =>
    simp only [scanQualifier]
    split_ifs
    all_goals first | exact Nat.le_succ _ | exact le_rfl

lemma convert_length {q : Qualifier} {f : Flags} {w p : Int}
    {i : Item} (h : convert q f w p fmt args = some (i, fmt', args')) :
    fmt'.length ≤ fmt.length ∧ (i.isNum → fmt'.length < fmt.length) := by
  cases fmt with
  | nil =>
    simp only [convert, Option.some.injEq, Prod.mk.injEq] at h
    obtain ⟨rfl, rfl, -⟩ := h
    exact ⟨le_rfl, fun hn => absurd hn (by simp [Item.isNum])⟩
  | cons c fmt =>
    have hrest : fmt' = fmt := by
      have hnum : ∀ (g : Flags) (b : Nat), convertNum q g w p b fmt args = some (i, fmt', args') →
          fmt' = fmt := by
        intro g b hg
        obtain ⟨⟨v, args1⟩, -, hv⟩ := Option.map_eq_some_iff.mp hg
        simp only [Prod.mk.injEq] at hv
        exact hv.2.1.symm
      simp only [convert] at h
      split at h
      · obtain ⟨⟨v, args1⟩, -, hv⟩ := Option.map_eq_some_iff.mp h
        simp only [Prod.mk.injEq] at hv
        exact hv.2.1.symm
      split at h
      · split at h
        · simp only [Option.some.injEq, Prod.mk.injEq] at h
          exact h.2.1.symm
        simp at h
      split at h
      · split at h
        · split at h <;> simp only [Option.some.injEq, Prod.mk.injEq] at h <;>
            exact h.2.1.symm
        simp at h
      split_ifs at h
      all_goals first
        | exact hnum _ _ h
        | (simp only [Option.some.injEq, Prod.mk.injEq] at h; exact h.2.1.symm)
    rw [hrest]
    exact ⟨Nat.le_succ _, fun _ => Nat.lt_succ_self _⟩

lemma scanItem_length {c : UInt8} {i : Item} (h : scanItem c fmt args = some (i, fmt', args')) :
    fmt'.length ≤ fmt.length ∧ (i.isNum → fmt'.length < fmt.length) := by
  simp only [scanItem] at h
  split at h
  · obtain ⟨rfl, rfl, -⟩ := h
    exact ⟨le_rfl, fun hn => absurd hn (by simp [Item.isNum])⟩
  obtain ⟨⟨w, f, fmt1, args1⟩, hw, h⟩ := Option.bind_eq_some_iff.mp h
  obtain ⟨⟨p, fmt2, args2⟩, hp, h⟩ := Option.bind_eq_some_iff.mp h
  have hconv := convert_length h
  have hle : (scanQualifier fmt2).2.length ≤ fmt.length :=
    calc (scanQualifier fmt2).2.length ≤ fmt2.length := scanQualifier_length fmt2
      _ ≤ fmt1.length := scanPrecision_length hp
      _ ≤ (scanFlags {} fmt).2.length := scanWidth_length hw
      _ ≤ fmt.length := scanFlags_length {} fmt
  exact ⟨hconv.1.trans hle, fun hn => (hconv.2 hn).trans_le hle⟩

lemma itemsLoop_eq (fuel : Nat) (fmt : List UInt8) (args : List Arg) (h : fmt.length ≤ fuel) :
    itemsLoop fuel fmt args = items fmt args := by
  induction fuel using Nat.strong_induction_on generalizing fmt args with
  | _ fuel ih =>
    cases fmt with
    | nil => cases fuel <;> rfl
    | cons c fmt =>
      obtain ⟨n, rfl⟩ : ∃ n, fuel = n + 1 := ⟨fuel - 1, by simp at h; omega⟩
      have hlen : fmt.length ≤ n := by simpa using h
      refine Option.bind_congr fun r hr => ?_
      obtain ⟨i, fmt', args'⟩ := r
      have hle := (scanItem_length hr).1
      show (itemsLoop n fmt' args').map (i :: ·) = (itemsLoop fmt.length fmt' args').map (i :: ·)
      rw [ih n (Nat.lt_succ_self n) fmt' args' (hle.trans hlen)]
      -- the same loop, with as many turns as the format has characters
      rcases Nat.lt_or_ge fmt.length (n + 1) with hlt | hge
      · rw [ih fmt.length hlt fmt' args' hle]
      omega

lemma items_cons (c : UInt8) (fmt : List UInt8) (args : List Arg) : items (c :: fmt) args =
      (scanItem c fmt args).bind fun r => (items r.2.1 r.2.2).map (r.1 :: ·) := by
  refine Option.bind_congr fun r hr => ?_
  obtain ⟨i, fmt', args'⟩ := r
  show (itemsLoop fmt.length fmt' args').map (i :: ·) = (items fmt' args').map (i :: ·)
  rw [itemsLoop_eq fmt.length fmt' args' (scanItem_length hr).1]

lemma two_mul_countP_le {is : List Item}
    (h : items fmt args = some is) : 2 * is.countP Item.isNum ≤ fmt.length := by
  induction hn : fmt.length using Nat.strong_induction_on generalizing fmt args is with
  | _ n ih =>
    cases fmt with
    | nil =>
      obtain rfl : [] = is := Option.some.inj h
      simp
    | cons c fmt =>
      rw [items_cons] at h
      obtain ⟨⟨i, fmt', args'⟩, hr, h⟩ := Option.bind_eq_some_iff.mp h
      obtain ⟨is', his, rfl⟩ := Option.map_eq_some_iff.mp h
      obtain ⟨hle, hlt⟩ := scanItem_length hr
      have hrest := ih fmt'.length (by simp at hn; omega) his rfl
      rw [List.countP_cons]
      simp only [List.length_cons] at hn
      by_cases hi : i.isNum = true
      · have := hlt hi
        simp only [hi, if_true]
        omega
      rw [if_neg hi]
      omega

/-! ## Padding and digits -/

/-- `n` times the character `c`. -/
def fill (c : UInt8) : Nat → Output Unit
  | 0 => pure ()
  | n + 1 => do putChar c; fill c n

def puts : List UInt8 → Output Unit
  | [] => pure ()
  | c :: l => do putChar c; puts l

/-- `while (bound < n--) put(c);` and the value of `n` after it. -/
def padDown (c : UInt8) (bound n : Int) : Output Int := do
  fill c (n - bound).toNat
  pure (int32 (min bound n - 1))

/-- `while (--n > 0) put(' ');` and the value of `n` after it. -/
def padBlanks (n : Int) : Output Int := do
  fill ' '.toUInt8 (int32 (n - 1)).toNat
  pure (min (int32 (n - 1)) 0)

/-- `small_digits` and `large_digits`. -/
def digits (large : Bool) (d : Nat) : UInt8 :=
  ((if large then ['0', '1', '2', '3', '4', '5', '6', '7', '8', '9', 'A', 'B', 'C', 'D', 'E', 'F']
    else ['0', '1', '2', '3', '4', '5', '6', '7', '8', '9', 'a', 'b', 'c', 'd', 'e', 'f']).getD
    d '0').toUInt8

/-- `divide`: every base but 10 is taken for 16. -/
def divide (n : BitVec 32) (base : Nat) : Nat × BitVec 32 :=
  if base = 10 then (n.toNat % 10, n / 10#32) else (n.toNat % 16, n / 16#32)

/-- The digits of `num` as they are put into `tmp`, the last one first; `tmp` has room for 16. -/
def tmpLoop (large : Bool) (base : Nat) : Nat → BitVec 32 → List UInt8
  | 0, _ => []
  | n + 1, num =>
    if num = 0 then []
    else digits large (divide num base).1 :: tmpLoop large base n (divide num base).2

/-! ## Numbers -/

/-- What `print_number` has worked out before it writes. -/
structure Field where
  sign : Option UInt8
  /-- `tmp`, of length `i`. -/
  tmp : List UInt8
  precision : Int
  size : Int

/-- The first part of `print_number`, up to the first character written. -/
def Field.of (num : BitVec 32) (base : Nat) (s precision : Int) (type : Flags) : Field :=
  let sign := if type.sign then
      if num.toInt < 0 then some '-'.toUInt8
      else if type.plus then some '+'.toUInt8
      else if type.space then some ' '.toUInt8
      else none
    else none
  let num := if type.sign ∧ num.toInt < 0 then -num else num
  let tmp := if num = 0 then ['0'.toUInt8] else tmpLoop type.large base 16 num
  let precision := if precision < tmp.length then (tmp.length : Int) else precision
  ⟨sign, tmp, precision, int32 (s - precision)⟩

/-- The blanks in front of the sign: `if (!(type & (ZEROPAD | LEFT)))`. -/
def printLead (zeropad left : Bool) (sign : Option UInt8) (size : Int) : Output Int :=
  if zeropad || left then pure size
  else padDown ' '.toUInt8 0 (if sign.isSome ∧ 0 < size then size - 1 else size)

/-- The sign, if there is one. `size` is decremented only if the sign is stored. -/
def printSign (sign : Option UInt8) (size : Int) : Output Int :=
  match sign with
  | none => pure size
  | some c => do
    let stored ← hasRoom
    putChar c
    pure (if stored then int32 (size - 1) else size)

/-- What follows the sign: padding, zeros up to the precision, the digits, blanks. -/
def printTail (zeropad left : Bool) (tmp : List UInt8) (precision size : Int) : Output Unit := do
  let size ← if left then pure size
    else padDown (if zeropad then '0'.toUInt8 else ' '.toUInt8) 0 size
  let _ ← padDown '0'.toUInt8 tmp.length precision
  puts tmp.reverse
  let _ ← padDown ' '.toUInt8 0 size

/-- `print_number`; `LEFT` clears `ZEROPAD`. -/
def printNumber (num : BitVec 32) (base : Nat) (s precision : Int) (type : Flags) :
    Output Unit := do
  let f := Field.of num base s precision type
  let zeropad := type.zeropad && !type.left
  let size ← printLead zeropad type.left f.sign f.size
  let size ← printSign f.sign size
  printTail zeropad type.left f.tmp f.precision size

def printItem : Item → Output Unit
  | .plain c => putChar c
  | .chr c fieldWidth flags => do
    let w ← if flags.left then pure fieldWidth else padBlanks fieldWidth
    putChar c
    let _ ← padBlanks w
  | .str s fieldWidth precision flags => do
    let len := int32 s.length
    let len := if 0 < precision ∧ precision < len then precision else len
    let w ← if flags.left then pure fieldWidth else padDown ' '.toUInt8 len fieldWidth
    puts (s.take len.toNat)
    let _ ← padDown ' '.toUInt8 len w
  | .num num base fieldWidth precision flags =>
    printNumber num base fieldWidth precision flags
  | .unknown c => do
    putChar '%'.toUInt8
    match c with
    | some c => putChar c
    | none => pure ()

def printAll : List Item → Output Unit
  | [] => pure ()
  | i :: is => do printItem i; printAll is

/-! ## `rt_vsnprintf` -/

/-- `end`. -/
def lastOf (buf size : Nat) : Nat :=
  if sub32 (add32 buf size) 1 < buf then wordSize - 1 else sub32 (add32 buf size) 1

def printOut (mem : Mem) (buf last : Nat) (is : List Item) : Int × Mem :=
  let s := (write last (printAll is) ⟨mem, buf⟩).2
  (int32 (s.str - buf), setByte s.mem (if s.str ≤ last then s.str else last) 0)

/-- `rt_vsnprintf`: the return value and the memory after it. -/
def rtVsnprintf (mem : Mem) (buf size : Nat) (fmt : List UInt8) (args : List Arg) :
    Option (Int × Mem) :=
  (items fmt args).map (printOut mem buf (lastOf buf size))

/-- `rt_vsprintf`: the size is `(rt_size_t)-1`. -/
def rtVsprintf (mem : Mem) (buf : Nat) (fmt : List UInt8) (args : List Arg) :
    Option (Int × Mem) :=
  rtVsnprintf mem buf (wordSize - 1) fmt args

end NbIot.Kservice
