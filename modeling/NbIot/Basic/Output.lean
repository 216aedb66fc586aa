import NbIot.Basic.Memory

/-! # Output into a buffer of limited size

A program that writes text through a cursor, stores a character only if the cursor is still inside
the buffer, and moves the cursor in any case. It may also ask whether the cursor is still inside.
`Output α` is such a program with a result in `α`, as a tree of what it does next.

* `write last` runs it on memory: `last` is the last address of the buffer, the cursor is a 32-bit
  address.
* `text fits n` is the text it produces from the offset `n` on, including the characters that are
  not stored; `fits k` tells whether the offset `k` is inside the buffer.
-/

namespace NbIot

/-! ## Programs that write characters -/

/-- A program that writes text and ends with an `α`. -/
inductive Output (α : Type) where
  | done (a : α)
  | put (c : UInt8) (rest : Output α)
  | room (rest : Bool → Output α)

namespace Output

variable {α β : Type}

def bind : Output α → (α → Output β) → Output β
  | done a, f => f a
  | put c o, f => put c (o.bind f)
  | room k, f => room fun b => (k b).bind f

instance : Monad Output where
  pure := done
  bind := bind

def putChar (c : UInt8) : Output Unit := put c (done ())

def hasRoom : Output Bool := room done

/-- The result of a program started at the offset `n`, and the text it writes. -/
def text (fits : Nat → Bool) : Nat → Output α → α × List UInt8
  | _, done a => (a, [])
  | n, put c o => ((text fits (n + 1) o).1, c :: (text fits (n + 1) o).2)
  | n, room k => text fits n (k (fits n))

def count (fits : Nat → Bool) (n : Nat) (o : Output α) : Nat := (text fits n o).2.length

/-! ## The text of a program -/

section

variable (fits : Nat → Bool) (n : Nat)

@[simp] lemma text_pure (a : α) : text fits n (pure a) = (a, []) := rfl

@[simp] lemma text_putChar (c : UInt8) : text fits n (putChar c) = ((), [c]) := rfl

lemma text_bind (o : Output α) (f : α → Output β) : text fits n (o >>= f) =
      ((text fits (n + count fits n o) (f (text fits n o).1)).1,
        (text fits n o).2 ++ (text fits (n + count fits n o) (f (text fits n o).1)).2) := by
  show text fits n (o.bind f) = _
  induction o generalizing n with
  | done a => rfl
  | put c o ih =>
    have hn : n + 1 + count fits (n + 1) o = n + count fits n (put c o) := by
      simp only [count, text, List.length_cons]
      omega
    simp only [bind, text, ih, hn, List.cons_append]
  | room k ih => exact ih (fits n) n

lemma fst_bind (o : Output α) (f : α → Output β) : (text fits n (o >>= f)).1
      = (text fits (n + count fits n o) (f (text fits n o).1)).1 := by
  rw [text_bind]

lemma count_bind (o : Output α) (f : α → Output β) : count fits n (o >>= f)
      = count fits n o + count fits (n + count fits n o) (f (text fits n o).1) := by
  rw [count, text_bind, List.length_append]
  rfl

@[simp] lemma count_pure (a : α) : count fits n (pure a : Output α) = 0 := rfl

@[simp] lemma count_putChar (c : UInt8) : count fits n (putChar c) = 1 := rfl

end

/-- **Truncation.** Two buffers that both hold the offsets below `size` receive the same text
there. -/
theorem take_text {fits fits' : Nat → Bool} {size : Nat} (h : ∀ n < size, fits n = fits' n)
    (n : Nat) (o : Output α) :
    (text fits n o).2.take (size - n) = (text fits' n o).2.take (size - n) := by
  induction o generalizing n with
  | done a => rfl
  | put c o ih =>
    by_cases hn : n < size
    · obtain ⟨m, hm⟩ : ∃ m, size - n = m + 1 := ⟨size - n - 1, by omega⟩
      have hm' : size - (n + 1) = m := by omega
      have hrest := ih (n + 1)
      rw [hm'] at hrest
      simp only [text, hm, List.take_succ_cons, hrest]
    simp [Nat.sub_eq_zero_of_le (Nat.le_of_not_lt hn)]
  | room k ih =>
    by_cases hn : n < size
    · -- the question has the same answer, so the programs go on alike
      simp only [text, ← h n hn]
      exact ih (fits n) n
    simp [Nat.sub_eq_zero_of_le (Nat.le_of_not_lt hn)]

/-! ## The text in memory -/

def setByte (m : Mem) (a : Nat) (c : UInt8) : Mem := fun x => if x = a then c else m x

structure Cursor where
  mem : Mem
  str : Nat

/-- `if (str <= end) *str = c; ++str;` -/
def Cursor.put (last : Nat) (s : Cursor) (c : UInt8) : Cursor :=
  { mem := if s.str ≤ last then setByte s.mem s.str c else s.mem
    str := add32 s.str 1 }

def write (last : Nat) : Output α → Cursor → α × Cursor
  | done a, s => (a, s)
  | put c o, s => write last o (s.put last c)
  | room k, s => write last (k (decide (s.str ≤ last))) s

/-- The characters of `l` stored from `a` on, up to the address `last`. -/
def stored (m : Mem) (a last : Nat) (l : List UInt8) : Mem := fun x =>
  if a ≤ x ∧ x ≤ last then l.getD (x - a) (m x) else m x

lemma stored_nil (m : Mem) (a last : Nat) : stored m a last [] = m := by
  funext x
  simp [stored]

lemma stored_cons (m : Mem) (a last : Nat) (c : UInt8) (l : List UInt8) :
    stored (if a ≤ last then setByte m a c else m) (a + 1) last l = stored m a last (c :: l) := by
  have hput : ∀ x, (if a ≤ last then setByte m a c else m) x
      = if x = a ∧ a ≤ last then c else m x := by
    by_cases hl : a ≤ last
    · simp [hl, setByte]
    simp [hl]
  funext x
  simp only [stored, hput]
  rcases Nat.lt_trichotomy x a with h | rfl | h
  · -- in front of the cursor nothing is stored
    rw [if_neg (by omega), if_neg (by omega), if_neg (by omega)]
  · by_cases hl : x ≤ last
    · simp
    simp
  have hsub : x - a = x - (a + 1) + 1 := by omega
  have hne : ¬ (x = a ∧ a ≤ last) := by omega
  rw [if_neg hne, hsub, List.getD_cons_succ]
  have hiff : (a + 1 ≤ x ∧ x ≤ last) ↔ (a ≤ x ∧ x ≤ last) := by omega
  simp only [hiff]

/-- The offsets inside a buffer that begins at `buf` and ends with the address `last`. -/
def inside (buf last : Nat) (n : Nat) : Bool := decide (buf + n ≤ last)

/-- **The memory run.** As long as the cursor does not wrap around, a program leaves its text in
memory, up to the end of the buffer, and the cursor behind its text. -/
theorem write_eq (buf last n : Nat) (o : Output α) (m : Mem)
    (h : buf + n + count (inside buf last) n o < wordSize) :
    write last o ⟨m, buf + n⟩ = ((text (inside buf last) n o).1,
      ⟨stored m (buf + n) last (text (inside buf last) n o).2,
        buf + n + count (inside buf last) n o⟩) := by
  induction o generalizing n m with
  | done a => simp [write, text, count, stored_nil]
  | put c o ih =>
    have hcount : count (inside buf last) n (put c o)
        = count (inside buf last) (n + 1) o + 1 := rfl
    have hnext : add32 (buf + n) 1 = buf + (n + 1) := by
      rw [add32_of_lt (by omega)]
      rfl
    calc write last (put c o) ⟨m, buf + n⟩
        = write last o ⟨if buf + n ≤ last then setByte m (buf + n) c else m,
            buf + (n + 1)⟩ := by rw [← hnext]; rfl
      _ = _ := ih (n + 1) _ (by omega)
      _ = _ := by
          have hlen : buf + (n + 1) + count (inside buf last) (n + 1) o
              = buf + n + (count (inside buf last) (n + 1) o + 1) := by omega
          rw [hlen]
          have hst := stored_cons m (buf + n) last c (text (inside buf last) (n + 1) o).2
          rw [show buf + n + 1 = buf + (n + 1) from rfl] at hst
          rw [hst]
          rfl
  | room k ih => exact ih _ n m h

/-- The offsets at which the cursor is inside, for a cursor that may wrap around. -/
def within (buf last : Nat) (n : Nat) : Bool := decide ((buf + n) % wordSize ≤ last)

/-- The cursor moves by the number of characters written, whether or not it wraps around. -/
theorem str_write (buf last n : Nat) (o : Output α) (m : Mem) :
    (write last o ⟨m, (buf + n) % wordSize⟩).2.str
      = (buf + n + count (within buf last) n o) % wordSize := by
  induction o generalizing n m with
  | done a => rfl
  | put c o ih =>
    have hnext : add32 ((buf + n) % wordSize) 1 = (buf + (n + 1)) % wordSize := by
      unfold add32 wordSize
      omega
    have hcount : count (within buf last) n (put c o)
        = count (within buf last) (n + 1) o + 1 := rfl
    rw [write, Cursor.put, hnext, ih (n + 1)]
    exact congrArg (· % wordSize) (by omega)
  | room k ih => exact ih _ n m

end Output

end NbIot
