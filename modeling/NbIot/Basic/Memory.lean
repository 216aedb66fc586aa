import Mathlib.Tactic

/-! # Byte-addressed memory

A 32-bit machine's memory as a function from addresses to bytes, with little-endian loads and
stores of any width and the two block operations (`fill`, `copy`). Addresses and machine words
are natural numbers; `add32` and `sub32` are the wrapping operations on 32-bit words.
-/

namespace NbIot

def Mem := Nat → UInt8

def wordSize : Nat := 2 ^ 32

def add32 (a b : Nat) : Nat := (a + b) % wordSize

def sub32 (a b : Nat) : Nat := (a + (wordSize - b % wordSize)) % wordSize

lemma add32_of_lt {a b : Nat} (h : a + b < wordSize) : add32 a b = a + b := Nat.mod_eq_of_lt h

lemma sub32_of_le {a b : Nat} (h : b ≤ a) (ha : a < wordSize) : sub32 a b = a - b := by
  unfold sub32 wordSize at *
  omega

namespace Mem

/-- The little-endian value of the `n` bytes at `a`. -/
def load (m : Mem) (a : Nat) : Nat → Nat
  | 0 => 0
  | n + 1 => (m a).toNat + 256 * load m (a + 1) n

/-- `v` written little-endian to the `n` bytes at `a`. -/
def store (m : Mem) (a n v : Nat) : Mem := fun x =>
  if a ≤ x ∧ x < a + n then UInt8.ofNat (v / 256 ^ (x - a)) else m x

/-- The `n` bytes from `a` on set to `c`, addresses wrapping at the end of the address space. -/
def fill (m : Mem) (a n : Nat) (c : UInt8) : Mem := fun x =>
  if sub32 x a < n then c else m x

/-- The `n` bytes at `src` copied to `dst`, for ranges that do not overlap. -/
def copy (m : Mem) (dst src n : Nat) : Mem := fun x =>
  if dst ≤ x ∧ x < dst + n then m (src + (x - dst)) else m x

/-- `m` and `m'` hold the same bytes at the addresses `lo ≤ x < hi`. -/
def Agree (m m' : Mem) (lo hi : Nat) : Prop := ∀ x, lo ≤ x → x < hi → m x = m' x

lemma Agree.trans {m m' m'' : Mem} {lo hi : Nat} (h : Agree m m' lo hi)
    (h' : Agree m' m'' lo hi) : Agree m m'' lo hi :=
  fun x h1 h2 => (h x h1 h2).trans (h' x h1 h2)

variable {m m' : Mem}

lemma Agree.mono {lo hi lo' hi' : Nat} (h : Agree m m' lo hi)
    (h1 : lo ≤ lo') (h2 : hi' ≤ hi) : Agree m m' lo' hi' :=
  fun x hx hx' => h x (by omega) (by omega)

lemma load_congr {a n : Nat} (h : Agree m m' a (a + n)) :
    load m a n = load m' a n := by
  induction n generalizing a with
  | zero => rfl
  | succ n ih =>
    have hrest : Agree m m' (a + 1) (a + 1 + n) := h.mono (by omega) (by omega)
    simp only [load]
    rw [h a (by omega) (by omega), ih hrest]

lemma Agree.load {lo hi a n v : Nat} (h : Agree m m' lo hi) (h1 : lo ≤ a)
    (h2 : a + n ≤ hi) (hv : load m a n = v) : load m' a n = v :=
  (load_congr (h.mono h1 h2)).symm.trans hv

lemma load_lt (m : Mem) (a n : Nat) : load m a n < 256 ^ n := by
  induction n generalizing a with
  | zero => simp [load]
  | succ n ih =>
    have hb : (m a).toNat < 256 := (m a).toNat_lt
    have hr := ih (a + 1)
    simp only [load]
    omega

lemma agree_store (m : Mem) (a n v lo hi : Nat) (h : hi ≤ a ∨ a + n ≤ lo) :
    Agree m (store m a n v) lo hi := by
  intro x h1 h2
  rw [store, if_neg (by omega)]

lemma load_store_aux (m : Mem) (a n v : Nat) :
    ∀ k i, i + k = n → load (store m a n v) (a + i) k = v / 256 ^ i % 256 ^ k := by
  intro k
  induction k with
  | zero => intro i _; simp [load, Nat.mod_one]
  | succ k ih =>
    intro i hi
    have hbyte : (store m a n v (a + i)).toNat = v / 256 ^ i % 256 := by
      rw [store, if_pos (by omega)]
      simp
    have hrest := ih (i + 1) (by omega)
    rw [← add_assoc] at hrest
    simp only [load]
    rw [hbyte, hrest, Nat.pow_succ, ← Nat.div_div_eq_div_mul, Nat.pow_succ', Nat.mod_mul]

lemma load_store (m : Mem) (a n v : Nat) : load (store m a n v) a n = v % 256 ^ n := by
  simpa using load_store_aux m a n v n 0 (by omega)

lemma load_store_of_disjoint (m : Mem) {a n b k : Nat} (v : Nat)
    (h : a + n ≤ b ∨ b + k ≤ a) : load (store m b k v) a n = load m a n :=
  (load_congr (agree_store m b k v a (a + n) h)).symm

lemma agree_fill (m : Mem) (a n : Nat) (c : UInt8) (lo hi : Nat) (ha : a + n ≤ wordSize)
    (hhi : hi ≤ wordSize) (h : hi ≤ a ∨ a + n ≤ lo) : Agree m (fill m a n c) lo hi := by
  intro x h1 h2
  rw [fill, if_neg]
  unfold sub32 wordSize at *
  omega

lemma agree_copy (m : Mem) (dst src n lo hi : Nat) (h : hi ≤ dst ∨ dst + n ≤ lo) :
    Agree m (copy m dst src n) lo hi := by
  intro x h1 h2
  rw [copy, if_neg (by omega)]

end Mem

-- Loads, stores and wrapping arithmetic are used through their lemmas; unfolding them while two
-- states are compared is never useful and very slow.
attribute [irreducible] add32 sub32 Mem.load Mem.store Mem.fill Mem.copy

end NbIot
