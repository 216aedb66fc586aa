import NbIot.Kservice.Strings
import NbIot.Basic.Memory

/-! # The word loops of `kservice.c`

`rt_memset` and `rt_memcpy` work on whole words where the addresses allow it, four words a turn and
then one word a turn, and on bytes for the rest. Each of these loops does what the loop over bytes
does with the same bytes. `len` of `rt_memcpy` is an `int`, but it is only compared with unsigned
sizes and with zero, so it is a natural number here.
-/

namespace NbIot.Kservice

open CString Function

/-! ## `rt_memset` -/

variable {d : Nat} (mem : Nat → UInt8) (a dst src n : Nat)

/-- A word stored at `a`, the low byte first. -/
def storeWord (v : Nat) : Nat → UInt8 := blit mem a 4 fun i => UInt8.ofNat (v / 256 ^ i)

/-- The word at `a`. -/
def loadWord : Nat :=
  (mem a).toNat + 256 * (mem (a + 1)).toNat + 65536 * (mem (a + 2)).toNat +
    16777216 * (mem (a + 3)).toNat

/-- `while (count--) *m++ = d;`. -/
def setUp (mem : Nat → UInt8) (d : UInt8) (a : Nat) : Nat → Nat → UInt8
  | 0 => mem
  | n + 1 => setUp (update mem a d) d (a + 1) n

/-- `*aligned_addr++ = buffer;`, so many times. -/
def setWords (mem : Nat → UInt8) (buffer a : Nat) : Nat → Nat → UInt8
  | 0 => mem
  | n + 1 => setWords (storeWord mem a buffer) buffer (a + 4) n

/-- The loop that stores `k + 1` words a turn: the memory, `aligned_addr` and `count` behind it. -/
def setLoop (k buffer : Nat) (mem : Nat → UInt8) (a count : Nat) : (Nat → UInt8) × Nat × Nat :=
  if 4 * (k + 1) ≤ count then
    setLoop k buffer (setWords mem buffer a (k + 1)) (a + 4 * (k + 1)) (count - 4 * (k + 1))
  else (mem, a, count)
termination_by count

/-- `buffer`: the byte `d` in each byte of a word. -/
def wordOf (d : Nat) : Nat := (d <<< 8 ||| d) ||| (d <<< 8 ||| d) <<< 16

def rtMemset (s : Nat) (c : BitVec 32) (count : Nat) : Nat → UInt8 :=
  let d := (c &&& 0xff#32).toNat
  if 4 ≤ count ∧ s % 4 = 0 then
    let r := setLoop 3 (wordOf d) mem s count
    let r := setLoop 0 (wordOf d) r.1 r.2.1 r.2.2
    setUp r.1 (UInt8.ofNat d) r.2.1 r.2.2
  else setUp mem (UInt8.ofNat d) s count

/-! ## It fills the range -/

lemma setUp_add (d : UInt8) (k : Nat) :
    setUp mem d a (n + k) = setUp (setUp mem d a n) d (a + n) k := by
  induction n generalizing mem a with
  | zero => rw [zero_add]; rfl
  | succ n ih => rw [add_right_comm, setUp, ih, setUp, add_right_comm a, add_assoc a]

lemma setUp_eq (d : UInt8) : setUp mem d a n = blit mem a n fun _ => d := by
  induction n generalizing mem a with
  | zero =>
    funext j
    rw [setUp, blit, if_neg (by omega)]
  | succ n ih =>
    rw [setUp, ih]
    funext j
    simp only [blit]
    by_cases hj : j = a
    · subst hj
      rw [if_neg (by omega), if_pos (by omega), update_self]
    rw [update_of_ne hj]
    exact if_congr (by omega) rfl rfl

lemma byte_loadWord {i : Nat} (hi : i < 4) :
    UInt8.ofNat (loadWord mem a / 256 ^ i) = mem (a + i) := by
  have h0 := (mem a).toNat_lt
  have h1 := (mem (a + 1)).toNat_lt
  have h2 := (mem (a + 2)).toNat_lt
  have h3 := (mem (a + 3)).toNat_lt
  apply UInt8.toNat_inj.mp
  simp only [UInt8.toNat_ofNat', loadWord]
  interval_cases i <;> norm_num <;> omega

lemma wordOf_eq (hd : d < 256) : wordOf d = loadWord (fun _ => UInt8.ofNat d) 0 := by
  have h8 : d <<< 8 ||| d = d * 257 := by
    rw [← Nat.shiftLeft_add_eq_or_of_lt hd, Nat.shiftLeft_eq]
    omega
  rw [wordOf, h8, Nat.or_comm, ← Nat.shiftLeft_add_eq_or_of_lt (by omega), Nat.shiftLeft_eq,
    loadWord, UInt8.toNat_ofNat_of_lt' hd]
  omega

lemma blit_congr {f g : Nat → UInt8} (h : ∀ i < n, f i = g i) :
    blit mem a n f = blit mem a n g := by
  funext x
  simp only [blit]
  split
  · exact h _ (by omega)
  rfl

lemma storeWord_wordOf (hd : d < 256) :
    storeWord mem a (wordOf d) = setUp mem (UInt8.ofNat d) a 4 := by
  rw [setUp_eq, wordOf_eq hd, storeWord]
  exact blit_congr _ _ _ fun i hi => byte_loadWord _ _ hi

lemma setWords_eq (hd : d < 256) :
    setWords mem (wordOf d) a n = setUp mem (UInt8.ofNat d) a (4 * n) := by
  induction n generalizing mem a with
  | zero => rfl
  | succ n ih =>
    rw [setWords, ih, storeWord_wordOf mem a hd, ← setUp_add, Nat.mul_succ, add_comm 4]

lemma setLoop_eq (hd : d < 256) (k : Nat) :
    setUp (setLoop k (wordOf d) mem a n).1 (UInt8.ofNat d) (setLoop k (wordOf d) mem a n).2.1
      (setLoop k (wordOf d) mem a n).2.2 = setUp mem (UInt8.ofNat d) a n := by
  induction n using Nat.strong_induction_on generalizing mem a with
  | _ n ih =>
    rw [setLoop]
    split
    · rw [ih _ (by omega), setWords_eq _ _ _ hd, ← setUp_add, Nat.add_sub_cancel' ‹_›]
    rfl

lemma rtMemset_eq (c : BitVec 32) :
    rtMemset mem a c n = blit mem a n fun _ => UInt8.ofNat c.toNat := by
  have hd : (c &&& 0xff#32).toNat = c.toNat % 256 := by
    rw [BitVec.toNat_and]
    exact Nat.and_two_pow_sub_one_eq_mod c.toNat 8
  have hlt : c.toNat % 256 < 256 := Nat.mod_lt _ (by decide)
  have hbyte : UInt8.ofNat (c.toNat % 256) = UInt8.ofNat c.toNat := by
    apply UInt8.toNat_inj.mp
    simp
  rw [rtMemset, hd]
  split
  · rw [setLoop_eq _ _ _ hlt, setLoop_eq _ _ _ hlt, setUp_eq, hbyte]
  rw [setUp_eq, hbyte]

/-! ## `rt_memcpy` -/

/-- `*aligned_dst++ = *aligned_src++;`, so many times. -/
def copyWords (mem : Nat → UInt8) (dst src : Nat) : Nat → Nat → UInt8
  | 0 => mem
  | n + 1 => copyWords (storeWord mem dst (loadWord mem src)) (dst + 4) (src + 4) n

/-- The loop that copies `k + 1` words a turn: the memory, the pointers and `len` behind it. -/
def copyLoop (k : Nat) (mem : Nat → UInt8) (dst src len : Nat) : (Nat → UInt8) × Nat × Nat × Nat :=
  if 4 * (k + 1) ≤ len then
    copyLoop k (copyWords mem dst src (k + 1)) (dst + 4 * (k + 1)) (src + 4 * (k + 1))
      (len - 4 * (k + 1))
  else (mem, dst, src, len)
termination_by len

def rtMemcpy (count : Nat) : Nat → UInt8 :=
  if 16 ≤ count ∧ src % 4 ||| dst % 4 = 0 then
    let r := copyLoop 3 mem dst src count
    let r := copyLoop 0 r.1 r.2.1 r.2.2.1 r.2.2.2
    moveUp r.1 r.2.1 r.2.2.1 r.2.2.2
  else moveUp mem dst src count

lemma moveUp_add (k : Nat) :
    moveUp mem dst src (n + k) = moveUp (moveUp mem dst src n) (dst + n) (src + n) k := by
  induction n generalizing mem dst src with
  | zero => rw [zero_add]; rfl
  | succ n ih =>
    rw [add_right_comm, moveUp, ih, moveUp, add_right_comm dst, add_assoc dst,
      add_right_comm src, add_assoc src]

variable {dst src n}

lemma storeWord_loadWord (h : dst + 4 ≤ src ∨ src + 4 ≤ dst) :
    storeWord mem dst (loadWord mem src) = moveUp mem dst src 4 := by
  rw [moveUp_eq (by omega), storeWord]
  exact blit_congr _ _ _ fun i hi => byte_loadWord _ _ hi

lemma copyWords_eq (h : dst + 4 * n ≤ src ∨ src + 4 * n ≤ dst) :
    copyWords mem dst src n = moveUp mem dst src (4 * n) := by
  induction n generalizing mem dst src with
  | zero => rfl
  | succ n ih =>
    rw [copyWords, ih _ (by omega), storeWord_loadWord mem (by omega), ← moveUp_add, Nat.mul_succ,
      add_comm 4]

lemma copyLoop_eq (k : Nat) (h : dst + n ≤ src ∨ src + n ≤ dst) : let r := copyLoop k mem dst src n
    moveUp r.1 r.2.1 r.2.2.1 r.2.2.2 = moveUp mem dst src n ∧
      (r.2.1 + r.2.2.2 ≤ r.2.2.1 ∨ r.2.2.1 + r.2.2.2 ≤ r.2.1) := by
  induction n using Nat.strong_induction_on generalizing mem dst src with
  | _ n ih =>
    rw [copyLoop]
    split
    · obtain ⟨heq, hapart⟩ := @ih (n - 4 * (k + 1)) (by omega)
        (copyWords mem dst src (k + 1)) (dst + 4 * (k + 1)) (src + 4 * (k + 1)) (by omega)
      refine ⟨?_, hapart⟩
      rw [heq, copyWords_eq mem (by omega), ← moveUp_add, Nat.add_sub_cancel' ‹_›]
    exact ⟨rfl, h⟩

lemma rtMemcpy_eq (h : dst + n ≤ src ∨ src + n ≤ dst) :
    rtMemcpy mem dst src n = blit mem dst n fun i => mem (src + i) := by
  rw [← moveUp_eq (by omega), rtMemcpy]
  split
  · obtain ⟨h1, hapart⟩ := copyLoop_eq mem 3 h
    rw [← h1]
    exact (copyLoop_eq _ 0 hapart).1
  rfl

/-! ## All three -/

/-- `rt_memmove` with the addresses of the machine: `s + n` may wrap around. -/
def rtMemmoveAt (dest src n : Nat) : Nat → UInt8 :=
  if src < dest ∧ dest < add32 src n then moveDown mem dest src n else moveUp mem dest src n

/-- **The memory primitives** are the functions on bytes, for ranges that do not wrap around:
`rt_memcpy` if its ranges do not overlap, `rt_memmove` however they do. -/
theorem memory_primitives (c : BitVec 32) (count : Nat) (hdst : dst + count ≤ wordSize)
    (hsrc : src + count ≤ wordSize) :
    rtMemset mem dst c count = blit mem dst count (fun _ => UInt8.ofNat c.toNat) ∧
      (dst + count ≤ src ∨ src + count ≤ dst →
        rtMemcpy mem dst src count = blit mem dst count fun i => mem (src + i)) ∧
      rtMemmoveAt mem dst src count = blit mem dst count fun i => mem (src + i) := by
  refine ⟨rtMemset_eq mem dst count c, rtMemcpy_eq mem, ?_⟩
  rw [← rtMemmove_eq, rtMemmoveAt, rtMemmove]
  refine if_congr (and_congr_right fun hlt => ?_) rfl rfl
  -- the source range ends in front of the destination range, so its end is an address
  by_cases h0 : count = 0
  · rw [h0, add32_of_lt (by omega)]
  rw [add32_of_lt (by omega)]

/-- At the top of the address space: a block of 64 bytes is filled, copied from elsewhere, and moved
up by one byte. -/
theorem memory_primitives_top :
    rtMemset (fun x => UInt8.ofNat x) 0xffffffc0 0x1234 64 0xffffffff = 0x34 ∧
      rtMemcpy (fun x => UInt8.ofNat x) 0xffffffc0 0x1001 64 0xffffffff = 0x40 ∧
      rtMemmoveAt (fun x => UInt8.ofNat x) 0xffffffc0 0xffffffbf 64 0xffffffff = 0xfe := by
  obtain ⟨hset, hcpy, -⟩ := @memory_primitives (fun x => UInt8.ofNat x) 0xffffffc0 0x1001
    0x1234 64 (by decide) (by decide)
  obtain ⟨-, -, hmove⟩ := @memory_primitives (fun x => UInt8.ofNat x) 0xffffffc0 0xffffffbf
    0x1234 64 (by decide) (by decide)
  rw [hset, hcpy (by decide), hmove]
  decide

end NbIot.Kservice
