import NbIot.Basic.Refine
import NbIot.Basic.Window
import NbIot.Heap.Mem

/-! # The ring buffer of `components/drivers/src/ringbuffer.c`

A ring buffer has a read and a write index of fifteen bits and a mirror bit beside each: equal
indices mean an empty buffer if the mirror bits are equal too, and a full one otherwise.

* The memory of a source block is a function `ptr` on byte offsets; what is copied out is a list.
* The indices stay below `buffer_size` (`Holds`), so that the subtractions of the source, which are
  made on `int`, never go below zero; assignments to an index keep fifteen bits.
-/

namespace NbIot.Ringbuffers

/-! ## The functions of `ringbuffer.c` -/

open SmallMem (rtAlignDown alignSize)
open Refine List

/-- `struct rt_ringbuffer`, with the bytes behind `buffer_ptr`. -/
structure Ringbuffer where
  bufferPtr : Nat → UInt8
  readMirror : Bool
  readIndex : Nat
  writeMirror : Bool
  writeIndex : Nat
  bufferSize : Nat

def index15 (n : Nat) : Nat := n % 2 ^ 15

/-- `enum rt_ringbuffer_state`. -/
inductive Status where
  | empty
  | full
  | halffull
  deriving DecidableEq, Repr

/-- `rt_ringbuffer_init`; `none` is the failed assertion. -/
def rtRingbufferInit (pool : Nat → UInt8) (size : Nat) : Option Ringbuffer :=
  if 0 < size then
    some { bufferPtr := pool, readMirror := false, readIndex := 0, writeMirror := false,
           writeIndex := 0, bufferSize := rtAlignDown size alignSize }
  else none

def status (rb : Ringbuffer) : Status :=
  if rb.readIndex = rb.writeIndex then
    if rb.readMirror = rb.writeMirror then .empty else .full
  else .halffull

def dataLen (rb : Ringbuffer) : Nat :=
  match status rb with
  | .empty => 0
  | .full => rb.bufferSize
  | .halffull =>
    if rb.readIndex < rb.writeIndex then rb.writeIndex - rb.readIndex
    else rb.bufferSize - (rb.readIndex - rb.writeIndex)

def spaceLen (rb : Ringbuffer) : Nat := rb.bufferSize - dataLen rb

def copyStraight (rb : Ringbuffer) (ptr : Nat → UInt8) (length : Nat) : Ringbuffer :=
  { rb with
    bufferPtr := blit rb.bufferPtr rb.writeIndex length ptr
    writeIndex := index15 (rb.writeIndex + length) }

/-- The block reaches the end: "we are going into the other side of the mirror". -/
def copyWrapped (rb : Ringbuffer) (ptr : Nat → UInt8) (length : Nat) : Ringbuffer :=
  let rest := rb.bufferSize - rb.writeIndex
  { rb with
    bufferPtr := blit (blit rb.bufferPtr rb.writeIndex rest ptr) 0 (length - rest)
      fun i => ptr (rest + i)
    writeMirror := !rb.writeMirror
    writeIndex := index15 (length - rest) }

/-- `rt_ringbuffer_put`, with the value it returns. -/
def rtRingbufferPut (rb : Ringbuffer) (ptr : Nat → UInt8) (length : Nat) : Ringbuffer × Nat :=
  let size := spaceLen rb
  if size = 0 then (rb, 0)
  else
    -- drop some data
    let length := if size < length then size else length
    if length < rb.bufferSize - rb.writeIndex then (copyStraight rb ptr length, length)
    else (copyWrapped rb ptr length, length)

/-- The write index moves on by one, into the other mirror behind the last cell. -/
def stepWrite (rb : Ringbuffer) : Ringbuffer :=
  if rb.writeIndex = rb.bufferSize - 1 then
    { rb with writeMirror := !rb.writeMirror, writeIndex := 0 }
  else { rb with writeIndex := index15 (rb.writeIndex + 1) }

/-- `buffer_ptr[write_index] = ch`. -/
def storeByte (rb : Ringbuffer) (ch : UInt8) : Ringbuffer :=
  { rb with bufferPtr := Function.update rb.bufferPtr rb.writeIndex ch }

def rtRingbufferPutchar (rb : Ringbuffer) (ch : UInt8) : Ringbuffer × Nat :=
  if spaceLen rb = 0 then (rb, 0) else (stepWrite (storeByte rb ch), 1)

def rtRingbufferPutcharForce (rb : Ringbuffer) (ch : UInt8) : Ringbuffer × Nat :=
  let oldState := status rb
  let rb := storeByte rb ch
  if rb.writeIndex = rb.bufferSize - 1 then
    let rb := { rb with writeMirror := !rb.writeMirror, writeIndex := 0 }
    (if oldState = .full then
      { rb with readMirror := !rb.readMirror, readIndex := rb.writeIndex }
    else rb, 1)
  else
    let rb := { rb with writeIndex := index15 (rb.writeIndex + 1) }
    (if oldState = .full then { rb with readIndex := rb.writeIndex } else rb, 1)

/-- `rt_ringbuffer_get`, with the bytes copied to `ptr` and the value it returns. -/
def rtRingbufferGet (rb : Ringbuffer) (length : Nat) : Ringbuffer × List UInt8 × Nat :=
  let size := dataLen rb
  if size = 0 then (rb, [], 0)
  else
    -- less data
    let length := if size < length then size else length
    let rest := rb.bufferSize - rb.readIndex
    if length < rest then
      ({ rb with readIndex := index15 (rb.readIndex + length) },
        block (fun i => rb.bufferPtr (rb.readIndex + i)) length, length)
    else
      ({ rb with readMirror := !rb.readMirror, readIndex := index15 (length - rest) },
        block (fun i => rb.bufferPtr (rb.readIndex + i)) rest
          ++ block rb.bufferPtr (length - rest), length)

/-- `rt_ringbuffer_getchar`, with the byte stored to `*ch`, if any, and the value it returns. -/
def rtRingbufferGetchar (rb : Ringbuffer) : Ringbuffer × List UInt8 × Nat :=
  if dataLen rb = 0 then (rb, [], 0)
  else
    let ch := rb.bufferPtr rb.readIndex
    if rb.readIndex = rb.bufferSize - 1 then
      ({ rb with readMirror := !rb.readMirror, readIndex := 0 }, [ch], 1)
    else ({ rb with readIndex := index15 (rb.readIndex + 1) }, [ch], 1)

/-! ## What the buffer holds -/

def contents (rb : Ringbuffer) : List UInt8 :=
  window rb.bufferSize rb.bufferPtr rb.readIndex (dataLen rb)

/-- The buffer is in order and holds `k` bytes. -/
structure Holds (rb : Ringbuffer) (k : Nat) : Prop where
  size_lt : rb.bufferSize < 2 ^ 15
  read_lt : rb.readIndex < rb.bufferSize
  write_lt : rb.writeIndex < rb.bufferSize
  /-- In the same mirror the write index is `k` ahead, in the other one it has gone round. -/
  place : (rb.readMirror = rb.writeMirror ∧ rb.writeIndex = rb.readIndex + k) ∨
    (rb.readMirror = !rb.writeMirror ∧ rb.writeIndex + rb.bufferSize = rb.readIndex + k ∧
      k ≤ rb.bufferSize)

lemma bool_ne_not (b : Bool) : b ≠ !b := by cases b <;> simp

namespace Holds

variable {rb rb' : Ringbuffer} {k : Nat}

variable (h : Holds rb k)

include h

lemma le_size : k ≤ rb.bufferSize := by
  have hw := h.write_lt
  rcases h.place with ⟨-, hp⟩ | ⟨-, -, hk⟩ <;> omega

lemma dataLen_eq : dataLen rb = k := by
  unfold dataLen status
  rcases h.place with ⟨hm, hp⟩ | ⟨hm, hp, hk⟩
  · by_cases he : rb.readIndex = rb.writeIndex
    · simp only [if_pos he, if_pos hm]
      omega
    simp only [if_neg he, if_pos (show rb.readIndex < rb.writeIndex by omega)]
    omega
  have hne : rb.readMirror ≠ rb.writeMirror := by
    rw [hm]
    exact (bool_ne_not _).symm
  by_cases he : rb.readIndex = rb.writeIndex
  · simp only [if_pos he, if_neg hne]
    omega
  simp only [if_neg he, if_neg (show ¬ rb.readIndex < rb.writeIndex by omega)]
  omega

lemma spaceLen_eq : spaceLen rb = rb.bufferSize - k := by
  rw [spaceLen, h.dataLen_eq]

lemma contents_eq : contents rb = window rb.bufferSize rb.bufferPtr rb.readIndex k := by
  rw [contents, h.dataLen_eq]

lemma length_contents : (contents rb).length = k := by
  rw [h.contents_eq, length_window]

lemma status_full_iff : status rb = .full ↔ k = rb.bufferSize := by
  have hw := h.write_lt
  unfold status
  rcases h.place with ⟨hm, hp⟩ | ⟨hm, hp, hk⟩
  · simp only [if_pos hm]
    by_cases he : rb.readIndex = rb.writeIndex
    · simp only [if_pos he, reduceCtorEq, false_iff]
      omega
    simp only [if_neg he, reduceCtorEq, false_iff]
    omega
  have hne : rb.readMirror ≠ rb.writeMirror := by
    rw [hm]
    exact (bool_ne_not _).symm
  by_cases he : rb.readIndex = rb.writeIndex
  · simp only [if_pos he, if_neg hne, true_iff]
    omega
  simp only [if_neg he, reduceCtorEq, false_iff]
  omega

lemma write_mod : rb.writeIndex % rb.bufferSize = (rb.readIndex + k) % rb.bufferSize := by
  rcases h.place with ⟨-, hp⟩ | ⟨-, hp, -⟩
  · rw [hp]
  rw [← hp, Nat.add_mod_right]

end Holds

/-! ## What a call does -/

structure After (rb rb' : Ringbuffer) (bytes : List UInt8) : Prop where
  holds : Holds rb' bytes.length
  contents : contents rb' = bytes
  size : rb'.bufferSize = rb.bufferSize

section

variable {rb : Ringbuffer} {k : Nat} {len : Nat}

variable (h : Holds rb k) {rb' : Ringbuffer}

include h

lemma Holds.after : After rb rb (contents rb) := ⟨h.length_contents.symm ▸ h, rfl, rfl⟩

omit h in
lemma index15_of_lt {n : Nat} (h : n < 2 ^ 15) : index15 n = n := Nat.mod_eq_of_lt h

lemma after_laid {ptr : Nat → UInt8}
    (hlaid : Laid rb.bufferSize rb.bufferPtr rb'.bufferPtr rb.writeIndex len ptr)
    (hfit : k + len ≤ rb.bufferSize) (hsize : rb'.bufferSize = rb.bufferSize)
    (hread : rb'.readIndex = rb.readIndex) (hholds : Holds rb' (k + len)) :
    After rb rb' (contents rb ++ block ptr len) := by
  have hlen : (contents rb ++ block ptr len).length = k + len := by
    rw [length_append, h.length_contents, length_block]
  refine ⟨hlen ▸ hholds, ?_, hsize⟩
  rw [hholds.contents_eq, h.contents_eq, hsize, hread]
  exact hlaid.window_append h.write_mod hfit

lemma after_copyStraight (ptr : Nat → UInt8)
    (hfit : k + len ≤ rb.bufferSize) (hlen : len < rb.bufferSize - rb.writeIndex) :
    After rb (copyStraight rb ptr len) (contents rb ++ block ptr len) := by
  have hs := h.size_lt
  have hidx : (copyStraight rb ptr len).writeIndex = rb.writeIndex + len := index15_of_lt (by omega)
  refine after_laid h (laid_straight h.write_lt (by omega)) hfit rfl rfl ⟨hs, h.read_lt, ?_, ?_⟩
  · rw [hidx]
    show rb.writeIndex + len < rb.bufferSize
    omega
  show (rb.readMirror = rb.writeMirror ∧ _ = rb.readIndex + (k + len)) ∨
    (rb.readMirror = !rb.writeMirror ∧ _ + rb.bufferSize = rb.readIndex + (k + len) ∧
      k + len ≤ rb.bufferSize)
  rcases h.place with ⟨hm, hp⟩ | ⟨hm, hp, -⟩
  · exact .inl ⟨hm, by omega⟩
  exact .inr ⟨hm, by omega, hfit⟩

lemma after_copyWrapped (ptr : Nat → UInt8) (hfit : k + len ≤ rb.bufferSize)
    (hlen : rb.bufferSize - rb.writeIndex ≤ len) :
    After rb (copyWrapped rb ptr len) (contents rb ++ block ptr len) := by
  have hs := h.size_lt
  have hw := h.write_lt
  have hr := h.read_lt
  have hidx : (copyWrapped rb ptr len).writeIndex = len - (rb.bufferSize - rb.writeIndex) :=
    index15_of_lt (by omega)
  -- the bytes that are there already leave the write index in the read index's mirror
  have hplace : rb.readMirror = rb.writeMirror ∧ rb.writeIndex = rb.readIndex + k := by
    rcases h.place with hp | ⟨-, hp, -⟩
    · exact hp
    omega
  refine after_laid h (laid_wrapped hw hlen (by omega)) hfit rfl rfl ⟨hs, hr, ?_, ?_⟩
  · rw [hidx]
    show len - (rb.bufferSize - rb.writeIndex) < rb.bufferSize
    omega
  rw [hidx]
  refine .inr ⟨?_, ?_, hfit⟩
  · show rb.readMirror = !!rb.writeMirror
    rw [Bool.not_not, hplace.1]
  show len - (rb.bufferSize - rb.writeIndex) + rb.bufferSize = rb.readIndex + (k + len)
  omega

lemma put_spec (ptr : Nat → UInt8) (len : Nat) : After rb (rtRingbufferPut rb ptr len).1
      (contents rb ++ block ptr (min len (rb.bufferSize - k))) ∧
    (rtRingbufferPut rb ptr len).2 = min len (rb.bufferSize - k) := by
  unfold rtRingbufferPut
  simp only [h.spaceLen_eq]
  by_cases hz : rb.bufferSize - k = 0
  · rw [hz, Nat.min_zero]
    refine ⟨?_, rfl⟩
    rw [block, range_zero, map_nil, append_nil]
    exact h.after
  rw [if_neg hz]
  have hmin : (if rb.bufferSize - k < len then rb.bufferSize - k else len)
      = min len (rb.bufferSize - k) := by split <;> omega
  rw [hmin]
  have hfit : k + min len (rb.bufferSize - k) ≤ rb.bufferSize := by omega
  by_cases hlen : min len (rb.bufferSize - k) < rb.bufferSize - rb.writeIndex
  · rw [if_pos hlen]
    exact ⟨after_copyStraight h ptr hfit hlen, rfl⟩
  rw [if_neg hlen]
  exact ⟨after_copyWrapped h ptr hfit (by omega), rfl⟩

omit h in
lemma blit_one (buf : Nat → UInt8) (i : Nat) (ch : UInt8) :
    blit buf i 1 (fun _ => ch) = Function.update buf i ch := by
  funext j
  by_cases hj : j = i
  · subst hj
    simp [blit]
  rw [blit, if_neg (by omega), Function.update_of_ne hj]

lemma stepWrite_storeByte (ch : UInt8) :
    stepWrite (storeByte rb ch) = if 1 < rb.bufferSize - rb.writeIndex
      then copyStraight rb (fun _ => ch) 1 else copyWrapped rb (fun _ => ch) 1 := by
  have hw := h.write_lt
  by_cases hend : rb.writeIndex = rb.bufferSize - 1
  · have hrest : rb.bufferSize - (rb.bufferSize - 1) = 1 := by omega
    have hnone : ∀ buf f : Nat → UInt8, blit buf 0 0 f = buf := fun _ _ =>
      funext fun _ => by simp [blit]
    simp [stepWrite, storeByte, copyWrapped, hend, hrest, blit_one, hnone, index15]
  rw [if_pos (by omega)]
  simp [stepWrite, storeByte, copyStraight, hend, blit_one]

omit h in
lemma After.push {bytes : List UInt8} (h : After rb rb' bytes)
    (hfit : bytes.length < rb.bufferSize) (ch : UInt8) :
    After rb (stepWrite (storeByte rb' ch)) (bytes ++ [ch]) := by
  have hone : After rb' (stepWrite (storeByte rb' ch))
      (Ringbuffers.contents rb' ++ block (fun _ => ch) 1) := by
    rw [stepWrite_storeByte h.holds]
    have hlt := h.size ▸ hfit
    split
    · next hs => exact after_copyStraight h.holds _ hlt hs
    next hs => exact after_copyWrapped h.holds _ hlt (by omega)
  rw [h.contents] at hone
  exact ⟨hone.holds, hone.contents, hone.size.trans h.size⟩

lemma putchar_spec (ch : UInt8) :
    (k < rb.bufferSize ∧ After rb (rtRingbufferPutchar rb ch).1 (contents rb ++ [ch]) ∧
      (rtRingbufferPutchar rb ch).2 = 1) ∨
    (k = rb.bufferSize ∧ rtRingbufferPutchar rb ch = (rb, 0)) := by
  have hle := h.le_size
  unfold rtRingbufferPutchar
  rw [h.spaceLen_eq]
  by_cases hz : rb.bufferSize - k = 0
  · rw [if_pos hz]
    exact .inr ⟨by omega, rfl⟩
  rw [if_neg hz]
  exact .inl ⟨by omega, h.after.push (by rw [h.length_contents]; omega) ch, rfl⟩

lemma after_read (hlen : len ≤ k) (hholds : Holds rb' (k - len))
    (hbuf : rb'.bufferPtr = rb.bufferPtr) (hsize : rb'.bufferSize = rb.bufferSize)
    (hread : rb'.readIndex % rb.bufferSize = (rb.readIndex + len) % rb.bufferSize) :
    After rb rb' ((contents rb).drop len) := by
  have hlength : ((contents rb).drop len).length = k - len := by
    rw [length_drop, h.length_contents]
  refine ⟨hlength ▸ hholds, ?_, hsize⟩
  rw [hholds.contents_eq, h.contents_eq, drop_window hlen, hbuf, hsize,
    ← window_mod rb.bufferSize rb.bufferPtr rb'.readIndex, hread, window_mod]

lemma after_readStraight (len : Nat) (hlen : len ≤ k)
    (hstraight : len < rb.bufferSize - rb.readIndex) :
    After rb { rb with readIndex := index15 (rb.readIndex + len) } ((contents rb).drop len) := by
  have hs := h.size_lt
  have hidx : index15 (rb.readIndex + len) = rb.readIndex + len := index15_of_lt (by omega)
  rw [hidx]
  refine after_read h hlen ⟨hs, ?_, h.write_lt, ?_⟩ rfl rfl rfl
  · show rb.readIndex + len < rb.bufferSize
    omega
  show (rb.readMirror = rb.writeMirror ∧ rb.writeIndex = rb.readIndex + len + (k - len)) ∨
    (rb.readMirror = !rb.writeMirror ∧
      rb.writeIndex + rb.bufferSize = rb.readIndex + len + (k - len) ∧ k - len ≤ rb.bufferSize)
  rcases h.place with ⟨hm, hp⟩ | ⟨hm, hp, hk⟩
  · exact .inl ⟨hm, by omega⟩
  exact .inr ⟨hm, by omega, by omega⟩

lemma after_readWrapped (len : Nat) (hlen : len ≤ k) (hwrap : rb.bufferSize - rb.readIndex ≤ len) :
    After rb { rb with
      readMirror := !rb.readMirror
      readIndex := index15 (len - (rb.bufferSize - rb.readIndex)) } ((contents rb).drop len) := by
  have hs := h.size_lt
  have hr := h.read_lt
  have hw := h.write_lt
  have hle := h.le_size
  have hidx : index15 (len - (rb.bufferSize - rb.readIndex))
      = len - (rb.bufferSize - rb.readIndex) := index15_of_lt (by omega)
  rw [hidx]
  refine after_read h hlen ⟨hs, ?_, hw, ?_⟩ rfl rfl ?_
  · show len - (rb.bufferSize - rb.readIndex) < rb.bufferSize
    omega
  · rcases h.place with ⟨-, hp⟩ | ⟨hm, hp, -⟩
    · omega
    refine .inl ⟨?_, ?_⟩
    · rw [hm, Bool.not_not]
    show rb.writeIndex = len - (rb.bufferSize - rb.readIndex) + (k - len)
    omega
  rw [show rb.readIndex + len = len - (rb.bufferSize - rb.readIndex) + rb.bufferSize by omega,
    Nat.add_mod_right]

lemma get_spec (len : Nat) : After rb (rtRingbufferGet rb len).1 ((contents rb).drop len) ∧
    (rtRingbufferGet rb len).2 = ((contents rb).take len, ((contents rb).take len).length) := by
  have hle := h.le_size
  have hr := h.read_lt
  unfold rtRingbufferGet
  simp only [h.dataLen_eq]
  by_cases hz : k = 0
  · have hnil : contents rb = [] := eq_nil_of_length_eq_zero (h.length_contents.trans hz)
    rw [if_pos hz, hnil]
    refine ⟨⟨?_, by simp [hnil], rfl⟩, by simp⟩
    simpa [hz] using h
  rw [if_neg hz]
  have hmin : (if k < len then k else len) = min len k := by split <;> omega
  have htake : (contents rb).take len = window rb.bufferSize rb.bufferPtr rb.readIndex
      (min len k) := by
    rw [h.contents_eq, window, take_block]
    rfl
  have hdrop : (contents rb).drop len = (contents rb).drop (min len k) := by
    by_cases hk : len ≤ k
    · rw [min_eq_left hk]
    rw [min_eq_right (by omega), drop_of_length_le (by rw [h.length_contents]; omega),
      drop_of_length_le (by rw [h.length_contents])]
  rw [hmin, htake, length_window, hdrop]
  by_cases hlen : min len k < rb.bufferSize - rb.readIndex
  · rw [if_pos hlen, window_straight (by omega)]
    exact ⟨after_readStraight h _ (by omega) hlen, rfl⟩
  rw [if_neg hlen, window_wrapped hr (by omega) (by omega)]
  exact ⟨after_readWrapped h _ (by omega) (by omega), rfl⟩

lemma getchar_spec : (k = 0 ∧ rtRingbufferGetchar rb = (rb, [], 0)) ∨
    ∃ ch rest, contents rb = ch :: rest ∧ After rb (rtRingbufferGetchar rb).1 rest ∧
      (rtRingbufferGetchar rb).2 = ([ch], 1) := by
  have hr := h.read_lt
  unfold rtRingbufferGetchar
  rw [h.dataLen_eq]
  by_cases hz : k = 0
  · exact .inl ⟨hz, by rw [if_pos hz]⟩
  right
  rw [if_neg hz]
  have hcons : contents rb = rb.bufferPtr rb.readIndex :: (contents rb).drop 1 := by
    have htake : (contents rb).take 1 = [rb.bufferPtr rb.readIndex] := by
      rw [h.contents_eq, take_window (by omega), window_straight (by omega)]
      rfl
    calc contents rb = (contents rb).take 1 ++ (contents rb).drop 1 := (take_append_drop 1 _).symm
      _ = rb.bufferPtr rb.readIndex :: (contents rb).drop 1 := by rw [htake]; rfl
  refine ⟨_, _, hcons, ?_, ?_⟩
  · by_cases hend : rb.readIndex = rb.bufferSize - 1
    · rw [if_pos hend]
      have hafter := after_readWrapped h 1 (by omega) (by omega)
      rwa [show index15 (1 - (rb.bufferSize - rb.readIndex)) = 0 by
        rw [show 1 - (rb.bufferSize - rb.readIndex) = 0 by omega]; rfl] at hafter
    rw [if_neg hend]
    exact after_readStraight h 1 (by omega) (by omega)
  split <;> rfl

lemma putcharForce_spec (ch : UInt8) : After rb (rtRingbufferPutcharForce rb ch).1
      ((if k < rb.bufferSize then contents rb else (contents rb).drop 1) ++ [ch]) ∧
    (rtRingbufferPutcharForce rb ch).2 = 1 := by
  have hle := h.le_size
  have hr := h.read_lt
  have hiff := h.status_full_iff
  by_cases hfull : k = rb.bufferSize
  · -- the oldest byte is given up, and the new one takes its cell
    have hst : status rb = .full := hiff.mpr hfull
    have heq : rb.readIndex = rb.writeIndex := by
      have hw := h.write_lt
      rcases h.place with ⟨-, hp⟩ | ⟨-, hp, -⟩ <;> omega
    rw [if_neg (by omega)]
    unfold rtRingbufferPutcharForce
    simp only [hst]
    have hlt : ((contents rb).drop 1).length < rb.bufferSize := by
      rw [length_drop, h.length_contents]
      omega
    by_cases hend : rb.writeIndex = rb.bufferSize - 1
    · have hpush := (after_readWrapped h 1 (by omega) (by omega)).push hlt ch
      have hz : index15 (1 - (rb.bufferSize - rb.readIndex)) = 0 := by
        rw [show 1 - (rb.bufferSize - rb.readIndex) = 0 by omega]
        rfl
      simpa [stepWrite, storeByte, hend, hz] using hpush
    have hpush := (after_readStraight h 1 (by omega) (by omega)).push hlt ch
    simpa [stepWrite, storeByte, hend, heq] using hpush
  have hst : status rb ≠ .full := fun hc => hfull (hiff.mp hc)
  have heq : rtRingbufferPutcharForce rb ch = (stepWrite (storeByte rb ch), 1) := by
    unfold rtRingbufferPutcharForce stepWrite
    simp only
    split <;> rfl
  rw [heq, if_pos (by omega)]
  exact ⟨h.after.push (by rw [h.length_contents]; omega) ch, rfl⟩

end

/-! ## Refinement of a queue -/

inductive Op where
  | put (ptr : Nat → UInt8) (length : Nat)
  | get (length : Nat)
  | putchar (ch : UInt8)
  | getchar
  | putcharForce (ch : UInt8)

structure Answer where
  ret : Nat
  bytes : List UInt8
  deriving DecidableEq, Repr

def step (rb : Ringbuffer) : Op → Ringbuffer × Answer
  | .put ptr length => ((rtRingbufferPut rb ptr length).1, ⟨(rtRingbufferPut rb ptr length).2, []⟩)
  | .get length => ((rtRingbufferGet rb length).1,
      ⟨(rtRingbufferGet rb length).2.2, (rtRingbufferGet rb length).2.1⟩)
  | .putchar ch => ((rtRingbufferPutchar rb ch).1, ⟨(rtRingbufferPutchar rb ch).2, []⟩)
  | .getchar => ((rtRingbufferGetchar rb).1,
      ⟨(rtRingbufferGetchar rb).2.2, (rtRingbufferGetchar rb).2.1⟩)
  | .putcharForce ch =>
    ((rtRingbufferPutcharForce rb ch).1, ⟨(rtRingbufferPutcharForce rb ch).2, []⟩)

/-- The same call on a queue of at most `c` bytes. -/
def fifoStep (c : Nat) (q : List UInt8) : Op → List UInt8 × Answer
  | .put ptr length =>
    -- the longest prefix that fits
    let stored := (block ptr length).take (c - q.length)
    (q ++ stored, ⟨stored.length, []⟩)
  | .get length => (q.drop length, ⟨(q.take length).length, q.take length⟩)
  | .putchar ch => if q.length < c then (q ++ [ch], ⟨1, []⟩) else (q, ⟨0, []⟩)
  | .getchar =>
    match q with
    | [] => ([], ⟨0, []⟩)
    | ch :: q => (q, ⟨1, [ch]⟩)
  | .putcharForce ch => ((if q.length < c then q else q.drop 1) ++ [ch], ⟨1, []⟩)

/-- The buffer is in order, has the capacity `c` and holds the queue `q`. -/
structure Shows (c : Nat) (rb : Ringbuffer) (q : List UInt8) : Prop where
  holds : Holds rb q.length
  contents : contents rb = q
  size : rb.bufferSize = c

lemma After.shows {c : Nat} {rb rb' : Ringbuffer} {q : List UInt8} (h : After rb rb' q)
    (hsize : rb.bufferSize = c) : Shows c rb' q :=
  ⟨h.holds, h.contents, h.size.trans hsize⟩

lemma step_refines {c : Nat} {rb : Ringbuffer} {q : List UInt8} (h : Shows c rb q) (op : Op) :
    Shows c (step rb op).1 (fifoStep c q op).1 ∧ (step rb op).2 = (fifoStep c q op).2 := by
  obtain ⟨hh, rfl, rfl⟩ := h
  cases op with
  | put ptr length =>
    obtain ⟨hafter, hret⟩ := put_spec hh ptr length
    simp only [step, fifoStep, take_block, length_block, hret]
    rw [Nat.min_comm] at hafter
    exact ⟨hafter.shows rfl, by rw [Nat.min_comm]⟩
  | get length =>
    obtain ⟨hafter, hret⟩ := get_spec hh length
    simp only [step, fifoStep, hret]
    exact ⟨hafter.shows rfl, trivial⟩
  | putchar ch =>
    rcases putchar_spec hh ch with ⟨hlt, hafter, hret⟩ | ⟨hfull, heq⟩
    · simp only [step, fifoStep, if_pos hlt, hret]
      exact ⟨hafter.shows rfl, trivial⟩
    simp only [step, fifoStep, heq, if_neg (show ¬ (contents rb).length < rb.bufferSize by omega)]
    exact ⟨⟨hh, rfl, rfl⟩, trivial⟩
  | getchar =>
    rcases getchar_spec hh with ⟨hz, heq⟩ | ⟨ch, rest, hcons, hafter, hret⟩
    · have hnil : contents rb = [] := eq_nil_of_length_eq_zero hz
      simp only [step, fifoStep, heq, hnil]
      exact ⟨⟨by rwa [hnil] at hh, hnil, rfl⟩, trivial⟩
    simp only [step, fifoStep, hcons, hret]
    exact ⟨hafter.shows rfl, trivial⟩
  | putcharForce ch =>
    obtain ⟨hafter, hret⟩ := putcharForce_spec hh ch
    simp only [step, fifoStep, hret]
    exact ⟨hafter.shows rfl, trivial⟩

lemma init_shows (pool : Nat → UInt8) {size : Nat} (hmin : 4 ≤ size) (hmax : size ≤ 32767) :
    ∃ rb, rtRingbufferInit pool size = some rb ∧ Shows (rtAlignDown size alignSize) rb [] := by
  have hsize : 0 < rtAlignDown size alignSize ∧ rtAlignDown size alignSize < 2 ^ 15 := by
    unfold rtAlignDown alignSize
    omega
  refine ⟨_, if_pos (by omega), ⟨⟨hsize.2, hsize.1, hsize.1, Or.inl ⟨rfl, rfl⟩⟩, ?_, rfl⟩⟩
  rfl

/-- **The ring buffer is a bounded queue.** For every pool of 4 to 32767 bytes and every sequence of
calls, all calls answer as on a queue whose capacity is the pool size rounded down to a multiple of
four, the buffer holds the bytes of this queue, the two lengths add up to the capacity, and both
indices stay below it. -/
theorem ringbuffer_refines_fifo (pool : Nat → UInt8) (size : Nat) (hmin : 4 ≤ size)
    (hmax : size ≤ 32767) (ops : List Op) :
    ∃ rb, rtRingbufferInit pool size = some rb ∧
      (run step rb ops).2 = (run (fifoStep (rtAlignDown size alignSize)) [] ops).2 ∧
      contents (run step rb ops).1 = (run (fifoStep (rtAlignDown size alignSize)) [] ops).1 ∧
      dataLen (run step rb ops).1
        = (run (fifoStep (rtAlignDown size alignSize)) [] ops).1.length ∧
      dataLen (run step rb ops).1 + spaceLen (run step rb ops).1 = rtAlignDown size alignSize ∧
      (run step rb ops).1.readIndex < rtAlignDown size alignSize ∧
      (run step rb ops).1.writeIndex < rtAlignDown size alignSize := by
  obtain ⟨rb, hinit, hshows⟩ := init_shows pool hmin hmax
  have hstep : ∀ rb q op, Shows (rtAlignDown size alignSize) rb q → True →
      Shows (rtAlignDown size alignSize) (step rb op).1
        (fifoStep (rtAlignDown size alignSize) q op).1 ∧
      (step rb op).2 = (fifoStep (rtAlignDown size alignSize) q op).2 :=
    fun rb q op h _ => step_refines h op
  obtain ⟨hend, hans⟩ := run_refines hstep hshows (allowed_of_forall (fun _ _ => trivial) [] ops)
  have hh := hend.holds
  refine ⟨rb, hinit, hans, hend.contents, hh.dataLen_eq, ?_, ?_, ?_⟩
  · have hle := hh.le_size
    have hsize := hend.size
    rw [hh.spaceLen_eq, hh.dataLen_eq]
    omega
  · rw [← hend.size]
    exact hh.read_lt
  rw [← hend.size]
  exact hh.write_lt

theorem ringbuffer_refines_fifo_wrap : ∃ rb, rtRingbufferInit (fun _ => 0) 7 = some rb ∧
      contents (run step rb [.put (fun i => UInt8.ofNat i) 3, .get 2,
        .put (fun i => UInt8.ofNat (10 + i)) 9, .putcharForce 7]).1 = [10, 11, 12, 7] := by
  obtain ⟨rb, hinit, -, hcontents, -⟩ := ringbuffer_refines_fifo (fun _ => 0) 7 (by decide)
    (by decide) [.put (fun i => UInt8.ofNat i) 3, .get 2,
      .put (fun i => UInt8.ofNat (10 + i)) 9, .putcharForce 7]
  exact ⟨rb, hinit, hcontents.trans (by decide)⟩

end NbIot.Ringbuffers
