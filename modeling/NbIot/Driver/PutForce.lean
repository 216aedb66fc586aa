import NbIot.Driver.Ringbuffer

/-! # The forced block write of the ring buffer

`rt_ringbuffer_put_force` is to discard old data if a block does not fit. It replaces the length by
`buffer_size`, so it copies that many bytes from the start of the block, however long the block is,
and it flips both mirror bits, which leaves an empty buffer if they were equal.

The ranges of the source that the two copies read are part of the result (`reads`), each with its
offset and its length.
-/

namespace NbIot.Ringbuffers

open List

open SmallMem (rtAlignDown alignSize)

/-! ## The forced write -/

/-- The result of `rt_ringbuffer_put_force`: the buffer, the value returned, and the ranges of the
source that were read. -/
structure Forced where
  rb : Ringbuffer
  ret : Nat
  reads : List (Nat × Nat)

def rtRingbufferPutForce (rb : Ringbuffer) (ptr : Nat → UInt8) (length : Nat) : Forced :=
  let spaceLength := spaceLen rb
  let length := if spaceLength < length then rb.bufferSize else length
  let rest := rb.bufferSize - rb.writeIndex
  if length < rest then
    let rb := copyStraight rb ptr length
    let rb := if spaceLength < length then { rb with readIndex := rb.writeIndex } else rb
    ⟨rb, length, [(0, length)]⟩
  else
    let rb := copyWrapped rb ptr length
    let rb := if spaceLength < length then
        { rb with readMirror := !rb.readMirror, readIndex := rb.writeIndex }
      else rb
    ⟨rb, length, [(0, rest), (rest, length - rest)]⟩

inductive Reachable (size : Nat) : Ringbuffer → Prop
  | init {pool : Nat → UInt8} {rb : Ringbuffer} (h : rtRingbufferInit pool size = some rb) :
      Reachable size rb
  | step {rb : Ringbuffer} (h : Reachable size rb) (op : Op) : Reachable size (step rb op).1
  | putForce {rb : Ringbuffer} (h : Reachable size rb) (ptr : Nat → UInt8) (length : Nat) :
      Reachable size (rtRingbufferPutForce rb ptr length).rb

/-! ## What it is for -/

/-- The last `k` items of a list. -/
def lastN {α : Type} (k : Nat) (l : List α) : List α := l.drop (l.length - k)

/-- What the forced write owes: the newest bytes are kept, and nothing behind the block is read. -/
def KeepsNewest (rb : Ringbuffer) (ptr : Nat → UInt8) (n : Nat) : Prop :=
  contents (rtRingbufferPutForce rb ptr n).rb
      = lastN (min rb.bufferSize ((contents rb).length + n)) (contents rb ++ block ptr n) ∧
    ∀ range ∈ (rtRingbufferPutForce rb ptr n).reads, range.1 + range.2 ≤ n

/-! ## What it does -/

section

variable {rb : Ringbuffer} {k : Nat} {ptr : Nat → UInt8} {n : Nat}

lemma putForce_fits (h : Holds rb k) (ptr : Nat → UInt8) (hn : n ≤ rb.bufferSize - k) :
    After rb (rtRingbufferPutForce rb ptr n).rb (contents rb ++ block ptr n) ∧
      ∀ range ∈ (rtRingbufferPutForce rb ptr n).reads, range.1 + range.2 ≤ n := by
  have hle := h.le_size
  unfold rtRingbufferPutForce
  simp only [h.spaceLen_eq, if_neg (show ¬ rb.bufferSize - k < n by omega)]
  by_cases hlen : n < rb.bufferSize - rb.writeIndex
  · simp only [if_pos hlen]
    refine ⟨after_copyStraight h ptr (by omega) hlen, ?_⟩
    simp
  simp only [if_neg hlen]
  refine ⟨after_copyWrapped h ptr (by omega) (by omega), ?_⟩
  intro range hrange
  simp only [mem_cons, not_mem_nil, or_false] at hrange
  rcases hrange with rfl | rfl
  · omega
  omega

lemma putForce_overflows (h : Holds rb k) (ptr : Nat → UInt8) (hn : rb.bufferSize - k < n) :
    rtRingbufferPutForce rb ptr n = ⟨if rb.bufferSize - k < rb.bufferSize then
          { copyWrapped rb ptr rb.bufferSize with
            readMirror := !rb.readMirror, readIndex := rb.writeIndex }
        else copyWrapped rb ptr rb.bufferSize,
        rb.bufferSize, [(0, rb.bufferSize - rb.writeIndex),
          (rb.bufferSize - rb.writeIndex, rb.writeIndex)]⟩ := by
  have hw := h.write_lt
  have hs := h.size_lt
  have hrest : rb.bufferSize - (rb.bufferSize - rb.writeIndex) = rb.writeIndex := by omega
  have hidx : (copyWrapped rb ptr rb.bufferSize).writeIndex = rb.writeIndex := by
    show index15 (rb.bufferSize - (rb.bufferSize - rb.writeIndex)) = rb.writeIndex
    rw [hrest]
    exact index15_of_lt (by omega)
  unfold rtRingbufferPutForce
  simp only [h.spaceLen_eq, if_pos hn, hrest,
    if_neg (show ¬ rb.bufferSize < rb.bufferSize - rb.writeIndex by omega), hidx]
  rfl

lemma putForce_contents (h : Holds rb k) (ptr : Nat → UInt8) (hn : rb.bufferSize - k < n) :
    ∃ bytes, After rb (rtRingbufferPutForce rb ptr n).rb bytes ∧
      bytes = if rb.readIndex < rb.writeIndex then [] else block ptr rb.bufferSize := by
  have hw := h.write_lt
  have hr := h.read_lt
  have hs := h.size_lt
  have hidx : (copyWrapped rb ptr rb.bufferSize).writeIndex = rb.writeIndex := by
    show index15 (rb.bufferSize - (rb.bufferSize - rb.writeIndex)) = rb.writeIndex
    rw [show rb.bufferSize - (rb.bufferSize - rb.writeIndex) = rb.writeIndex by omega]
    exact index15_of_lt (by omega)
  have hlaid : Laid rb.bufferSize rb.bufferPtr (copyWrapped rb ptr rb.bufferSize).bufferPtr
      rb.writeIndex rb.bufferSize ptr := laid_wrapped hw (by omega) (le_rfl)
  rw [putForce_overflows h ptr hn]
  by_cases hk : k = 0
  · -- an empty buffer is filled by the start of the block
    have hplace : rb.readMirror = rb.writeMirror ∧ rb.writeIndex = rb.readIndex := by
      rcases h.place with ⟨hm, hp⟩ | ⟨-, hp, -⟩
      · exact ⟨hm, by omega⟩
      omega
    have hafter := after_copyWrapped h ptr (show k + rb.bufferSize ≤ rb.bufferSize by omega)
      (by omega)
    have hnil : contents rb = [] := eq_nil_of_length_eq_zero (h.length_contents.trans hk)
    refine ⟨_, ?_, (if_neg (by omega)).symm⟩
    simp only [hk, Nat.sub_zero, lt_irrefl]
    rwa [hnil] at hafter
  rw [if_pos (by omega)]
  rcases h.place with ⟨hm, hp⟩ | ⟨hm, hp, hle⟩
  · -- the mirror bits were equal, and still are
    refine ⟨[], ⟨⟨hs, hw, ?_, Or.inl ⟨?_, ?_⟩⟩, ?_, rfl⟩, (if_pos (by omega)).symm⟩
    · show (copyWrapped rb ptr rb.bufferSize).writeIndex < rb.bufferSize
      omega
    · show (!rb.readMirror) = !rb.writeMirror
      rw [hm]
    · exact hidx
    have hholds : Holds { copyWrapped rb ptr rb.bufferSize with
        readMirror := !rb.readMirror, readIndex := rb.writeIndex } 0 := by
      refine ⟨hs, hw, ?_, Or.inl ⟨?_, hidx⟩⟩
      · show (copyWrapped rb ptr rb.bufferSize).writeIndex < rb.bufferSize
        omega
      show (!rb.readMirror) = !rb.writeMirror
      rw [hm]
    exact eq_nil_of_length_eq_zero hholds.length_contents
  -- they were different: the buffer is full
  have hholds : Holds { copyWrapped rb ptr rb.bufferSize with
      readMirror := !rb.readMirror, readIndex := rb.writeIndex } rb.bufferSize := by
    refine ⟨hs, hw, ?_, Or.inr ⟨?_, ?_, le_rfl⟩⟩
    · show (copyWrapped rb ptr rb.bufferSize).writeIndex < rb.bufferSize
      omega
    · show (!rb.readMirror) = !!rb.writeMirror
      rw [hm]
    show (copyWrapped rb ptr rb.bufferSize).writeIndex + rb.bufferSize
      = rb.writeIndex + rb.bufferSize
    rw [hidx]
  refine ⟨_, ⟨by rwa [length_block], ?_, rfl⟩, (if_neg (by omega)).symm⟩
  rw [hholds.contents_eq]
  exact hlaid.window_new

lemma putForce_after (h : Holds rb k) (ptr : Nat → UInt8) (n : Nat) :
    ∃ bytes, After rb (rtRingbufferPutForce rb ptr n).rb bytes := by
  by_cases hn : n ≤ rb.bufferSize - k
  · exact ⟨_, (putForce_fits h ptr hn).1⟩
  obtain ⟨bytes, hafter, -⟩ := putForce_contents h ptr (show rb.bufferSize - k < n by omega)
  exact ⟨bytes, hafter⟩

lemma Reachable.shows {size : Nat} (hmin : 4 ≤ size) (hmax : size ≤ 32767)
    (hr : Reachable size rb) : ∃ q, Shows (rtAlignDown size alignSize) rb q := by
  induction hr with
  | init h =>
    obtain ⟨rb', hinit, hshows⟩ := init_shows _ hmin hmax
    rw [hinit, Option.some.injEq] at h
    exact ⟨[], h ▸ hshows⟩
  | step _ op ih =>
    obtain ⟨q, hq⟩ := ih
    exact ⟨_, (step_refines hq op).1⟩
  | putForce _ ptr length ih =>
    obtain ⟨q, hq⟩ := ih
    obtain ⟨bytes, hafter⟩ := putForce_after hq.holds ptr length
    exact ⟨bytes, hafter.shows hq.size⟩

/-! ## When the two are the same -/

/-- The condition under which the forced write keeps the newest bytes: the block fits; or it is at
least as long as the buffer, its first bytes are its last ones, and the write index is not ahead of
the read index in the same mirror. -/
def Fits (rb : Ringbuffer) (ptr : Nat → UInt8) (n : Nat) : Prop :=
  n ≤ spaceLen rb ∨ (rb.bufferSize ≤ n ∧ ¬ rb.readIndex < rb.writeIndex ∧
      ∀ i < rb.bufferSize, ptr i = ptr (n - rb.bufferSize + i))

lemma lastN_long {q : List UInt8} {c : Nat} (hc : c ≤ n) :
    lastN (min c (q.length + n)) (q ++ block ptr n) = block (fun i => ptr (n - c + i)) c := by
  rw [min_eq_left (by omega), lastN, length_append, length_block,
    show q.length + n - c = q.length + (n - c) by omega, drop_append, drop_block _ (by omega)]
  have hnil : q.drop (q.length + (n - c)) = [] := drop_of_length_le (by omega)
  rw [hnil, nil_append]
  congr 1
  · funext i
    congr 2
    omega
  omega

lemma keepsNewest_iff (h : Holds rb k) : KeepsNewest rb ptr n ↔ Fits rb ptr n := by
  have hle := h.le_size
  have hw := h.write_lt
  have hlen := h.length_contents
  rw [Fits, h.spaceLen_eq]
  by_cases hn : n ≤ rb.bufferSize - k
  · -- everything fits
    obtain ⟨hafter, hreads⟩ := putForce_fits h ptr hn
    refine ⟨fun _ => .inl hn, fun _ => ⟨?_, hreads⟩⟩
    rw [hafter.contents, min_eq_right (by omega), lastN, length_append, length_block,
      Nat.sub_self, drop_zero]
  obtain ⟨bytes, hafter, hbytes⟩ := putForce_contents h ptr
    (show rb.bufferSize - k < n by omega)
  have hreads : (∀ range ∈ (rtRingbufferPutForce rb ptr n).reads, range.1 + range.2 ≤ n)
      ↔ rb.bufferSize ≤ n := by
    rw [putForce_overflows h ptr (by omega)]
    simp only [forall_mem_cons, not_mem_nil, false_implies, implies_true, and_true]
    omega
  rw [KeepsNewest, hreads, hafter.contents, hbytes]
  constructor
  · rintro ⟨hcontents, hlong⟩
    rw [lastN_long hlong] at hcontents
    by_cases hlt : rb.readIndex < rb.writeIndex
    · -- the buffer was emptied
      rw [if_pos hlt] at hcontents
      have := congrArg List.length hcontents
      rw [length_block, length_nil] at this
      omega
    rw [if_neg hlt, block_eq_iff] at hcontents
    exact .inr ⟨hlong, hlt, hcontents⟩
  rintro (hfits | ⟨hlong, hlt, hsame⟩)
  · exact absurd hfits hn
  rw [lastN_long hlong, if_neg hlt]
  exact ⟨block_eq_iff.mpr hsame, hlong⟩

end

/-- **The forced block write** keeps the newest bytes, and reads nothing behind the block, exactly
if the block fits, or if it is at least as long as the buffer, begins as it ends, and the write
index is not ahead of the read index. -/
theorem putForce_keeps_newest_iff (size : Nat) (hmin : 4 ≤ size) (hmax : size ≤ 32767)
    (rb : Ringbuffer) (hr : Reachable size rb) (ptr : Nat → UInt8) (n : Nat) :
    KeepsNewest rb ptr n ↔ Fits rb ptr n := by
  obtain ⟨q, hq⟩ := hr.shows hmin hmax
  exact keepsNewest_iff hq.holds

def freshEight : Ringbuffer := ⟨fun _ => 0, false, 0, false, 0, 8⟩

lemma freshEight_reachable : Reachable 8 freshEight :=
  .init (show rtRingbufferInit (fun _ => 0) 8 = some freshEight from rfl)

/-- A block as long as the buffer, written over a full one. -/
theorem putForce_keeps_newest_iff_full : ∃ rb, Reachable 8 rb ∧
    contents rb = [0, 1, 2, 3, 4, 5, 6, 7] ∧
      contents (rtRingbufferPutForce rb (fun i => UInt8.ofNat (10 + i)) 8).rb =
        [10, 11, 12, 13, 14, 15, 16, 17] := by
  have hr : Reachable 8 (step freshEight (.put (fun i => UInt8.ofNat i) 8)).1 :=
    freshEight_reachable.step _
  refine ⟨_, hr, by decide, ?_⟩
  have h := (putForce_keeps_newest_iff 8 (by decide) (by decide) _ hr
    (fun i => UInt8.ofNat (10 + i)) 8).mpr (.inr ⟨by decide, by decide, by decide⟩)
  exact h.1.trans (by decide)

/-- Four bytes in a buffer of eight, and then five more: eight bytes of the source are read, and the
buffer is empty. -/
theorem putForce_empties_buffer : ∃ rb, Reachable 8 rb ∧ contents rb = [0, 1, 2, 3] ∧
      contents (rtRingbufferPutForce rb (fun i => UInt8.ofNat (10 + i)) 5).rb = [] ∧
      (0, 4) ∈ (rtRingbufferPutForce rb (fun i => UInt8.ofNat (10 + i)) 5).reads ∧
      (4, 4) ∈ (rtRingbufferPutForce rb (fun i => UInt8.ofNat (10 + i)) 5).reads ∧
      ¬ KeepsNewest rb (fun i => UInt8.ofNat (10 + i)) 5 := by
  refine ⟨(step freshEight (.put (fun i => UInt8.ofNat i) 4)).1, freshEight_reachable.step _,
    by decide, by decide, by decide, by decide, ?_⟩
  rintro ⟨hcontents, -⟩
  exact absurd hcontents (by decide)

end NbIot.Ringbuffers
