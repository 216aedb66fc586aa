import NbIot.Heap.Blocks

/-! # What the edits of `mem.c` do to the list of blocks

One lemma for each edit of the headers: setting a flag, splitting a block in two, merging a
block with its successor or its predecessor, and writing into a payload. Each lemma takes a heap
whose memory holds a list of blocks (`Seg`) to a heap whose memory holds the edited list.
-/

namespace NbIot.SmallMem

open Heap List

/-! ## Blocks that tile the arena -/

variable {h : Heap} {pre post : List Blk} {x : Blk} {s : Nat} {h1 h2 h3 : Heap} {q : Nat × Nat}
  {bs : List Blk}

/-- The headers of `bs` fill the arena of `h` from its first byte to `heap_end`. -/
structure Tiles (h : Heap) (bs : List Blk) : Prop where
  seg : Seg h.mem h.heapPtr 0 0 bs
  fills : total bs = h.heapEnd

structure Arena (h : Heap) : Prop where
  aligned : h.heapPtr % 4 = 0
  room : h.heapPtr + h.memSizeAligned + 24 < wordSize
  size : 12 ≤ h.memSizeAligned
  heapEnd : h.heapEnd = h.memSizeAligned + 12

section

variable (t : Tiles h (pre ++ x :: post))

include t

lemma Tiles.hdr :
    Hdr h.mem (h.heapPtr + total pre) x.used (total pre + x.size) (lastOff 0 0 pre) := by
  have hs := (seg_append.mp t.seg).2.1
  rwa [zero_add] at hs

lemma Tiles.next_eq : h.next (total pre) = total pre + x.size := t.hdr.next

lemma Tiles.prev_eq : h.prev (total pre) = lastOff 0 0 pre := t.hdr.prev

lemma Tiles.magic_eq : h.magic (total pre) = heapMagic := t.hdr.magic

lemma Tiles.used_eq : h.used (total pre) = if x.used then 1 else 0 := t.hdr.used

lemma Tiles.used_eq_zero : h.used (total pre) = 0 ↔ x.used = false := by
  rw [t.used_eq]
  cases x.used <;> simp

omit t in
lemma Tiles.used_eq_zero_of_freeAt {bs : List Blk} (t : Tiles h bs) {o : Nat}
    (ho : o ∈ freeAt 0 bs) : h.used o = 0 := by
  obtain ⟨pre, s, post, rfl, rfl⟩ := mem_freeAt.mp ho
  rw [zero_add]
  exact t.used_eq_zero.mpr rfl

lemma Tiles.size_le : 12 ≤ x.size ∧ x.size % 4 = 0 := t.seg.sizes x (by simp)

lemma Tiles.sum_eq : total pre + x.size + total post = h.heapEnd := by
  have ht := t.fills
  rw [total_append] at ht
  simp only [total] at ht
  omega

omit t in
lemma Tiles.pre_mod (t : Tiles h (pre ++ post)) : total pre % 4 = 0 :=
  total_mod_four fun y hy => t.seg.sizes y (by simp [hy])

lemma Tiles.shift : Tiles h ((pre ++ [x]) ++ post) := by
  simpa using t

/-! ## Cuts -/

omit t in
lemma mem_freeAt_cut {o : Nat} : o ∈ freeAt 0 (pre ++ x :: post) ↔
    o ∈ freeAt 0 pre ∨ x.used = false ∧ o = total pre ∨ o ∈ freeAt (total pre + x.size) post := by
  rw [freeAt_append, mem_append, zero_add, freeAt]
  cases x.used <;> simp

lemma Tiles.cut : Seg h.mem h.heapPtr 0 0 pre ∧
      Seg h.mem h.heapPtr (total pre) (total pre + x.size) post := by
  have hs := seg_append.mp t.seg
  rw [zero_add] at hs
  exact ⟨hs.1, hs.2.2.2.2⟩

omit t in
lemma Tiles.paste {mid : List Blk} (hend : total (pre ++ mid ++ post) = h.heapEnd)
    (hpre : Seg h.mem h.heapPtr 0 0 pre)
    (hmid : Seg h.mem h.heapPtr (lastOff 0 0 pre) (total pre) mid)
    (hpost : Seg h.mem h.heapPtr (lastOff (lastOff 0 0 pre) (total pre) mid)
      (total pre + total mid) post) : Tiles h (pre ++ mid ++ post) := by
  refine ⟨?_, hend⟩
  rw [append_assoc, seg_append, seg_append, zero_add]
  exact ⟨hpre, hmid, hpost⟩

lemma Tiles.write {m' : Mem} (hlo : h.mem.Agree m' h.heapPtr (h.heapPtr + total pre + 12))
    (hhi : h.mem.Agree m' (h.heapPtr + total pre + x.size) (h.heapPtr + h.heapEnd)) :
    Tiles { h with mem := m' } (pre ++ x :: post) := by
  have hsum := t.sum_eq
  have hsz := t.size_le
  refine ⟨?_, t.fills⟩
  refine seg_append.mpr ⟨?_, ?_, hsz.1, hsz.2, ?_⟩
  · exact t.cut.1.frame (hlo.mono (by omega) (by omega))
  · rw [zero_add]
    exact t.hdr.congr (hlo.mono (by omega) (by omega))
  rw [zero_add]
  exact t.cut.2.frame (hhi.mono (by omega) (by omega))

omit t in
lemma agree_setFlag (v : Nat) {ptr lo hi : Nat}
    (hd : hi ≤ h.heapPtr + ptr ∨ h.heapPtr + ptr + 4 ≤ lo) :
    h.mem.Agree ((h.setUsed ptr v).setMagic ptr heapMagic).mem lo hi := by
  simp only [Heap.setUsed, Heap.setMagic, Heap.write, add_zero]
  exact (Mem.agree_store _ _ _ _ _ _ (by omega)).trans (Mem.agree_store _ _ _ _ _ _ (by omega))

lemma Tiles.setFlag (u : Bool) :
    Tiles ((h.setUsed (total pre) (if u then 1 else 0)).setMagic (total pre) heapMagic)
      (pre ++ ⟨x.size, u⟩ :: post) := by
  have hsz := t.size_le
  have hh := t.hdr
  have hag lo hi := @agree_setFlag h (if u then 1 else 0) (total pre) lo hi
  have hnew : Hdr ((h.mem.store (h.heapPtr + total pre + 2) 2 (if u then 1 else 0)).store
      (h.heapPtr + total pre) 2 heapMagic) (h.heapPtr + total pre) u (total pre + x.size)
      (lastOff 0 0 pre) := by
    refine ⟨?_, ?_, ?_, ?_⟩
    · rw [Mem.load_store]
      rfl
    · rw [Mem.load_store_of_disjoint _ _ (by omega), Mem.load_store]
      cases u <;> rfl
    · exact (hag _ _ (by omega)).load le_rfl le_rfl hh.next
    exact (hag _ _ (by omega)).load le_rfl le_rfl hh.prev
  refine ⟨seg_append.mpr ⟨t.cut.1.frame (hag _ _ (by omega)), ?_, hsz.1, hsz.2, ?_⟩, ?_⟩
  · rwa [zero_add]
  · rw [zero_add]
    exact t.cut.2.frame (hag _ _ (by omega))
  have := t.fills
  rw [total_append] at this ⊢
  exact this

section

variable {ptr ptr2 : Nat} {lo hi : Nat}

omit t in
lemma agree_insertHeader (hd : hi ≤ h.heapPtr + ptr + 4 ∨ h.heapPtr + ptr + 8 ≤ lo)
    (hd2 : hi ≤ h.heapPtr + ptr2 ∨ h.heapPtr + ptr2 + 12 ≤ lo) :
    h.mem.Agree (insertHeader h ptr ptr2).mem lo hi := by
  intro y h1 h2
  simp only [insertHeader, Heap.setMagic, Heap.setUsed, Heap.setNext, Heap.setPrev, Heap.write,
    add_zero, Mem.store]
  rw [if_neg (by omega), if_neg (by omega), if_neg (by omega), if_neg (by omega), if_neg (by omega)]

omit t in
lemma insertHeader_next (hlt : ptr2 < wordSize) : (insertHeader h ptr ptr2).next ptr = ptr2 := by
  simp only [insertHeader, Heap.setMagic, Heap.setUsed, Heap.setNext, Heap.setPrev, Heap.next,
    Heap.write, add_zero]
  rw [Mem.load_store]
  exact Nat.mod_eq_of_lt hlt

omit t in
lemma insertHeader_hdr (h12 : ptr + 12 ≤ ptr2) (hlt : ptr2 < wordSize) :
    Hdr (insertHeader h ptr ptr2).mem (h.heapPtr + ptr2) false (h.next ptr) ptr := by
  have hn : h.next ptr < 256 ^ 4 := Mem.load_lt _ _ _
  have hp : ptr < 256 ^ 4 := by unfold wordSize at hlt; omega
  simp only [insertHeader, Heap.setMagic, Heap.setUsed, Heap.setNext, Heap.setPrev, Heap.next,
    Heap.write, add_zero]
    at hn ⊢
  refine ⟨?_, ?_, ?_, ?_⟩
  · rw [Mem.load_store_of_disjoint _ _ (by omega), Mem.load_store_of_disjoint _ _ (by omega),
      Mem.load_store_of_disjoint _ _ (by omega), Mem.load_store_of_disjoint _ _ (by omega),
      Mem.load_store]
    rfl
  · rw [Mem.load_store_of_disjoint _ _ (by omega), Mem.load_store_of_disjoint _ _ (by omega),
      Mem.load_store_of_disjoint _ _ (by omega), Mem.load_store]
    rfl
  · rw [Mem.load_store_of_disjoint _ _ (by omega), Mem.load_store_of_disjoint _ _ (by omega),
      Mem.load_store, Mem.load_store_of_disjoint _ _ (by omega),
      Mem.load_store_of_disjoint _ _ (by omega)]
    exact Nat.mod_eq_of_lt hn
  rw [Mem.load_store_of_disjoint _ _ (by omega), Mem.load_store]
  exact Nat.mod_eq_of_lt hp

omit t in
lemma agree_splitBlock (h12 : ptr + 12 ≤ ptr2) (hlt : ptr2 < wordSize)
    (hd : hi ≤ h.heapPtr + ptr ∨ h.heapPtr + ptr + 12 ≤ lo)
    (hd2 : hi ≤ h.heapPtr + ptr2 ∨ h.heapPtr + ptr2 + 12 ≤ lo)
    (hd3 : hi ≤ h.heapPtr + h.next ptr ∨ h.heapPtr + h.next ptr + 12 ≤ lo) :
    h.mem.Agree (splitBlock h ptr ptr2).mem lo hi := by
  have hnext : (insertHeader h ptr ptr2).next ptr2 = h.next ptr := (insertHeader_hdr h12 hlt).next
  have hptr : (insertHeader h ptr ptr2).heapPtr = h.heapPtr := rfl
  have hins : h.mem.Agree (insertHeader h ptr ptr2).mem lo hi := agree_insertHeader (by omega) hd2
  rw [splitBlock, hnext]
  split
  · exact hins.trans (Mem.agree_store _ _ _ _ _ _ (by omega))
  exact hins

end

lemma Tiles.insertHeader_spec (h12 : 12 ≤ s) (hs : s + 12 ≤ x.size) (hlt : total pre + s < wordSize)
    {m : Mem} (hm : m = (insertHeader h (total pre) (total pre + s)).mem) :
    Seg m h.heapPtr 0 0 pre ∧
      Hdr m (h.heapPtr + total pre) x.used (total pre + s) (lastOff 0 0 pre) ∧
      Hdr m (h.heapPtr + (total pre + s)) false (total pre + x.size) (total pre) ∧
      h.mem.Agree m (h.heapPtr + (total pre + x.size)) (h.heapPtr + h.heapEnd) := by
  have hlink : (insertHeader h (total pre) (total pre + s)).next (total pre) = total pre + s :=
    insertHeader_next hlt
  have hnew : Hdr (insertHeader h (total pre) (total pre + s)).mem
      (h.heapPtr + (total pre + s)) false (h.next (total pre)) (total pre) :=
    insertHeader_hdr (by omega) hlt
  have hag : ∀ lo hi, hi ≤ h.heapPtr + total pre + 4 ∨ h.heapPtr + total pre + 8 ≤ lo →
      hi ≤ h.heapPtr + (total pre + s) ∨ h.heapPtr + (total pre + s) + 12 ≤ lo →
      h.mem.Agree m lo hi := by
    intro lo hi h1 h2
    rw [hm]
    exact agree_insertHeader h1 h2
  rw [t.next_eq, ← hm] at hnew
  rw [Heap.next, ← hm] at hlink
  exact ⟨t.cut.1.frame (hag _ _ (by omega) (by omega)),
    t.hdr.renext (hag _ _ (by omega) (by omega)) (hag _ _ (by omega) (by omega)) hlink, hnew,
    hag _ _ (by omega) (by omega)⟩

lemma Tiles.split (ha : Arena h) (h12 : 12 ≤ s) (hs : s + 12 ≤ x.size) (h4 : s % 4 = 0) :
    Tiles (splitBlock h (total pre) (total pre + s))
      (pre ++ [⟨s, x.used⟩, ⟨x.size - s, false⟩] ++ post) := by
  have hsum := t.sum_eq
  have hsz := t.size_le
  have hroom := ha.room
  have hend := ha.heapEnd
  have hlt : total pre + s < wordSize := by omega
  have hrest : 12 ≤ x.size - s := by omega
  have hmod : (x.size - s) % 4 = 0 := by omega
  have hoff : total pre + s + (x.size - s) = total pre + x.size := by omega
  have hfill : total (pre ++ [⟨s, x.used⟩, ⟨x.size - s, false⟩] ++ post) = h.heapEnd := by
    rw [total_append, total_append]
    simp only [total]
    omega
  obtain ⟨m, hm⟩ : ∃ m, m = (insertHeader h (total pre) (total pre + s)).mem := ⟨_, rfl⟩
  obtain ⟨hpre, hfirst, hnew, hag⟩ := t.insertHeader_spec h12 hs hlt hm
  have hg : insertHeader h (total pre) (total pre + s) = { h with mem := m } := by
    rw [hm]; rfl
  have hgn : ({ h with mem := m } : Heap).next (total pre + s) = total pre + x.size := hnew.next
  have hadd : add32 h.memSizeAligned sizeofMem = h.heapEnd := by
    rw [sizeofMem, add32_of_lt (by omega), hend]
  rw [← hoff] at hnew
  simp only [splitBlock, hg, hgn]
  by_cases hpost : post = []
  · -- the successor is `heap_end`
    subst hpost
    simp only [total] at hsum
    rw [if_neg (by omega)]
    exact Tiles.paste hfill hpre ⟨hfirst, h12, h4, hnew, hrest, hmod, trivial⟩ trivial
  -- the successor is a block and gets its back link
  have hpos : 12 ≤ total post := by
    obtain ⟨y, ys, rfl⟩ := exists_cons_of_ne_nil hpost
    have := t.seg.sizes y (by simp)
    simp only [total]
    omega
  rw [if_pos (by omega)]
  have hag' : ∀ lo hi, hi ≤ h.heapPtr + (total pre + x.size) + 8 ∨
      h.heapPtr + (total pre + x.size) + 8 + 4 ≤ lo →
      m.Agree (m.store (h.heapPtr + (total pre + x.size) + 8) 4 (total pre + s)) lo hi :=
    fun lo hi => Mem.agree_store _ _ _ _ _ _
  have hback : (m.store (h.heapPtr + (total pre + x.size) + 8) 4 (total pre + s)).load
      (h.heapPtr + (total pre + x.size) + 8) 4 = total pre + s := by
    rw [Mem.load_store]
    exact Nat.mod_eq_of_lt hlt
  refine Tiles.paste hfill (hpre.frame (hag' _ _ (by omega)))
    ⟨hfirst.congr (hag' _ _ (by omega)), h12, h4, hnew.congr (hag' _ _ (by omega)), hrest,
      hmod, trivial⟩ ?_
  simp only [total]
  rw [show total pre + (s + (x.size - s + 0)) = total pre + x.size by omega]
  refine t.cut.2.reprev ?_ ?_ fun _ => hback
  · exact (hag.mono (by omega) (by omega)).trans (hag' _ _ (by omega))
  exact (hag.mono (by omega) (by omega)).trans (hag' _ _ (by omega))

end

/-! ## Joining two blocks -/

lemma total_join (pre post : List Blk) (x y : Blk) (u : Bool) :
    total (pre ++ ⟨x.size + y.size, u⟩ :: post) = total (pre ++ x :: y :: post) := by
  rw [total_append, total_append]
  simp only [total]
  omega

/-- **Merging a block with its successor.** The back link of the successor's successor is
written even when that is the header at `heap_end`, which lies behind the arena. -/
theorem Tiles.join {y : Blk} (t : Tiles h (pre ++ x :: y :: post)) (ha : Arena h) :
    Tiles (joinBlocks h (total pre) (total pre + x.size))
      (pre ++ ⟨x.size + y.size, x.used⟩ :: post) ∧
    ∀ lo hi, hi ≤ h.heapPtr + total pre + 4 ∨ h.heapPtr + total pre + 8 ≤ lo →
      hi ≤ h.heapPtr + (total pre + x.size + y.size) + 8 ∨
        h.heapPtr + (total pre + x.size + y.size) + 12 ≤ lo →
      h.mem.Agree (joinBlocks h (total pre) (total pre + x.size)).mem lo hi := by
  have hsum := t.shift.sum_eq
  have hx := t.size_le
  have hy := t.shift.size_le
  have hn := t.shift.next_eq
  have hh := t.hdr
  have hpost := t.shift.cut.2
  rw [total_concat] at hsum hn hpost
  have hroom := ha.room
  have hend := ha.heapEnd
  have hn' : (h.setNext (total pre) (total pre + x.size + y.size)).next (total pre + x.size) =
      total pre + x.size + y.size := by
    simp only [Heap.next, Heap.setNext, Heap.write] at hn ⊢
    rw [Mem.load_store_of_disjoint _ _ (by omega)]
    exact hn
  simp only [joinBlocks, hn, hn']
  simp only [Heap.setNext, Heap.setPrev, Heap.write]
  -- the two stores, kept abstract: what they leave alone and what they write
  obtain ⟨m, hm⟩ : ∃ m,
      (h.mem.store (h.heapPtr + total pre + 4) 4 (total pre + x.size + y.size)).store
        (h.heapPtr + (total pre + x.size + y.size) + 8) 4 (total pre) = m := ⟨_, rfl⟩
  have hlt : total pre + x.size + y.size < 256 ^ 4 := by unfold wordSize at hroom; omega
  have hag : ∀ lo hi, hi ≤ h.heapPtr + total pre + 4 ∨ h.heapPtr + total pre + 8 ≤ lo →
      hi ≤ h.heapPtr + (total pre + x.size + y.size) + 8 ∨
        h.heapPtr + (total pre + x.size + y.size) + 12 ≤ lo → h.mem.Agree m lo hi := by
    intro lo hi h1 h2
    rw [← hm]
    exact (Mem.agree_store _ _ _ _ _ _ h1).trans (Mem.agree_store _ _ _ _ _ _ h2)
  have hnext : m.load (h.heapPtr + total pre + 4) 4 = total pre + x.size + y.size := by
    rw [← hm, Mem.load_store_of_disjoint _ _ (by omega), Mem.load_store]
    exact Nat.mod_eq_of_lt hlt
  have hback : m.load (h.heapPtr + (total pre + x.size + y.size) + 8) 4 = total pre := by
    rw [← hm, Mem.load_store]
    exact Nat.mod_eq_of_lt (by omega)
  rw [hm]
  have h12 : 12 ≤ x.size + y.size := by omega
  have h4 : (x.size + y.size) % 4 = 0 := by omega
  refine ⟨⟨seg_append.mpr ⟨t.cut.1.frame (hag _ _ (by omega) (by omega)), ?_, h12, h4, ?_⟩, ?_⟩,
    hag⟩
  · rw [zero_add]
    exact hh.renext (hag _ _ (by omega) (by omega)) (hag _ _ (by omega) (by omega))
      (by rw [hnext, add_assoc])
  · rw [zero_add]
    rw [← add_assoc]
    exact hpost.reprev (hag _ _ (by omega) (by omega)) (hag _ _ (by omega) (by omega))
      fun _ => hback
  rw [total_join]
  exact t.fills

/-! ## What is left alone -/

structure SameArena (h h' : Heap) : Prop where
  heapPtr : h'.heapPtr = h.heapPtr
  heapEnd : h'.heapEnd = h.heapEnd
  memSizeAligned : h'.memSizeAligned = h.memSizeAligned

lemma SameArena.trans (a : SameArena h1 h2) (b : SameArena h2 h3) :
    SameArena h1 h3 :=
  ⟨b.1.trans a.1, b.2.trans a.2, b.3.trans a.3⟩

lemma SameArena.arena {h' : Heap} (a : SameArena h h') (ha : Arena h) : Arena h' where
  aligned := by rw [a.heapPtr]; exact ha.aligned
  room := by rw [a.heapPtr, a.memSizeAligned]; exact ha.room
  size := by rw [a.memSizeAligned]; exact ha.size
  heapEnd := by rw [a.heapEnd, a.memSizeAligned]; exact ha.heapEnd

/-- `lfree` is a free block or `heap_end`. -/
def LfreeOk (h : Heap) (bs : List Blk) : Prop :=
  h.lfree = h.heapEnd ∨ h.lfree ∈ freeAt 0 bs

/-- No free block of `bs`, the one at `m` excepted, lies below the offset `l`. -/
def LowestBut (l m : Nat) (bs : List Blk) : Prop := ∀ o ∈ freeAt 0 bs, o ≠ m → l ≤ o

/-- No free block of `bs` lies below the offset `l`. -/
def LowestAt (l : Nat) (bs : List Blk) : Prop := ∀ o ∈ freeAt 0 bs, l ≤ o

/-- The payloads of the used blocks of `bs` are not written to. -/
def Kept (h h' : Heap) (bs : List Blk) : Prop :=
  ∀ q ∈ usedAt 0 bs, h.mem.Agree h'.mem (h.heapPtr + q.1 + 12) (h.heapPtr + q.1 + q.2)

lemma Kept.trans {bs bs' : List Blk} (k : Kept h1 h2 bs) (k' : Kept h2 h3 bs')
    (hp : h2.heapPtr = h1.heapPtr) (hsub : ∀ q ∈ usedAt 0 bs, q ∈ usedAt 0 bs') : Kept h1 h3 bs :=
  fun q hq => (k q hq).trans (hp ▸ k' q (hsub q hq))

lemma usedAt_le {o : Nat} (hq : q ∈ usedAt o bs) :
    o ≤ q.1 ∧ q.1 + q.2 ≤ o + total bs := by
  obtain ⟨pre, post, rfl, ho⟩ := mem_usedAt.mp hq
  simp only [total_append, total]
  omega

lemma usedAt_apart (hq : q ∈ usedAt 0 (pre ++ x :: post)) :
    q.1 + q.2 ≤ total pre ∨ q = (total pre, x.size) ∧ x.used = true ∨ total pre + x.size ≤ q.1 := by
  rw [usedAt_append, mem_append, zero_add, usedAt] at hq
  rcases hq with hq | hq
  · exact .inl (by simpa using (usedAt_le hq).2)
  split at hq
  · rcases mem_cons.mp hq with rfl | hq
    · exact .inr (.inl ⟨rfl, ‹_›⟩)
    exact .inr (.inr (usedAt_le hq).1)
  exact .inr (.inr (usedAt_le hq).1)

/-! ## Free blocks -/

structure Rearranged (h h' : Heap) (bs bs' : List Blk) : Prop where
  tiles : Tiles h' bs'
  lfree : LfreeOk h' bs'
  same : SameArena h h'
  usedMem : h'.usedMem = h.usedMem
  usedAt_eq : usedAt 0 bs' = usedAt 0 bs
  kept : Kept h h' bs

lemma Rearranged.refl (t : Tiles h bs) (hl : LfreeOk h bs) : Rearranged h h bs bs :=
  ⟨t, hl, ⟨rfl, rfl, rfl⟩, rfl, rfl, fun _ _ _ _ _ => rfl⟩

lemma Rearranged.trans {bs1 bs2 bs3 : List Blk} (r : Rearranged h1 h2 bs1 bs2)
    (r' : Rearranged h2 h3 bs2 bs3) : Rearranged h1 h3 bs1 bs3 :=
  ⟨r'.tiles, r'.lfree, r.same.trans r'.same, r'.usedMem.trans r.usedMem,
    r'.usedAt_eq.trans r.usedAt_eq, r.kept.trans r'.kept r.same.heapPtr fun _ hq => by
      rwa [r.usedAt_eq]⟩

/-! ## `plug_holes` -/

lemma mem_freeAt_middle (pre post : List Blk) (s : Nat) :
    total pre ∈ freeAt 0 (pre ++ ⟨s, false⟩ :: post) :=
  mem_freeAt_cut.mpr (.inr (.inl ⟨rfl, rfl⟩))

lemma mem_freeAt_merge {s' o : Nat} : o ∈ freeAt 0 (pre ++ ⟨s, false⟩ :: ⟨s', false⟩ :: post) ↔
      o ∈ freeAt 0 (pre ++ ⟨s + s', false⟩ :: post) ∨ o = total pre + s := by
  simp only [mem_freeAt_cut, freeAt, add_assoc, Bool.false_eq_true, if_false, mem_cons]
  tauto

lemma Tiles.merge {s' : Nat} (t : Tiles h (pre ++ ⟨s, false⟩ :: ⟨s', false⟩ :: post))
    (ha : Arena h) (hl : LfreeOk h (pre ++ ⟨s, false⟩ :: ⟨s', false⟩ :: post)) :
    Rearranged h
      (joinBlocks (if h.lfree = total pre + s then { h with lfree := total pre } else h)
        (total pre) (total pre + s))
      (pre ++ ⟨s, false⟩ :: ⟨s', false⟩ :: post) (pre ++ ⟨s + s', false⟩ :: post) := by
  have hused : usedAt 0 (pre ++ ⟨s + s', false⟩ :: post) =
      usedAt 0 (pre ++ ⟨s, false⟩ :: ⟨s', false⟩ :: post) := by
    simp [usedAt_append, usedAt, add_assoc]
  -- the two headers that are written to are not inside a payload
  have hkept : ∀ m : Mem, (∀ lo hi, hi ≤ h.heapPtr + total pre + 4 ∨
      h.heapPtr + total pre + 8 ≤ lo → hi ≤ h.heapPtr + (total pre + s + s') + 8 ∨
      h.heapPtr + (total pre + s + s') + 12 ≤ lo → h.mem.Agree m lo hi) →
      Kept h { h with mem := m } (pre ++ ⟨s, false⟩ :: ⟨s', false⟩ :: post) := by
    intro m hm q hq
    rw [← hused] at hq
    rcases usedAt_apart hq with hq | ⟨-, hq⟩ | hq
    · exact hm _ _ (by omega) (by omega)
    · simp at hq
    simp only at hq
    exact hm _ _ (by omega) (by omega)
  by_cases he : h.lfree = total pre + s
  · rw [if_pos he]
    have t' : Tiles { h with lfree := total pre } (pre ++ ⟨s, false⟩ :: ⟨s', false⟩ :: post) :=
      ⟨t.seg, t.fills⟩
    have hs : SameArena h { h with lfree := total pre } := ⟨rfl, rfl, rfl⟩
    obtain ⟨t'', hag⟩ := t'.join (hs.arena ha)
    exact ⟨t'', Or.inr (mem_freeAt_middle _ _ _), ⟨rfl, rfl, rfl⟩, rfl, hused, hkept _ hag⟩
  rw [if_neg he]
  obtain ⟨t', hag⟩ := t.join ha
  exact ⟨t', hl.imp id fun hl => (mem_freeAt_merge.mp hl).resolve_right he,
    ⟨rfl, rfl, rfl⟩, rfl, hused, hkept _ hag⟩

lemma joinBlocks_lfree (a b : Nat) :
    (joinBlocks (if h.lfree = b then { h with lfree := a } else h) a b).lfree =
      if h.lfree = b then a else h.lfree := by
  split <;> rfl

lemma coalesced_append {xs ys : List Blk} : Coalesced (xs ++ ys) ↔ Coalesced xs ∧ Coalesced ys ∧
      ∀ a ∈ xs.getLast?, ∀ b ∈ ys.head?, a.used = true ∨ b.used = true :=
  isChain_append

lemma Coalesced.resize {s u} (hc : Coalesced (⟨s, u⟩ :: post)) (s' : Nat) :
    Coalesced (⟨s', u⟩ :: post) := by
  cases post with
  | nil => exact isChain_singleton _
  | cons z post => exact isChain_cons_cons.mpr (isChain_cons_cons.mp hc)

lemma coalesced_used {pre post : List Blk} (hpre : Coalesced pre) (hpost : Coalesced post)
    (s : Nat) : Coalesced (pre ++ ⟨s, true⟩ :: post) := by
  refine coalesced_append.mpr ⟨hpre, ?_, ?_⟩
  · cases post with
    | nil => exact isChain_singleton _
    | cons z post => exact isChain_cons_cons.mpr ⟨.inl rfl, hpost⟩
  intro a _ b hb
  rw [head?_cons, Option.mem_some_iff] at hb
  exact .inr (hb ▸ rfl)

lemma plugForward_spec (t : Tiles h (pre ++ ⟨s, false⟩ :: post)) (ha : Arena h)
    (hc : Coalesced post) (hl : LfreeOk h (pre ++ ⟨s, false⟩ :: post)) :
    ∃ s' post', Coalesced (⟨s', false⟩ :: post') ∧
      Rearranged h (plugForward h (total pre)) (pre ++ ⟨s, false⟩ :: post)
        (pre ++ ⟨s', false⟩ :: post') ∧
      (LowestBut h.lfree (total pre) (pre ++ ⟨s, false⟩ :: post) →
        LowestBut (plugForward h (total pre)).lfree (total pre) (pre ++ ⟨s', false⟩ :: post') ∧
          ((plugForward h (total pre)).lfree ≤ total pre ↔
            h.lfree ≤ total pre ∨ h.lfree = total pre + s ∧ h.lfree ≠ h.heapEnd)) := by
  have hn : h.next (total pre) = total pre + s := t.next_eq
  have hsum : total pre + s + total post = h.heapEnd := t.sum_eq
  have hsz : 12 ≤ s := t.size_le.1
  simp only [plugForward, hn]
  cases post with
  | nil =>
    simp only [total] at hsum
    rw [if_neg fun hcond => hcond.2.2 (by omega)]
    refine ⟨s, [], isChain_singleton _, Rearranged.refl t hl, fun hlow => ⟨hlow, ?_⟩⟩
    omega
  | cons y post =>
    have hu := t.shift.used_eq_zero
    have hy := t.shift.size_le.1
    rw [total_concat] at hu
    simp only [total] at hsum
    by_cases hyu : y.used = true
    · have hcond : ¬(total pre ≠ total pre + s ∧ h.used (total pre + s) = 0 ∧
          total pre + s ≠ h.heapEnd) := by
        rw [hu, hyu]
        simp
      rw [if_neg hcond]
      refine ⟨s, y :: post, isChain_cons_cons.mpr ⟨.inr hyu, hc⟩, Rearranged.refl t hl,
        fun hlow => ⟨hlow, Or.inl, fun hor => hor.elim id fun hnext => ?_⟩⟩
      -- `lfree` is free, so it is not the successor
      rcases hl with hl | hl
      · exact absurd hl hnext.2
      have hzero := t.used_eq_zero_of_freeAt hl
      rw [hnext.1, hu, hyu] at hzero
      simp at hzero
    have hyf : y = ⟨y.size, false⟩ := by
      have : y.used = false := by simpa using hyu
      rw [← this]
    rw [if_pos ⟨by omega, hu.mpr (by simpa using hyu), by omega⟩]
    rw [hyf] at t hl hc ⊢
    refine ⟨s + y.size, post, ?_, t.merge ha hl, fun hlow => ?_⟩
    · exact hc.resize (s + y.size)
    rw [joinBlocks_lfree]
    refine ⟨fun o ho hne => ?_, ?_⟩
    · have := hlow o (mem_freeAt_merge.mpr (.inl ho)) hne
      split <;> omega
    split <;> omega

lemma LowestBut.lowestAt_iff {l : Nat}
    (hlow : LowestBut l (total pre) (pre ++ ⟨s, false⟩ :: post)) :
    LowestAt l (pre ++ ⟨s, false⟩ :: post) ↔ l ≤ total pre := by
  refine ⟨fun hall => hall _ (mem_freeAt_middle pre post s), fun hle o ho => ?_⟩
  by_cases hne : o = total pre
  · rw [hne]
    exact hle
  exact hlow o ho hne

lemma plugBackward_spec (t : Tiles h (pre ++ ⟨s, false⟩ :: post)) (ha : Arena h)
    (hpre : Coalesced pre) (hc : Coalesced (⟨s, false⟩ :: post))
    (hl : LfreeOk h (pre ++ ⟨s, false⟩ :: post)) :
    ∃ bs', Coalesced bs' ∧
      Rearranged h (plugBackward h (total pre)) (pre ++ ⟨s, false⟩ :: post) bs' ∧
      (LowestBut h.lfree (total pre) (pre ++ ⟨s, false⟩ :: post) →
        (LowestAt (plugBackward h (total pre)).lfree bs' ↔ h.lfree ≤ total pre)) := by
  have hp : h.prev (total pre) = lastOff 0 0 pre := t.prev_eq
  simp only [plugBackward, hp]
  rcases eq_nil_or_concat pre with rfl | ⟨pre, w, rfl⟩
  · -- the first block points back to itself
    exact ⟨_, hc, Rearranged.refl t hl, LowestBut.lowestAt_iff⟩
  rw [concat_eq_append] at t hl hpre ⊢
  have t' : Tiles h (pre ++ w :: (⟨s, false⟩ :: post)) := by simpa using t
  have hu := t'.used_eq_zero
  have hw := t'.size_le.1
  rw [lastOff_concat, zero_add, total_concat]
  by_cases hwu : w.used = true
  · have hcond : ¬(total pre ≠ total pre + w.size ∧ h.used (total pre) = 0) := by
      rw [hu, hwu]
      simp
    rw [if_neg hcond]
    refine ⟨_, coalesced_append.mpr ⟨hpre, hc, ?_⟩, Rearranged.refl t hl, fun hlow => ?_⟩
    · intro a ha' b _
      rw [getLast?_concat, Option.mem_some_iff] at ha'
      exact .inl (ha' ▸ hwu)
    rw [← total_concat] at hlow ⊢
    exact hlow.lowestAt_iff
  have hwf : w = ⟨w.size, false⟩ := by
    have : w.used = false := by simpa using hwu
    rw [← this]
  rw [if_pos ⟨by omega, hu.mpr (by simpa using hwu)⟩]
  rw [hwf] at hpre
  rw [hwf, append_assoc] at t hl ⊢
  refine ⟨_, ?_, t.merge ha hl, fun hlow => ?_⟩
  · obtain ⟨hpre, -, hlink⟩ := coalesced_append.mp hpre
    refine coalesced_append.mpr ⟨hpre, hc.resize _, fun a ha' b hb => ?_⟩
    exact .inl ((hlink a ha' _ rfl).resolve_right (by simp))
  have hne : total pre ≠ total pre + w.size := by omega
  have hle : h.lfree ≤ total pre := hlow _ (mem_freeAt_middle pre _ w.size) hne
  show LowestAt (joinBlocks (if h.lfree = total pre + w.size then _ else h) _ _).lfree _ ↔
    h.lfree ≤ total pre + w.size
  rw [joinBlocks_lfree, if_neg (by omega)]
  refine ⟨fun _ => by omega, fun _ o ho => ?_⟩
  by_cases hne : o = total pre + w.size
  · omega
  exact hlow o (mem_freeAt_merge.mpr (.inl ho)) hne

/-- **`plug_holes`.** On a free block whose neighbours are the only ones it may have to be merged
with, it returns with no two free neighbours left; the used blocks are not touched. If no other
free block was below `lfree`, none is afterwards exactly when the block itself was not, or when
it swallowed the block `lfree` pointed to. -/
theorem plugHoles_spec (t : Tiles h (pre ++ ⟨s, false⟩ :: post)) (ha : Arena h)
    (hpre : Coalesced pre) (hpost : Coalesced post) (hl : LfreeOk h (pre ++ ⟨s, false⟩ :: post)) :
    ∃ h' bs', plugHoles h (total pre) = some h' ∧ Coalesced bs' ∧
      Rearranged h h' (pre ++ ⟨s, false⟩ :: post) bs' ∧
      (LowestBut h.lfree (total pre) (pre ++ ⟨s, false⟩ :: post) → (LowestAt h'.lfree bs' ↔
          h.lfree ≤ total pre ∨ h.lfree = total pre + s ∧ h.lfree ≠ h.heapEnd)) := by
  have hsum : total pre + s + total post = h.heapEnd := t.sum_eq
  have hsz : 12 ≤ s := t.size_le.1
  have hu : h.used (total pre) = 0 := t.used_eq_zero.mpr rfl
  obtain ⟨s', post', hc, r, hlow⟩ := plugForward_spec t ha hpost hl
  obtain ⟨bs', hc', r', hlow'⟩ := plugBackward_spec r.tiles (r.same.arena ha) hpre hc r.lfree
  refine ⟨_, bs', ?_, hc', r.trans r', fun hbut => ?_⟩
  · rw [plugHoles, if_pos ⟨by omega, hu⟩]
  exact (hlow' (hlow hbut).1).trans (hlow hbut).2

end NbIot.SmallMem
