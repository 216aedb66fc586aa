import NbIot.Heap.Edit

/-! # What the calls of `mem.c` do to the list of blocks

The representation invariant `Inv` of the heap and one specification for each call. A
specification says that the call returns, that the invariant holds again for some list of
blocks, and how the used blocks of the two lists are related: `rt_malloc` adds one, `rt_free`
removes the one it is given, `rt_realloc` replaces it.
-/

namespace NbIot.SmallMem

open Heap List

variable {h : Heap} {bs : List Blk} {pre post : List Blk} {size o s : Nat} {post' : List Blk}
  {h' : Heap} {n : Nat} {fuel : Nat}

def usedSum (bs : List Blk) : Nat := ((usedAt 0 bs).map Prod.snd).sum

/-- The representation invariant of the heap, for the list of blocks `bs`. -/
structure Inv (h : Heap) (bs : List Blk) : Prop where
  arena : Arena h
  tiles : Tiles h bs
  coalesced : Coalesced bs
  lfree : LfreeOk h bs
  usedMem : h.usedMem = usedSum bs
  /-- No payload starts at `heap_end`. -/
  inside : ∀ q ∈ usedAt 0 bs, q.1 + 12 < h.heapEnd

/-! ## Counting -/

lemma sum_usedAt_le (o : Nat) (bs : List Blk) : ((usedAt o bs).map Prod.snd).sum ≤ total bs := by
  induction bs generalizing o with
  | nil => simp [usedAt]
  | cons b bs ih =>
    have := ih (o + b.size)
    simp only [usedAt, total]
    split
    · simp only [map_cons, sum_cons]; omega
    omega

lemma usedSum_perm {qs : List (Nat × Nat)} (hp : (usedAt 0 bs).Perm ((o, s) :: qs)) :
    usedSum bs = s + (qs.map Prod.snd).sum := (hp.map Prod.snd).sum_eq

lemma usedAt_free (pre post : List Blk) (s : Nat) :
    usedAt 0 (pre ++ ⟨s, false⟩ :: post) = usedAt 0 pre ++ usedAt (total pre + s) post := by
  simp [usedAt_append, usedAt]

lemma usedAt_perm_cut (pre post : List Blk) (s : Nat) : (usedAt 0 (pre ++ ⟨s, true⟩ :: post)).Perm
      ((total pre, s) :: (usedAt 0 pre ++ usedAt (total pre + s) post)) := by
  simp only [usedAt_append, zero_add]
  exact perm_middle

lemma length_le_total {bs : List Blk} (hs : ∀ x ∈ bs, 12 ≤ x.size ∧ x.size % 4 = 0) :
    12 * bs.length ≤ total bs := by
  induction bs with
  | nil => simp
  | cons b bs ih =>
    have h1 := (hs b (by simp)).1
    have h2 := ih fun x hx => hs x (by simp [hx])
    simp only [length_cons, total]
    omega

lemma Inv.usedSum_lt (i : Inv h bs) : usedSum bs + 12 < wordSize := by
  have h1 : usedSum bs ≤ total bs := sum_usedAt_le 0 bs
  have h2 := i.tiles.fills
  have h3 := i.arena.heapEnd
  have h4 := i.arena.room
  omega

lemma Inv.length_lt (i : Inv h bs) : bs.length < wordSize := by
  have h1 := length_le_total i.tiles.seg.sizes
  have h2 := i.tiles.fills
  have h3 := i.arena.heapEnd
  have h4 := i.arena.room
  omega

/-! ## The search loops -/

lemma le_of_mem_freeAt {q : Nat} (hq : q ∈ freeAt o bs) : o ≤ q := by
  obtain ⟨pre, s, post, -, rfl⟩ := mem_freeAt.mp hq
  omega

lemma mem_freeAt_cons {x : Blk} {q : Nat} :
    q ∈ freeAt o (x :: bs) ↔ x.used = false ∧ q = o ∨ q ∈ freeAt (o + x.size) bs := by
  rw [freeAt]
  cases x.used <;> simp

/-- The free block at `o` is large enough for `size` bytes. -/
def FitsAt (h : Heap) (size o : Nat) : Prop := o + 12 + size ≤ h.next o

lemma searchFit_spec (t : Tiles h (pre ++ post)) (ha : Arena h)
    (hsize : size ≤ h.memSizeAligned) (hf : post.length < fuel) :
    (searchFit h size fuel (total pre) = some none ∧
      ∀ o ∈ freeAt (total pre) post, FitsAt h size o → h.memSizeAligned ≤ o + size) ∨
      ∃ pre' s post', pre ++ post = pre' ++ ⟨s, false⟩ :: post' ∧ size + 12 ≤ s ∧
        total pre ≤ total pre' ∧ total pre' + size < h.memSizeAligned ∧
        searchFit h size fuel (total pre) = some (some (total pre')) := by
  have hroom := ha.room
  have hend := ha.heapEnd
  induction post generalizing pre fuel with
  | nil =>
    obtain ⟨fuel, rfl⟩ : ∃ n, fuel = n + 1 := ⟨fuel - 1, by simp at hf; omega⟩
    have hfill := t.fills
    rw [append_nil] at hfill
    refine .inl ⟨?_, fun o ho => by simp [freeAt] at ho⟩
    rw [searchFit, if_neg]
    rw [sub32_of_le hsize (by omega)]
    omega
  | cons x post ih =>
    obtain ⟨fuel, rfl⟩ : ∃ n, fuel = n + 1 := ⟨fuel - 1, by simp at hf; omega⟩
    have hx := t.size_le
    have hsum := t.sum_eq
    rw [searchFit]
    rw [sub32_of_le hsize (by omega)]
    by_cases hlt : total pre < h.memSizeAligned - size
    · rw [if_pos hlt, t.next_eq, sizeofMem, add32_of_lt (by omega),
        sub32_of_le (by omega) (by omega)]
      by_cases hfit : h.used (total pre) = 0 ∧ size ≤ total pre + x.size - (total pre + 12)
      · rw [if_pos hfit]
        have hu : x.used = false := t.used_eq_zero.mp hfit.1
        exact .inr ⟨pre, x.size, post, by rw [← hu], by omega, le_rfl, by omega, rfl⟩
      rw [if_neg hfit, ← total_concat]
      rcases ih t.shift (by simpa using hf : post.length < fuel) with ⟨hs, hfar⟩ |
        ⟨pre', s, post', hbs, hs, hle, hfound⟩
      · refine .inl ⟨hs, fun o ho hle => ?_⟩
        rw [total_concat] at hfar
        rcases mem_freeAt_cons.mp ho with ⟨hu, rfl⟩ | ho
        · rw [FitsAt, t.next_eq] at hle
          exact absurd ⟨t.used_eq_zero.mpr hu, by omega⟩ hfit
        exact hfar o ho hle
      rw [total_concat] at hle
      exact .inr ⟨pre', s, post', by simpa using hbs, hs, by omega, hfound⟩
    rw [if_neg hlt]
    refine .inl ⟨rfl, fun o ho _ => ?_⟩
    have := le_of_mem_freeAt ho
    omega

lemma lt_of_mem_freeAt (t : Tiles h bs) (hbs : bs = pre ++ post) {q : Nat}
    (hq : q ∈ freeAt 0 pre) : q < total pre := by
  obtain ⟨xs, s, ys, rfl, rfl⟩ := mem_freeAt.mp hq
  have hs := (t.seg.sizes ⟨s, false⟩ (by simp [hbs])).1
  simp only [total_append, total] at hs ⊢
  omega

lemma nextFree_spec (t : Tiles h (pre ++ post)) (hf : post.length < fuel) :
    ∃ p, nextFree h fuel (total pre) = some p ∧
      (p = h.heapEnd ∨ p ∈ freeAt 0 (pre ++ post)) ∧ ∀ o ∈ freeAt (total pre) post, p ≤ o := by
  induction post generalizing pre fuel with
  | nil =>
    obtain ⟨fuel, rfl⟩ : ∃ n, fuel = n + 1 := ⟨fuel - 1, by simp at hf; omega⟩
    have hfill := t.fills
    rw [append_nil] at hfill
    refine ⟨h.heapEnd, ?_, Or.inl rfl, by simp [freeAt]⟩
    rw [nextFree, if_neg (fun hc => hc.2 hfill), hfill]
  | cons x post ih =>
    obtain ⟨fuel, rfl⟩ : ∃ n, fuel = n + 1 := ⟨fuel - 1, by simp at hf; omega⟩
    have hx := t.size_le
    have hsum := t.sum_eq
    rw [nextFree]
    by_cases hu : x.used = true
    · have hne : h.used (total pre) ≠ 0 := by rw [Ne, t.used_eq_zero, hu]; simp
      rw [if_pos ⟨hne, by omega⟩, t.next_eq, freeAt, if_pos hu, ← total_concat]
      simpa using ih t.shift (by simpa using hf : post.length < fuel)
    have hz : h.used (total pre) = 0 := t.used_eq_zero.mpr (by simpa using hu)
    exact ⟨total pre, by rw [if_neg fun hc => hc.1 hz],
      Or.inr (mem_freeAt_cut.mpr (.inr (.inl ⟨by simpa using hu, rfl⟩))),
      fun o => le_of_mem_freeAt⟩

/-! ## `rt_malloc` -/

lemma splitBlock_fields (h : Heap) (ptr ptr2 : Nat) :
    SameArena h (splitBlock h ptr ptr2) ∧ (splitBlock h ptr ptr2).lfree = h.lfree ∧
      (splitBlock h ptr ptr2).usedMem = h.usedMem := by
  rw [splitBlock]
  split <;> refine ⟨⟨?_, ?_, ?_⟩, ?_, ?_⟩ <;>
    simp [insertHeader, Heap.setMagic, Heap.setUsed, Heap.setNext, Heap.setPrev]

/-- What becomes of the list of blocks when a free block is taken: `post'` is the part behind
it, with the remainder in front if the block was split. -/
structure Taken (h h' : Heap) (pre post : List Blk) (s s' : Nat) (post' : List Blk) : Prop where
  tiles : Tiles h' (pre ++ ⟨s', true⟩ :: post')
  coalesced : Coalesced (pre ++ ⟨s', true⟩ :: post')
  usedAt_eq : usedAt (total pre + s') post' = usedAt (total pre + s) post
  freeAt_sub : ∀ o ∈ freeAt (total pre + s) post, o ∈ freeAt (total pre + s') post'
  same : SameArena h h'
  lfree : h'.lfree = h.lfree
  usedMem : h'.usedMem = add32 h.usedMem s'
  kept : Kept h h' (pre ++ ⟨s, false⟩ :: post)

lemma takeBlock_spec (t : Tiles h (pre ++ ⟨s, false⟩ :: post)) (ha : Arena h)
    (hc : Coalesced (pre ++ ⟨s, false⟩ :: post)) (h12 : 12 ≤ size) (h4 : size % 4 = 0)
    (hfit : size + 12 ≤ s) :
    ∃ s' post', size + 12 ≤ s' ∧ Taken h (takeBlock h (total pre) size) pre post s s' post' := by
  have hn : h.next (total pre) = total pre + s := t.next_eq
  have hsum : total pre + s + total post = h.heapEnd := t.sum_eq
  have hroom := ha.room
  have hend := ha.heapEnd
  obtain ⟨hcpre, hcpost, hlink⟩ := coalesced_append.mp hc
  have hapart : ∀ q ∈ usedAt 0 (pre ++ ⟨s, false⟩ :: post),
      q.1 + q.2 ≤ total pre ∨ total pre + s ≤ q.1 := fun q hq =>
    (usedAt_apart hq).imp id fun hq => hq.resolve_left (by simp)
  simp only [takeBlock, hn, sizeofMem, minSize]
  rw [add32_of_lt (a := total pre) (by omega), sub32_of_le (by omega) (by omega),
    add32_of_lt (a := size) (by omega), add32_of_lt (by omega),
    add32_of_lt (by omega)]
  by_cases hsplit : size + 12 + 12 ≤ total pre + s - (total pre + 12)
  · -- the rest is large enough for a header and `MIN_SIZE` bytes and becomes a block of its own
    rw [if_pos hsplit, show total pre + 12 + size = total pre + (size + 12) by omega]
    have hrest : total pre + (size + 12) + (s - (size + 12)) = total pre + s := by omega
    obtain ⟨hsame, hlf, hum⟩ := splitBlock_fields h (total pre) (total pre + (size + 12))
    have t2 : Tiles (splitBlock h (total pre) (total pre + (size + 12)))
        (pre ++ ⟨size + 12, false⟩ :: ⟨s - (size + 12), false⟩ :: post) := by
      have := t.split ha (s := size + 12) (by omega) (by show size + 12 + 12 ≤ s; omega) (by omega)
      simpa using this
    have t3 := t2.setFlag true
    refine ⟨size + 12, ⟨s - (size + 12), false⟩ :: post, le_refl _, ⟨t3.seg, t3.fills⟩, ?_, ?_, ?_,
      ⟨hsame.1, hsame.2, hsame.3⟩, hlf, ?_, fun q hq => ?_⟩
    · -- the remainder has the neighbour that the whole block had
      exact coalesced_used hcpre (hcpost.resize _) _
    · simp [usedAt, hrest]
    · intro o ho
      simp [freeAt, hrest, ho]
    · show add32 (splitBlock h (total pre) (total pre + (size + 12))).usedMem (size + 12) = _
      rw [hum]
    have := hapart q hq
    have hptr := hsame.heapPtr
    exact (agree_splitBlock (by omega) (by omega) (by omega) (by omega) (by omega)).trans
      (agree_setFlag 1 (by omega))
  -- the block is taken whole
  rw [if_neg hsplit]
  have t3 := t.setFlag true
  have hn' : (h.setUsed (total pre) 1).next (total pre) = total pre + s := by
    simp only [Heap.next, Heap.setUsed, Heap.write] at hn ⊢
    rw [Mem.load_store_of_disjoint _ _ (by omega)]
    exact hn
  refine ⟨s, post, hfit, ⟨t3.seg, t3.fills⟩, ?_, rfl, fun o ho => ho, ⟨rfl, rfl, rfl⟩, rfl, ?_,
    fun q hq => agree_setFlag 1 (by have := hapart q hq; omega)⟩
  · exact coalesced_used hcpre (isChain_cons.mp hcpost).2 _
  show add32 h.usedMem (sub32 ((h.setUsed (total pre) 1).next (total pre)) (total pre)) = _
  rw [hn', sub32_of_le (by omega) (by omega), Nat.add_sub_cancel_left]

lemma rtAlign_mod (n : Nat) : rtAlign n alignSize % 4 = 0 := by
  unfold rtAlign alignSize
  omega

lemma rtAlign_le (n : Nat) : rtAlign n alignSize ≤ wordSize - 4 := by
  unfold rtAlign alignSize add32 wordSize
  omega

lemma le_rtAlign (hn : n ≤ wordSize - 4) : n ≤ rtAlign n alignSize := by
  unfold rtAlign alignSize add32 wordSize at *
  omega

lemma LfreeOk.cut (hl : LfreeOk h bs) (t : Tiles h bs) :
    ∃ pre post, bs = pre ++ post ∧ h.lfree = total pre := by
  rcases hl with hl | hl
  · exact ⟨bs, [], by simp, by rw [hl, t.fills]⟩
  obtain ⟨pre, s, post, hbs, ho⟩ := mem_freeAt.mp hl
  exact ⟨pre, _, hbs, by rw [ho, zero_add]⟩

lemma Taken.refresh {s' : Nat} (k : Taken h h' pre post s s' post')
    (hl : LfreeOk h (pre ++ ⟨s, false⟩ :: post)) (hlen : post'.length + 1 < wordSize) :
    ∃ p, (if total pre = h'.lfree then
        (nextFree h' wordSize h'.lfree).map fun p => { h' with lfree := p } else some h') =
          some { h' with lfree := p } ∧
      (p = h'.heapEnd ∨ p ∈ freeAt 0 (pre ++ ⟨s', true⟩ :: post')) ∧
      (LowestAt h.lfree (pre ++ ⟨s, false⟩ :: post) → LowestAt p (pre ++ ⟨s', true⟩ :: post')) := by
  by_cases he : total pre = h'.lfree
  · have hfuel : (⟨s', true⟩ :: post' : List Blk).length < wordSize := by exact hlen
    obtain ⟨p, hp, hok, hnext⟩ := nextFree_spec k.tiles hfuel
    refine ⟨p, ?_, hok, fun hlow o ho => ?_⟩
    · rw [if_pos he, ← he, hp]
      rfl
    rw [freeAt_append, mem_append, zero_add] at ho
    rcases ho with ho | ho
    · have h1 := lt_of_mem_freeAt k.tiles rfl ho
      have h2 := hlow o (by rw [freeAt_append]; exact mem_append_left _ ho)
      rw [← k.lfree] at h2
      omega
    exact hnext o ho
  refine ⟨h'.lfree, by rw [if_neg he], ?_, fun hlow o ho => ?_⟩
  · rw [k.lfree] at he ⊢
    rcases hl with hl | hl
    · exact .inl (hl.trans k.same.heapEnd.symm)
    right
    rw [mem_freeAt_cut] at hl ⊢
    rcases hl with hl | ⟨-, hl⟩ | hl
    · exact .inl hl
    · exact absurd hl.symm he
    exact .inr (.inr (k.freeAt_sub _ hl))
  rw [k.lfree]
  rw [freeAt_append, mem_append, zero_add] at ho
  rcases ho with ho | ho
  · exact hlow o (by rw [freeAt_append]; exact mem_append_left _ ho)
  exact (hlow _ (mem_freeAt_middle _ _ _)).trans (le_of_mem_freeAt ho)

lemma Taken.perm {s' : Nat} (k : Taken h h' pre post s s' post') :
    (usedAt 0 (pre ++ ⟨s', true⟩ :: post')).Perm
      ((total pre, s') :: usedAt 0 (pre ++ ⟨s, false⟩ :: post)) := by
  rw [usedAt_free, ← k.usedAt_eq]
  exact usedAt_perm_cut pre post' s'

lemma Taken.inv {s' p : Nat} (i : Inv h (pre ++ ⟨s, false⟩ :: post))
    (k : Taken h h' pre post s s' post') (h24 : 24 ≤ s')
    (hp : p = h'.heapEnd ∨ p ∈ freeAt 0 (pre ++ ⟨s', true⟩ :: post')) :
    Inv { h' with lfree := p } (pre ++ ⟨s', true⟩ :: post') := by
  have ha' : Arena h' := k.same.arena i.arena
  have hperm := k.perm
  have hsum : total pre + s' + total post' = h'.heapEnd := k.tiles.sum_eq
  have hle : usedSum (pre ++ ⟨s', true⟩ :: post') ≤ h'.heapEnd := by
    rw [← k.tiles.fills]
    exact sum_usedAt_le 0 _
  have hroom := ha'.room
  have hend := ha'.heapEnd
  refine ⟨⟨ha'.1, ha'.2, ha'.3, ha'.4⟩, ⟨k.tiles.seg, k.tiles.fills⟩, k.coalesced, hp, ?_, ?_⟩
  · rw [usedSum_perm hperm] at hle ⊢
    rw [k.usedMem, i.usedMem, add32_of_lt (by unfold usedSum; omega), add_comm]
    rfl
  intro q hq
  show q.1 + 12 < h'.heapEnd
  rcases mem_cons.mp (hperm.mem_iff.mp hq) with rfl | hq
  · omega
  rw [k.same.heapEnd]
  exact i.inside q hq

/-- The size that `rt_malloc(n)` searches for, if it gets there. -/
def searchSize (h : Heap) (n : Nat) : Option Nat :=
  if n = 0 ∨ h.memSizeAligned < rtAlign n alignSize then none
  else some (if rtAlign n alignSize < minSize then minSize else rtAlign n alignSize)

lemma searchSize_bounds (ha : Arena h) (hs : searchSize h n = some size) :
    12 ≤ size ∧ size % 4 = 0 ∧ size ≤ h.memSizeAligned ∧ rtAlign n alignSize ≤ size := by
  have hmod := rtAlign_mod n
  have hM := ha.size
  unfold searchSize minSize at hs
  split at hs
  · simp at hs
  cases hs
  split <;> omega

/-- **`rt_malloc`.** The call returns. It returns `RT_NULL` and leaves the heap alone, or it
returns the payload of a new used block of at least the aligned size. `lfree` stays the lowest
free block. -/
theorem rtMalloc_spec (i : Inv h bs) (n : Nat) :
    (rtMalloc h n = some (h, 0) ∧ ∀ size, searchSize h n = some size → ∀ o ∈ freeAt 0 bs,
      h.lfree ≤ o → FitsAt h size o → h.memSizeAligned ≤ o + size) ∨
      ∃ h' bs' o s, rtMalloc h n = some (h', h.heapPtr + o + 12) ∧ Inv h' bs' ∧ SameArena h h' ∧
        (usedAt 0 bs').Perm ((o, s) :: usedAt 0 bs) ∧ rtAlign n alignSize + 12 ≤ s ∧
        (∃ size, searchSize h n = some size ∧ ∃ o ∈ freeAt 0 bs, h.lfree ≤ o ∧ FitsAt h size o ∧
          o + size < h.memSizeAligned) ∧
        (LowestAt h.lfree bs → LowestAt h'.lfree bs') ∧ Kept h h' bs := by
  rw [rtMalloc]
  cases hsome : searchSize h n with
  | none =>
    refine .inl ⟨?_, fun _ he => by simp at he⟩
    unfold searchSize at hsome
    split at hsome
    · rename_i hn
      split
      · rfl
      exact if_pos (hn.resolve_left ‹_›)
    simp at hsome
  | some size =>
  obtain ⟨h12, h4, hle, hge⟩ := searchSize_bounds i.arena hsome
  obtain ⟨hn, hbig, hsize⟩ : n ≠ 0 ∧ ¬ h.memSizeAligned < rtAlign n alignSize ∧
      (if rtAlign n alignSize < minSize then minSize else rtAlign n alignSize) = size := by
    unfold searchSize at hsome
    split at hsome
    · simp at hsome
    rename_i hn
    exact ⟨(not_or.mp hn).1, (not_or.mp hn).2, Option.some.inj hsome⟩
  simp only [if_neg hn, if_neg hbig, hsize]
  -- the search starts at `lfree`, so the blocks in front of it need no look
  obtain ⟨pre, post, rfl, hstart⟩ := i.lfree.cut i.tiles
  have hlen := i.length_lt
  have hfuel : post.length < wordSize := by
    rw [length_append] at hlen
    omega
  rw [hstart]
  rcases searchFit_spec i.tiles i.arena hle hfuel with
    ⟨hs, hfar⟩ | ⟨pre', s, post', hbs, hfit, hbehind, hfront, hs⟩
  · rw [hs]
    refine .inl ⟨rfl, fun _ he o ho hlow hlarge => ?_⟩
    cases he
    rcases mem_append.mp (freeAt_append 0 pre post ▸ ho) with ho | ho
    · have := lt_of_mem_freeAt i.tiles rfl ho
      omega
    exact hfar o (by simpa using ho) hlarge
  right
  rw [hs]
  rw [hbs] at i hlen ⊢
  obtain ⟨s', rest, hs', k⟩ := takeBlock_spec i.tiles i.arena i.coalesced h12 h4 hfit
  simp only
  -- from here on `Taken` says all that matters about the new heap
  generalize takeBlock h (total pre') size = h' at k ⊢
  have hsum : total pre' + s' + total rest = h'.heapEnd := k.tiles.sum_eq
  have hrest : rest.length + 1 < wordSize := by
    have h1 := length_le_total k.tiles.seg.sizes
    have ha' := k.same.arena i.arena
    have hroom := ha'.room
    have hend := ha'.heapEnd
    rw [k.tiles.fills, length_append, length_cons] at h1
    omega
  obtain ⟨p, hp, hok, hlow⟩ := k.refresh i.lfree hrest
  have hlarge : FitsAt h size (total pre') := by
    rw [FitsAt, i.tiles.next_eq]
    simp only
    omega
  refine ⟨_, _, total pre', s', ?_, k.inv i (by omega) hok, ⟨k.same.1, k.same.2, k.same.3⟩, k.perm,
    by omega, ⟨size, rfl, total pre', mem_freeAt_cut.mpr (.inr (.inl ⟨rfl, rfl⟩)),
      hstart ▸ hbehind, hlarge, hfront⟩, fun hall => hlow (by rwa [hstart]), k.kept⟩
  -- the two assertions at the end of the function
  have halign : (h'.heapPtr + total pre') % alignSize = 0 := by
    have h1 := k.tiles.pre_mod
    have h2 := i.arena.aligned
    have h3 := k.same.heapPtr
    unfold alignSize
    omega
  rw [hp, Option.bind_some]
  rw [if_pos ⟨by unfold sizeofMem; show _ ≤ h'.heapEnd; omega, halign⟩]
  rw [k.same.heapPtr]
  rfl

/-! ## `rt_free` -/

lemma usedAt_cut (hq : (o, s) ∈ usedAt 0 bs) :
    ∃ pre post, bs = pre ++ ⟨s, true⟩ :: post ∧ o = total pre := by
  obtain ⟨pre, post, hbs, ho⟩ := mem_usedAt.mp hq
  exact ⟨pre, post, hbs, by simpa using ho⟩

lemma Inv.headerOf_eq (i : Inv h bs) (hq : (o, s) ∈ usedAt 0 bs) :
    headerOf h (h.heapPtr + o + 12) = o := by
  have hin : o + 12 < h.heapEnd := i.inside _ hq
  have hroom := i.arena.room
  have hend := i.arena.heapEnd
  rw [headerOf, sizeofMem, sub32_of_le (a := h.heapPtr + o + 12) (by omega) (by omega),
    sub32_of_le (by omega) (by omega)]
  omega

lemma mem_freeAt_release : o ∈ freeAt 0 (pre ++ ⟨s, false⟩ :: post) ↔
    o = total pre ∨ o ∈ freeAt 0 (pre ++ ⟨s, true⟩ :: post) := by
  simp only [mem_freeAt_cut]
  tauto

/-- **`rt_free`.** On the payload of a used block the call returns, and exactly this block is no
longer among the used ones. `lfree` stays the lowest free block. -/
theorem rtFree_spec (i : Inv h bs) (hq : (o, s) ∈ usedAt 0 bs) :
    ∃ h' bs', rtFree h (h.heapPtr + o + 12) = some h' ∧ Inv h' bs' ∧ SameArena h h' ∧
      (usedAt 0 bs).Perm ((o, s) :: usedAt 0 bs') ∧
      (LowestAt h.lfree bs → LowestAt h'.lfree bs') ∧ Kept h h' bs' := by
  have hhdr := i.headerOf_eq hq
  have hin : o + 12 < h.heapEnd := i.inside _ hq
  have halign := i.arena.aligned
  obtain ⟨pre, post, rfl, rfl⟩ := usedAt_cut hq
  have hmod := i.tiles.pre_mod
  obtain ⟨hcpre, hcpost, -⟩ := coalesced_append.mp i.coalesced
  have hu : h.used (total pre) ≠ 0 := by rw [Ne, i.tiles.used_eq_zero]; simp
  -- the block is marked free
  have t := i.tiles.setFlag false
  rw [rtFree, if_neg (by omega), if_pos ⟨by unfold alignSize; omega, by omega, by omega⟩]
  simp only [hhdr]
  rw [if_pos ⟨hu, i.tiles.magic_eq⟩]
  have hfields : ∀ g : Heap, g = (h.setUsed (total pre) 0).setMagic (total pre) heapMagic →
      SameArena h g ∧ g.lfree = h.lfree ∧ g.usedMem = h.usedMem := by
    rintro g rfl
    refine ⟨⟨?_, ?_, ?_⟩, ?_, ?_⟩ <;> simp [Heap.setUsed, Heap.setMagic]
  replace t : Tiles ((h.setUsed (total pre) 0).setMagic (total pre) heapMagic)
      (pre ++ ⟨s, false⟩ :: post) := t
  obtain ⟨g, hg⟩ : ∃ g, g = (h.setUsed (total pre) 0).setMagic (total pre) heapMagic := ⟨_, rfl⟩
  rw [← hg] at t ⊢
  obtain ⟨hsame, hlf, hum⟩ := hfields g hg
  -- the freed block may be the lowest free one now
  obtain ⟨p, hp, hok, hple, hpl⟩ : ∃ p,
      (if total pre < g.lfree then { g with lfree := total pre } else g) = { g with lfree := p } ∧
      (p = h.heapEnd ∨ p ∈ freeAt 0 (pre ++ ⟨s, false⟩ :: post)) ∧
      p ≤ total pre ∧ p ≤ h.lfree := by
    rw [← hlf]
    by_cases hlt : total pre < g.lfree
    · exact ⟨total pre, by rw [if_pos hlt], Or.inr (mem_freeAt_middle _ _ _), le_refl _, hlt.le⟩
    refine ⟨g.lfree, by rw [if_neg hlt], ?_, by omega, le_refl _⟩
    rw [hlf]
    exact i.lfree.imp id fun hl => mem_freeAt_release.mpr (.inr hl)
  rw [hp]
  have hn : g.next (total pre) = total pre + s := t.next_eq
  have hsum : total pre + s + total post = g.heapEnd := t.sum_eq
  have ha := hsame.arena i.arena
  have hroom := ha.room
  have hend := ha.heapEnd
  have hnext : sub32 (({ g with lfree := p } : Heap).next (total pre)) (total pre) = s := by
    show sub32 (g.next (total pre)) (total pre) = s
    rw [hn, sub32_of_le (by omega) (by omega), Nat.add_sub_cancel_left]
  rw [hnext]
  have t' : Tiles { g with lfree := p, usedMem := sub32 g.usedMem s }
      (pre ++ ⟨s, false⟩ :: post) := ⟨t.seg, t.fills⟩
  -- merging with the neighbours moves no used block
  obtain ⟨h', bs', hplug, hc, r, hlow⟩ := plugHoles_spec t' ⟨ha.1, ha.2, ha.3, ha.4⟩ hcpre
    (isChain_cons.mp hcpost).2 (hok.imp (fun hh => hh.trans hsame.heapEnd.symm) id)
  have hsame' : SameArena h h' := hsame.trans ⟨r.same.1, r.same.2, r.same.3⟩
  have hperm : (usedAt 0 (pre ++ ⟨s, true⟩ :: post)).Perm ((total pre, s) :: usedAt 0 bs') := by
    rw [r.usedAt_eq, usedAt_free]
    exact usedAt_perm_cut pre post s
  have hkept : Kept h g bs' := by
    intro q hq'
    rw [r.usedAt_eq] at hq'
    have := (usedAt_apart hq').imp id fun hq' => hq'.resolve_left (by simp)
    rw [hg]
    exact agree_setFlag 0 (by omega)
  refine ⟨h', bs', hplug, ⟨hsame'.arena i.arena, r.tiles, hc, r.lfree, ?_, ?_⟩, hsame', hperm,
    fun hall => (hlow fun q hq' hne => ?_).mpr (.inl hple),
    hkept.trans (show Kept g h' _ from r.kept) hsame.heapPtr fun q hq' => by
      rwa [r.usedAt_eq] at hq'⟩
  · have hlt := i.usedSum_lt
    have hcount : usedSum (pre ++ ⟨s, true⟩ :: post) = s + usedSum bs' := usedSum_perm hperm
    have hum' : h'.usedMem = sub32 g.usedMem s := r.usedMem
    rw [hum', hum, i.usedMem, sub32_of_le (by omega) (by omega)]
    omega
  · intro q hq'
    rw [hsame'.heapEnd]
    exact i.inside q (hperm.mem_iff.mpr (mem_cons_of_mem _ hq'))
  exact hpl.trans (hall q ((mem_freeAt_release.mp hq').resolve_left hne))

/-! ## `rt_realloc` and `rt_calloc` -/

lemma Inv.writePayload (i : Inv h bs) (hq : (o, s) ∈ usedAt 0 bs) {m : Mem}
    (hlo : h.mem.Agree m h.heapPtr (h.heapPtr + o + 12))
    (hhi : h.mem.Agree m (h.heapPtr + o + s) (h.heapPtr + h.heapEnd)) :
    Inv { h with mem := m } bs := by
  obtain ⟨pre, post, rfl, rfl⟩ := usedAt_cut hq
  have ha := i.arena
  exact ⟨⟨ha.1, ha.2, ha.3, ha.4⟩, i.tiles.write hlo hhi, i.coalesced, i.lfree, i.usedMem, i.inside⟩

lemma Inv.used_bounds (i : Inv h bs) (hq : (o, s) ∈ usedAt 0 bs) :
    12 ≤ s ∧ s % 4 = 0 ∧ o % 4 = 0 ∧ o + s ≤ h.heapEnd ∧ h.next o = o + s := by
  obtain ⟨pre, post, rfl, rfl⟩ := usedAt_cut hq
  have h1 : 12 ≤ s ∧ s % 4 = 0 := i.tiles.size_le
  have h2 : total pre + s + total post = h.heapEnd := i.tiles.sum_eq
  exact ⟨h1.1, h1.2, i.tiles.pre_mod, by omega, i.tiles.next_eq⟩

/-- `lfree` stays the lowest free block when the block at `o` of size `s` is cut down to `n` bytes:
it is not above the part that is cut off, or it is the block that this part is merged with. -/
def CutAboveLfree (h : Heap) (o s n : Nat) : Prop :=
  h.lfree ≤ o + 12 + n ∨ h.lfree = o + s ∧ h.lfree ≠ h.heapEnd

lemma shrink_spec (i : Inv h bs) (hq : (o, s) ∈ usedAt 0 bs) (h4 : n % 4 = 0)
    (hn : n + 12 + 12 < s - 12) :
    ∃ h' bs', plugHoles (splitBlock { h with usedMem := sub32 h.usedMem (s - 12 - n) } o
        (o + 12 + n)) (o + 12 + n) = some h' ∧ Inv h' bs' ∧ SameArena h h' ∧
      (∃ rest, (usedAt 0 bs).Perm ((o, s) :: rest) ∧ (usedAt 0 bs').Perm ((o, n + 12) :: rest)) ∧
      (LowestAt h.lfree bs → (LowestAt h'.lfree bs' ↔ CutAboveLfree h o s n)) ∧
      Kept h h' bs' := by
  have hin := i.inside _ hq
  obtain ⟨pre, post, rfl, rfl⟩ := usedAt_cut hq
  obtain ⟨g, hg⟩ : ∃ g : Heap, g = { h with usedMem := sub32 h.usedMem (s - 12 - n) } := ⟨_, rfl⟩
  have hgs : SameArena h g := by rw [hg]; exact ⟨rfl, rfl, rfl⟩
  have hgl : g.lfree = h.lfree := by rw [hg]
  have hgu : g.usedMem = sub32 h.usedMem (s - 12 - n) := by rw [hg]
  have tg : Tiles g (pre ++ ⟨s, true⟩ :: post) := by rw [hg]; exact ⟨i.tiles.seg, i.tiles.fills⟩
  have ha := hgs.arena i.arena
  rw [← hg, show total pre + 12 + n = total pre + (n + 12) by omega]
  obtain ⟨hsame, hlf, hum⟩ := splitBlock_fields g (total pre) (total pre + (n + 12))
  have t := tg.split ha (s := n + 12) (by omega) (by show n + 12 + 12 ≤ s; omega) (by omega)
  have hnext : g.next (total pre) = total pre + s := tg.next_eq
  have hkept : Kept h (splitBlock g (total pre) (total pre + (n + 12)))
      ((pre ++ [⟨n + 12, true⟩]) ++ ⟨s - (n + 12), false⟩ :: post) := by
    intro q hq
    have h1 := usedAt_apart hq
    rw [append_assoc] at hq
    have h2 := usedAt_apart hq
    rw [total_concat] at h1
    simp only [Prod.ext_iff] at h1 h2
    have hptr := hgs.heapPtr
    have hsum : total pre + s + total post = h.heapEnd := i.tiles.sum_eq
    have hroom := i.arena.room
    have hend := i.arena.heapEnd
    rw [show h.mem = g.mem by rw [hg]]
    exact agree_splitBlock (by omega) (by omega) (by omega) (by omega) (by omega)
  -- the second part is a free block, to be merged with its successor
  generalize splitBlock g (total pre) (total pre + (n + 12)) = k at hsame hlf hum t hkept ⊢
  have hlast : total (pre ++ [⟨n + 12, true⟩]) = total pre + (n + 12) := total_concat pre _
  have hrest : total pre + (n + 12) + (s - (n + 12)) = total pre + s := by omega
  replace t : Tiles k ((pre ++ [⟨n + 12, true⟩]) ++ ⟨s - (n + 12), false⟩ :: post) := by
    simpa using t
  have hfree : ∀ q, q ∈ freeAt 0 ((pre ++ [⟨n + 12, true⟩]) ++ ⟨s - (n + 12), false⟩ :: post) ↔
      q ∈ freeAt 0 (pre ++ ⟨s, true⟩ :: post) ∨ q = total (pre ++ [⟨n + 12, true⟩]) := by
    simp only [mem_freeAt_cut, hlast, hrest]
    tauto
  obtain ⟨hcpre, hcpost, -⟩ := coalesced_append.mp i.coalesced
  have hcpre' : Coalesced (pre ++ [⟨n + 12, true⟩]) := coalesced_used hcpre isChain_nil _
  have hl : LfreeOk k ((pre ++ [⟨n + 12, true⟩]) ++ ⟨s - (n + 12), false⟩ :: post) := by
    have hl0 := i.lfree
    unfold LfreeOk at hl0 ⊢
    rw [hlf, hgl, hsame.heapEnd, hgs.heapEnd]
    exact hl0.imp id fun hl0 => (hfree _).mpr (.inl hl0)
  obtain ⟨h', bs', hplug, hc, r, hlow⟩ := plugHoles_spec t (hsame.arena ha) hcpre'
    (isChain_cons.mp hcpost).2 hl
  rw [hlast] at hplug
  have hsame' : SameArena h h' := (hgs.trans hsame).trans r.same
  have hperm := usedAt_perm_cut pre post s
  have hperm' : (usedAt 0 bs').Perm
      ((total pre, n + 12) :: (usedAt 0 pre ++ usedAt (total pre + s) post)) := by
    rw [r.usedAt_eq, usedAt_free, hlast, hrest, usedAt_append, zero_add, append_assoc]
    exact perm_middle
  refine ⟨h', bs', hplug, ⟨hsame'.arena i.arena, r.tiles, hc, r.lfree, ?_, ?_⟩, hsame',
    ⟨_, hperm, hperm'⟩, fun hall => ?_, fun q hq' => ?_⟩
  · have hlt := i.usedSum_lt
    have hsum := usedSum_perm hperm
    rw [r.usedMem, hum, hgu, i.usedMem, sub32_of_le (by omega) (by omega), usedSum_perm hperm']
    omega
  · intro q hq'
    rw [hsame'.heapEnd]
    rcases mem_cons.mp (hperm'.mem_iff.mp hq') with rfl | hq'
    · exact hin
    exact i.inside q (hperm.mem_iff.mpr (mem_cons_of_mem _ hq'))
  · rw [hlf, hgl, hsame.heapEnd, hgs.heapEnd, hlast, hrest] at hlow
    rw [CutAboveLfree, add_assoc, add_comm 12 n]
    exact hlow fun q hq' hne => hall q (((hfree q).mp hq').resolve_right (hlast ▸ hne))
  rw [r.usedAt_eq] at hq'
  exact hkept.trans r.kept (hgs.trans hsame).heapPtr (fun _ => id) q hq'

/-- What `rt_realloc` makes of the used block `(o, s)`: it stays as it is and `RT_NULL` is
returned, or the returned pointer is that of the one block that replaces it. -/
def Replaced (h : Heap) (bs bs' : List Blk) (o s q : Nat) : Prop :=
  (q = 0 ∧ usedAt 0 bs' = usedAt 0 bs) ∨
    ∃ o' s' rest, q = h.heapPtr + o' + 12 ∧ (usedAt 0 bs).Perm ((o, s) :: rest) ∧
      (usedAt 0 bs').Perm ((o', s') :: rest)

/-- `q` is the payload of a used block with room for `n` bytes. -/
def Offers (h : Heap) (bs : List Blk) (q n : Nat) : Prop :=
  ∃ o s, q = h.heapPtr + o + 12 ∧ (o, s) ∈ usedAt 0 bs ∧ n + 12 ≤ s

lemma usedAt_pairwise (o : Nat) (bs : List Blk) :
    (∀ q ∈ usedAt o bs, o ≤ q.1) ∧ (usedAt o bs).Pairwise fun q r => q.1 + q.2 ≤ r.1 := by
  induction bs generalizing o with
  | nil => simp [usedAt]
  | cons b bs ih =>
    obtain ⟨hge, hpair⟩ := ih (o + b.size)
    have hge' : ∀ q ∈ usedAt (o + b.size) bs, o ≤ q.1 := by
      intro q hq
      have := hge q hq
      omega
    simp only [usedAt]
    split
    · refine ⟨?_, pairwise_cons.mpr ⟨fun q hq => hge q hq, hpair⟩⟩
      intro q hq
      rcases mem_cons.mp hq with rfl | hq
      · exact le_rfl
      exact hge' q hq
    exact ⟨hge', hpair⟩

lemma apart_of_perm {q : Nat × Nat} {l : List (Nat × Nat)} (hperm : (usedAt 0 bs).Perm (q :: l)) :
    ∀ r ∈ l, q.1 + q.2 ≤ r.1 ∨ r.1 + r.2 ≤ q.1 := by
  have hpair : (usedAt 0 bs).Pairwise fun q r => q.1 + q.2 ≤ r.1 ∨ r.1 + r.2 ≤ q.1 :=
    (usedAt_pairwise 0 bs).2.imp Or.inl
  exact (pairwise_cons.mp ((hperm.pairwise_iff Or.symm).mp hpair)).1

/-- What a `rt_realloc` of the block `(o, s)` that returns `q` does to the payloads: behind `q` are
the first `len` bytes of the block, or `q` is `RT_NULL` and the block is as it was; no other payload
is written to. -/
def Moved (h h' : Heap) (bs : List Blk) (o s q len : Nat) : Prop :=
  (q = 0 → h.mem.Agree h'.mem (h.heapPtr + o + 12) (h.heapPtr + o + s)) ∧
  (q ≠ 0 → ∀ k < len, h'.mem (q + k) = h.mem (h.heapPtr + o + 12 + k)) ∧
  ∀ r ∈ usedAt 0 bs, r ≠ (o, s) → h.mem.Agree h'.mem (h.heapPtr + r.1 + 12) (h.heapPtr + r.1 + r.2)

lemma Moved.refl (h : Heap) (bs : List Blk) (o s len : Nat) : Moved h h bs o s 0 len :=
  ⟨fun _ _ _ _ => rfl, absurd rfl, fun _ _ _ _ _ _ => rfl⟩

lemma expand_spec (i : Inv h bs) {n len : Nat} (hq : (o, s) ∈ usedAt 0 bs)
    (hn : n ≤ wordSize - 4) (hlen : len ≤ n) (hold : len ≤ s - 12) :
    ∃ h' bs' q, ((rtMalloc h n).bind fun (g, nmem) =>
        if nmem ≠ 0 then
          (rtFree { g with mem := g.mem.copy nmem (h.heapPtr + o + 12) len }
            (h.heapPtr + o + 12)).map fun g => (g, nmem)
        else some (g, 0)) = some (h', q) ∧
      Inv h' bs' ∧ SameArena h h' ∧ Replaced h bs bs' o s q ∧ (q ≠ 0 → Offers h bs' q n) ∧
      (LowestAt h.lfree bs → LowestAt h'.lfree bs') ∧ Moved h h' bs o s q len := by
  rcases rtMalloc_spec i n with
    ⟨hm, -⟩ | ⟨g, bs', o', s', hm, i', hsame, hperm, hs', -, hlow, hkept⟩
  · rw [hm]
    exact ⟨h, bs, 0, rfl, i, ⟨rfl, rfl, rfl⟩, Or.inl ⟨rfl, rfl⟩, absurd rfl, id, .refl h bs o s len⟩
  rw [hm, Option.bind_some]
  simp only
  have hq' : (o', s') ∈ usedAt 0 bs' := hperm.mem_iff.mpr (by simp)
  have hle := le_rtAlign hn
  have hptr := hsame.heapPtr
  -- the copy stays inside the new payload
  have iw :
      Inv { g with mem := g.mem.copy (h.heapPtr + o' + 12) (h.heapPtr + o + 12) len } bs' := by
    refine i'.writePayload hq' ?_ ?_
    · exact Mem.agree_copy _ _ _ _ _ _ (.inl (by omega))
    exact Mem.agree_copy _ _ _ _ _ _ (.inr (by omega))
  have hmem : (o, s) ∈ usedAt 0 bs' := hperm.mem_iff.mpr (mem_cons_of_mem _ hq)
  obtain ⟨h', bs'', hf, i'', hsame', hperm', hlow', hkept'⟩ := rtFree_spec iw hmem
  have hptr' : h.heapPtr + o + 12 = g.heapPtr + o + 12 := by rw [hptr]
  rw [← hptr'] at hf
  rw [hf]
  have hs'' : SameArena g h' := ⟨hsame'.1, hsame'.2, hsame'.3⟩
  have h1 : ((o, s) :: usedAt 0 bs'').Perm ((o', s') :: (o, s) :: (usedAt 0 bs).erase (o, s)) :=
    hperm'.symm.trans (hperm.trans ((perm_cons_erase hq).cons _))
  have h2 := (h1.trans (List.Perm.swap _ _ _)).cons_inv
  have hnew := h2.mem_iff.mpr mem_cons_self
  refine ⟨h', bs'', _, rfl, i'', hsame.trans hs'', Or.inr ⟨o', s',
    (usedAt 0 bs).erase (o, s), rfl, perm_cons_erase hq, h2⟩,
    fun _ => ⟨o', s', rfl, hnew, by omega⟩,
    fun hall => hlow' (hlow hall), fun h0 => by omega, fun _ k hk => ?_, fun r hr hne => ?_⟩
  · have hrest := hkept' (o', s') hnew (h.heapPtr + o' + 12 + k)
    have hcopy : (g.mem.copy (h.heapPtr + o' + 12) (h.heapPtr + o + 12) len)
        (h.heapPtr + o' + 12 + k) = g.mem (h.heapPtr + o + 12 + k) := by
      rw [Mem.copy, if_pos (by omega), Nat.add_sub_cancel_left]
    simp only at hrest
    rw [← hrest (by omega) (by omega), hcopy]
    exact (hkept (o, s) hq _ (by simp only; omega) (by simp only; omega)).symm
  -- the copy and the two calls leave the other blocks alone
  have hr' : r ∈ usedAt 0 bs'' := (mem_cons.mp (hperm'.mem_iff.mp (hperm.mem_iff.mpr
      (mem_cons_of_mem _ hr)))).resolve_left hne
  have hrest := hkept' r hr'
  simp only [hptr] at hrest
  have hapart := apart_of_perm hperm r hr
  exact ((hkept r hr).trans (Mem.agree_copy _ _ _ _ _ _ (by omega))).trans hrest

/-- **`rt_realloc`** of a used block returns, and the invariant holds again. `lfree` stays the
lowest free block unless the block is cut in two in front of it. -/
theorem rtRealloc_spec (i : Inv h bs) (hq : (o, s) ∈ usedAt 0 bs) (n : Nat) :
    ∃ h' bs' q, rtRealloc h (h.heapPtr + o + 12) n = some (h', q) ∧ Inv h' bs' ∧
      SameArena h h' ∧ Replaced h bs bs' o s q ∧ (q ≠ 0 → Offers h bs' q (rtAlign n alignSize)) ∧
      (LowestAt h.lfree bs → (LowestAt h'.lfree bs' ↔ (rtAlign n alignSize + 12 + 12 < s - 12 →
          CutAboveLfree h o s (rtAlign n alignSize)))) ∧
      Moved h h' bs o s q (min (s - 12) (rtAlign n alignSize)) := by
  have hin : o + 12 < h.heapEnd := i.inside _ hq
  have hb := i.used_bounds hq
  have hroom := i.arena.room
  have hend := i.arena.heapEnd
  have hmod := rtAlign_mod n
  have hle := rtAlign_le n
  have hsame : SameArena h h := ⟨rfl, rfl, rfl⟩
  rw [rtRealloc]
  simp only [i.headerOf_eq hq, hb.2.2.2.2, sizeofMem, minSize]
  generalize rtAlign n alignSize = n at hmod hle ⊢
  by_cases hbig : h.memSizeAligned < n
  · rw [if_pos hbig]
    exact ⟨h, bs, 0, rfl, i, hsame, Or.inl ⟨rfl, rfl⟩, absurd rfl,
      fun hall => ⟨fun _ hlt => by omega, fun _ => hall⟩, .refl h bs o s _⟩
  rw [if_neg hbig, if_neg (by omega), if_neg (by omega),
    sub32_of_le (a := o + s) (by omega) (by omega), Nat.add_sub_cancel_left,
    sub32_of_le (by omega) (by omega)]
  -- the size stays, leaves room for another block, or needs a block elsewhere
  by_cases heq : s - 12 = n
  · rw [if_pos heq]
    exact ⟨h, bs, _, rfl, i, hsame, Or.inr ⟨o, s, _, rfl, perm_cons_erase hq,
      perm_cons_erase hq⟩, fun _ => ⟨o, s, rfl, hq, by omega⟩,
      fun hall => ⟨fun _ hlt => by omega, fun _ => hall⟩, fun _ _ _ _ => rfl, fun _ _ _ => rfl,
      fun _ _ _ _ _ _ => rfl⟩
  rw [if_neg heq, add32_of_lt (a := n) (by omega), add32_of_lt (by omega)]
  by_cases hsmall : n + 12 + 12 < s - 12
  · rw [if_pos hsmall, sub32_of_le (a := s - 12) (by omega) (by omega),
      add32_of_lt (a := o) (by omega), add32_of_lt (by omega)]
    obtain ⟨h', bs', hp, i', hs', ⟨rest, h1, h2⟩, hlow, hkept⟩ := shrink_spec i hq hmod hsmall
    rw [hp]
    have hcut := h2.mem_iff.mpr mem_cons_self
    refine ⟨h', bs', _, rfl, i', hs', Or.inr ⟨o, n + 12, rest, rfl, h1, h2⟩,
      fun _ => ⟨o, _, rfl, hcut, le_rfl⟩, fun hall => (hlow hall).trans
        ⟨fun hcut _ => hcut, fun hcut => hcut hsmall⟩, fun h0 => by omega, fun _ k hk => ?_,
      fun r hr hne => ?_⟩
    · exact (hkept _ hcut _ (by simp only; omega) (by simp only; omega)).symm
    have hr' := (mem_cons.mp (h1.mem_iff.mp hr)).resolve_left hne
    exact hkept r (h2.mem_iff.mpr (mem_cons_of_mem _ hr'))
  rw [if_neg hsmall]
  have hmin : (if s - 12 < n then s - 12 else n) = min (s - 12) n := by split <;> omega
  rw [hmin]
  obtain ⟨h', bs', q, he, i', hs', hrep, hoff, hlow, hmoved⟩ :=
    expand_spec i hq hle (min_le_right (s - 12) n) (min_le_left _ _)
  exact ⟨h', bs', q, he, i', hs', hrep, hoff, fun hall =>
    ⟨fun _ hlt => absurd hlt hsmall, fun _ => hlow hall⟩, hmoved⟩

lemma rtCalloc_spec (i : Inv h bs) {count : Nat} (hn : count * size % wordSize ≤ wordSize - 4) :
    rtCalloc h count size = some (h, 0) ∨
      ∃ h' bs' o s, rtCalloc h count size = some (h', h.heapPtr + o + 12) ∧ Inv h' bs' ∧
        SameArena h h' ∧ (usedAt 0 bs').Perm ((o, s) :: usedAt 0 bs) ∧
        rtAlign (count * size % wordSize) alignSize + 12 ≤ s ∧
        (LowestAt h.lfree bs → LowestAt h'.lfree bs') := by
  rw [rtCalloc]
  simp only
  generalize count * size % wordSize = n at hn ⊢
  rcases rtMalloc_spec i n with ⟨hm, -⟩ | ⟨g, bs', o, s, hm, i', hsame, hperm, hs, -, hlow, -⟩
  · rw [hm]
    exact .inl rfl
  right
  have hq : (o, s) ∈ usedAt 0 bs' := hperm.mem_iff.mpr (by simp)
  have hb := i'.used_bounds hq
  have hle := le_rtAlign hn
  have hptr := hsame.heapPtr
  have hroom := i'.arena.room
  have hend := i'.arena.heapEnd
  refine ⟨{ g with mem := g.mem.fill (h.heapPtr + o + 12) n 0 }, bs', o, s, ?_, ?_,
    ⟨hsame.1, hsame.2, hsame.3⟩, hperm, hs, hlow⟩
  · rw [hm, Option.map_some]
    rw [if_pos (by omega)]
  refine i'.writePayload hq ?_ ?_
  · exact Mem.agree_fill _ _ _ _ _ _ (by omega) (by omega) (.inl (by omega))
  exact Mem.agree_fill _ _ _ _ _ _ (by omega) (by omega) (.inr (by omega))

end NbIot.SmallMem
