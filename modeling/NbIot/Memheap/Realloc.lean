import NbIot.Memheap.Calls

/-! # Reallocation in a memheap

`rt_memheap_realloc` has four ways to succeed: a block grows into its free neighbour, whose header
moves (`grow_spec`), it is cut (`cut_spec`), it is left as it is, or its contents move to another
block (`move_spec`).
-/

namespace NbIot.Memheaps

open List

/-! ## In place -/

variable {L : Layout} {s s' : Heaps} {xs xs' pre post : List Blk} {fs fs' : List Nat}
  {x y z : Blk} {p t n : Nat}

lemma grow_spec (hi : Inv L s (pre ++ ⟨p, true⟩ :: ⟨t, false⟩ :: z :: post) fs) {newsize : Nat}
    (hn : n = p + 24 + newsize) (hgrow : t - p - 24 < newsize) (hfit : n + 36 ≤ z.addr) :
    ∃ fs', Outcome L s (moveNext s L.heap p t n (newsize - (t - p - 24)))
      (pre ++ ⟨p, true⟩ :: ⟨n, false⟩ :: z :: post) fs' := by
  have hsp := hi.form.tiles.toSpans
  have hpt : p + 36 ≤ t := hsp.lt_next
  have ht : t ∈ fs := by
    rw [hi.tidy.free.mem_iff]
    simp
  obtain ⟨f1, f2, rfl⟩ := append_of_mem ht
  -- the neighbour leaves both lists
  have hout := hi.form.removeFree.unlink_next
  have hperm : (f1 ++ f2).Perm (freeOf pre ++ freeOf (z :: post)) := by
    have h : (f1 ++ t :: f2).Perm (freeOf pre ++ t :: freeOf (z :: post)) := by
      simpa using hi.tidy.free
    exact perm_of_middle h
  have hpn : p + 36 ≤ n := by omega
  -- and a new header is built
  obtain ⟨hf0, hmem, hnot⟩ := hout.split_sites (by simpa using hperm) hpn hfit
  have hf := (hf0.newBlock hmem hpn hfit).insertFree hmem hnot
  have havail : sub32 (s.heap L.heap).availableSize (newsize - (t - p - 24))
      = freeBytes (pre ++ ⟨p, true⟩ :: ⟨n, false⟩ :: z :: post) := by
    have hle := hi.available_le
    have hpool := L.pool_lt
    have heq := hi.tidy.available
    rw [freeBytes_seam] at heq ⊢
    simp only [freeBytes, Bool.false_eq_true, if_false, if_true] at heq ⊢
    rw [sub32_of_le (by omega) (by omega)]
    omega
  obtain ⟨hc1, -, hc2⟩ := isChain_append_cons_cons.mp hi.tidy.coalesced
  obtain ⟨hz, hc3⟩ := isChain_cons_cons.mp hc2
  have htidy := hi.tidy.lower hf.tiles.toSpans (perm_insert p hperm)
    (coalesced_insert p hc1 (by simpa using hz) hc3) havail
  refine ⟨n :: (f1 ++ f2), ?_⟩
  have hlist : ((s.heap L.heap).setAvailable
      (sub32 (s.heap L.heap).availableSize (newsize - (t - p - 24)))).noteUsed.freeList
      = L.freeList := htidy.freeList
  simp only [moveNext, hlist]
  exact Outcome.of_update hf htidy

lemma cut_at_used (hi : Inv L s (pre ++ ⟨p, true⟩ :: ⟨t, true⟩ :: post) fs) (h1 : p + 36 ≤ n)
    (h2 : n + 36 ≤ t) :
    Outcome L s (cutBlock s L.heap p n) (pre ++ ⟨p, true⟩ :: ⟨n, false⟩ :: ⟨t, true⟩ :: post)
      (n :: fs) := by
  obtain ⟨hf0, hmem, hnot⟩ := hi.form.split_sites hi.tidy.free h1 h2
  have hf := hf0.newBlock hmem h1 h2
  have hform := hf.insertFree hmem hnot
  have hnext : (newBlock s.mem L.heap p n).word n Item.next = t := hf.shift.tiles.links.1
  have hused : isUsed (newBlock s.mem L.heap p n) t :=
    (hf.isUsed_iff (x := ⟨t, true⟩) (by simp)).mpr rfl
  have hsize := hform.shift.memitemSize_eq
  have hbytes : freeBytes (pre ++ ⟨p, true⟩ :: ⟨n, false⟩ :: ⟨t, true⟩ :: post)
      = (s.heap L.heap).availableSize + (t - n - 24) := by
    rw [hi.tidy.available, freeBytes_seam, freeBytes_seam]
    simp only [freeBytes, Bool.false_eq_true, if_false, if_true]
    omega
  have havail : add32 (s.heap L.heap).availableSize (t - n - 24)
      = freeBytes (pre ++ ⟨p, true⟩ :: ⟨n, false⟩ :: ⟨t, true⟩ :: post) := by
    have hle := hform.tiles.toSpans.freeBytes_le
    have hpool := L.pool_lt
    rw [add32_of_lt (by omega), hbytes]
  obtain ⟨hc1, -, hc2⟩ := isChain_append_cons_cons.mp hi.tidy.coalesced
  have htidy := hi.tidy.raise (perm_insert p (by simpa using hi.tidy.free))
    (coalesced_insert p hc1 rfl hc2) havail (by omega)
  simp only [cutBlock, hnext, if_pos hused, hi.tidy.freeList, hsize]
  exact Outcome.of_update hform htidy

lemma cut_at_free (hi : Inv L s (pre ++ ⟨p, true⟩ :: ⟨t, false⟩ :: z :: post) fs)
    (h1 : p + 36 ≤ n) (h2 : n + 36 ≤ t) :
    ∃ fs', Outcome L s (cutBlock s L.heap p n)
      (pre ++ ⟨p, true⟩ :: ⟨n, false⟩ :: z :: post) fs' := by
  obtain ⟨hf0, hmem, hnot⟩ := hi.form.split_sites hi.tidy.free h1 h2
  have hf := hf0.newBlock hmem h1 h2
  have hnext : (newBlock s.mem L.heap p n).word n Item.next = t := hf.shift.tiles.links.1
  have hused : ¬ isUsed (newBlock s.mem L.heap p n) t := fun hc =>
    Bool.false_ne_true ((hf.isUsed_iff (x := ⟨t, false⟩) (by simp)).mp hc)
  have hsizeT : memitemSize (newBlock s.mem L.heap p n) t = z.addr - t - 24 :=
    hf.shift.shift.memitemSize_eq
  have ht : t ∈ fs := by
    rw [hi.tidy.free.mem_iff]
    simp
  obtain ⟨f1, f2, rfl⟩ := append_of_mem ht
  have hnot' : n ∉ L.freeList :: (f1 ++ f2) := by
    simp only [mem_cons, mem_append, not_or] at hnot ⊢
    tauto
  -- the block that was cut off takes over its neighbour
  have hform := hf.shift.absorb.removeFree.insertFree hmem hnot'
  have hsize := hform.memitemSize_eq
  have hperm : (f1 ++ t :: f2).Perm (freeOf pre ++ t :: freeOf (z :: post)) := by
    simpa using hi.tidy.free
  have htz : t + 36 ≤ z.addr := hi.form.shift.tiles.toSpans.lt_next
  have hbytes : z.addr - t - 24 ≤ (s.heap L.heap).availableSize ∧
      freeBytes (pre ++ ⟨p, true⟩ :: ⟨n, false⟩ :: z :: post)
        = (s.heap L.heap).availableSize - (z.addr - t - 24) + (z.addr - n - 24) := by
    rw [hi.tidy.available, freeBytes_seam, freeBytes_seam]
    simp only [freeBytes, Bool.false_eq_true, if_false, if_true]
    omega
  rw [append_assoc, singleton_append] at hform
  have havail : add32 (sub32 (s.heap L.heap).availableSize (z.addr - t - 24)) (z.addr - n - 24)
      = freeBytes (pre ++ ⟨p, true⟩ :: ⟨n, false⟩ :: z :: post) := by
    have hle := hform.tiles.toSpans.freeBytes_le
    have hpool := L.pool_lt
    rw [sub32_of_le hbytes.1 (by omega), add32_of_lt (by omega), hbytes.2]
  obtain ⟨hc1, -, hc2⟩ := isChain_append_cons_cons.mp hi.tidy.coalesced
  obtain ⟨hz, hc3⟩ := isChain_cons_cons.mp hc2
  have htidy := hi.tidy.raise (perm_insert p (perm_of_middle hperm))
    (coalesced_insert p hc1 (by simpa using hz) hc3) havail (by omega)
  refine ⟨n :: (f1 ++ f2), ?_⟩
  simp only [cutBlock, hnext, if_neg hused, hsizeT,
    Memheap.setAvailable_freeList, hi.tidy.freeList, hsize]
  exact Outcome.of_update hform htidy

lemma cut_spec (hi : Inv L s (pre ++ ⟨p, true⟩ :: y :: post) fs) (h1 : p + 36 ≤ n)
    (h2 : n + 36 ≤ y.addr) :
    ∃ xs' fs', Outcome L s (cutBlock s L.heap p n) xs' fs' ∧
      usedOf xs' = usedOf (pre ++ ⟨p, true⟩ :: y :: post) ∧
      memitemSize (cutBlock s L.heap p n).mem p = n - p - 24 := by
  obtain ⟨t, u⟩ := y
  cases u with
  | true =>
    have ho := cut_at_used hi h1 h2
    exact ⟨_, _, ho, by simp, ho.inv.form.memitemSize_eq⟩
  | false =>
    obtain ⟨z, post, rfl⟩ := hi.form.shift.tiles.toSpans.exists_next (by simp)
    obtain ⟨fs', ho⟩ := cut_at_free hi h1 h2
    exact ⟨_, fs', ho, by simp, ho.inv.form.memitemSize_eq⟩

/-! ## With a copy -/

lemma Inv.payload (hi : Inv L s (pre ++ x :: y :: post) fs) (m' : Mem)
    (hm : ∀ b, ¬ (x.addr + 24 ≤ b ∧ b < y.addr) → m' b = s.mem b) :
    Outcome L s { s with mem := m' } (pre ++ x :: y :: post) fs := by
  have hsp := hi.form.tiles.toSpans
  have hx := hsp.inside_add (x := x) (by simp)
  have hy := hsp.inside_add (x := y) (by simp)
  -- no item reaches into the payload
  have hitem : ∀ b ∈ itemsOf L (pre ++ x :: y :: post), b + 24 ≤ x.addr + 24 ∨ y.addr ≤ b := by
    intro b hb
    rcases mem_cons.mp hb with rfl | hb
    · have := L.apart
      omega
    obtain ⟨z, hz, rfl⟩ := List.mem_map.mp hb
    rcases mem_append.mp hz with hz | hz
    · have := hsp.lt_of_append hz (y := x) (by simp)
      omega
    rcases mem_cons.mp hz with rfl | hz
    · omega
    rcases mem_cons.mp hz with rfl | hz
    · omega
    have := (hi.form.shift.shift.tiles.toSpans).lt_of_append
      (x := y) (by simp) hz
    omega
  have hout : ∀ b, ¬ L.Region b → m' b = s.mem b := by
    intro b hb
    refine hm b fun hc => hb (.inl ?_)
    omega
  have hform := hi.form.payload m' (fun b hb c h1 h2 => ?_) hout
  · exact ⟨⟨⟨hform.sites, hform.header_mem, hform.blocks_mem, hform.free_mem, hform.tiles,
      hform.free, fun _ _ => rfl⟩, hi.tidy⟩, hout, fun _ _ => rfl⟩
  have := hitem b hb
  exact (hm c (by omega)).symm

lemma Inv.nodup_used (hi : Inv L s xs fs) : (usedOf xs).Nodup :=
  List.Sublist.nodup (filter_sublist.map Blk.addr) hi.form.tiles.circle.nodup

lemma moveBlock_null {heap ptr oldsize size : Nat}
    (h : rtMemheapAlloc s heap size = some (s', 0)) :
    moveBlock s heap ptr oldsize size = some (s', 0) := by
  rw [moveBlock, h]
  rfl

lemma moveBlock_moved {s1 : Heaps} {heap ptr oldsize size q : Nat}
    (h : rtMemheapAlloc s heap size = some (s1, q)) (hq : q ≠ 0)
    (hfree : rtMemheapFree { s1 with
      mem := s1.mem.copy q ptr (if oldsize < size then oldsize else size) } ptr = some s') :
    moveBlock s heap ptr oldsize size = some (s', q) := by
  rw [moveBlock, h, Option.bind_eq_bind, Option.bind_some]
  simp only [if_pos hq]
  rw [hfree]
  rfl

lemma Inv.size_ge (hi' : Inv L s' xs' fs') (hi : Inv L s (pre ++ ⟨p, true⟩ :: y :: post) fs)
    (hp : (⟨p, true⟩ : Blk) ∈ xs')
    (hitems : ∀ z ∈ xs', z.addr ∈ itemsOf L (pre ++ ⟨p, true⟩ :: y :: post)) :
    y.addr - p - 24 ≤ memitemSize s'.mem p := by
  have hsp := hi.form.tiles.toSpans
  have hpy : p + 36 ≤ y.addr := hsp.lt_next
  have hy := hsp.inside (x := y) (by simp)
  obtain ⟨pre', w, post', rfl⟩ := hi'.cut_used hp (by omega)
  have hpw : p + 36 ≤ w.addr := hi'.form.tiles.toSpans.lt_next
  have hsize : memitemSize s'.mem p = w.addr - p - 24 := hi'.form.memitemSize_eq
  -- the next block was a block before, behind `p`
  have hw := hitems w (by simp)
  rcases mem_cons.mp hw with e | hw
  · exact absurd e (hi'.form.tiles.toSpans.ne_header (by simp))
  obtain ⟨z, hz, hzw⟩ := List.mem_map.mp hw
  rcases mem_append.mp hz with hz | hz
  · have := hsp.lt_of_append hz (y := ⟨p, true⟩) (by simp)
    simp only at this
    omega
  rcases mem_cons.mp hz with rfl | hz
  · simp only at hzw
    omega
  rcases mem_cons.mp hz with rfl | hz
  · omega
  have := hi.form.shift.shift.tiles.toSpans.lt_of_append (x := y) (by simp) hz
  omega

/-- **The contents move**: another block becomes used, and the old one is free; or there is no room
and nothing changes. -/
theorem move_spec (hi : Inv L s xs fs) (hp : (⟨p, true⟩ : Blk) ∈ xs) (hne : p ≠ L.tail)
    (oldsize size : Nat) :
    moveBlock s L.heap (p + 24) oldsize (roundSize size) = some (s, 0) ∧ ¬ Room L s fs size ∨
    ∃ s' b xs' fs', moveBlock s L.heap (p + 24) oldsize (roundSize size) = some (s', b + 24) ∧
      b ≠ p ∧ Room L s fs size ∧ Outcome L s s' xs' fs' ∧ (p :: usedOf xs').Perm (b :: usedOf xs) ∧
      roundSize size ≤ memitemSize s'.mem b := by
  have hround : Room L s fs (roundSize size) ↔ Room L s fs size := by
    rw [Room, Room, roundSize_idem]
  rcases alloc_spec hi (roundSize size) with ⟨hnull, hno⟩ |
    ⟨s1, b, xs1, fs1, halloc, ho1, hused1, hroom, hblk⟩
  · exact .inl ⟨moveBlock_null hnull, mt hround.mpr hno⟩
  right
  obtain ⟨pre, y, post, rfl, hfit⟩ := hblk
  rw [roundSize_idem] at hfit
  -- the copy stays inside the new block
  have ho2 := ho1.inv.payload (s1.mem.copy (b + 24) (p + 24)
    (if oldsize < roundSize size then oldsize else roundSize size)) fun c hc => by
      refine (Mem.agree_copy s1.mem _ _ _ c (c + 1) ?_ c (by omega) (by omega)).symm
      simp only at hc
      split <;> omega
  have hp1 : (⟨p, true⟩ : Blk) ∈ pre ++ ⟨b, true⟩ :: y :: post := by
    have hmem := mem_cons_of_mem b (mem_usedOf.mpr hp)
    exact mem_usedOf.mp (hused1.mem_iff.mpr hmem)
  obtain ⟨s3, xs3, fs3, hfree, ho3, hused3, hitems⟩ := free_spec ho2.inv hp1 hne
  have hbp : b ≠ p := by
    rintro rfl
    have hnd := (hused1.nodup_iff.mp ho1.inv.nodup_used)
    exact (nodup_cons.mp hnd).1 (mem_usedOf.mpr hp)
  have hb3 : (⟨b, true⟩ : Blk) ∈ xs3 := by
    have hmem := hused3.mem_iff.mp (mem_usedOf.mpr (show (⟨b, true⟩ : Blk) ∈ _ by simp))
    exact mem_usedOf.mp ((mem_cons.mp hmem).resolve_left hbp)
  exact ⟨s3, b, xs3, fs3, moveBlock_moved halloc (by omega) hfree, hbp,
    hround.mp hroom, (ho1.trans ho2).trans ho3, hused3.symm.trans hused1,
    hfit.trans (ho3.inv.size_ge ho2.inv hb3 hitems)⟩

/-! ## The whole function -/

/-- The growth test of `rt_memheap_realloc`: the block behind the one at `p` is free and has room
for what `n` bytes need more. -/
def Extends (m : Mem) (p n : Nat) : Prop :=
  ¬ isUsed m (m.word p Item.next) ∧
    add32 (roundSize n) minialloc < add32 (memitemSize m (m.word p Item.next)) (memitemSize m p)
  deriving Decidable

/-- **`rt_memheap_realloc`** of a used block to a size that is not zero. It returns `RT_NULL`, and
then the block was too small, there was no room anywhere and nothing has changed; or the same
pointer, and then the heap is in order if the growth test did not wrap; or the contents have moved
to another block. The block that is returned is large enough. -/
theorem realloc_spec (hi : Inv L s xs fs) (hp : (⟨p, true⟩ : Blk) ∈ xs) (hne : p ≠ L.tail)
    {size : Nat} (hsize : size ≠ 0) :
    (rtMemheapRealloc s L.heap (p + 24) size = some (s, 0) ∧ memitemSize s.mem p < roundSize size ∧
      ¬ Extends s.mem p size ∧ ¬ Room L s fs size) ∨
    (∃ s', rtMemheapRealloc s L.heap (p + 24) size = some (s', p + 24) ∧
      (roundSize size ≤ memitemSize s.mem p ∨ Extends s.mem p size) ∧
      (roundSize size + 12 < wordSize ∨ isUsed s.mem (s.mem.word p Item.next) →
        ∃ xs' fs', Outcome L s s' xs' fs' ∧ (usedOf xs').Perm (usedOf xs) ∧
          roundSize size ≤ memitemSize s'.mem p)) ∨
    ∃ s' b xs' fs', rtMemheapRealloc s L.heap (p + 24) size = some (s', b + 24) ∧ b ≠ p ∧
      Room L s fs size ∧ Outcome L s s' xs' fs' ∧ (p :: usedOf xs').Perm (b :: usedOf xs) ∧
      roundSize size ≤ memitemSize s'.mem b := by
  have hmove := move_spec hi hp hne (memitemSize s.mem p) size
  obtain ⟨pre, y, post, rfl⟩ := hi.cut_used hp hne
  have hmin := minialloc_le_roundSize size
  have hsp := hi.form.tiles.toSpans
  have hpy : p + 36 ≤ y.addr := hsp.lt_next
  have hylt := hi.form.addr_le (x := y) (by simp)
  have hhead : sub32 (p + 24) memheapSize = p := sub32_of_le (show 24 ≤ p + 24 by omega) (by omega)
  have hold : memitemSize s.mem p = y.addr - p - 24 := hi.form.memitemSize_eq
  have hnext : s.mem.word p Item.next = y.addr := hi.form.tiles.links.1
  have hiff := hi.form.isUsed_iff (x := y) (by simp)
  simp only [rtMemheapRealloc, if_neg hsize, hhead, hnext, Extends]
  by_cases hgrow : memitemSize s.mem p < roundSize size
  · rw [if_pos hgrow, if_pos (show p < y.addr by omega)]
    by_cases hroom : ¬ isUsed s.mem y.addr ∧ add32 (roundSize size) minialloc
        < add32 (memitemSize s.mem y.addr) (memitemSize s.mem p)
    · -- the free neighbour is large enough
      rw [if_pos hroom]
      right
      left
      refine ⟨_, rfl, .inr hroom, fun hsmall => ?_⟩
      obtain ⟨hfree, hroom⟩ := hroom
      replace hsmall := hsmall.resolve_right hfree
      obtain ⟨t, u⟩ := y
      obtain rfl : u = false := by
        by_contra hu
        exact hfree (hiff.mpr (by simpa using hu))
      obtain ⟨z, post, rfl⟩ := hi.form.shift.tiles.toSpans.exists_next (by simp)
      have hzlt := hi.form.addr_le (x := z) (by simp)
      have hsizeT : memitemSize s.mem t = z.addr - t - 24 := hi.form.shift.memitemSize_eq
      simp only at hpy hold
      have hadd : add32 (roundSize size) minialloc = roundSize size + 12 := add32_of_lt hsmall
      rw [hsizeT, hadd, add32_of_lt (by omega)] at hroom
      rw [hold] at hgrow
      have hnew : add32 (p + 24) (roundSize size) = p + 24 + roundSize size :=
        add32_of_lt (by omega)
      have htaken : sub32 (roundSize size) (memitemSize s.mem p)
          = roundSize size - (t - p - 24) := by
        rw [hold]
        exact sub32_of_le (by omega) (by omega)
      obtain ⟨fs', ho⟩ := grow_spec hi rfl hgrow (by omega)
      rw [hnew, htaken]
      refine ⟨_, fs', ho, by simp, ?_⟩
      have hgrown := ho.inv.form.memitemSize_eq
      simp only at hgrown ⊢
      omega
    rw [if_neg hroom]
    rcases hmove with ⟨hnull, hno⟩ | hmoved
    · exact .inl ⟨hnull, hgrow, hroom, hno⟩
    exact .inr (.inr hmoved)
  rw [if_neg hgrow]
  have hsplit : add32 (add32 (roundSize size) memheapSize) minialloc = roundSize size + 36 :=
    splitSize_eq (by omega)
  rw [hsplit]
  right
  left
  by_cases hkeep : memitemSize s.mem p ≤ roundSize size + 36
  · rw [if_pos hkeep]
    exact ⟨_, rfl, .inl (by omega), fun _ => ⟨_, _, Outcome.refl hi, .refl _, by omega⟩⟩
  rw [if_neg hkeep]
  have hnew : add32 (add32 p (roundSize size)) memheapSize = p + roundSize size + 24 := by
    rw [add32_of_lt (show p + roundSize size < wordSize by omega)]
    exact add32_of_lt (show p + roundSize size + 24 < wordSize by omega)
  obtain ⟨xs', fs', ho, hused, hcut⟩ := cut_spec (n := p + roundSize size + 24) hi (by omega)
    (by omega)
  rw [hnew]
  exact ⟨_, rfl, .inl (by omega), fun _ => ⟨xs', fs', ho, .of_eq hused, by omega⟩⟩

end NbIot.Memheaps
