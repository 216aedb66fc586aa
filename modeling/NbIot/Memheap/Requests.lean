import NbIot.Memheap.Runs

/-! # What a request gets from a memheap

* `realloc_capacity_iff`: `rt_memheap_realloc` returns a block that is large enough, or it changes
  nothing, unless the rounding of the size or the growth test wraps.
* `alloc_complete_iff`: `RT_NULL` means that no free block is large enough, unless such a block is
  all that is available.
-/

namespace NbIot.Memheaps

open Run List

/-! ## Reallocation -/

lemma roundSize_eq {n : Nat} (hn : n ≤ wordSize - 4) : roundSize n = max 12 ((n + 3) / 4 * 4) := by
  unfold roundSize SmallMem.rtAlign SmallMem.alignSize minialloc
  rw [add32_of_lt (by unfold wordSize at *; omega)]
  split <;> omega

/-- Where the rounding of the size or of the growth test wraps, the request is not refused. -/
lemma not_refused {L : Layout} {s : Heaps} {xs : List Blk} {fs : List Nat} {p n : Nat}
    (hi : Inv L s xs fs) (hp : (⟨p, true⟩ : Blk) ∈ xs) (hne : p ≠ L.tail) (hlt : n < wordSize)
    (hbig : ¬ (n ≤ wordSize - 16 ∨ n ≤ wordSize - 4 ∧ isUsed s.mem (s.mem.word p Item.next)))
    (hsmall : memitemSize s.mem p < roundSize n) : Extends s.mem p n := by
  have hmin := hi.minialloc_lt hp hne hsmall
  obtain ⟨hbig, hfree⟩ := not_or.mp hbig
  by_cases hle : n ≤ wordSize - 4
  · have hfree := fun hused => hfree ⟨hle, hused⟩
    obtain ⟨pre, ⟨t, u⟩, post, rfl⟩ := hi.cut_used hp hne
    have hnext : s.mem.word p Item.next = t := hi.form.tiles.links.1
    have hiff := hi.form.isUsed_iff (x := ⟨t, u⟩) (by simp)
    rw [hnext] at hfree
    obtain rfl : u = false := by
      by_contra hu
      exact hfree (hiff.mpr (by simpa using hu))
    obtain ⟨z, post, rfl⟩ := hi.form.shift.tiles.toSpans.exists_next (by simp)
    have hpt : p + 36 ≤ t := hi.form.tiles.toSpans.lt_next
    have htz : t + 36 ≤ z.addr := hi.form.shift.tiles.toSpans.lt_next
    have hz := hi.form.addr_le (x := z) (by simp)
    have hold : memitemSize s.mem p = t - p - 24 := hi.form.memitemSize_eq
    have hsize : memitemSize s.mem t = z.addr - t - 24 := hi.form.shift.memitemSize_eq
    have hsum : add32 (z.addr - t - 24) (t - p - 24) = z.addr - t - 24 + (t - p - 24) :=
      add32_of_lt (by omega)
    rw [Extends, hnext, hold, hsize, roundSize_eq hle, hsum]
    refine ⟨hfree, ?_⟩
    unfold add32 minialloc wordSize at *
    omega
  -- the size is rounded to 0, and raised to 12
  unfold roundSize SmallMem.rtAlign SmallMem.alignSize minialloc add32 wordSize at *
  split at hmin <;> omega

/-- **Capacity.** In every heap in order, for every live pointer and every size that is not zero:
`rt_memheap_realloc` returns `RT_NULL` and nothing has changed, or it returns a block with at least
that many bytes in a heap in order, where every header stands at the end of the block in front of
it, if and only if the size is at most `2 ^ 32 - 16`, or at most `2 ^ 32 - 4` with a used next
block. -/
theorem realloc_capacity_iff (L : Layout) (s : State) (hs : Ok L s) (p n : Nat) (hp : p ∈ s.live)
    (hn : n ≠ 0) (hlt : n < wordSize) :
    (∃ h' q, rtMemheapRealloc s.heaps L.heap p n = some (h', q) ∧
      (q = 0 ∧ h' = s.heaps ∨ q ≠ 0 ∧ n ≤ memitemSize h'.mem (q - memheapSize) ∧
        Ok L ⟨h', q :: s.live.erase p⟩)) ↔
      n ≤ wordSize - 16 ∨ n ≤ wordSize - 4 ∧
        isUsed s.heaps.mem (s.heaps.mem.word (p - memheapSize) Item.next) := by
  constructor
  · rintro ⟨h', q, hcall, hlaw⟩
    obtain ⟨xs, fs, hi, hl⟩ := hs
    obtain ⟨a, rfl, ha, hne⟩ := used_of_live hi hl hp
    by_contra hbig
    rcases hlaw with ⟨rfl, -⟩ | ⟨-, hfit, ys, gs, hi', hl'⟩
    · rcases realloc_spec hi ha hne hn with ⟨-, hsmall, hext, -⟩ | ⟨s1, hcall', -⟩ |
        ⟨s1, b, -, -, hcall', -⟩
      · exact hext (not_refused hi ha hne hlt hbig hsmall)
      · cases hcall.symm.trans hcall'
      cases hcall.symm.trans hcall'
    -- no block of a heap in order has so many bytes
    obtain ⟨b, rfl, hb, hne'⟩ := used_of_live hi' hl' mem_cons_self
    have hle : memitemSize h'.mem b + 48 ≤ wordSize := hi'.size_le hb hne'
    have hfit : n ≤ memitemSize h'.mem b := hfit
    omega
  intro hsmall
  have hround : roundSize n = max 12 ((n + 3) / 4 * 4) := roundSize_eq (by omega)
  have hword : 28 ≤ wordSize ∧ wordSize % 4 = 0 := by decide
  obtain ⟨h', q, hcall, hnull | ⟨hq, hfit, hok⟩⟩ :=
    realloc_live hs hp hn (hsmall.imp (fun h => by omega) And.right)
  · exact ⟨h', q, hcall, Or.inl hnull⟩
  refine ⟨h', q, hcall, Or.inr ⟨hq, ?_, hok⟩⟩
  show n ≤ memitemSize h'.mem (q - 24)
  omega

def arena400 : Heaps := rtMemheapInit ⟨fun _ => 0xff, fun _ => ⟨0, 0, 0, 0, 0, 0⟩⟩ 256 4096 400

lemma arena400_fits : Arena 256 4096 400 := by decide

lemma arena400_inv : Inv arena400_fits.layout arena400 (initBlocks arena400_fits.layout) [4096] :=
  (init_outcome _ arena400_fits).inv

theorem realloc_capacity_iff_grows : ∃ s h', step 256 ⟨arena400, []⟩ (.alloc 20) = some s ∧
      rtMemheapRealloc s.heaps 256 4120 40 = some (h', 4120) ∧ 40 ≤ memitemSize h'.mem 4096 := by
  obtain ⟨s, hs, hlive, ⟨h', q⟩, hr, rfl⟩ : ∃ s, step 256 ⟨arena400, []⟩ (.alloc 20) = some s ∧
      s.live = [4120] ∧ ∃ r, rtMemheapRealloc s.heaps 256 4120 40 = some r ∧ r.2 = 4120 := by
    decide +kernel
  obtain ⟨t, ht, hok⟩ := alloc_ok (s := ⟨arena400, []⟩)
    ⟨_, _, arena400_inv, by simp [initBlocks]⟩ 20
  cases ht.symm.trans hs
  obtain ⟨g, q, hr', ⟨rfl, -⟩ | ⟨-, hfit, -⟩⟩ := (realloc_capacity_iff _ s hok 4120 40
    (by simp [hlive]) (by decide) (by decide)).mpr (.inl (by decide))
  · cases hr'.symm.trans hr
  cases hr'.symm.trans hr
  exact ⟨s, h', hs, hr, hfit⟩

/-- The rounding wraps for 4294967295, and the block keeps its 20 bytes; the growth test wraps for
4294967284, and the header of the free neighbour is written into the header of the block itself. -/
theorem realloc_wraps : ((step 256 ⟨arena400, []⟩ (.alloc 20)).bind fun s =>
      (rtMemheapRealloc s.heaps 256 4120 0xffffffff).bind fun r =>
        (rtMemheapRealloc s.heaps 256 4120 0xfffffff4).map fun r' =>
          ((r.2, memitemSize r.1.mem 4096), r'.2, r'.1.mem.word 4096 Item.next)) =
      some ((4120, 20), 4120, 4108) := by
  decide +kernel

/-! ## Allocation -/

/-- **Completeness.** In every heap in order, `rt_memheap_alloc` returns `RT_NULL` only if no free
block has the bytes that are asked for, if and only if a free block that has them is not all that is
available. -/
theorem alloc_complete_iff (L : Layout) (s : Heaps) (xs : List Blk) (fs : List Nat)
    (hi : Inv L s xs fs) (n need : Nat) (hn : n < wordSize)
    (hneed : need = max 12 ((n + 3) / 4 * 4)) :
    ((∃ s', rtMemheapAlloc s L.heap n = some (s', 0)) → ∀ a ∈ fs, memitemSize s.mem a < need) ↔
      ((∃ a ∈ fs, need ≤ memitemSize s.mem a) → need < (s.heap L.heap).availableSize) := by
  by_cases hle : n ≤ wordSize - 4
  · rw [← roundSize_eq hle] at hneed
    subst hneed
    rcases alloc_spec hi n with ⟨hnull, hwhy⟩ | ⟨s', a, -, -, hcall, -, -, hroom, -⟩
    · constructor
      · rintro hnone ⟨a, ha, hfit⟩
        have := hnone ⟨s, hnull⟩ a ha
        omega
      intro hsome _ a ha
      by_contra hfit
      exact hwhy ⟨hsome ⟨a, ha, not_lt.mp hfit⟩, a, ha, not_lt.mp hfit⟩
    refine ⟨fun _ _ => hroom.1, ?_⟩
    rintro - ⟨s'', hnull⟩
    cases hcall.symm.trans hnull
  -- no block has `2 ^ 32` bytes
  have hsmall : ∀ a, memitemSize s.mem a < need := by
    intro a
    have hlt : memitemSize s.mem a < wordSize := by
      unfold memitemSize sub32
      exact Nat.mod_lt _ (by decide)
    unfold wordSize at *
    omega
  exact ⟨fun _ ⟨a, _, hfit⟩ => absurd (hsmall a) (by omega), fun _ _ a _ => hsmall a⟩

theorem alloc_complete_iff_part : 20 ≤ memitemSize arena400.mem 4096 ∧
      ((∃ s', rtMemheapAlloc arena400 256 20 = some (s', 0)) →
        ∀ a ∈ [4096], memitemSize arena400.mem a < 20) :=
  ⟨by decide +kernel, (alloc_complete_iff arena400_fits.layout arena400 _ _ arena400_inv 20 20
    (by decide) rfl).mpr fun _ => by decide +kernel⟩

/-- A request of 352 bytes is refused, although the free block has 352 bytes. -/
theorem all_available_refused : (rtMemheapAlloc arena400 256 352).map Prod.snd = some 0 ∧
      memitemSize arena400.mem 4096 = 352 := by
  decide +kernel

end NbIot.Memheaps
