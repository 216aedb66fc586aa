import NbIot.Heap.Runs

/-! # The lowest free block

`rt_malloc` starts its search at `lfree`, so a free block below `lfree` is never found again.
`LowestFree` says that there is none. Taking a block, freeing one and merging neighbours keep it;
the shrinking branch of `rt_realloc` makes a free block without looking at `lfree` and keeps it
only if that block is not below `lfree`, or is merged with the block `lfree` points to.
-/

namespace NbIot.SmallMem

open Heap Run Option

/-! ## The law -/

/-- `lfree` is a free block of the heap or `heap_end`, and no free block lies below it. -/
def LowestFree (h : Heap) : Prop :=
  ∃ os, Walk h 0 os ∧ (h.lfree = h.heapEnd ∨ h.lfree ∈ os ∧ h.used h.lfree = 0) ∧
    ∀ o ∈ os, h.used o = 0 → h.lfree ≤ o

/-- A `rt_realloc` that cuts its block in two does so above `lfree`, or right in front of the free
block that `lfree` points to. -/
def KeepsLfree (s : State) : Op → Prop
  | .realloc p newsize =>
    p ≠ 0 → rtAlign newsize alignSize + sizeofMem + minSize <
        s.heap.next (headerOf s.heap p) - headerOf s.heap p - sizeofMem →
      CutAboveLfree s.heap (headerOf s.heap p)
        (s.heap.next (headerOf s.heap p) - headerOf s.heap p) (rtAlign newsize alignSize)
  | _ => True

instance (s : State) : ∀ op, Decidable (KeepsLfree s op)
  | .malloc _ | .calloc _ _ | .realloc _ _ | .free _ | .store _ _ => by
    dsimp only [KeepsLfree, CutAboveLfree]
    infer_instance

section

variable {h : Heap} {bs : List Blk}

lemma walk_unique {o : Nat} {os os' : List Nat} (hw : Walk h o os) (hw' : Walk h o os') :
    os = os' := by
  induction os generalizing o os' with
  | nil =>
    cases os' with
    | nil => rfl
    | cons x os' => exact absurd hw hw'.2.1
  | cons x os ih =>
    cases os' with
    | nil => exact absurd hw' hw.2.1
    | cons y os' => rw [hw.1, hw'.1, ih hw.2.2 hw'.2.2]

lemma seg_filter_free {p o : Nat} (hs : Seg h.mem h.heapPtr p o bs) :
    (offsets o bs).filter (fun o => h.used o = 0) = freeAt o bs := by
  induction bs generalizing p o with
  | nil => rfl
  | cons b bs ih =>
    have hb := seg_used hs
    obtain ⟨-, -, -, hs⟩ := hs
    have hrest := ih hs
    simp only [offsets, freeAt]
    by_cases hu : b.used = true
    · rw [List.filter_cons_of_neg (by simpa using hb.mpr hu), if_pos hu, hrest]
    rw [List.filter_cons_of_pos (by simpa using fun hz => hu (hb.mp hz)), if_neg hu, hrest]

lemma Tiles.free_iff (t : Tiles h bs) (o : Nat) :
    o ∈ offsets 0 bs ∧ h.used o = 0 ↔ o ∈ freeAt 0 bs := by
  rw [← seg_filter_free t.seg, List.mem_filter, decide_eq_true_iff]

lemma lowestFree_iff_lowestAt (t : Tiles h bs) (hl : LfreeOk h bs) :
    LowestFree h ↔ LowestAt h.lfree bs := by
  have hwalk : Walk h 0 (offsets 0 bs) := seg_walk t.seg (by rw [Nat.zero_add, t.fills])
  constructor
  · rintro ⟨os, hw, -, hlow⟩ o ho
    obtain rfl := walk_unique hwalk hw
    have hmem := (t.free_iff o).mpr ho
    exact hlow o hmem.1 hmem.2
  intro hlow
  refine ⟨offsets 0 bs, hwalk, hl.imp id (t.free_iff _).mpr, fun o ho hu => ?_⟩
  exact hlow o ((t.free_iff o).mp ⟨ho, hu⟩)

end

/-! ## Arenas of less than twelve bytes

`rt_system_heap_init` accepts them, but no block of them is large enough for `MIN_SIZE` bytes:
`rt_malloc` returns `RT_NULL` or goes round the two headers for ever, because the bound of its
search has wrapped. -/

structure Tiny (h : Heap) : Prop where
  initial : Initial h
  small : h.memSizeAligned < minSize

variable {h : Heap}

lemma Initial.next_zero (i : Initial h) : h.next 0 = h.heapEnd := by
  have t : Tiles h ([] ++ ⟨h.memSizeAligned + 12, false⟩ :: []) := i.first
  rw [i.heapEnd]
  simpa [total] using t.next_eq

lemma Tiny.searchFit_eq (ht : Tiny h) {fuel ptr : Nat}
    (hptr : ptr = 0 ∨ ptr = h.heapEnd) : searchFit h minSize fuel ptr = none := by
  have hsmall := ht.small
  have hend := ht.initial.heapEnd
  have hlast := ht.initial.last
  have hn := ht.initial.next_zero
  induction fuel generalizing ptr with
  | zero => rfl
  | succ fuel ih =>
    unfold minSize at hsmall ih ⊢
    rw [searchFit, if_pos]
    · rcases hptr with rfl | rfl
      · rw [if_neg, hn]
        · exact ih (.inr rfl)
        unfold sizeofMem add32 sub32 wordSize
        omega
      rw [if_neg, hlast.2]
      · exact ih (.inr rfl)
      rw [hlast.1]
      simp
    -- the bound has wrapped around
    unfold sub32 wordSize
    omega

lemma Tiny.rtMalloc_eq (ht : Tiny h) {n : Nat} {r : Heap × Nat}
    (hm : rtMalloc h n = some r) : r = (h, 0) := by
  have hsmall := ht.small
  rw [rtMalloc] at hm
  simp only [ht.initial.lfree] at hm
  split at hm
  · exact (Option.some.inj hm).symm
  split at hm
  · exact (Option.some.inj hm).symm
  rw [if_pos (by omega), ht.searchFit_eq (.inl rfl)] at hm
  simp at hm

lemma Tiny.step_eq {s s' : State} (ht : Tiny s.heap) (hlive : s.live = []) {op : Op}
    (ha : Admissible s op) (h : step s op = some s') : s' = s := by
  obtain ⟨heap, live⟩ := s
  subst hlive
  cases op with
  | malloc n =>
    obtain ⟨r, hr, rfl⟩ := map_eq_some_iff.mp h
    obtain rfl := ht.rtMalloc_eq hr
    rfl
  | calloc count size =>
    obtain ⟨r, hr, rfl⟩ := map_eq_some_iff.mp h
    obtain ⟨r', hr', rfl⟩ := map_eq_some_iff.mp hr
    obtain rfl := ht.rtMalloc_eq hr'
    rfl
  | realloc p n =>
    obtain rfl : p = 0 := ha.resolve_right (by simp)
    obtain ⟨r, hr, rfl⟩ := map_eq_some_iff.mp h
    rw [rtRealloc] at hr
    simp only [if_true] at hr
    split at hr
    · cases hr
      rfl
    obtain rfl := ht.rtMalloc_eq hr
    rfl
  | free p =>
    obtain rfl : p = 0 := ha.resolve_right (by simp)
    exact (Option.some.inj h).symm
  | store a v =>
    obtain ⟨p, hp, -⟩ := ha
    simp at hp

/-! ## Whole runs -/

def Sound (s : State) : Prop := Ok s ∨ Tiny s.heap ∧ s.live = []

section

variable {s s' : State} {op : Op}

lemma sound_step (hs : Sound s) (ha : Admissible s op) (hfit : CallocFits op)
    (h : step s op = some s') : Sound s' := by
  rcases hs with hs | ⟨ht, hlive⟩
  · obtain ⟨t, hstep, hok⟩ := step_ok hs ha hfit
    obtain rfl := Option.some.inj (hstep.symm.trans h)
    exact .inl hok
  rw [ht.step_eq hlive ha h]
  exact .inr ⟨ht, hlive⟩

lemma lowestAt_step_iff {bs : List Blk} (i : Inv s.heap bs)
    (hlive : s.live.Perm ((usedAt 0 bs).map (payloadAt s.heap))) (hlow : LowestAt s.heap.lfree bs)
    (ha : Admissible s op) (hfit : CallocFits op) (h : step s op = some s') :
    ∃ bs', Inv s'.heap bs' ∧ (LowestAt s'.heap.lfree bs' ↔ KeepsLfree s op) := by
  have hmalloc : ∀ n r, rtMalloc s.heap n = some r →
      ∃ bs', Inv r.1 bs' ∧ LowestAt r.1.lfree bs' := by
    intro n r hr
    rcases rtMalloc_spec i n with ⟨hm, -⟩ | ⟨h', bs', o, k, hm, i', -, -, -, -, hkeep, -⟩
    · obtain rfl := Option.some.inj (hm.symm.trans hr)
      exact ⟨bs, i, hlow⟩
    obtain rfl := Option.some.inj (hm.symm.trans hr)
    exact ⟨bs', i', hkeep hlow⟩
  have hlift : (∃ bs', Inv s'.heap bs' ∧ LowestAt s'.heap.lfree bs') → KeepsLfree s op →
      ∃ bs', Inv s'.heap bs' ∧ (LowestAt s'.heap.lfree bs' ↔ KeepsLfree s op) :=
    fun ⟨bs', i', hlow'⟩ hkeep => ⟨bs', i', fun _ => hkeep, fun _ => hlow'⟩
  cases op with
  | malloc n =>
    obtain ⟨r, hr, rfl⟩ := map_eq_some_iff.mp h
    exact hlift (hmalloc n r hr) trivial
  | calloc count size =>
    refine hlift ?_ trivial
    obtain ⟨r, hr, rfl⟩ := map_eq_some_iff.mp h
    rcases rtCalloc_spec i hfit with hm | ⟨h', bs', o, k, hm, i', -, -, -, hkeep⟩
    · obtain rfl := Option.some.inj (hm.symm.trans hr)
      exact ⟨bs, i, hlow⟩
    obtain rfl := Option.some.inj (hm.symm.trans hr)
    exact ⟨bs', i', hkeep hlow⟩
  | realloc p n =>
    obtain ⟨r, hr, rfl⟩ := map_eq_some_iff.mp h
    rcases ha with rfl | hp
    · -- `RT_NULL` is reallocated by `rt_malloc`
      refine hlift ?_ fun hne => absurd rfl hne
      rw [rtRealloc] at hr
      simp only [if_true] at hr
      split at hr
      · cases hr
        exact ⟨bs, i, hlow⟩
      exact hmalloc _ r hr
    obtain ⟨⟨o, k⟩, hq, rfl⟩ := List.mem_map.mp (hlive.mem_iff.mp hp)
    obtain ⟨h', bs', q, hm, i', -, -, -, hkeep, -⟩ := rtRealloc_spec i hq n
    obtain rfl := Option.some.inj (hm.symm.trans hr)
    refine ⟨bs', i', (hkeep hlow).trans ?_⟩
    have hsize : s.heap.next o - o = k := by
      rw [(i.used_bounds hq).2.2.2.2, Nat.add_sub_cancel_left]
    simp only [KeepsLfree, payloadAt, i.headerOf_eq hq, hsize]
    exact ⟨fun hcut _ => hcut, fun hcut => hcut (by omega)⟩
  | free p =>
    refine hlift ?_ trivial
    obtain ⟨r, hr, rfl⟩ := map_eq_some_iff.mp h
    rcases ha with rfl | hp
    · cases hr
      exact ⟨bs, i, hlow⟩
    obtain ⟨q, hq, rfl⟩ := List.mem_map.mp (hlive.mem_iff.mp hp)
    obtain ⟨h', bs', hm, i', -, -, hkeep, -⟩ := rtFree_spec i hq
    obtain rfl := Option.some.inj (hm.symm.trans hr)
    exact ⟨bs', i', hkeep hlow⟩
  | store a v =>
    cases h
    exact hlift ⟨bs, i.store hlive ha, hlow⟩ trivial

lemma lowestFree_step_iff (hs : Sound s) (ha : Admissible s op) (hfit : CallocFits op)
    (hlow : LowestFree s.heap) (h : step s op = some s') :
    LowestFree s'.heap ↔ KeepsLfree s op := by
  rcases hs with ⟨bs, i, hlive⟩ | ⟨ht, hlive⟩
  · have hlow' := (lowestFree_iff_lowestAt i.tiles i.lfree).mp hlow
    obtain ⟨bs', i', hiff⟩ := lowestAt_step_iff i hlive hlow' ha hfit h
    exact (lowestFree_iff_lowestAt i'.tiles i'.lfree).trans hiff
  rw [ht.step_eq hlive ha h]
  refine ⟨fun _ => ?_, fun _ => hlow⟩
  cases op with
  | realloc p n =>
    rw [Admissible, hlive] at ha
    exact fun hne => absurd (ha.resolve_right (by simp)) hne
  | malloc _ => trivial
  | calloc _ _ => trivial
  | free _ => trivial
  | store _ _ => trivial

end

lemma rtSystemHeapInit_sound {m : Mem} {beginAddr endAddr : Nat}
    (hlt : endAddr < wordSize) (hinit : rtSystemHeapInit m beginAddr endAddr = some h) :
    Sound ⟨h, []⟩ ∧ LowestFree h := by
  have i := rtSystemHeapInit_spec hlt hinit
  refine ⟨?_, (lowestFree_iff_lowestAt i.first i.lfreeOk).mpr fun o _ => ?_⟩
  · by_cases hM : 12 ≤ h.memSizeAligned
    · exact .inl (rtSystemHeapInit_ok hlt hinit hM)
    exact .inr ⟨⟨i, Nat.lt_of_not_le hM⟩, rfl⟩
  rw [i.lfree]
  exact Nat.zero_le o

/-- **The lowest free block.** On every arena, along every run of calls with live pointers whose
`rt_calloc` products can be rounded up, no state has a free block below `lfree` if and only if
every `rt_realloc` that cuts a block in two does so above `lfree`, or right in front of the free
block that `lfree` points to. -/
theorem lowestFree_iff (m : Mem) (beginAddr endAddr : Nat) (h : Heap)
    (hlt : endAddr < wordSize) (hinit : rtSystemHeapInit m beginAddr endAddr = some h)
    (ops : List Op) (s : State)
    (hops : Meets step (fun s op => Admissible s op ∧ CallocFits op) ⟨h, []⟩ ops)
    (hrun : exec step ⟨h, []⟩ ops = some s) :
    (∀ t, Reached step ⟨h, []⟩ ops t → LowestFree t.heap) ↔ Meets step KeepsLfree ⟨h, []⟩ ops := by
  obtain ⟨hsound, hlow⟩ := rtSystemHeapInit_sound hlt hinit
  refine always_iff_meets (fun t op t' hs hop => ?_) (fun t op t' hs hop => ?_)
    hsound hlow hops hrun
  · exact sound_step hs hop.1 hop.2
  exact lowestFree_step_iff hs hop.1 hop.2

theorem lowestFree_iff_cutLast : ∃ h, rtSystemHeapInit (fun _ => 0xff) 4096 4608 = some h ∧
      ∀ t, Reached step ⟨h, []⟩ [.malloc 4, .malloc 100, .realloc 4132 4] t →
        LowestFree t.heap := by
  obtain ⟨h, hinit, hops, hkeep, hsome⟩ : ∃ h,
      rtSystemHeapInit (fun _ => 0xff) 4096 4608 = some h ∧
      Meets step (fun s op => Admissible s op ∧ CallocFits op) ⟨h, []⟩
        [.malloc 4, .malloc 100, .realloc 4132 4] ∧
      Meets step KeepsLfree ⟨h, []⟩ [.malloc 4, .malloc 100, .realloc 4132 4] ∧
      (exec step ⟨h, []⟩ [.malloc 4, .malloc 100, .realloc 4132 4]).isSome = true := by
    decide +kernel
  obtain ⟨s, hs⟩ := Option.isSome_iff_exists.mp hsome
  exact ⟨h, hinit, (lowestFree_iff (fun _ => 0xff) 4096 4608 h (by decide) hinit _ s hops hs).mpr
    hkeep⟩

lemma Walk.of_ne {o : Nat} {os : List Nat} (hw : Walk h o os) (hne : o ≠ h.heapEnd) :
    ∃ os', os = o :: os' ∧ Walk h (h.next o) os' := by
  cases os with
  | nil => exact absurd hw hne
  | cons x os => exact ⟨os, by rw [hw.1], hw.2.2⟩

/-- Cutting down the first block leaves a hole of 96 bytes at the offset 16, in front of the second
block; `lfree` is 136. -/
theorem realloc_below_lfree : ∃ h s, rtSystemHeapInit (fun _ => 0xff) 4096 4608 = some h ∧
      Meets step Admissible ⟨h, []⟩ [.malloc 100, .malloc 4, .realloc 4108 4] ∧
      exec step ⟨h, []⟩ [.malloc 100, .malloc 4, .realloc 4108 4] = some s ∧
      ¬ LowestFree s.heap := by
  obtain ⟨h, hinit, hops, s, hs, hn, hu, hl, he⟩ : ∃ h,
      rtSystemHeapInit (fun _ => 0xff) 4096 4608 = some h ∧
      Meets step Admissible ⟨h, []⟩ [.malloc 100, .malloc 4, .realloc 4108 4] ∧
      ∃ s, exec step ⟨h, []⟩ [.malloc 100, .malloc 4, .realloc 4108 4] = some s ∧
        s.heap.next 0 = 16 ∧ s.heap.used 16 = 0 ∧ s.heap.lfree = 136 ∧ s.heap.heapEnd = 500 := by
    decide +kernel
  refine ⟨h, s, hinit, hops, hs, ?_⟩
  rintro ⟨os, hw, -, hlow⟩
  -- the walk goes from the first block to the hole
  obtain ⟨os, rfl, hw'⟩ := hw.of_ne (by omega)
  rw [hn] at hw'
  obtain ⟨os, rfl, -⟩ := hw'.of_ne (by omega)
  have := hlow 16 (by simp) hu
  omega

end NbIot.SmallMem
