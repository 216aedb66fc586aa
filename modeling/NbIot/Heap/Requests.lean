import NbIot.Heap.Lowest

/-! # What a request gets

* `capacity_iff`: the block that a request returns is large enough, unless `RT_ALIGN` or the product
  of `rt_calloc` wraps and there is room for what is left of it.
* `malloc_complete_iff`: `RT_NULL` means that no free block is large enough, unless the large ones
  all begin behind the bound of the search.
* `search_ends_iff`: the search ends in every state of every run exactly on the arenas of at least
  twelve bytes.
-/

namespace NbIot.SmallMem

open Heap Run

/-! ## What a request is given -/

/-- The payload of `q` has at least `n` bytes. -/
def Holds (h : Heap) (q n : Nat) : Prop := q + n ≤ payloadEnd h q

variable {s : State} {bs : List Blk} {h : Heap}

lemma Offers.holds {h h' : Heap} {q n k : Nat} (i : Inv h' bs)
    (hsame : SameArena h h') (ho : Offers h bs q k) (hn : n ≤ k) : Holds h' q n := by
  obtain ⟨o, z, rfl, hmem, hz⟩ := ho
  have hend := i.payloadEnd_eq hmem
  rw [payloadAt, hsame.heapPtr] at hend
  rw [Holds, hend]
  omega

lemma malloc_holds (hs : Sound s) {n q : Nat} {h' : Heap} (hn : n ≤ wordSize - 4)
    (hm : rtMalloc s.heap n = some (h', q)) (hq : q ≠ 0) : Holds h' q n := by
  rcases hs with ⟨bs, i, -⟩ | ⟨ht, -⟩
  · rcases rtMalloc_spec i n with ⟨hm', -⟩ | ⟨g, bs', o, z, hm', i', hsame, hperm, hz, -⟩
    · cases hm'.symm.trans hm
      exact absurd rfl hq
    cases hm'.symm.trans hm
    exact Offers.holds i' hsame ⟨o, z, rfl, hperm.mem_iff.mpr List.mem_cons_self, hz⟩
      (le_rtAlign hn)
  cases ht.rtMalloc_eq hm
  exact absurd rfl hq

/-- A free block with at least `size` bytes. -/
def FreeFor (h : Heap) (size o : Nat) : Prop :=
  ∃ os, Walk h 0 os ∧ o ∈ os ∧ h.used o = 0 ∧ size ≤ h.next o - (o + 12)

lemma freeFor_iff (t : Tiles h bs) {size o : Nat} (h0 : 0 < size) :
    FreeFor h size o ↔ o ∈ freeAt 0 bs ∧ FitsAt h size o := by
  have hwalk : Walk h 0 (offsets 0 bs) := seg_walk t.seg (by rw [zero_add, t.fills])
  rw [← t.free_iff, FitsAt]
  constructor
  · rintro ⟨os, hw, ho, hu, hsize⟩
    rw [walk_unique hwalk hw]
    exact ⟨⟨ho, hu⟩, by omega⟩
  rintro ⟨⟨ho, hu⟩, hsize⟩
  exact ⟨_, hwalk, ho, hu, by omega⟩

lemma Tiny.not_freeFor (ht : Tiny h) {size o : Nat} (hsize : 12 ≤ size) : ¬ FreeFor h size o := by
  intro ho
  obtain ⟨hmem, hfit⟩ := (freeFor_iff ht.initial.first (by omega)).mp ho
  obtain rfl : o = 0 := by simpa [freeAt] using hmem
  have hsmall := ht.small
  rw [FitsAt, ht.initial.next_zero, ht.initial.heapEnd] at hfit
  unfold minSize at hsmall
  omega

/-! ## Requests for too much -/

/-- `rt_malloc(n)` finds nothing: the size is 0 or beyond the arena, or every free block from
`lfree` on is too small or begins behind the bound of the search. -/
def Refused (h : Heap) (n : Nat) : Prop :=
  ∀ size, searchSize h n = some size → ∀ o, FreeFor h size o → h.lfree ≤ o →
    h.memSizeAligned ≤ o + size

lemma le_searchSize {n size : Nat} (h : searchSize h n = some size) : 12 ≤ size := by
  unfold searchSize minSize at h
  split at h
  · cases h
  cases h
  split <;> omega

lemma refused_iff (hs : Sound s) (n : Nat) :
    Refused s.heap n ↔ ∀ h' q, rtMalloc s.heap n = some (h', q) → q = 0 := by
  rcases hs with ⟨bs, i, -⟩ | ⟨ht, -⟩
  · have hfree : ∀ {size o}, searchSize s.heap n = some size →
        (FreeFor s.heap size o ↔ o ∈ freeAt 0 bs ∧ FitsAt s.heap size o) := fun hsize =>
      freeFor_iff i.tiles (by have := le_searchSize hsize; omega)
    rcases rtMalloc_spec i n with ⟨hm, hfar⟩ |
      ⟨g, bs', o, z, hm, -, -, -, -, ⟨size, hsize, q, hq, hlow, hfit, hlt⟩, -⟩
    · refine iff_of_true (fun size hsize o ho hlow => ?_) fun h' q hr => ?_
      · obtain ⟨hmem, hfit⟩ := (hfree hsize).mp ho
        exact hfar size hsize o hmem hlow hfit
      cases hm.symm.trans hr
      rfl
    refine iff_of_false (fun href => ?_) fun hnull => absurd (hnull _ _ hm) (by omega)
    have := href size hsize q ((hfree hsize).mpr ⟨hq, hfit⟩) hlow
    omega
  refine iff_of_true (fun size hsize o ho _ => ?_) fun h' q hr => ?_
  · exact absurd ho (ht.not_freeFor (le_searchSize hsize))
  cases ht.rtMalloc_eq hr
  rfl

/-- What a request for `n` bytes owes: a pointer other than `RT_NULL` has them. -/
def Granted (r : Option (Heap × Nat)) (n : Nat) : Prop :=
  ∀ h' q, r = some (h', q) → q ≠ 0 → Holds h' q n

lemma malloc_ptr (hs : Sound s) {n q : Nat} {h' : Heap} (hm : rtMalloc s.heap n = some (h', q))
    (hq : q ≠ 0) : h'.heapPtr + 12 ≤ q := by
  rcases hs with ⟨bs, i, -⟩ | ⟨ht, -⟩
  · rcases rtMalloc_spec i n with ⟨hm', -⟩ | ⟨g, bs', o, z, hm', -, hsame, -⟩
    · cases hm'.symm.trans hm
      exact absurd rfl hq
    cases hm'.symm.trans hm
    rw [hsame.heapPtr]
    omega
  cases ht.rtMalloc_eq hm
  exact absurd rfl hq

/-- No block has almost `2 ^ 32` bytes. -/
lemma not_holds {q n : Nat} (hq : h.heapPtr + 12 ≤ q) (hn : wordSize - 4 < n) : ¬ Holds h q n := by
  have hnext : h.next (headerOf h q) < wordSize := Mem.load_lt _ _ _
  unfold Holds payloadEnd
  omega

lemma malloc_granted_iff (hs : Sound s) (n : Nat) :
    Granted (rtMalloc s.heap n) n ↔ n ≤ wordSize - 4 ∨ Refused s.heap n := by
  rw [refused_iff hs]
  constructor
  · intro hgranted
    by_contra hno
    obtain ⟨hn, hno⟩ := not_or.mp hno
    refine hno fun h' q hm => ?_
    by_contra hq
    exact not_holds (malloc_ptr hs hm hq) (not_le.mp hn) (hgranted h' q hm hq)
  rintro (hn | hnull) h' q hm hq
  · exact malloc_holds hs hn hm hq
  exact absurd (hnull h' q hm) hq

/-- A pointer from `rt_calloc` is one from `rt_malloc`, to memory that is cleared then. -/
lemma rtCalloc_eq_some_iff {h' : Heap} {count size q : Nat} (hq : q ≠ 0) :
    rtCalloc h count size = some (h', q) ↔
      ∃ g, rtMalloc h (count * size % wordSize) = some (g, q) ∧
        h' = { g with mem := g.mem.fill q (count * size % wordSize) 0 } := by
  simp only [rtCalloc, Option.map_eq_some_iff]
  constructor
  · rintro ⟨⟨g, p⟩, hm, he⟩
    dsimp only at he
    split at he
    · cases he
      exact ⟨g, hm, rfl⟩
    cases he
    exact absurd ‹_› (not_not_intro hq)
  rintro ⟨g, hm, rfl⟩
  exact ⟨(g, q), hm, by rw [if_pos hq]⟩

lemma calloc_granted_iff (hs : Sound s) (count size : Nat) :
    Granted (rtCalloc s.heap count size) (count * size) ↔
      count * size ≤ wordSize - 4 ∨ Refused s.heap (count * size % wordSize) := by
  rw [refused_iff hs]
  constructor
  · intro hgranted
    by_contra hno
    obtain ⟨hn, hno⟩ := not_or.mp hno
    refine hno fun g q hm => ?_
    by_contra hq
    -- the payload ends where it ended before it was cleared
    have hptr := malloc_ptr hs hm hq
    have hholds := hgranted _ q ((rtCalloc_eq_some_iff hq).mpr ⟨g, hm, rfl⟩) hq
    refine absurd hholds (not_holds ?_ (not_le.mp hn))
    exact hptr
  rintro (hn | hnull) h' q hm hq
  · have hmod : count * size % wordSize = count * size :=
      Nat.mod_eq_of_lt (lt_of_le_of_lt hn (by decide))
    rcases hs with ⟨bs, i, -⟩ | ⟨ht, -⟩
    · rcases rtCalloc_spec i (by rwa [hmod]) with hm' | ⟨g, bs', o, z, hm', i', hsame, hperm, hz, -⟩
      · cases hm'.symm.trans hm
        exact absurd rfl hq
      cases hm'.symm.trans hm
      rw [hmod] at hz
      exact Offers.holds i' hsame ⟨o, z, rfl, hperm.mem_iff.mpr List.mem_cons_self, hz⟩
        (le_rtAlign hn)
    obtain ⟨g, hg, -⟩ := (rtCalloc_eq_some_iff hq).mp hm
    cases ht.rtMalloc_eq hg
    exact absurd rfl hq
  obtain ⟨g, hg, -⟩ := (rtCalloc_eq_some_iff hq).mp hm
  exact absurd (hnull g q hg) hq

lemma rtAlign_wraps {n : Nat} (hn : wordSize - 4 < n) (hlt : n < wordSize) :
    rtAlign n alignSize = 0 := by
  unfold rtAlign alignSize add32 wordSize at *
  omega

/-- With a size that is rounded to 0, `rt_realloc` leaves a block without payload as it is, cuts off
one of more than 24 bytes, and asks `rt_malloc(0)` for any other. -/
lemma realloc_null_iff (i : Inv h bs) {o z n : Nat} (hq : (o, z) ∈ usedAt 0 bs)
    (hn : rtAlign n alignSize = 0) :
    (∃ h', rtRealloc h (h.heapPtr + o + 12) n = some (h', 0)) ↔ 12 < z ∧ z ≤ 36 := by
  have hin : o + 12 < h.heapEnd := i.inside _ hq
  have hb := i.used_bounds hq
  have hroom := i.arena.room
  have hend := i.arena.heapEnd
  rw [rtRealloc]
  simp only [i.headerOf_eq hq, hb.2.2.2.2, sizeofMem, minSize, hn]
  rw [if_neg (by omega), if_neg (by omega), if_neg (by omega),
    sub32_of_le (a := o + z) (by omega) (by omega), Nat.add_sub_cancel_left,
    sub32_of_le (by omega) (by omega), add32_of_lt (a := 0) (by decide), add32_of_lt (by decide)]
  by_cases heq : z - 12 = 0
  · rw [if_pos heq]
    refine iff_of_false ?_ (by omega)
    rintro ⟨h', he⟩
    cases he
  rw [if_neg heq]
  by_cases hsmall : 0 + 12 + 12 < z - 12
  · obtain ⟨h', bs', hp, -⟩ := shrink_spec i hq (n := 0) rfl hsmall
    rw [if_pos hsmall, sub32_of_le (a := z - 12) (by omega) (by omega),
      add32_of_lt (a := o) (by omega), add32_of_lt (by omega), hp]
    refine iff_of_false ?_ (by omega)
    rintro ⟨g, he⟩
    cases he
  rw [if_neg hsmall, rtMalloc, if_pos rfl]
  exact iff_of_true ⟨h, rfl⟩ (by omega)

lemma realloc_granted_iff (hs : Sound s) {p n : Nat} (hp : p ∈ s.live) (hlt : n < wordSize) :
    Granted (rtRealloc s.heap p n) n ↔
      n ≤ wordSize - 4 ∨ p < payloadEnd s.heap p ∧ payloadEnd s.heap p ≤ p + 24 := by
  rcases hs with ⟨bs, i, hlive⟩ | ⟨-, hnil⟩
  · obtain ⟨⟨o, z⟩, hmem, rfl⟩ := List.mem_map.mp (hlive.mem_iff.mp hp)
    obtain ⟨g, bs', q, hm, i', hsame, -, hoff, -⟩ := rtRealloc_spec i hmem n
    have hb := i.used_bounds hmem
    have hresult : Granted (rtRealloc s.heap (payloadAt s.heap (o, z)) n) n ↔
        (q ≠ 0 → Holds g q n) := by
      refine ⟨fun hgranted => hgranted g q hm, fun hholds h' r hr => ?_⟩
      cases hm.symm.trans hr
      exact hholds
    rw [hresult, i.payloadEnd_eq hmem]
    by_cases hn : n ≤ wordSize - 4
    · exact iff_of_true (fun hq => (hoff hq).holds i' hsame (le_rtAlign hn)) (.inl hn)
    have hnull := realloc_null_iff i hmem (rtAlign_wraps (not_le.mp hn) hlt)
    have hzero : q = 0 ↔ 12 < z ∧ z ≤ 36 := by
      rw [← hnull]
      refine ⟨fun h0 => ⟨g, h0 ▸ hm⟩, ?_⟩
      rintro ⟨h', hr⟩
      cases hm.symm.trans hr
      rfl
    have hholds : (q ≠ 0 → Holds g q n) ↔ q = 0 := by
      refine ⟨fun hholds => ?_, fun h0 hq => absurd h0 hq⟩
      by_contra hq
      obtain ⟨o', z', rfl, -⟩ := hoff hq
      exact not_holds (by rw [hsame.heapPtr]; omega) (not_le.mp hn) (hholds hq)
    rw [hholds, hzero, payloadAt]
    dsimp only
    omega
  rw [hnil] at hp
  simp at hp

/-- **Capacity.** In every heap with a list of blocks, or too small to be used, and for every 32-bit
size: a request has what it asks for, unless it returns `RT_NULL`, if and only if the number of
bytes can be rounded up to a multiple of four in 32 bits, or the request is refused with what is
left of the number. -/
theorem capacity_iff (s : State) (hs : Sound s) :
    (∀ n, Granted (rtMalloc s.heap n) n ↔ n ≤ wordSize - 4 ∨ Refused s.heap n) ∧
    (∀ n < wordSize, Granted (rtRealloc s.heap 0 n) n) ∧
    (∀ p ∈ s.live, ∀ n < wordSize, Granted (rtRealloc s.heap p n) n ↔
      n ≤ wordSize - 4 ∨ p < payloadEnd s.heap p ∧ payloadEnd s.heap p ≤ p + 24) ∧
    ∀ count size, Granted (rtCalloc s.heap count size) (count * size) ↔
      count * size ≤ wordSize - 4 ∨ Refused s.heap (count * size % wordSize) := by
  refine ⟨malloc_granted_iff hs, fun n hlt h' q hm hq => ?_,
    fun p hp n hlt => realloc_granted_iff hs hp hlt, calloc_granted_iff hs⟩
  -- `RT_NULL` is reallocated by `rt_malloc` of the size that has been rounded up
  rw [rtRealloc] at hm
  simp only [if_true] at hm
  split at hm
  · cases hm
    exact absurd rfl hq
  by_cases hn : n ≤ wordSize - 4
  · have hholds := malloc_holds hs (rtAlign_le n) hm hq
    have hle := le_rtAlign hn
    unfold Holds at hholds ⊢
    omega
  rw [rtAlign_wraps (not_le.mp hn) hlt, rtMalloc, if_pos rfl] at hm
  cases hm
  exact absurd rfl hq

lemma init_sixty : ∃ h, rtSystemHeapInit (fun _ => 0xff) 4096 4156 = some h ∧
    h.memSizeAligned = 36 ∧ (∃ r, rtMalloc h 36 = some r ∧ r.2 = 0) ∧
    ∃ s, exec step ⟨h, []⟩ [.malloc 4] = some s ∧ s.live = [4108] ∧
      ∃ r, rtRealloc s.heap 4108 12 = some r ∧ r.2 = 4108 := by decide +kernel

theorem capacity_iff_twelve : ∃ h s h', rtSystemHeapInit (fun _ => 0xff) 4096 4156 = some h ∧
      exec step ⟨h, []⟩ [.malloc 4] = some s ∧ rtRealloc s.heap 4108 12 = some (h', 4108) ∧
      Holds h' 4108 12 := by
  obtain ⟨h, hinit, hM, -, s, hs, hlive, ⟨h', q⟩, hr, rfl⟩ := init_sixty
  have hok := rtSystemHeapInit_ok (by decide) hinit (by omega)
  obtain ⟨t, ht, hok⟩ := malloc_ok hok 4
  cases (exec_cons_eq_some.mpr ⟨t, ht, rfl⟩).symm.trans hs
  exact ⟨h, s, h', hinit, hs, hr, (((capacity_iff s (.inl hok)).2.2.1 4108 (by simp [hlive]) 12
    (by decide)).mpr (.inl (by decide))) h' 4108 hr (by decide)⟩

/-- `RT_ALIGN` makes 0 of 4294967295, and `4 * 1073741825` is 4: in both cases a block of twelve
bytes is returned. -/
theorem twelve_bytes_for_more : ((rtSystemHeapInit (fun _ => 0xff) 4096 4156).bind fun h =>
      (rtMalloc h 0xffffffff).bind fun r => (rtCalloc h 4 1073741825).map fun r' =>
        ((r.2, payloadEnd r.1 r.2), r'.2, payloadEnd r'.1 r'.2)) =
      some ((4108, 4120), 4108, 4120) := by decide +kernel

/-! ## Contents -/

/-- **Contents.** In every state of every run of calls with live pointers whose `rt_calloc` products
can be rounded up, a `rt_realloc` of a live pointer `p` to at most `2 ^ 32 - 4` bytes returns. If
the result is not `RT_NULL`, the bytes of `p` are behind it, as far as both sizes go; otherwise `p`
is still live, with all its bytes. No byte of another live block changes. -/
theorem realloc_contents (m : Mem) (beginAddr endAddr : Nat) (h : Heap) (hlt : endAddr < wordSize)
    (hinit : rtSystemHeapInit m beginAddr endAddr = some h) (ops : List Op) (s : State)
    (hops : Meets step (fun s op => Admissible s op ∧ CallocFits op) ⟨h, []⟩ ops)
    (hrun : exec step ⟨h, []⟩ ops = some s) (p n : Nat) (hp : p ∈ s.live) (hn : n ≤ wordSize - 4) :
    ∃ h' q, rtRealloc s.heap p n = some (h', q) ∧
      (q ≠ 0 → ∀ k < min (payloadEnd s.heap p - p) n, h'.mem (q + k) = s.heap.mem (p + k)) ∧
      (q = 0 → (∃ os, WellFormed ⟨h', s.live⟩ os) ∧
        s.heap.mem.Agree h'.mem p (payloadEnd s.heap p)) ∧
      ∀ r ∈ s.live, r ≠ p → s.heap.mem.Agree h'.mem r (payloadEnd s.heap r) := by
  have hsound : Sound s := inv_of_meets (fun t op t' hs hop => sound_step hs hop.1 hop.2)
    (rtSystemHeapInit_sound hlt hinit).1 hops hrun
  have hok : Ok s := hsound.resolve_right fun ⟨_, hnil⟩ => by simp [hnil] at hp
  obtain ⟨s', hs', hok'⟩ := realloc_ok hok (.inr hp) n
  obtain ⟨bs, i, hlive⟩ := hok
  obtain ⟨⟨o, z⟩, hq, rfl⟩ := List.mem_map.mp (hlive.mem_iff.mp hp)
  obtain ⟨h', bs', q, hr, -, -, -, -, -, hnull, hdata, hothers⟩ := rtRealloc_spec i hq n
  have hle := le_rtAlign hn
  have hend := i.payloadEnd_eq hq
  refine ⟨h', q, hr, fun h0 k hk => ?_, fun h0 => ⟨?_, ?_⟩, fun r hr hne => ?_⟩
  · rw [hend, payloadAt] at hk
    exact hdata h0 k (by omega)
  · rw [step, payloadAt, hr, h0] at hs'
    cases hs'
    exact hok'.wellFormed
  · rw [hend]
    exact hnull h0
  obtain ⟨r, hmem, rfl⟩ := List.mem_map.mp (hlive.mem_iff.mp hr)
  rw [i.payloadEnd_eq hmem]
  exact hothers r hmem fun he => hne (by rw [he])

theorem realloc_contents_moved : ∃ h s h', rtSystemHeapInit (fun _ => 0xff) 4096 4608 = some h ∧
      exec step ⟨h, []⟩ [.malloc 12, .malloc 12, .store 4108 7] = some s ∧
      rtRealloc s.heap 4108 40 = some (h', 4156) ∧ h'.mem 4156 = 7 := by
  obtain ⟨h, hinit, hops, s, hs, hlive, hbyte, hend, ⟨h', q⟩, hr, rfl⟩ : ∃ h,
      rtSystemHeapInit (fun _ => 0xff) 4096 4608 = some h ∧
      Meets step (fun s op => Admissible s op ∧ CallocFits op) ⟨h, []⟩
        [.malloc 12, .malloc 12, .store 4108 7] ∧
      ∃ s, exec step ⟨h, []⟩ [.malloc 12, .malloc 12, .store 4108 7] = some s ∧
        s.live = [4132, 4108] ∧ s.heap.mem 4108 = 7 ∧ payloadEnd s.heap 4108 = 4120 ∧
        ∃ r, rtRealloc s.heap 4108 40 = some r ∧ r.2 = 4156 := by decide +kernel
  obtain ⟨g, q, hr', hdata, -⟩ := realloc_contents (fun _ => 0xff) 4096 4608 h (by decide) hinit _ s
    hops hs 4108 40 (by simp [hlive]) (by decide)
  cases hr'.symm.trans hr
  exact ⟨h, s, h', hinit, hs, hr, (hdata (by decide) 0 (by rw [hend]; decide)).trans hbyte⟩

/-! ## Completeness -/

lemma malloc_null_iff (i : Inv h bs) (hlow : LowestAt h.lfree bs)
    {n size : Nat} (hsize : searchSize h n = some size) :
    (∃ h', rtMalloc h n = some (h', 0)) ↔ ∀ o, FreeFor h size o → h.memSizeAligned ≤ o + size := by
  have h0 := le_searchSize hsize
  simp only [freeFor_iff i.tiles (show 0 < size by omega)]
  rcases rtMalloc_spec i n with
    ⟨hm, hfar⟩ | ⟨h', bs', o, z, hm, -, -, -, -, ⟨size', hs', hfound⟩, -⟩
  · exact ⟨fun _ o ho => hfar size hsize o ho.1 (hlow o ho.1) ho.2, fun _ => ⟨h, hm⟩⟩
  constructor
  · rintro ⟨g, hg⟩
    cases hm.symm.trans hg
  intro hall
  obtain ⟨q, hq, -, hfit, hlt⟩ := hfound
  cases hs'.symm.trans hsize
  exact absurd (hall q ⟨hq, hfit⟩) (by omega)

/-- **Completeness.** In every heap in which `lfree` is the lowest free block, `rt_malloc(n)`
returns `RT_NULL` only if no free block is large enough, if and only if one of those that are large
enough begins more than the aligned size in front of `mem_size_aligned`: the bound of the search
leaves out an exact fit in the last block. -/
theorem malloc_complete_iff (s : State) (hs : Sound s) (hlow : LowestFree s.heap) (n size : Nat)
    (hn : 1 ≤ n) (hM : n ≤ s.heap.memSizeAligned) (hsize : size = max 12 ((n + 3) / 4 * 4)) :
    ((∃ h', rtMalloc s.heap n = some (h', 0)) → ∀ o, ¬ FreeFor s.heap size o) ↔
      ((∃ o, FreeFor s.heap size o) →
        ∃ o, FreeFor s.heap size o ∧ o + size < s.heap.memSizeAligned) := by
  rcases hs with ⟨bs, i, -⟩ | ⟨ht, -⟩
  · have hsearch : searchSize s.heap n = some size := by
      have hmod := seg_aligned i.tiles.seg rfl (0 + total bs) (by simp)
      have hfill := i.tiles.fills
      have hend := i.arena.heapEnd
      have hroom := i.arena.room
      have halign : rtAlign n alignSize = (n + 3) / 4 * 4 := by
        unfold rtAlign alignSize add32 wordSize at *
        omega
      rw [searchSize, minSize, if_neg (by omega)]
      exact congrArg some (by split <;> omega)
    rw [malloc_null_iff i ((lowestFree_iff_lowestAt i.tiles i.lfree).mp hlow) hsearch]
    constructor
    · rintro hnone ⟨o, ho⟩
      by_contra hall
      exact hnone (fun q hq => not_lt.mp fun hlt => hall ⟨q, hq, hlt⟩) o ho
    intro hsome hall o ho
    obtain ⟨q, hq, hlt⟩ := hsome ⟨o, ho⟩
    exact absurd (hall q hq) (by omega)
  -- no block of a tiny arena has twelve bytes
  have hnone : ∀ o, ¬ FreeFor s.heap size o := fun o => ht.not_freeFor (by omega)
  exact ⟨fun _ hex => hex.elim fun o ho => absurd ho (hnone o), fun _ _ => hnone⟩

lemma Initial.freeFor (i : Initial h) {size : Nat} (h0 : 0 < size)
    (hM : size ≤ h.memSizeAligned) : FreeFor h size 0 := by
  refine (freeFor_iff i.first h0).mpr ⟨by simp [freeAt], ?_⟩
  rw [FitsAt, i.next_zero, i.heapEnd]
  omega

theorem malloc_complete_iff_part : ∃ h, rtSystemHeapInit (fun _ => 0xff) 4096 4156 = some h ∧
      ((∃ h', rtMalloc h 24 = some (h', 0)) → ∀ o, ¬ FreeFor h 24 o) := by
  obtain ⟨h, hinit, hM, -⟩ := init_sixty
  obtain ⟨hsound, hlow⟩ := rtSystemHeapInit_sound (by decide) hinit
  have hfree : FreeFor h 24 0 :=
    (rtSystemHeapInit_spec (by decide) hinit).freeFor (by decide) (by omega)
  exact ⟨h, hinit, (malloc_complete_iff ⟨h, []⟩ hsound hlow 24 24 (by decide) (by simp only; omega)
    rfl).mpr fun _ => ⟨0, hfree, by simp only; omega⟩⟩

/-- `rt_malloc(36)` returns `RT_NULL`, although this block has 36 bytes. -/
theorem wholeArena_not_found :
    ∃ h, rtSystemHeapInit (fun _ => 0xff) 4096 4156 = some h ∧ LowestFree h ∧
      (∃ h', rtMalloc h 36 = some (h', 0)) ∧ FreeFor h 36 0 := by
  obtain ⟨h, hinit, hM, ⟨⟨h', q⟩, hm, rfl⟩, -⟩ := init_sixty
  exact ⟨h, hinit, (rtSystemHeapInit_sound (by decide) hinit).2, ⟨h', hm⟩,
    (rtSystemHeapInit_spec (by decide) hinit).freeFor (by decide) (by omega)⟩

/-! ## The search -/

/-- The search of `rt_malloc(n)` ends. -/
def SearchEnds (h : Heap) (n : Nat) : Prop :=
  ∀ size, searchSize h n = some size → ∃ fuel, (searchFit h size fuel h.lfree).isSome

lemma Ok.searchEnds (hs : Ok s) (n : Nat) : SearchEnds s.heap n := by
  intro size hsize
  obtain ⟨bs, i, -⟩ := hs
  obtain ⟨pre, post, rfl, hstart⟩ := i.lfree.cut i.tiles
  refine ⟨post.length + 1, ?_⟩
  rw [hstart]
  rcases searchFit_spec i.tiles i.arena (searchSize_bounds i.arena hsize).2.2.1
    (Nat.lt_succ_self post.length) with ⟨hf, -⟩ | ⟨xs, z, ys, -, -, -, -, hf⟩
  · rw [hf]
    rfl
  rw [hf]
  rfl

lemma Tiny.not_searchEnds (ht : Tiny h) : ¬ SearchEnds h 0xffffffff := by
  intro hends
  have hzero : rtAlign 0xffffffff alignSize = 0 := by
    simp [rtAlign, alignSize, add32, wordSize]
  obtain ⟨fuel, hf⟩ := hends minSize (by simp [searchSize, hzero, minSize])
  rw [ht.initial.lfree, ht.searchFit_eq (.inl rfl)] at hf
  exact absurd hf (by simp)

/-- **The search ends.** On an arena that `rt_system_heap_init` accepts, the search ends for every
request in every state of every run of calls with live pointers whose `rt_calloc` products can be
rounded up, if and only if the arena has at least twelve bytes. -/
theorem search_ends_iff (m : Mem) (beginAddr endAddr : Nat) (h : Heap) (hlt : endAddr < wordSize)
    (hinit : rtSystemHeapInit m beginAddr endAddr = some h) :
    (∀ ops s n, Meets step (fun s op => Admissible s op ∧ CallocFits op) ⟨h, []⟩ ops →
      exec step ⟨h, []⟩ ops = some s → SearchEnds s.heap n) ↔ 12 ≤ h.memSizeAligned := by
  constructor
  · intro hall
    by_contra hM
    have ht : Tiny h := ⟨rtSystemHeapInit_spec hlt hinit, Nat.lt_of_not_le hM⟩
    exact ht.not_searchEnds (hall [] ⟨h, []⟩ _ trivial rfl)
  intro hM ops s n hops hrun
  obtain ⟨t, ht, hok⟩ := exec_isSome_of_meets (fun s op hs hop => step_ok hs hop.1 hop.2)
    (rtSystemHeapInit_ok hlt hinit hM) hops
  cases ht.symm.trans hrun
  exact hok.searchEnds n

theorem search_ends_iff_sixty :
    ∃ h, rtSystemHeapInit (fun _ => 0xff) 4096 4156 = some h ∧ ∀ n, SearchEnds h n := by
  obtain ⟨h, hinit, hM, -⟩ := init_sixty
  exact ⟨h, hinit, fun n => (search_ends_iff (fun _ => 0xff) 4096 4156 h (by decide) hinit).mpr
    (by omega) [] ⟨h, []⟩ n trivial rfl⟩

/-- An arena of four bytes is accepted, and `rt_malloc(1)` does not return: the bound of the search,
`4 - 12`, has wrapped around. -/
theorem search_spins :
    ∃ h, rtSystemHeapInit (fun _ => 0xff) 4096 4124 = some h ∧ searchSize h 1 = some 12 ∧
      ∀ fuel, searchFit h 12 fuel h.lfree = none := by
  obtain ⟨h, hinit, hM, hsize⟩ : ∃ h, rtSystemHeapInit (fun _ => 0xff) 4096 4124 = some h ∧
      h.memSizeAligned = 4 ∧ searchSize h 1 = some 12 := by decide +kernel
  have ht : Tiny h := ⟨rtSystemHeapInit_spec (by decide) hinit, by rw [hM]; decide⟩
  refine ⟨h, hinit, hsize, fun fuel => ?_⟩
  rw [ht.initial.lfree]
  exact ht.searchFit_eq (.inl rfl)

end NbIot.SmallMem
