import NbIot.Basic.Run
import NbIot.Memheap.Realloc

/-! # Runs of a memheap

The heap as a system: the calls of an application that keeps the pointers it was given, and the
bytes it writes to the memory behind them. `WellFormed` states the shape of the heap in terms of
the items in memory alone; `wellFormed_of_inv` derives it from the invariant, which
`rt_memheap_init` establishes (`init_outcome`) and every admissible step keeps (`step_ok`).
-/

namespace NbIot.Memheaps

/-! ## The law -/

open SmallMem (rtAlignDown alignSize)
open Run List

/-- The heap at the address `heap` is well formed, `bs` being the items of its blocks and `fs` those
on its free ring. -/
structure WellFormed (s : Heaps) (heap : Nat) (bs fs : List Nat) : Prop where
  /-- One circular list of all blocks. -/
  circle : Circle (s.mem.word · Item.next) (s.mem.word · Item.prev) bs
  first : bs.head? = some (s.heap heap).startAddr
  last : bs.getLast? = some ((s.heap heap).startAddr + (s.heap heap).poolSize - memheapSize)
  /-- Where a block ends, the next one begins. -/
  tiled : bs.IsChain fun a b =>
    minialloc ≤ memitemSize s.mem a ∧ a + memheapSize + memitemSize s.mem a = b
  item : ∀ a ∈ bs, hasMagic s.mem a ∧ s.mem.word a Item.poolPtr = heap
  tailUsed : isUsed s.mem ((s.heap heap).startAddr + (s.heap heap).poolSize - memheapSize)
  /-- The free ring, without repetitions. -/
  ring : Ring (s.mem.word · Item.nextFree) (s.mem.word · Item.prevFree) (s.heap heap).freeList fs
  free : ∀ a, a ∈ fs ↔ a ∈ bs ∧ ¬ isUsed s.mem a
  coalesced : bs.IsChain fun a b => isUsed s.mem a ∨ isUsed s.mem b
  available : (s.heap heap).availableSize
    = ((bs.filter fun a => ¬ isUsed s.mem a).map (memitemSize s.mem)).sum
  maxUsed : (s.heap heap).poolSize - (s.heap heap).availableSize ≤ (s.heap heap).maxUsedSize

variable {L : Layout} {xs : List Blk} {fs : List Nat}

section

variable {s : Heaps} {m₀ m : Mem} {S : List Nat}

lemma isChain_map_addr {R : Nat → Nat → Prop}
    (h : ∀ pre x y post, xs = pre ++ x :: y :: post → R x.addr y.addr) :
    (xs.map Blk.addr).IsChain R := by
  rw [isChain_map]
  exact isChain_iff_forall_rel_of_append_cons_cons.mpr fun x y l1 l2 e => h l1 x y l2 e

lemma Form.filter_free (hf : Form L S m₀ m xs fs) :
    (xs.map Blk.addr).filter (fun a => ¬ isUsed m a) = freeOf xs := by
  rw [List.filter_map]
  congr 1
  refine filter_congr fun x hx => ?_
  have hiff := hf.isUsed_iff hx
  cases hu : x.used <;> simp [hiff, hu]

lemma Form.sum_free (hf : Form L S m₀ m xs fs) :
    ((freeOf xs).map (memitemSize m)).sum = freeBytes xs := by
  -- along the list, starting anywhere
  have hmain : ∀ (r pre : List Blk), xs = pre ++ r →
      ((freeOf r).map (memitemSize m)).sum = freeBytes r := by
    intro r
    induction r with
    | nil => intro pre _; rfl
    | cons x r ih =>
      intro pre hpre
      have hrest := ih (pre ++ [x]) (by simp [hpre])
      cases r with
      | nil =>
        -- the last block is used
        have hlast : x = ⟨L.tail, true⟩ := by
          have h := hf.tiles.last
          rw [hpre, getLast?_concat, Option.some.injEq] at h
          exact h
        simp [hlast, freeBytes]
      | cons y r =>
        rw [hpre] at hf
        have hsize := hf.memitemSize_eq
        rw [freeBytes, freeOf_cons, map_append, List.sum_append, hrest]
        cases x.used <;> simp [hsize]
  exact hmain xs [] rfl

lemma wellFormed_of_inv (hi : Inv L s xs fs) : WellFormed s L.heap (xs.map Blk.addr) fs := by
  obtain ⟨hf, ht⟩ := hi
  have htail : (s.heap L.heap).startAddr + (s.heap L.heap).poolSize - memheapSize = L.tail := by
    rw [ht.startAddr, ht.poolSize]
    rfl
  refine ⟨hf.tiles.circle, ?_, ?_, ?_, ?_, ?_, ?_, ?_, ?_, ?_, ?_⟩
  · rw [head?_map, hf.tiles.first, ht.startAddr]
  · rw [getLast?_map, hf.tiles.last, htail]
    rfl
  · refine isChain_map_addr fun pre x y post e => ?_
    subst e
    have hlt := hf.tiles.toSpans.lt_next
    rw [hf.memitemSize_eq]
    unfold minialloc memheapSize
    omega
  · intro a ha
    obtain ⟨x, hx, rfl⟩ := List.mem_map.mp ha
    exact ⟨hf.hasMagic hx, (hf.tiles.item x hx).2⟩
  · rw [htail]
    exact (hf.isUsed_iff hf.tiles.toSpans.tail_mem).mpr rfl
  · rw [ht.freeList]
    exact hf.free
  · intro a
    rw [ht.free.mem_iff, ← hf.filter_free]
    simp
  · refine isChain_map_addr fun pre x y post e => ?_
    subst e
    have hxy := (isChain_append_cons_cons.mp ht.coalesced).2.1
    exact hxy.imp (hf.isUsed_iff (by simp)).mpr (hf.isUsed_iff (by simp)).mpr
  · rw [hf.filter_free, hf.sum_free, ht.available]
  have := ht.maxUsed
  omega

end

/-! ## The heap at the start -/

/-- The `struct rt_memheap` and the arena fit into the address space and do not overlap; the arena
has room for two items and `RT_MEMHEAP_MINIALLOC` bytes. -/
structure Arena (heap startAddr size : Nat) : Prop where
  heap_fits : heap + freeHeaderOffset + memheapSize ≤ wordSize
  fits : startAddr + size ≤ wordSize
  size_lt : size < wordSize
  room : 2 * memheapSize + minialloc ≤ size
  apart : heap + freeHeaderOffset + memheapSize ≤ startAddr ∨ startAddr + size ≤ heap

attribute [mk_iff] Arena

instance (heap startAddr size : Nat) : Decidable (Arena heap startAddr size) :=
  decidable_of_iff' _ (arena_iff heap startAddr size)

/-- The place of the heap that `rt_memheap_init` makes. -/
def Arena.layout {heap startAddr size : Nat} (ha : Arena heap startAddr size) : Layout :=
  have h : rtAlignDown size alignSize ≤ size ∧ 60 ≤ rtAlignDown size alignSize := by
    have := ha.room
    unfold rtAlignDown alignSize memheapSize minialloc at *
    omega
  have hh := ha.heap_fits
  have hf := ha.fits
  have hs := ha.size_lt
  have hap := ha.apart
  { heap := heap
    start := startAddr
    pool := rtAlignDown size alignSize
    freeList := heap + 44
    heap_lt := by unfold freeHeaderOffset memheapSize at hh; omega
    room := h.2
    fits := by omega
    pool_lt := by omega
    header_fits := by unfold freeHeaderOffset memheapSize at hh; omega
    apart := by unfold freeHeaderOffset memheapSize at hap; omega }

def putItem (F : Nat → Nat → Nat) (i magic poolPtr next prev nextFree prevFree : Nat) :
    Nat → Nat → Nat :=
  put (put (put (put (put (put F i Item.magic magic) i Item.poolPtr poolPtr) i Item.next next)
    i Item.prev prev) i Item.nextFree nextFree) i Item.prevFree prevFree

variable {F : Nat → Nat → Nat}

lemma view_setItem {R : Nat → Prop} {S : List Nat} {m₀ m : Mem}
    {i a b c d e f : Nat} (hv : View 6 R S m₀ m F) (hs : Sites 6 R S) (hi : i ∈ S)
    (ha : a < wordSize) (hb : b < wordSize) (hc : c < wordSize) (hd : d < wordSize)
    (he : e < wordSize) (hf : f < wordSize) :
    View 6 R S m₀ (setItem m i a b c d e f) (putItem F i a b c d e f) :=
  (((((hv.set hs hi (by decide) ha).set hs hi (by decide) hb).set hs hi (by decide) hc).set hs hi
    (by decide) hd).set hs hi (by decide) he).set hs hi (by decide) hf

/-- The words that `rt_memheap_init` leaves in the three items. -/
def initTable (F : Nat → Nat → Nat) (heap hdr start tail : Nat) : Nat → Nat → Nat :=
  putItem (wedge (put (put (putItem (putItem F hdr memheapMagic heap 0 0 hdr hdr)
    start memheapMagic heap 0 0 start start) start Item.next tail) start Item.prev tail)
    hdr start hdr Item.nextFree Item.prevFree)
    tail (memheapMagic ||| memheapUsed) heap start start 0 0

section

variable {F : Nat → Nat → Nat} {heap hdr start tail : Nat}

lemma initTable_start (h2 : start ≠ tail) :
    initTable F heap hdr start tail start Item.magic = memheapMagic ∧
    initTable F heap hdr start tail start Item.poolPtr = heap ∧
    initTable F heap hdr start tail start Item.next = tail ∧
    initTable F heap hdr start tail start Item.prev = tail ∧
    initTable F heap hdr start tail start Item.nextFree = hdr ∧
    initTable F heap hdr start tail start Item.prevFree = hdr := by
  simp [initTable, putItem, wedge, put, h2]

lemma initTable_tail :
    initTable F heap hdr start tail tail Item.magic = memheapMagic ||| memheapUsed ∧
    initTable F heap hdr start tail tail Item.poolPtr = heap ∧
    initTable F heap hdr start tail tail Item.next = start ∧
    initTable F heap hdr start tail tail Item.prev = start := by
  simp [initTable, putItem, put]

lemma initTable_hdr (h3 : hdr ≠ tail) : initTable F heap hdr start tail hdr Item.nextFree = start ∧
    initTable F heap hdr start tail hdr Item.prevFree = start := by
  simp [initTable, putItem, wedge, put, h3]

lemma view_initItems {R : Nat → Prop} {S : List Nat} {m : Mem} (hs : Sites 6 R S) (hd : hdr ∈ S)
    (hst : start ∈ S) (ht : tail ∈ S) (h1 : hdr ≠ start) (hheap : heap < wordSize) :
    View 6 R S m (initItems m heap hdr start tail) (initTable m.word heap hdr start tail) := by
  have h0 : 0 < wordSize := by decide
  have hM : memheapMagic < wordSize := by decide
  have hlt := hs.small
  have v1 := view_setItem (View.refl 6 R S m) hs hd hM hheap h0 h0 (hlt _ hd) (hlt _ hd)
  have v2 := view_setItem v1 hs hst hM hheap h0 h0 (hlt _ hst) (hlt _ hst)
  have v3 := v2.set hs hst (i := Item.next) (by decide) (hlt _ ht)
  have r3 := v3.word_eq start hst Item.next (by decide)
  rw [put_self] at r3
  have v4 := v3.set hs hst (i := Item.prev) (by decide) (hlt _ ht)
  -- the free list is still empty
  have r4 : put (put (putItem (putItem m.word hdr memheapMagic heap 0 0 hdr hdr)
      start memheapMagic heap 0 0 start start) start Item.next tail) start Item.prev tail
      hdr Item.nextFree = hdr := by simp [putItem, put, h1]
  have v5 := v4.linkAfter hs (i := Item.nextFree) (j := Item.prevFree) (by decide) (by decide) hd
    hst
    h1 (by rwa [r4])
  rw [r4] at v5
  have r5 := v5.word_eq start hst Item.next (by decide)
  rw [wedge_other _ (by decide) (by decide), put_of_ne_word _ _ (by decide), put_self] at r5
  have v6 := view_setItem v5 hs ht (show memheapMagic ||| memheapUsed < wordSize by decide) hheap
    (hlt _ hst) (hlt _ hst) h0 h0
  simp only [initItems, r3, insertFree, r5]
  exact v6

end

/-- The blocks after `rt_memheap_init`: the whole arena is free. -/
def initBlocks (L : Layout) : List Blk := [⟨L.start, false⟩, ⟨L.tail, true⟩]

lemma initBlocks_spans (L : Layout) : Spans L (initBlocks L) := by
  have hroom := L.room
  refine ⟨rfl, rfl, isChain_cons_cons.mpr ⟨?_, isChain_singleton _⟩⟩
  show L.start + 36 ≤ L.tail
  unfold Layout.tail
  omega

lemma initTable_tiles (L : Layout) (h1 : L.freeList ≠ L.start)
    (h2 : L.start ≠ L.tail) (h3 : L.freeList ≠ L.tail) :
    Tiles L (initTable F L.heap L.freeList L.start L.tail) (initBlocks L) ∧
      Ring (initTable F L.heap L.freeList L.start L.tail · Item.nextFree)
        (initTable F L.heap L.freeList L.start L.tail · Item.prevFree) L.freeList [L.start] := by
  obtain ⟨s1, s2, s3, s4, s5, s6⟩ := initTable_start h2
  obtain ⟨t1, t2, t3, t4⟩ := initTable_tail
  obtain ⟨d1, d2⟩ := initTable_hdr h3
  refine ⟨⟨initBlocks_spans L, ?_, ?_⟩, ?_, ?_⟩
  · refine ⟨?_, s3, t4, t3, s4, trivial⟩
    simpa using h2
  · exact forall_mem_cons.mpr ⟨⟨s1, s2⟩, forall_mem_singleton.mpr ⟨t1, t2⟩⟩
  · simpa using h1
  exact ⟨d1, s6, s5, d2, trivial⟩

lemma init_outcome (s : Heaps) {heap startAddr size : Nat} (ha : Arena heap startAddr size) :
    Outcome ha.layout s (rtMemheapInit s heap startAddr size) (initBlocks ha.layout)
      [startAddr] := by
  have hroom := ha.layout.room
  have hpool := ha.layout.pool_lt
  have hfits := ha.layout.fits
  have hheader := ha.layout.header_fits
  have hsp := initBlocks_spans ha.layout
  have hs := hsp.sites
  set L := ha.layout with hL
  have hhdr : add32 heap freeHeaderOffset = L.freeList :=
    add32_of_lt (show heap + 44 < wordSize by have : L.freeList = heap + 44 := rfl; omega)
  have havail : sub32 (rtAlignDown size alignSize) (2 * memheapSize) = L.pool - 48 :=
    sub32_of_le (show 48 ≤ L.pool by omega) hpool
  have hmax : sub32 (rtAlignDown size alignSize) (L.pool - 48) = 48 :=
    (sub32_of_le (show L.pool - 48 ≤ L.pool by omega) hpool).trans (by omega)
  have htail : add32 (add32 startAddr (L.pool - 48)) memheapSize = L.tail := by
    have h1 : add32 startAddr (L.pool - 48) = L.start + (L.pool - 48) :=
      add32_of_lt (show L.start + (L.pool - 48) < wordSize by omega)
    rw [h1]
    have h2 : add32 (L.start + (L.pool - 48)) memheapSize = L.start + (L.pool - 48) + 24 :=
      add32_of_lt (show L.start + (L.pool - 48) + 24 < wordSize by omega)
    unfold Layout.tail
    omega
  have h1 : L.freeList ≠ L.start :=
    (hsp.ne_header (x := ⟨L.start, false⟩) (by simp [initBlocks])).symm
  have h3 : L.freeList ≠ L.tail := (hsp.ne_header (x := ⟨L.tail, true⟩) (by simp [initBlocks])).symm
  have h2 : L.start ≠ L.tail := by
    unfold Layout.tail
    omega
  have hstart : L.start ∈ itemsOf L (initBlocks L) := mem_itemsOf (x := ⟨L.start, false⟩)
    (by simp [initBlocks])
  have hview := view_initItems (m := s.mem) hs mem_cons_self hstart
    (mem_itemsOf (x := ⟨L.tail, true⟩) (by simp [initBlocks])) h1 L.heap_lt
  obtain ⟨htiles, hring⟩ := initTable_tiles L h1 h2 h3
  have hform := Form.of_view hs mem_cons_self hview (fun x hx => mem_itemsOf hx)
    (by simpa using hstart) htiles hring
  have htidy : Tidy L ⟨L.start, L.pool, L.pool - 48, 48, L.start, L.freeList⟩ (initBlocks L)
      [L.start] := by
    refine ⟨rfl, rfl, rfl, by simp [initBlocks], ?_, ?_, ?_⟩
    · exact isChain_cons_cons.mpr ⟨.inr rfl, isChain_singleton _⟩
    · simp only [initBlocks, freeBytes, Layout.tail, Bool.false_eq_true, if_false]
      omega
    show L.pool ≤ 48 + (L.pool - 48)
    omega
  have heq : rtMemheapInit s heap startAddr size
      = s.update (initItems s.mem L.heap L.freeList L.start L.tail) L.heap
        ⟨L.start, L.pool, L.pool - 48, 48, L.start, L.freeList⟩ := by
    simp only [rtMemheapInit, hhdr, havail, hmax, htail]
    rfl
  rw [heq]
  exact Outcome.of_update hform htidy

/-! ## Runs -/

structure State where
  heaps : Heaps
  live : List Nat

/-- The calls of `memheap.c`, and a write of the application to one byte. -/
inductive Op where
  | alloc (size : Nat)
  | realloc (p newsize : Nat)
  | free (p : Nat)
  | store (a v : Nat)

/-- One step of an application with one heap. A `rt_memheap_realloc` to the size zero releases the
block; one that fails leaves it allocated; otherwise the returned pointer replaces the old one. -/
def step (heap : Nat) (s : State) : Op → Option State
  | .alloc size => (rtMemheapAlloc s.heaps heap size).map fun (h, q) =>
    ⟨h, if q = 0 then s.live else q :: s.live⟩
  | .realloc p newsize => (rtMemheapRealloc s.heaps heap p newsize).map fun (h, q) =>
    ⟨h, if newsize = 0 then s.live.erase p
      else if q = 0 then s.live else q :: s.live.erase p⟩
  | .free p => (rtMemheapFree s.heaps p).map fun h => ⟨h, s.live.erase p⟩
  | .store a v => some { s with heaps := { s.heaps with mem := s.heaps.mem.store a 1 v } }

/-- The application passes live pointers (or `RT_NULL`) only, asks for at most `2 ^ 31` bytes, and
writes to the payloads of its blocks only. -/
def Admissible (s : State) : Op → Prop
  | .alloc size => size ≤ 2 ^ 31
  | .realloc p newsize => (p = 0 ∨ p ∈ s.live) ∧ newsize ≤ 2 ^ 31
  | .free p => p = 0 ∨ p ∈ s.live
  | .store a _ => ∃ p ∈ s.live, p ≤ a ∧ a < p + memitemSize s.heaps.mem (p - memheapSize)

instance (s : State) (op : Op) : Decidable (Admissible s op) := by
  cases op <;> unfold Admissible <;> infer_instance

def Ok (L : Layout) (s : State) : Prop :=
  ∃ xs fs, Inv L s.heaps xs fs ∧ ((L.tail + 24) :: s.live).Perm ((usedOf xs).map (· + 24))

/-! ## What a call preserves -/

section

variable {s : State} {p : Nat} {live : List Nat} {xs' : List Blk} {size : Nat}

lemma used_of_live (hi : Inv L s.heaps xs fs)
    (hl : ((L.tail + 24) :: s.live).Perm ((usedOf xs).map (· + 24))) (hp : p ∈ s.live) :
    ∃ a, p = a + 24 ∧ (⟨a, true⟩ : Blk) ∈ xs ∧ a ≠ L.tail := by
  have hmem : p ∈ (usedOf xs).map (· + 24) := hl.mem_iff.mp (mem_cons_of_mem _ hp)
  obtain ⟨a, ha, rfl⟩ := List.mem_map.mp hmem
  refine ⟨a, rfl, mem_usedOf.mp ha, ?_⟩
  rintro rfl
  have hnd : ((L.tail + 24) :: s.live).Nodup :=
    hl.nodup_iff.mpr (hi.nodup_used.map fun a b h => by simpa using h)
  exact (nodup_cons.mp hnd).1 hp

lemma perm_gain {a : Nat} (hl : ((L.tail + 24) :: live).Perm ((usedOf xs).map (· + 24)))
    (hu : (usedOf xs').Perm (a :: usedOf xs)) :
    ((L.tail + 24) :: ((a + 24) :: live)).Perm ((usedOf xs').map (· + 24)) := by
  have h := hu.map (· + 24)
  exact ((List.Perm.swap _ _ _).trans (hl.cons _)).trans h.symm

lemma perm_lose {a : Nat} (ha : a + 24 ∈ live)
    (hl : ((L.tail + 24) :: live).Perm ((usedOf xs).map (· + 24)))
    (hu : (usedOf xs).Perm (a :: usedOf xs')) :
    ((L.tail + 24) :: live.erase (a + 24)).Perm ((usedOf xs').map (· + 24)) := by
  have h := hu.map (· + 24)
  have hlive : ((L.tail + 24) :: live).Perm ((a + 24) :: (L.tail + 24) :: live.erase (a + 24)) :=
    ((perm_cons_erase ha).cons _).trans (List.Perm.swap _ _ _)
  exact ((hlive.symm.trans hl).trans h).cons_inv

lemma roundSize_small {n : Nat} (hn : n ≤ 2 ^ 31) : roundSize n + 12 < wordSize := by
  unfold roundSize SmallMem.rtAlign SmallMem.alignSize minialloc
  rw [add32_of_lt (by unfold wordSize; omega)]
  unfold wordSize
  split <;> omega

lemma alloc_ok (hs : Ok L s) (size : Nat) :
    ∃ s', step L.heap s (.alloc size) = some s' ∧ Ok L s' := by
  obtain ⟨xs, fs, hi, hl⟩ := hs
  rcases alloc_spec hi size with ⟨hnull, -⟩ | ⟨h', a, xs', fs', hcall, ho, hu, -⟩
  · exact ⟨s, by simp [step, hnull], xs, fs, hi, hl⟩
  exact ⟨⟨h', (a + 24) :: s.live⟩, by simp [step, hcall], xs', fs', ho.inv, perm_gain hl hu⟩

lemma free_ok (hs : Ok L s) (hp : p = 0 ∨ p ∈ s.live) :
    ∃ h', rtMemheapFree s.heaps p = some h' ∧ Ok L ⟨h', s.live.erase p⟩ := by
  obtain ⟨xs, fs, hi, hl⟩ := hs
  have hzero : 0 ∉ s.live := fun hc => by
    obtain ⟨a, ha, -⟩ := used_of_live hi hl hc
    omega
  rcases hp with rfl | hp
  · refine ⟨s.heaps, by simp [rtMemheapFree], xs, fs, hi, ?_⟩
    rwa [erase_of_not_mem hzero]
  obtain ⟨a, rfl, ha, hne⟩ := used_of_live hi hl hp
  obtain ⟨h', xs', fs', hcall, ho, hu, -⟩ := free_spec hi ha hne
  exact ⟨h', hcall, xs', fs', ho.inv, perm_lose hp hl hu⟩

lemma realloc_live (hs : Ok L s) (hp : p ∈ s.live) (hsize : size ≠ 0)
    (hsmall : roundSize size + 12 < wordSize ∨
      isUsed s.heaps.mem (s.heaps.mem.word (p - 24) Item.next)) :
    ∃ h' q, rtMemheapRealloc s.heaps L.heap p size = some (h', q) ∧
      (q = 0 ∧ h' = s.heaps ∨ q ≠ 0 ∧ roundSize size ≤ memitemSize h'.mem (q - 24) ∧
        Ok L ⟨h', q :: s.live.erase p⟩) := by
  obtain ⟨xs, fs, hi, hl⟩ := hs
  obtain ⟨a, rfl, ha, hne⟩ := used_of_live hi hl hp
  have hlive := ((perm_cons_erase hp).symm.cons (L.tail + 24)).trans hl
  rcases realloc_spec hi ha hne hsize with ⟨hnull, -⟩ | ⟨h', hcall, -, hstays⟩ |
    ⟨h', b, xs', fs', hcall, -, -, ho, hu, hfit⟩
  · exact ⟨s.heaps, 0, hnull, Or.inl ⟨rfl, rfl⟩⟩
  · obtain ⟨xs', fs', ho, hu, hfit⟩ := hstays hsmall
    exact ⟨h', a + 24, hcall, Or.inr ⟨by omega, hfit, xs', fs', ho.inv,
      hlive.trans (hu.map _).symm⟩⟩
  refine ⟨h', b + 24, hcall, Or.inr ⟨by omega, hfit, xs', fs', ho.inv, ?_⟩⟩
  -- `a` is replaced by `b`
  have hmap := hu.map (· + 24)
  have h1 : ((b + 24) :: (a + 24) :: (L.tail + 24) :: s.live.erase (a + 24)).Perm
      ((b + 24) :: (usedOf xs).map (· + 24)) :=
    ((List.Perm.swap _ _ _).trans hlive).cons _
  have h2 := ((List.Perm.swap _ _ _).trans (h1.trans hmap.symm)).cons_inv
  exact (List.Perm.swap _ _ _).trans h2

lemma realloc_ok (hs : Ok L s) (hp : p = 0 ∨ p ∈ s.live) (hsize : size ≤ 2 ^ 31) :
    ∃ s', step L.heap s (.realloc p size) = some s' ∧ Ok L s' := by
  by_cases hz : size = 0
  · -- the block is released
    obtain ⟨h', hcall, hok⟩ := free_ok hs hp
    exact ⟨⟨h', s.live.erase p⟩, by simp [step, rtMemheapRealloc, hz, hcall], hok⟩
  rcases hp with rfl | hp
  · -- without a block the call is an allocation
    obtain ⟨xs, fs, hi, hl⟩ := hs
    have hzero : 0 ∉ s.live := fun hc => by
      obtain ⟨a, ha, -⟩ := used_of_live hi hl hc
      omega
    have hcall : rtMemheapRealloc s.heaps L.heap 0 size
        = rtMemheapAlloc s.heaps L.heap (roundSize size) := by
      simp only [rtMemheapRealloc, if_neg hz, if_true]
    rcases alloc_spec hi (roundSize size) with ⟨hnull, -⟩ |
      ⟨h', a, xs', fs', halloc, ho, hu, -⟩
    · exact ⟨s, by simp [step, hcall, hnull, hz], xs, fs, hi, hl⟩
    refine ⟨⟨h', (a + 24) :: s.live⟩, ?_, xs', fs', ho.inv, perm_gain hl hu⟩
    simp [step, hcall, halloc, hz, erase_of_not_mem hzero]
  obtain ⟨h', q, hcall, ⟨rfl, rfl⟩ | ⟨hq, -, hok⟩⟩ :=
    realloc_live hs hp hz (.inl (roundSize_small hsize))
  · exact ⟨s, by simp [step, hcall, hz], hs⟩
  exact ⟨_, by simp [step, hcall, hz, hq], hok⟩

lemma store_ok (hs : Ok L s) {a v : Nat} (hadm : Admissible s (.store a v)) :
    ∃ s', step L.heap s (.store a v) = some s' ∧ Ok L s' := by
  obtain ⟨xs, fs, hi, hl⟩ := hs
  obtain ⟨p, hp, h1, h2⟩ := hadm
  obtain ⟨c, rfl, hc, hne⟩ := used_of_live hi hl hp
  obtain ⟨pre, y, post, rfl⟩ := hi.cut_used hc hne
  have hsize : memitemSize s.heaps.mem c = y.addr - c - 24 := hi.form.memitemSize_eq
  rw [show c + 24 - memheapSize = c from Nat.add_sub_cancel c 24] at h2
  have ho := hi.payload (s.heaps.mem.store a 1 v) fun b hb => by
    refine (Mem.agree_store s.heaps.mem a 1 v b (b + 1) ?_ b (by omega) (by omega)).symm
    simp only at hb
    omega
  exact ⟨_, rfl, _, fs, ho.inv, hl⟩

lemma step_ok (hs : Ok L s) {op : Op} (hadm : Admissible s op) :
    ∃ s', step L.heap s op = some s' ∧ Ok L s' := by
  cases op with
  | alloc size => exact alloc_ok hs size
  | realloc p newsize => exact realloc_ok hs hadm.1 hadm.2
  | free p =>
    obtain ⟨h', hcall, hok⟩ := free_ok hs hadm
    exact ⟨_, by simp [step, hcall], hok⟩
  | store a v => exact store_ok hs hadm

end

/-- **The invariant of a memheap.** On every arena with room for a block, every run of calls with
live pointers and sizes of at most `2 ^ 31` returns and ends in a well-formed heap: the blocks tile
the arena as one circular list that ends in the used tail, the free ring holds exactly the free
blocks, no two of them are neighbours, and the counters agree with them. -/
theorem memheap_wellFormed (h : Heaps) (heap startAddr size : Nat)
    (ha : Arena heap startAddr size) (ops : List Op)
    (hops : Meets (step heap) Admissible ⟨rtMemheapInit h heap startAddr size, []⟩ ops) :
    ∃ s, exec (step heap) ⟨rtMemheapInit h heap startAddr size, []⟩ ops = some s ∧
      (s.heaps.heap heap).startAddr = startAddr ∧
      (s.heaps.heap heap).poolSize = rtAlignDown size alignSize ∧
      ∃ bs fs, WellFormed s.heaps heap bs fs := by
  have hinit : Ok ha.layout ⟨rtMemheapInit h heap startAddr size, []⟩ :=
    ⟨_, _, (init_outcome h ha).inv, by simp [initBlocks]⟩
  have hstep : ∀ s op, Ok ha.layout s → Admissible s op →
      ∃ s', step heap s op = some s' ∧ Ok ha.layout s' := fun s op hs hop => step_ok hs hop
  obtain ⟨s, hs, xs, fs, hi, -⟩ := exec_isSome_of_meets hstep hinit hops
  exact ⟨s, hs, hi.tidy.startAddr, hi.tidy.poolSize, _, fs, wellFormed_of_inv hi⟩

theorem memheap_wellFormed_growInPlace :
    ∃ s, exec (step 256)
        ⟨rtMemheapInit ⟨fun _ => 0xff, fun _ => ⟨0, 0, 0, 0, 0, 0⟩⟩ 256 4096 400, []⟩
        [.alloc 20, .realloc 4120 40, .free 4120] = some s ∧
      ∃ bs fs, WellFormed s.heaps 256 bs fs := by
  obtain ⟨s, hs, -, -, hwf⟩ := memheap_wellFormed
    ⟨fun _ => 0xff, fun _ => ⟨0, 0, 0, 0, 0, 0⟩⟩ 256 4096 400 (by decide)
    [.alloc 20, .realloc 4120 40, .free 4120] (by decide +kernel)
  exact ⟨s, hs, hwf⟩

end NbIot.Memheaps
